import TrafficSteering.Fault
set_option autoImplicit false

/-!
# Graphs

A graph is built from one topology report and never changes; a new report makes a new graph.  When
several links join the same ordered pair of switches, the first one reported is the edge of the
pair.  Neighbours are listed in the order in which their edges were reported, and this order decides
in which order paths are found.
-/

namespace TrafficSteering

/-- Whether two links join the same ordered pair of switches. -/
def Link.parallel (a b : Link) : Bool := a.src == b.src && a.dst == b.dst

/-- The links without those that repeat an ordered pair reported before. -/
def firstReports : List Link → List Link
  | [] => []
  | link :: rest => link :: (firstReports rest).filter fun other => !other.parallel link

/-- The ends of the links, in report order, each source before its destination. -/
def linkEnds (links : List Link) : List SwitchId :=
  links.flatMap fun link => [link.src, link.dst]

/-- A directed graph with weights. -/
structure Graph where
  /-- The switches, each once. -/
  switches : List SwitchId
  /-- The links as they were reported. -/
  links : List Link
  /-- One link for each ordered pair that is joined. -/
  edges : List Link
  /-- The edge of a pair is the first link reported for it. -/
  edges_eq : edges = firstReports links
  /-- Every link joins switches of the graph. -/
  closed : ∀ switch ∈ linkEnds links, switch ∈ switches
  deriving DecidableEq, Repr

namespace Graph

/-- The first end of a link, in report order, that is not among the switches. -/
def firstStranger? (switches : List SwitchId) (links : List Link) : Option SwitchId :=
  (linkEnds links).find? fun switch => !switches.contains switch

theorem closed_of_no_stranger {switches : List SwitchId} {links : List Link}
    (h : firstStranger? switches links = none) :
    ∀ switch ∈ linkEnds links, switch ∈ switches.eraseDups := by
  intro switch hmem
  have := List.find?_eq_none.1 h switch hmem
  simpa using this

/-- The graph of a list of switches and a list of links, which may repeat themselves. -/
def build (switches : List SwitchId) (links : List Link) : Except Fault Graph :=
  match h : firstStranger? switches links with
  | some stranger => .error (.unknownSwitch stranger)
  | none =>
    .ok { switches := switches.eraseDups, links, edges := firstReports links,
          edges_eq := rfl, closed := closed_of_no_stranger h }

/-- The graph of a report. -/
def ofSnapshot (report : Snapshot) : Except Fault Graph := build report.switches report.links

variable (graph : Graph)

/-- Whether a switch is in the graph. -/
def contains (switch : SwitchId) : Bool := graph.switches.contains switch

/-- The edges that leave a switch, in report order. -/
def edgesFrom (switch : SwitchId) : List Link := graph.edges.filter fun edge => edge.src == switch

/-- The switches that a switch has an edge to, in report order. -/
def neighbors (switch : SwitchId) : List SwitchId := (graph.edgesFrom switch).map Link.dst

/-- The edge from one switch to another, if there is one. -/
def edge? (src dst : SwitchId) : Option Link :=
  graph.edges.find? fun edge => edge.src == src && edge.dst == dst

/-- The edge from one switch to another.  A missing edge is a fault. -/
def edge (src dst : SwitchId) : Except Fault Link :=
  match graph.edge? src dst with
  | some edge => .ok edge
  | none => .error (.missingEdge src dst)

/-- The weight of the edge from one switch to another. -/
def weight (src dst : SwitchId) : Except Fault UInt32 := Link.weight <$> graph.edge src dst

/-- The port by which the edge from one switch to another leaves. -/
def egressPort (src dst : SwitchId) : Except Fault PortNo := Link.port <$> graph.edge src dst

def switchCount : Nat := graph.switches.length

/-- The number of reported links. -/
def linkCount : Nat := graph.links.length

/-- The switches in the order of their numbers. -/
def sortedSwitches : List SwitchId :=
  graph.switches.mergeSort fun a b => a.number ≤ b.number

end Graph

end TrafficSteering
