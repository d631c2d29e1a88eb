import TrafficSteering.Graph
set_option autoImplicit false

/-!
# Shortest paths

The search settles one switch after another, always the one with the least distance, and of several
with the same distance the one with the least number.  A switch that waits to be settled carries
its distance and the way back to the source; both are replaced only by a strictly shorter way.
Distances are natural numbers, so sums of weights never wrap.
-/

namespace TrafficSteering.Graph

/-- What the search knows about a switch it has reached. -/
structure Label where
  switch : SwitchId
  /-- The length of the way from the source. -/
  distance : Nat
  /-- The way back: this switch first, the source last. -/
  trail : List SwitchId
  deriving DecidableEq, Repr

namespace Label

/-- Whether a label is settled before another one. -/
def before (a b : Label) : Bool :=
  a.distance < b.distance || (a.distance == b.distance && a.switch.number < b.switch.number)

/-- The label that is settled first among a label and others. -/
def first (label : Label) (others : List Label) : Label :=
  others.foldl (fun best other => if other.before best then other else best) label

/-- The label that a switch gets when it is reached from a settled one along an edge. -/
def extend (node : Label) (edge : Link) : Label :=
  ⟨edge.dst, node.distance + edge.weight.toNat, edge.dst :: node.trail⟩

end Label

/-- The state of the search. -/
structure Search where
  /-- Switches whose distance is final. -/
  settled : List Label
  /-- Switches that have been reached and wait to be settled. -/
  waiting : List Label
  deriving DecidableEq, Repr

namespace Search

/-- Nothing but the source has been reached. -/
def start (source : SwitchId) : Search := ⟨[], [⟨source, 0, [source]⟩]⟩

/-- The label of a switch among others. -/
def labelOf? (labels : List Label) (switch : SwitchId) : Option Label :=
  labels.find? fun label => label.switch == switch

/-- Takes a new label for a waiting switch if it is the first or strictly shorter. -/
def improve (waiting : List Label) (candidate : Label) : List Label :=
  match labelOf? waiting candidate.switch with
  | none => candidate :: waiting
  | some old =>
    if candidate.distance < old.distance then
      candidate :: waiting.filter fun label => label.switch != candidate.switch
    else waiting

/-- Follows one edge of the switch that has just been settled. -/
def relax (node : Label) (search : Search) (edge : Link) : Search :=
  if (labelOf? search.settled edge.dst).isSome then search
  else { search with waiting := improve search.waiting (node.extend edge) }

/-- Settles a waiting switch and follows its edges. -/
def settle (graph : Graph) (search : Search) (node : Label) : Search :=
  (graph.edgesFrom node.switch).foldl (relax node)
    { settled := node :: search.settled
      waiting := search.waiting.filter fun label => label.switch != node.switch }

/-- Settles at most the given number of switches. -/
def run (graph : Graph) : Nat → Search → Search
  | 0, search => search
  | steps + 1, search =>
    match search.waiting with
    | [] => search
    | label :: others => run graph steps (search.settle graph (label.first others))

end Search

/-- The shortest paths from one source. -/
structure ShortestPaths where
  source : SwitchId
  labels : List Label
  deriving DecidableEq, Repr

/-- The shortest paths from a source, which need not be in the graph.  Every switch but the source
is reached along an edge, so there are at most as many steps as edges and one more. -/
def shortestPaths (graph : Graph) (source : SwitchId) : ShortestPaths :=
  ⟨source, ((Search.start source).run graph (graph.edges.length + 1)).settled⟩

namespace ShortestPaths

/-- What the search found out about a switch. -/
def label? (paths : ShortestPaths) (target : SwitchId) : Option Label :=
  Search.labelOf? paths.labels target

/-- The distance of a switch, if it can be reached. -/
def distance? (paths : ShortestPaths) (target : SwitchId) : Option Nat :=
  (paths.label? target).map Label.distance

/-- The shortest path to a switch, if it can be reached.  The source is reached by the path that
stays there. -/
def path? (paths : ShortestPaths) (target : SwitchId) : Option Path :=
  (paths.label? target).map fun label => ⟨label.trail.reverse⟩

end ShortestPaths

end TrafficSteering.Graph
