import TrafficSteering.Forum
import TrafficSteering.Graph.ShortestPath
import TrafficSteering.Graph.SimplePaths
set_option autoImplicit false

/-!
# Path selection

The selector holds the current graph, the candidate paths of the last flow and the place of the
active one among them.  Graphs are numbered: each installation of a graph and each withdrawal takes
the next generation, and candidates carry the generation of the graph they were computed on, so a
result from an old graph is recognised and refused.

Each operation is a transition of the state that says which events are to be announced; the
announcements themselves are made by a `Forum`.
-/

namespace TrafficSteering

/-- An installed graph and its generation. -/
structure Routing where
  generation : Nat
  graph : Graph
  deriving DecidableEq, Repr

/-- The paths between which a flow can be switched, the generation of their graph, and the place of
the active one. -/
structure Candidates where
  generation : Nat := 0
  paths : List Path := []
  active : Option Nat := none
  deriving DecidableEq, Repr

/-- The place of the active path and the path itself. -/
def Candidates.activePath? (candidates : Candidates) : Option (Nat × Path) := do
  let index ← candidates.active
  let path ← candidates.paths[index]?
  return (index, path)

/-- What a selection found for a pair of switches. -/
structure Selection where
  generation : Nat
  paths : List Path
  /-- The place of the shortest path among them. -/
  index : Option Nat
  path : Path
  deriving DecidableEq, Repr

/-- The state of path selection. -/
structure Selector where
  expected : ExpectedSize := {}
  routing : Option Routing := none
  /-- The last generation that was taken. -/
  lastGeneration : Nat := 0
  candidates : Candidates := {}
  /-- The ends of the last flow. -/
  endpoints : Option (SwitchId × SwitchId) := none
  session : Bool := false
  deriving DecidableEq, Repr

namespace Selector

variable (selector : Selector)

/-! ## Graphs -/

/-- Installs a graph, or withdraws the installed one, under the next generation.  The candidates
belonged to the graph before and are dropped. -/
def replaceGraph (graph : Option Graph) : Selector :=
  let generation := selector.lastGeneration + 1
  { selector with
    routing := graph.map fun graph => ⟨generation, graph⟩
    lastGeneration := generation
    candidates := { generation := generation } }

def install (graph : Graph) : Selector := selector.replaceGraph (some graph)

/-- Withdraws the installed graph, if there is one. -/
def disable : Selector :=
  if selector.routing.isSome then selector.replaceGraph none else selector

/-- Takes in a report, and says whether routing is enabled afterwards.  A report of another size
than the expected one withdraws the graph, and so does a report that makes no graph. -/
def update (report : Snapshot) : Selector × Except Fault Bool :=
  if selector.expected.accepts report then
    match Graph.ofSnapshot report with
    | .ok graph => (selector.install graph, .ok true)
    | .error fault => (selector.disable, .error fault)
  else (selector.disable, .ok false)

def isEnabled : Bool := selector.routing.isSome

def graph? : Option Graph := selector.routing.map Routing.graph

/-- The installed graph with its generation.  Without one, routing is disabled. -/
def requireRouting : Except Fault Routing :=
  match selector.routing with
  | some routing => .ok routing
  | none => .error .routingDisabled

/-! ## Paths -/

/-- The shortest path between two switches, if there is one. -/
def route (src dst : SwitchId) : Except Fault (Option Path) := do
  let routing ← selector.requireRouting
  return (routing.graph.shortestPaths src).path? dst

/-- All simple paths between two switches. -/
def allPaths (src dst : SwitchId) : Except Fault (List Path) := do
  let routing ← selector.requireRouting
  return routing.graph.simplePaths src dst

/-- What a selection on a given graph finds. -/
def compute (routing : Routing) (src dst : SwitchId) : List Path × Option (Path × Option Nat) :=
  let paths := routing.graph.simplePaths src dst
  let shortest := (routing.graph.shortestPaths src).path? dst
  (paths, shortest.map fun path => (path, paths.idxOf? path))

/-- The change to be announced when a path is found for a reason: always, unless an ordinary
selection finds the path that is active already. -/
def changeOf (reason : ChangeReason) (found : Option (Path × Option Nat)) : List Event :=
  match found with
  | some (path, some index) =>
    let same := reason == .selected &&
      selector.candidates.activePath?.map Prod.snd == some path
    if same then [] else [.pathChanged ⟨index, path, reason⟩]
  | _ => []

/-- Computes the candidates and the shortest path of a flow, makes the shortest path active, and
remembers the ends of the flow. -/
def selectFor (reason : ChangeReason) (src dst : SwitchId) :
    Outcome Selector (Except Fault (Option Selection)) :=
  match selector.requireRouting with
  | .error fault => ⟨selector, [], .error fault⟩
  | .ok routing =>
    let (paths, found) := compute routing src dst
    let answer := found.map fun (path, index) => ⟨routing.generation, paths, index, path⟩
    if selector.candidates.generation = routing.generation then
      let state := { selector with
        endpoints := some (src, dst)
        candidates := ⟨routing.generation, paths, found.bind Prod.snd⟩ }
      let announced := if reason == .rerouted then [Event.rerouted] else []
      ⟨state, announced ++ selector.changeOf reason found, .ok answer⟩
    else ⟨selector, [], .ok answer⟩

/-- Selects paths for a new flow. -/
def select (src dst : SwitchId) : Outcome Selector (Except Fault (Option Selection)) :=
  selector.selectFor .selected src dst

/-- Forces a new choice for the last flow.  Before the first flow there is nothing to choose. -/
def reroute : Outcome Selector (Except Fault (Option Selection)) :=
  match selector.endpoints with
  | some (src, dst) => selector.selectFor .rerouted src dst
  | none => ⟨selector, [], .ok none⟩

/-- Makes a candidate active, and says whether that was possible: the candidates must still be
those of the given generation and have the given place. -/
def commit (generation index : Nat) : Outcome Selector Bool :=
  if selector.candidates.generation = generation then
    match selector.candidates.paths[index]? with
    | some path =>
      let changes := if selector.candidates.active = some index then []
        else [Event.pathChanged ⟨index, path, .switched⟩]
      ⟨{ selector with candidates := { selector.candidates with active := some index } },
        changes, true⟩
    | none => ⟨selector, [], false⟩
  else ⟨selector, [], false⟩

/-! ## The session -/

def start : Outcome Selector Unit := ⟨{ selector with session := true }, [.started], ()⟩

def stop : Outcome Selector Unit := ⟨{ selector with session := false }, [.stopped], ()⟩

/-! ## Requests -/

/-- What can be asked of a selector. -/
inductive Request where
  | update (report : Snapshot)
  | install (graph : Graph)
  | disable
  | select (src dst : SwitchId)
  | reroute
  /-- Without a generation, the current one is meant. -/
  | commit (generation : Option Nat) (index : Nat)
  | start
  | stop
  deriving DecidableEq, Repr

/-- The outcome without its answer. -/
def unanswered {σ α : Type} (outcome : Outcome σ α) : Outcome σ Unit :=
  ⟨outcome.state, outcome.events, ()⟩

/-- Does what is asked for. -/
def serve (request : Request) (selector : Selector) : Outcome Selector Unit :=
  match request with
  | .update report => ⟨(selector.update report).1, [], ()⟩
  | .install graph => ⟨selector.install graph, [], ()⟩
  | .disable => ⟨selector.disable, [], ()⟩
  | .select src dst => unanswered (selector.select src dst)
  | .reroute => unanswered selector.reroute
  | .commit generation index =>
    unanswered (selector.commit (generation.getD selector.candidates.generation) index)
  | .start => selector.start
  | .stop => selector.stop

end Selector

/-- A selector and its listeners. -/
abbrev SelectorForum := Forum Selector Selector.Request

namespace SelectorForum

/-- Performs an operation of the selector and announces what it brings about. -/
def perform {α : Type} (forum : SelectorForum) (operation : Selector → Outcome Selector α) :
    SelectorForum × α :=
  Forum.settle Selector.serve forum (operation forum.state)

/-- Takes in a report.  Nothing is announced. -/
def update (forum : SelectorForum) (report : Snapshot) : SelectorForum × Except Fault Bool :=
  let (state, answer) := forum.state.update report
  ({ forum with state }, answer)

/-- Changes the state without an announcement. -/
def modify (forum : SelectorForum) (change : Selector → Selector) : SelectorForum :=
  { forum with state := change forum.state }

end SelectorForum

end TrafficSteering
