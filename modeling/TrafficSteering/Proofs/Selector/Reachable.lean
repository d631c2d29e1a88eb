import TrafficSteering.Proofs.Forum.Callbacks
import TrafficSteering.Selector
set_option autoImplicit false

/-!
# Reachable states of path selection

All requests together change a selector in five ways (`Change`).  What each of the five keeps, every
run of requests keeps: the candidates belong to the present generation and, if there are any, are
all simple paths of the installed graph between the remembered ends (`Consistent`); and generations
only grow, so that an old generation which is still current means the old graph.
-/

namespace TrafficSteering.Selector

/-! ## Runs of requests -/

/-- The state after one request after another. -/
def serveAll (requests : List Request) (selector : Selector) : Selector :=
  requests.foldl (fun selector request => (serve request selector).state) selector

/-- The states that requests lead to from a selector that has taken in nothing yet. -/
inductive Reachable (expected : ExpectedSize) : Selector → Prop where
  | initial : Reachable expected { expected := expected }
  | serve {selector : Selector} (hreach : Reachable expected selector) (request : Request) :
      Reachable expected (serve request selector).state

theorem Reachable.serveAll {expected : ExpectedSize} {selector : Selector}
    (h : Reachable expected selector) (requests : List Request) :
    Reachable expected (selector.serveAll requests) := by
  induction requests generalizing selector with
  | nil => exact h
  | cons request rest ih => exact ih (h.serve request)

theorem serveAll_concat (selector : Selector) (requests : List Request) (request : Request) :
    selector.serveAll (requests ++ [request]) =
      (serve request (selector.serveAll requests)).state := by
  simp [serveAll]

/-- Where a request leads to together with everything that listeners ask for on the way, requests
lead to one after another. -/
theorem perform_serveAll (forum : SelectorForum) (request : Request) :
    ∃ requests, (forum.perform (serve request)).1.state = forum.state.serveAll requests := by
  have hserve : ∀ (request : Request) (state : Selector),
      (∃ requests, state = forum.state.serveAll requests) →
      ∃ requests, (serve request state).state = forum.state.serveAll requests := by
    rintro request _ ⟨requests, rfl⟩
    exact ⟨requests ++ [request], (serveAll_concat _ requests request).symm⟩
  exact (Forum.settle_throughout hserve forum ⟨[request], rfl⟩).now

/-! ## What a request changes -/

/-- The state in which the paths of a flow have been chosen on a graph. -/
def chosen (selector : Selector) (routing : Routing) (src dst : SwitchId) : Selector :=
  { selector with
    endpoints := some (src, dst)
    candidates := ⟨routing.generation, (compute routing src dst).1,
      (compute routing src dst).2.bind Prod.snd⟩ }

/-- The state in which another of the candidates is active. -/
def activated (selector : Selector) (index : Nat) : Selector :=
  { selector with candidates := { selector.candidates with active := some index } }

/-- The changes that requests bring about. -/
inductive Change (selector : Selector) : Selector → Prop where
  | nothing : Change selector selector
  /-- A graph is installed or withdrawn. -/
  | replaced (graph : Option Graph) : Change selector (selector.replaceGraph graph)
  /-- A flow gets its paths on the installed graph. -/
  | chosen {routing : Routing} (src dst : SwitchId) (hrouting : selector.routing = some routing)
      (hgeneration : selector.candidates.generation = routing.generation) :
      Change selector (selector.chosen routing src dst)
  /-- One of the candidates becomes active. -/
  | activated {index : Nat} {path : Path} (hpath : selector.candidates.paths[index]? = some path) :
      Change selector (selector.activated index)
  | session (on : Bool) : Change selector { selector with session := on }

variable {selector : Selector}

theorem disable_change (selector : Selector) : Change selector selector.disable := by
  unfold disable
  split
  · exact .replaced none
  · exact .nothing

theorem update_change (selector : Selector) (report : Snapshot) :
    Change selector (selector.update report).1 := by
  unfold update
  split
  · split
    · exact .replaced (some _)
    · exact disable_change selector
  · exact disable_change selector

/-- A choice of paths on the graph that the candidates belong to. -/
theorem selectFor_of_routing {routing : Routing} (reason : ChangeReason) (src dst : SwitchId)
    (hrouting : selector.routing = some routing)
    (hgeneration : selector.candidates.generation = routing.generation) :
    (selector.selectFor reason src dst).state = selector.chosen routing src dst ∧
    (selector.selectFor reason src dst).answer =
      .ok ((compute routing src dst).2.map fun found =>
        ⟨routing.generation, (compute routing src dst).1, found.2, found.1⟩) := by
  simp only [selectFor, requireRouting, hrouting, hgeneration, if_true, chosen, and_self]

theorem selectFor_change (selector : Selector) (reason : ChangeReason) (src dst : SwitchId) :
    Change selector (selector.selectFor reason src dst).state := by
  cases hrouting : selector.routing with
  | none =>
    simp only [selectFor, requireRouting, hrouting]
    exact .nothing
  | some routing =>
    by_cases hgeneration : selector.candidates.generation = routing.generation
    · rw [(selectFor_of_routing reason src dst hrouting hgeneration).1]
      exact .chosen src dst hrouting hgeneration
    · simp only [selectFor, requireRouting, hrouting, if_neg hgeneration]
      exact .nothing

theorem reroute_change (selector : Selector) : Change selector selector.reroute.state := by
  unfold reroute
  split
  · exact selectFor_change selector _ _ _
  · exact .nothing

theorem commit_change (selector : Selector) (generation index : Nat) :
    Change selector (selector.commit generation index).state := by
  unfold commit
  split
  · split
    · rename_i path hpath
      exact .activated hpath
    · exact .nothing
  · exact .nothing

theorem serve_change (request : Request) (selector : Selector) :
    Change selector (serve request selector).state := by
  cases request with
  | update report => exact update_change selector report
  | install graph => exact .replaced (some graph)
  | disable => exact disable_change selector
  | select src dst => exact selectFor_change selector _ src dst
  | reroute => exact reroute_change selector
  | commit generation index => exact commit_change selector _ index
  | start => exact .session true
  | stop => exact .session false

/-- What every change keeps, every run of requests keeps. -/
theorem serveAll_induction {motive : Selector → Prop} (hstart : motive selector)
    (hchange : ∀ {before after : Selector}, motive before → Change before after → motive after)
    (requests : List Request) : motive (selector.serveAll requests) := by
  induction requests generalizing selector with
  | nil => exact hstart
  | cons request rest ih => exact ih (hchange hstart (serve_change request selector))

/-! ## Consistent states -/

/-- How graph, generations, candidates and ends belong together. -/
structure Consistent (selector : Selector) : Prop where
  /-- The candidates are of the last generation. -/
  current : selector.candidates.generation = selector.lastGeneration
  /-- So is the installed graph. -/
  installed : ∀ routing, selector.routing = some routing →
    routing.generation = selector.lastGeneration
  /-- The active candidate is there. -/
  active : ∀ index, selector.candidates.active = some index →
    index < selector.candidates.paths.length
  /-- If there are candidates, they are the simple paths of the installed graph between the ends of
  the last flow. -/
  complete : selector.candidates.paths ≠ [] → ∃ routing src dst,
    selector.routing = some routing ∧ selector.endpoints = some (src, dst) ∧
      selector.candidates.paths = routing.graph.simplePaths src dst

theorem Consistent.generation_eq (h : Consistent selector) {routing : Routing}
    (hrouting : selector.routing = some routing) :
    selector.candidates.generation = routing.generation :=
  h.current.trans (h.installed routing hrouting).symm

theorem initial_consistent (expected : ExpectedSize) :
    Consistent { expected := expected } where
  current := rfl
  installed := by simp
  active := by simp
  complete := by simp

theorem replaceGraph_consistent (selector : Selector) (graph : Option Graph) :
    Consistent (selector.replaceGraph graph) where
  current := rfl
  installed := by
    intro routing hrouting
    obtain ⟨_, _, rfl⟩ := Option.map_eq_some_iff.mp hrouting
    rfl
  active := by simp [replaceGraph]
  complete := by simp [replaceGraph]

/-- Where the shortest path is found among the candidates, there is a candidate. -/
theorem compute_index_lt {routing : Routing} {src dst : SwitchId} {index : Nat}
    (h : (compute routing src dst).2.bind Prod.snd = some index) :
    index < (compute routing src dst).1.length := by
  obtain ⟨⟨path, place⟩, hfound, hplace⟩ := Option.bind_eq_some_iff.mp h
  obtain ⟨shortest, _, hshortest⟩ := Option.map_eq_some_iff.mp hfound
  obtain ⟨_, rfl⟩ := Prod.mk.inj hshortest
  obtain ⟨hlt, _⟩ := List.idxOf?_eq_some_iff.mp hplace
  exact hlt

theorem Change.consistent {after : Selector} (hchange : Change selector after)
    (h : Consistent selector) : Consistent after := by
  cases hchange with
  | nothing => exact h
  | replaced graph => exact replaceGraph_consistent selector graph
  | chosen src dst hrouting hgeneration =>
    exact ⟨hgeneration.symm.trans h.current, h.installed, fun _ hactive => compute_index_lt hactive,
      fun _ => ⟨_, src, dst, hrouting, rfl, rfl⟩⟩
  | activated hpath =>
    refine ⟨h.current, h.installed, ?_, h.complete⟩
    intro index hactive
    obtain rfl : _ = index := Option.some.inj hactive
    exact (List.getElem?_eq_some_iff.mp hpath).1
  | session on => exact ⟨h.current, h.installed, h.active, h.complete⟩

theorem Reachable.consistent {expected : ExpectedSize} (h : Reachable expected selector) :
    Consistent selector := by
  induction h with
  | initial => exact initial_consistent expected
  | serve _ request ih => exact (serve_change request _).consistent ih

/-! ## Generations -/

/-- Between two states either the generation has grown or the graph is the same. -/
def Follows (before after : Selector) : Prop :=
  before.lastGeneration < after.lastGeneration ∨
    (after.lastGeneration = before.lastGeneration ∧ after.routing = before.routing)

theorem Change.follows {before after : Selector} (hchange : Change selector after)
    (h : Follows before selector) : Follows before after := by
  cases hchange with
  | nothing => exact h
  | replaced graph =>
    left
    have hgrown : (selector.replaceGraph graph).lastGeneration = selector.lastGeneration + 1 := rfl
    unfold Follows at h
    omega
  | chosen src dst hrouting hgeneration => exact h
  | activated hpath => exact h
  | session on => exact h

theorem serveAll_follows (selector : Selector) (requests : List Request) :
    Follows selector (selector.serveAll requests) :=
  serveAll_induction (Or.inr ⟨rfl, rfl⟩) (fun h hchange => hchange.follows h) requests

/-- While the generation is the same, so is the graph. -/
theorem serveAll_routing (selector : Selector) (requests : List Request)
    (hsame : (selector.serveAll requests).lastGeneration = selector.lastGeneration) :
    (selector.serveAll requests).routing = selector.routing := by
  rcases serveAll_follows selector requests with hgrown | ⟨_, hrouting⟩
  · omega
  · exact hrouting

end TrafficSteering.Selector
