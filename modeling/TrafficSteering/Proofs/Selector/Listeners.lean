import TrafficSteering.Proofs.Graph.SimplePaths
import TrafficSteering.Proofs.Selector.Reachable
set_option autoImplicit false

/-!
# Selectors whose listeners call back

Listeners may ask the selector for anything while they are called, and what they ask for calls
listeners again.  However such calls nest, graph, generations, candidates and ends belong together
(`Selector.Sound`), after every operation and whenever a listener is called.
-/

namespace TrafficSteering

theorem Candidates.activePath?_eq_some_iff {candidates : Candidates} {index : Nat} {path : Path} :
    candidates.activePath? = some (index, path) ↔
      candidates.active = some index ∧ candidates.paths[index]? = some path := by
  unfold Candidates.activePath?
  simp only [Option.bind_eq_bind, Option.bind_eq_some_iff, Option.pure_def, Option.some.injEq,
    Prod.mk.injEq]
  constructor
  · rintro ⟨place, hactive, found, hpath, rfl, rfl⟩
    exact ⟨hactive, hpath⟩
  · rintro ⟨hactive, hpath⟩
    exact ⟨index, hactive, path, hpath, rfl, rfl⟩

namespace Selector

/-- What users of a selector rely on. -/
structure Sound (selector : Selector) : Prop where
  /-- The generation of the candidates is the last one that was taken. -/
  counted : selector.candidates.generation = selector.lastGeneration
  /-- An installed graph is of the generation of the candidates. -/
  installed : ∀ routing, selector.routing = some routing →
    routing.generation = selector.candidates.generation
  /-- Without a graph there are no candidates, and none is active. -/
  withdrawn : selector.routing = none →
    selector.candidates.paths = [] ∧ selector.candidates.active = none
  /-- The active candidate is there. -/
  active : ∀ index, selector.candidates.active = some index →
    index < selector.candidates.paths.length
  /-- If there are candidates, they are all simple paths of the installed graph between the ends of
  the last flow, each once and in the order of their discovery. -/
  complete : selector.candidates.paths ≠ [] → ∃ routing src dst,
    selector.routing = some routing ∧ selector.endpoints = some (src, dst) ∧
      selector.candidates.paths = routing.graph.simplePaths src dst ∧
      selector.candidates.paths.Nodup ∧
      ∀ path, path ∈ selector.candidates.paths ↔ routing.graph.IsSimplePath src dst path
  /-- The active path is a simple path of the installed graph between the ends of the last flow. -/
  steered : ∀ index path, selector.candidates.activePath? = some (index, path) →
    ∃ routing src dst, selector.routing = some routing ∧ selector.endpoints = some (src, dst) ∧
      routing.graph.IsSimplePath src dst path

variable {selector : Selector}

/-- The graph and the ends that candidates belong to. -/
theorem Consistent.isSimplePath_iff (h : Consistent selector)
    (hne : selector.candidates.paths ≠ []) : ∃ routing src dst,
      selector.routing = some routing ∧ selector.endpoints = some (src, dst) ∧
      selector.candidates.paths = routing.graph.simplePaths src dst ∧
      ∀ path, path ∈ selector.candidates.paths ↔ routing.graph.IsSimplePath src dst path := by
  obtain ⟨routing, src, dst, hrouting, hendpoints, hpaths⟩ := h.complete hne
  refine ⟨routing, src, dst, hrouting, hendpoints, hpaths, ?_⟩
  obtain ⟨found, hmem⟩ := List.exists_mem_of_ne_nil _ hne
  rw [hpaths] at hmem
  have hsrc := (Graph.mem_simplePaths_iff.mp hmem).1
  intro path
  rw [hpaths, Graph.mem_simplePaths_iff]
  exact and_iff_right hsrc

theorem Consistent.sound (h : Consistent selector) : Sound selector where
  counted := h.current
  installed := fun _ hrouting => (h.generation_eq hrouting).symm
  withdrawn := by
    intro hnone
    have hpaths : selector.candidates.paths = [] := by
      by_contra hne
      obtain ⟨routing, _, _, hrouting, _⟩ := h.complete hne
      simp [hnone] at hrouting
    refine ⟨hpaths, ?_⟩
    cases hactive : selector.candidates.active with
    | none => rfl
    | some index =>
      have hlt := h.active index hactive
      rw [hpaths] at hlt
      exact absurd hlt (Nat.not_lt_zero index)
  active := h.active
  complete := by
    intro hne
    obtain ⟨routing, src, dst, hrouting, hendpoints, hpaths, hmem⟩ := h.isSimplePath_iff hne
    have hnodup := Graph.simplePaths_nodup routing.graph src dst
    exact ⟨routing, src, dst, hrouting, hendpoints, hpaths, hpaths ▸ hnodup, hmem⟩
  steered := by
    intro index path hactive
    obtain ⟨_, hpath⟩ := Candidates.activePath?_eq_some_iff.mp hactive
    have hmem := List.mem_of_getElem? hpath
    obtain ⟨routing, src, dst, hrouting, hendpoints, _, hiff⟩ :=
      h.isSimplePath_iff (List.ne_nil_of_mem hmem)
    exact ⟨routing, src, dst, hrouting, hendpoints, (hiff path).mp hmem⟩

end Selector

namespace SelectorForum

/-- The selectors that operations lead to from one that has taken in nothing yet, with the listeners
that have come and gone. -/
inductive Reachable (expected : ExpectedSize) : SelectorForum → Prop where
  | initial : Reachable expected { state := { expected := expected } }
  | serve {forum : SelectorForum} (h : Reachable expected forum) (request : Selector.Request) :
      Reachable expected (forum.perform (Selector.serve request)).1
  | enlist {forum : SelectorForum} (h : Reachable expected forum)
      (listener : Listener Selector.Request) : Reachable expected (forum.enlist listener)
  | dismiss {forum : SelectorForum} (h : Reachable expected forum) (listener : Handle) :
      Reachable expected (forum.dismiss listener)

/-- Graph, generations, candidates and ends are consistent after an operation and at every call to a
listener on the way, if they were before. -/
theorem perform_consistent (forum : SelectorForum) (request : Selector.Request)
    (h : Selector.Consistent forum.state) :
    (forum.perform (Selector.serve request)).1.Throughout Selector.Consistent forum.calls := by
  have hserve : ∀ request state, Selector.Consistent state →
      Selector.Consistent (Selector.serve request state).state :=
    fun request state hstate => (Selector.serve_change request state).consistent hstate
  exact Forum.settle_throughout hserve forum (hserve request forum.state h)

theorem Reachable.consistent_throughout {expected : ExpectedSize} {forum : SelectorForum}
    (h : Reachable expected forum) :
    Selector.Consistent forum.state ∧ ∀ call ∈ forum.calls, Selector.Consistent call.found := by
  induction h with
  | initial => exact ⟨Selector.initial_consistent expected, by simp⟩
  | @serve forum _ request ih =>
    obtain ⟨hnow, later, hcalls, hlater⟩ := perform_consistent forum request ih.1
    refine ⟨hnow, ?_⟩
    intro call hcall
    rw [hcalls] at hcall
    rcases List.mem_append.mp hcall with hbefore | hsince
    · exact ih.2 call hbefore
    · exact hlater call hsince
  | enlist _ _ ih => exact ih
  | dismiss _ _ ih => exact ih

/-- After every operation, and whenever a listener is called on the way, the selector is sound. -/
theorem Reachable.sound_throughout {expected : ExpectedSize} {forum : SelectorForum}
    (h : Reachable expected forum) :
    forum.state.Sound ∧ ∀ call ∈ forum.calls, call.found.Sound := by
  obtain ⟨hnow, hcalls⟩ := h.consistent_throughout
  exact ⟨hnow.sound, fun call hcall => (hcalls call hcall).sound⟩

/-- What a listener does in turn, each time that another path becomes active: it has the tangled
report taken in again and a new choice forced, it commits another path, it withdraws the graph. -/
def meddler : Listener Selector.Request where
  attention := .pathChanges
  reactions := [⟨.andThen (.ask (.update Snapshot.tangle)) (.ask (.select ⟨2⟩ ⟨4⟩)), 0⟩,
    ⟨.ask (.commit none 0), 0⟩, ⟨.andThen (.ask .disable) .leave, 0⟩]

/-- A selection that such a listener and another one are told of. -/
def meddled : SelectorForum :=
  let fresh : SelectorForum := { state := { expected := ⟨5, 9⟩ } }
  let attended : SelectorForum := (fresh.enlist meddler).enlist {}
  let routed : SelectorForum := (attended.perform (Selector.serve (.update Snapshot.tangle))).1
  (routed.perform (Selector.serve (.select ⟨1⟩ ⟨4⟩))).1

/-- The meddling listener is called three times, each time out of the call before, and at the end
the graph is gone. -/
theorem sound_throughout_meddled :
    (meddled.calls.map fun call => (call.listener, call.found.lastGeneration)) =
        [(0, 1), (0, 2), (0, 2), (1, 3), (1, 3), (1, 3)] ∧
      meddled.state.routing = none ∧
      meddled.state.Sound ∧ ∀ call ∈ meddled.calls, call.found.Sound := by
  have hreach : Reachable ⟨5, 9⟩ meddled :=
    (((Reachable.initial.enlist meddler).enlist {}).serve _).serve _
  exact ⟨by decide, by decide, hreach.sound_throughout⟩

end SelectorForum

end TrafficSteering
