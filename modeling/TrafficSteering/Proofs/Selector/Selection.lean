import TrafficSteering.Proofs.Forum.Quiet
import TrafficSteering.Proofs.Graph.Agreement
import TrafficSteering.Proofs.Selector.Reachable
set_option autoImplicit false

/-!
# Selections

A selection makes the shortest path of a flow active.  It answers with that path, its place among
all simple paths, and these, and they become the candidates; the graph and the generation stay.
-/

namespace TrafficSteering

/-- What an operation of the selector comes to before a quiet audience. -/
theorem SelectorForum.perform_of_quiet {α : Type} {forum : SelectorForum}
    (hquiet : forum.audience.Quiet) (operation : Selector → Outcome Selector α) :
    (forum.perform operation).1.state = (operation forum.state).state ∧
      (forum.perform operation).2 = (operation forum.state).answer := by
  unfold SelectorForum.perform
  rw [Forum.settle_of_quiet Selector.serve hquiet]
  exact ⟨rfl, rfl⟩

namespace Selector

variable {selector : Selector} {routing : Routing}

theorem route_of_routing (hrouting : selector.routing = some routing) (src dst : SwitchId) :
    selector.route src dst = .ok ((routing.graph.shortestPaths src).path? dst) := by
  simp only [route, requireRouting, hrouting]
  rfl

theorem allPaths_of_routing (hrouting : selector.routing = some routing) (src dst : SwitchId) :
    selector.allPaths src dst = .ok (routing.graph.simplePaths src dst) := by
  simp only [allPaths, requireRouting, hrouting]
  rfl

theorem compute_of_none {src dst : SwitchId}
    (h : (routing.graph.shortestPaths src).path? dst = none) :
    compute routing src dst = (routing.graph.simplePaths src dst, none) := by
  simp only [compute, h]
  rfl

theorem compute_of_some {src dst : SwitchId} {path : Path}
    (h : (routing.graph.shortestPaths src).path? dst = some path) :
    compute routing src dst = (routing.graph.simplePaths src dst,
      some (path, (routing.graph.simplePaths src dst).idxOf? path)) := by
  simp only [compute, h]
  rfl

/-- The place of a path among others that it is one of. -/
theorem exists_idxOf?_of_mem {paths : List Path} {path : Path} (hmem : path ∈ paths) :
    ∃ index, paths.idxOf? path = some index ∧ paths[index]? = some path := by
  cases hindex : paths.idxOf? path with
  | none => exact absurd hmem (List.idxOf?_eq_none_iff.mp hindex)
  | some index =>
    obtain ⟨hlt, hpath, _⟩ := List.idxOf?_eq_some_iff.mp hindex
    exact ⟨index, rfl, by rw [List.getElem?_eq_getElem hlt, hpath]⟩

/-- The shortest path has a place among all simple paths. -/
theorem compute_of_mem {src dst : SwitchId} {path : Path}
    (h : (routing.graph.shortestPaths src).path? dst = some path)
    (hmem : path ∈ routing.graph.simplePaths src dst) :
    ∃ index, compute routing src dst =
        (routing.graph.simplePaths src dst, some (path, some index)) ∧
      (routing.graph.simplePaths src dst)[index]? = some path := by
  obtain ⟨index, hindex, hplace⟩ := exists_idxOf?_of_mem hmem
  refine ⟨index, ?_, hplace⟩
  rw [compute_of_some h, hindex]

/-- From a switch outside the graph to itself there is a path, but no candidate. -/
theorem compute_outside {src : SwitchId} (houtside : routing.graph.contains src = false) :
    compute routing src src = ([], some (Path.single src, none)) := by
  rw [compute_of_some (routing.graph.path?_self src), Graph.simplePaths_outside houtside]
  rfl

end Selector

/-- What a selection finds, what it answers and what it leaves behind. -/
theorem select_agrees {expected : ExpectedSize} {forum : SelectorForum} {routing : Routing}
    (hreach : Selector.Reachable expected forum.state) (hquiet : forum.audience.Quiet)
    (hrouting : forum.state.routing = some routing) (src dst : SwitchId) :
    let paths := routing.graph.simplePaths src dst
    let after := (forum.perform fun selector => selector.select src dst).1.state
    let answer := (forum.perform fun selector => selector.select src dst).2
    forum.state.allPaths src dst = .ok paths ∧
    after.candidates.paths = paths ∧
    after.endpoints = some (src, dst) ∧
    after.candidates.generation = forum.state.candidates.generation ∧
    after.lastGeneration = forum.state.lastGeneration ∧
    after.routing = forum.state.routing ∧
    (routing.graph.contains src = true ∨ src ≠ dst →
      (answer = .ok none ↔ forum.state.route src dst = .ok none) ∧
      (forum.state.route src dst = .ok none ↔ paths = []) ∧
      (paths = [] → after.candidates.active = none) ∧
      (paths ≠ [] → ∃ path index,
        forum.state.route src dst = .ok (some path) ∧
        answer = .ok (some ⟨routing.generation, paths, some index, path⟩) ∧
        paths[index]? = some path ∧
        after.candidates.active = some index ∧
        ∀ other ∈ paths, routing.graph.pathWeight path ≤ routing.graph.pathWeight other)) ∧
    (routing.graph.contains src = false ∧ src = dst →
      forum.state.route src dst = .ok (some (Path.single src)) ∧
      paths = [] ∧
      answer = .ok (some ⟨routing.generation, [], none, Path.single src⟩) ∧
      after.candidates.active = none) := by
  intro paths after answer
  have hgeneration := hreach.consistent.generation_eq hrouting
  obtain ⟨hstate, hanswer⟩ := SelectorForum.perform_of_quiet hquiet
    fun selector => selector.select src dst
  obtain ⟨hchosen, hfound⟩ := Selector.selectFor_of_routing .selected src dst hrouting hgeneration
  have hafter : after = forum.state.chosen routing src dst := hstate.trans hchosen
  have hanswer : answer = .ok ((Selector.compute routing src dst).2.map fun found =>
      ⟨routing.generation, paths, found.2, found.1⟩) := hanswer.trans hfound
  have hroute := Selector.route_of_routing hrouting src dst
  have hall := Selector.allPaths_of_routing hrouting src dst
  refine ⟨hall, by rw [hafter]; rfl, by rw [hafter]; rfl, by rw [hafter]; exact hgeneration.symm,
    by rw [hafter]; rfl, by rw [hafter]; rfl, ?_, ?_⟩
  · intro hends
    have hnil : (routing.graph.shortestPaths src).path? dst = none ↔ paths = [] :=
      Graph.path?_eq_none_iff hends
    cases hpath : (routing.graph.shortestPaths src).path? dst with
    | none =>
      have hpaths : paths = [] := hnil.mp hpath
      rw [Selector.compute_of_none hpath] at hanswer
      rw [hpath] at hroute
      refine ⟨by simp [hanswer, hroute], by simp [hroute, hpaths], ?_,
        fun hne => absurd hpaths hne⟩
      intro _
      rw [hafter, Selector.chosen, Selector.compute_of_none hpath]
      rfl
    | some path =>
      have hmem := Graph.path?_mem_simplePaths hends hpath
      have hne : paths ≠ [] := List.ne_nil_of_mem hmem
      obtain ⟨index, hcompute, hplace⟩ := Selector.compute_of_mem hpath hmem
      rw [hcompute] at hanswer
      rw [hpath] at hroute
      refine ⟨by simp [hanswer, hroute], by simp [hroute, hne], fun h => absurd h hne, ?_⟩
      intro _
      refine ⟨path, index, hroute, hanswer, hplace, ?_, Graph.path?_lightest hpath⟩
      rw [hafter, Selector.chosen, hcompute]
      rfl
  · rintro ⟨houtside, rfl⟩
    have hpaths : paths = [] := Graph.simplePaths_outside houtside src
    have hcompute := Selector.compute_outside houtside
    rw [hcompute, hpaths] at hanswer
    rw [routing.graph.path?_self src] at hroute
    refine ⟨hroute, hpaths, hanswer, ?_⟩
    rw [hafter, Selector.chosen, hcompute]
    rfl

/-- A selector that has taken in the tangled report, and one listener. -/
def SelectorForum.tangled : SelectorForum where
  state := (Selector.serve (.update Snapshot.tangle) { expected := ⟨5, 9⟩ }).state
  audience := Audience.enlist {} {}

/-- In the tangled graph a selection finds the lightest of the paths from the first switch to the
fourth.  The sixth switch is not there, and the path from it to itself is no candidate. -/
theorem select_agrees_tangle :
    (∃ path index,
      (SelectorForum.tangled.perform fun selector => selector.select ⟨1⟩ ⟨4⟩).2 =
        .ok (some ⟨1, Graph.tangle.simplePaths ⟨1⟩ ⟨4⟩, some index, path⟩) ∧
      ∀ other ∈ Graph.tangle.simplePaths ⟨1⟩ ⟨4⟩,
        Graph.tangle.pathWeight path ≤ Graph.tangle.pathWeight other) ∧
    (SelectorForum.tangled.perform fun selector => selector.select ⟨6⟩ ⟨6⟩).2 =
      .ok (some ⟨1, [], none, Path.single ⟨6⟩⟩) := by
  have hreach : Selector.Reachable ⟨5, 9⟩ SelectorForum.tangled.state :=
    Selector.Reachable.initial.serve _
  have hquiet : SelectorForum.tangled.audience.Quiet := by
    intro member hmember listener hlistener
    obtain rfl := List.mem_singleton.mp hmember
    obtain rfl := Option.some.inj hlistener
    rfl
  have hrouting : SelectorForum.tangled.state.routing = some ⟨1, Graph.tangle⟩ := by decide
  obtain ⟨_, _, _, _, _, _, hinside, _⟩ := select_agrees hreach hquiet hrouting ⟨1⟩ ⟨4⟩
  obtain ⟨_, _, _, hfound⟩ := hinside (.inl (by decide))
  obtain ⟨path, index, _, hanswer, _, _, hlightest⟩ := hfound (by decide)
  obtain ⟨_, _, _, _, _, _, _, houtside⟩ := select_agrees hreach hquiet hrouting ⟨6⟩ ⟨6⟩
  obtain ⟨_, _, halone, _⟩ := houtside (by decide)
  exact ⟨⟨path, index, hanswer, hlightest⟩, halone⟩

end TrafficSteering
