import TrafficSteering.Proofs.Graph.ShortestPath
import TrafficSteering.Proofs.Graph.SimplePaths
set_option autoImplicit false

/-!
# The shortest path among all simple paths

The two ways of finding paths agree.  Wherever the shortest path is found, it is one of the
enumerated simple paths and none of them is lighter; where it is not, there are none.  The one
exception is the path from a switch outside the graph to itself, which is found but not enumerated.
-/

namespace TrafficSteering.Graph

variable {graph : Graph} {src dst : SwitchId} {path : Path}

/-- A walk that passes no switch twice and comes back to its source stays there. -/
theorem IsSimplePath.eq_single (h : graph.IsSimplePath src src path) : path = Path.single src := by
  rcases h.toIsWalk.cases_last with ⟨hpath, _⟩ | ⟨switches, last, rfl, hwalk, _⟩
  · exact hpath
  · have hmem : src ∈ switches := List.mem_of_head? hwalk.starts
    have hdisjoint := (List.nodup_append.mp h.distinct).2.2
    exact absurd rfl (hdisjoint src hmem src (List.mem_singleton.mpr rfl))

/-- The path from a switch to itself is found everywhere. -/
theorem path?_self (graph : Graph) (src : SwitchId) :
    (graph.shortestPaths src).path? src = some (Path.single src) := by
  have hsome : ((graph.shortestPaths src).path? src).isSome = true :=
    path?_isSome_iff.mpr (distance?_isSome_iff.mpr Relation.ReflTransGen.refl)
  obtain ⟨path, hpath⟩ := Option.isSome_iff_exists.mp hsome
  rw [hpath, (path?_isSimplePath hpath).eq_single]

/-- A walk that does not stay on a switch outside the graph leads from a switch of the graph. -/
theorem IsWalk.contains_of_or (h : graph.IsWalk src dst path)
    (hends : graph.contains src = true ∨ src ≠ dst) : graph.contains src = true :=
  hends.elim id h.contains_source

theorem path?_mem_simplePaths (hends : graph.contains src = true ∨ src ≠ dst)
    (h : (graph.shortestPaths src).path? dst = some path) : path ∈ graph.simplePaths src dst := by
  have hsimple := path?_isSimplePath h
  exact mem_simplePaths_iff.mpr ⟨hsimple.toIsWalk.contains_of_or hends, hsimple⟩

theorem path?_eq_none_iff (hends : graph.contains src = true ∨ src ≠ dst) :
    (graph.shortestPaths src).path? dst = none ↔ graph.simplePaths src dst = [] := by
  constructor
  · intro hnone
    rw [List.eq_nil_iff_forall_not_mem]
    intro path hmem
    have hwalk := (mem_simplePaths_iff.mp hmem).2.toIsWalk
    have hsome := path?_isSome_iff.mpr
      (distance?_isSome_iff.mpr (reachable_iff_exists_walk.mpr ⟨path, hwalk⟩))
    rw [hnone] at hsome
    exact Bool.noConfusion hsome
  · intro hnil
    cases hpath : (graph.shortestPaths src).path? dst with
    | none => rfl
    | some path =>
      have hmem := path?_mem_simplePaths hends hpath
      rw [hnil] at hmem
      exact absurd hmem List.not_mem_nil

theorem path?_lightest (h : (graph.shortestPaths src).path? dst = some path) :
    ∀ other ∈ graph.simplePaths src dst, graph.pathWeight path ≤ graph.pathWeight other := by
  intro other hmem
  have hwalk := (mem_simplePaths_iff.mp hmem).2.toIsWalk
  exact (distance?_isLeast (distance?_of_path? h)).2 ⟨other, hwalk, rfl⟩

end TrafficSteering.Graph
