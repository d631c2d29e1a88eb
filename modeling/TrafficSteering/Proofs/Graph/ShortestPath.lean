import Mathlib.Order.Bounds.Basic
import TrafficSteering.Proofs.Graph.Search.Invariant
set_option autoImplicit false

/-!
# Shortest paths are shortest

The distance that the search finds is the least weight of all walks, it is found for exactly those
switches that can be reached, and the path that goes with it is a simple path with distances added
up along it.  The search follows stored edges; one that follows neighbours and looks each weight up
by its pair of switches never meets a missing edge and finds the same (`tryShortestPaths`).
-/

namespace TrafficSteering.Graph

/-! ## Looking weights up -/

namespace Search

/-- Follows the edge to one neighbour, if it can be found. -/
def tryRelax (graph : Graph) (node : Label) (search : Search) (target : SwitchId) :
    Except Fault Search :=
  if (labelOf? search.settled target).isSome then .ok search
  else do
    let weight ← graph.weight node.switch target
    let candidate : Label := ⟨target, node.distance + weight.toNat, target :: node.trail⟩
    return { search with waiting := improve search.waiting candidate }

/-- Settles a waiting switch and follows the edges to its neighbours. -/
def trySettle (graph : Graph) (search : Search) (node : Label) : Except Fault Search :=
  (graph.neighbors node.switch).foldlM (tryRelax graph node)
    { settled := node :: search.settled
      waiting := search.waiting.filter fun label => label.switch != node.switch }

/-- Settles at most the given number of switches. -/
def tryRun (graph : Graph) : Nat → Search → Except Fault Search
  | 0, search => .ok search
  | steps + 1, search =>
    match search.waiting with
    | [] => .ok search
    | label :: others => do tryRun graph steps (← search.trySettle graph (label.first others))

variable {graph : Graph}

theorem tryRelax_eq {node : Label} {edge : Link} (hedge : edge ∈ graph.edgesFrom node.switch)
    (search : Search) : search.tryRelax graph node edge.dst = .ok (relax node search edge) := by
  unfold tryRelax relax
  split
  · rfl
  · rw [weight_eq_ok (mem_edgesFrom_iff.mp hedge)]
    rfl

theorem trySettle_eq (search : Search) (node : Label) :
    search.trySettle graph node = .ok (search.settle graph node) := by
  have hfold : ∀ (edges : List Link) (search : Search), edges ⊆ graph.edgesFrom node.switch →
      (edges.map Link.dst).foldlM (tryRelax graph node) search =
        .ok (edges.foldl (relax node) search) := by
    intro edges
    induction edges with
    | nil => intro search _; rfl
    | cons edge rest ih =>
      intro search hsub
      obtain ⟨hedge, hrest⟩ := List.cons_subset.mp hsub
      rw [List.map_cons, List.foldlM_cons, tryRelax_eq hedge]
      exact ih _ hrest
  exact hfold _ _ (List.Subset.refl _)

theorem tryRun_eq (steps : Nat) (search : Search) :
    search.tryRun graph steps = .ok (search.run graph steps) := by
  induction steps generalizing search with
  | zero => rfl
  | succ steps ih =>
    unfold tryRun run
    cases search.waiting with
    | nil => rfl
    | cons label others =>
      simp only [trySettle_eq]
      exact ih _

end Search

/-- The shortest paths from a source, with every weight looked up.  A missing edge is a fault. -/
def tryShortestPaths (graph : Graph) (source : SwitchId) : Except Fault ShortestPaths := do
  let search ← (Search.start source).tryRun graph (graph.edges.length + 1)
  return ⟨source, search.settled⟩

theorem tryShortestPaths_eq (graph : Graph) (source : SwitchId) :
    graph.tryShortestPaths source = .ok (graph.shortestPaths source) := by
  unfold tryShortestPaths
  rw [Search.tryRun_eq]
  rfl

/-! ## What the search leaves behind -/

/-- The switch before a switch on the way from the source. -/
def ShortestPaths.predecessor? (paths : ShortestPaths) (target : SwitchId) : Option SwitchId :=
  (paths.label? target).bind fun label => label.trail[1]?

section

variable {graph : Graph} {source target : SwitchId} {label : Label}

theorem search_waiting_nil (graph : Graph) (source : SwitchId) :
    ((Search.start source).run graph (graph.edges.length + 1)).waiting = [] :=
  (Search.start_invariant graph source).run_waiting _ (by simp [Search.start])

theorem labels_tree (graph : Graph) (source : SwitchId) :
    Tree graph source (graph.shortestPaths source).labels :=
  ((Search.start_invariant graph source).run _).tree

theorem labels_within {path : Path} (hwalk : graph.IsWalk source target path) :
    Within (graph.shortestPaths source).labels target (graph.pathWeight path) :=
  ((Search.start_invariant graph source).run _).within_of_walk (search_waiting_nil graph source)
    hwalk

theorem label?_eq_some_iff :
    (graph.shortestPaths source).label? target = some label ↔
      label ∈ (graph.shortestPaths source).labels ∧ label.switch = target := by
  constructor
  · exact Search.of_labelOf?
  · rintro ⟨hmem, rfl⟩
    exact Search.labelOf?_eq_some (labels_tree graph source).distinct hmem

theorem distance?_eq_some_iff {distance : Nat} :
    (graph.shortestPaths source).distance? target = some distance ↔
      ∃ label ∈ (graph.shortestPaths source).labels,
        label.switch = target ∧ label.distance = distance := by
  simp only [ShortestPaths.distance?, Option.map_eq_some_iff, label?_eq_some_iff, and_assoc]

theorem path?_eq_some_iff {path : Path} :
    (graph.shortestPaths source).path? target = some path ↔
      ∃ label ∈ (graph.shortestPaths source).labels,
        label.switch = target ∧ ⟨label.trail.reverse⟩ = path := by
  simp only [ShortestPaths.path?, Option.map_eq_some_iff, label?_eq_some_iff, and_assoc]

/-- A path is found exactly where a distance is found. -/
theorem path?_isSome_iff :
    ((graph.shortestPaths source).path? target).isSome = true ↔
      ((graph.shortestPaths source).distance? target).isSome = true := by
  simp [ShortestPaths.path?, ShortestPaths.distance?]

/-! ## Distances -/

theorem distance?_isLeast {distance : Nat}
    (h : (graph.shortestPaths source).distance? target = some distance) :
    IsLeast {weight | ∃ path, graph.IsWalk source target path ∧ graph.pathWeight path = weight}
      distance := by
  obtain ⟨label, hmem, rfl, rfl⟩ := distance?_eq_some_iff.mp h
  have htraced := (labels_tree graph source).traced label hmem
  refine ⟨⟨_, htraced.simple.toIsWalk, htraced.weight⟩, ?_⟩
  rintro weight ⟨path, hwalk, rfl⟩
  obtain ⟨other, hother, hswitch, hbound⟩ := labels_within hwalk
  rwa [label_unique (labels_tree graph source).distinct hmem hother hswitch.symm]

theorem distance?_isSome_iff :
    ((graph.shortestPaths source).distance? target).isSome = true ↔
      Relation.ReflTransGen graph.Adjacent source target := by
  rw [reachable_iff_exists_walk, Option.isSome_iff_exists]
  constructor
  · rintro ⟨distance, h⟩
    obtain ⟨path, hwalk, _⟩ := (distance?_isLeast h).1
    exact ⟨path, hwalk⟩
  · rintro ⟨path, hwalk⟩
    obtain ⟨label, hmem, hswitch, _⟩ := labels_within hwalk
    exact ⟨label.distance, distance?_eq_some_iff.mpr ⟨label, hmem, hswitch, rfl⟩⟩

/-! ## Paths -/

theorem path?_isSimplePath {path : Path}
    (h : (graph.shortestPaths source).path? target = some path) :
    graph.IsSimplePath source target path := by
  obtain ⟨label, hmem, rfl, rfl⟩ := path?_eq_some_iff.mp h
  exact ((labels_tree graph source).traced label hmem).simple

/-- The weight of a found path is the distance of its end. -/
theorem distance?_of_path? {path : Path}
    (h : (graph.shortestPaths source).path? target = some path) :
    (graph.shortestPaths source).distance? target = some (graph.pathWeight path) := by
  obtain ⟨label, hmem, hswitch, rfl⟩ := path?_eq_some_iff.mp h
  exact distance?_eq_some_iff.mpr
    ⟨label, hmem, hswitch, ((labels_tree graph source).traced label hmem).weight.symm⟩

/-- What a found path passes first is the path that is found to where it then is. -/
theorem path?_of_front {path : Path} (h : (graph.shortestPaths source).path? target = some path)
    {front : List SwitchId} {last : SwitchId} (hfront : (front ++ [last]) <+: path.switches) :
    (graph.shortestPaths source).path? last = some ⟨front ++ [last]⟩ := by
  obtain ⟨label, hmem, _, rfl⟩ := path?_eq_some_iff.mp h
  have hsuffix : (last :: front.reverse) <:+ label.trail := by
    rw [← List.reverse_prefix]
    simpa using hfront
  obtain ⟨node, hnode, hswitch, htrail⟩ :=
    (labels_tree graph source).suffix label hmem last front.reverse hsuffix
  exact path?_eq_some_iff.mpr ⟨node, hnode, hswitch, by simp [htrail]⟩

/-- Backwards along a found path, each switch is followed by its predecessor. -/
theorem path?_predecessors {path : Path}
    (h : (graph.shortestPaths source).path? target = some path) :
    path.switches.reverse.IsChain fun switch previous =>
      (graph.shortestPaths source).predecessor? switch = some previous := by
  obtain ⟨label, hmem, _, rfl⟩ := path?_eq_some_iff.mp h
  rw [List.reverse_reverse, List.isChain_iff_forall_rel_of_append_cons_cons]
  intro switch previous newer older htrail
  have hsuffix : (switch :: previous :: older) <:+ label.trail := ⟨newer, htrail.symm⟩
  obtain ⟨node, hnode, hswitch, hnodeTrail⟩ :=
    (labels_tree graph source).suffix label hmem switch (previous :: older) hsuffix
  unfold ShortestPaths.predecessor?
  rw [label?_eq_some_iff.mpr ⟨hnode, hswitch⟩]
  simp [hnodeTrail]

/-- The source has no predecessor. -/
theorem predecessor?_source (graph : Graph) (source : SwitchId) :
    (graph.shortestPaths source).predecessor? source = none := by
  unfold ShortestPaths.predecessor?
  cases hlabel : (graph.shortestPaths source).label? source with
  | none => rfl
  | some label =>
    obtain ⟨hmem, hswitch⟩ := label?_eq_some_iff.mp hlabel
    have htraced := (labels_tree graph source).traced label hmem
    obtain ⟨⟨behind, htrail, _⟩, hsimple, _⟩ := htraced
    -- The trail begins and ends at the source and repeats no switch.
    have hends := hsimple.starts
    have hdistinct := hsimple.distinct
    rw [hswitch] at htrail
    simp only [Path.source?, List.head?_reverse, htrail, List.nodup_reverse] at hends hdistinct
    cases behind with
    | nil => simp [htrail]
    | cons previous older =>
      rw [List.getLast?_cons_cons] at hends
      exact absurd (List.mem_of_getLast? hends) (List.nodup_cons.mp hdistinct).1

end

/-! ## The whole -/

/-- The search ends because nothing is left, without meeting a missing edge.  It finds a distance
for exactly the switches that can be reached, and that is the least weight of all walks.  It finds a
path exactly with a distance; backwards, the path follows predecessors until the source, which has
none; and it is a simple path along which the weights add up to the distances. -/
theorem shortestPaths_shortest (graph : Graph) (source : SwitchId) :
    graph.tryShortestPaths source = .ok (graph.shortestPaths source) ∧
    ((Search.start source).run graph (graph.edges.length + 1)).waiting = [] ∧
    (graph.shortestPaths source).predecessor? source = none ∧
    ∀ target,
      (((graph.shortestPaths source).distance? target).isSome = true ↔
        Relation.ReflTransGen graph.Adjacent source target) ∧
      (∀ distance, (graph.shortestPaths source).distance? target = some distance →
        IsLeast {weight | ∃ path, graph.IsWalk source target path ∧ graph.pathWeight path = weight}
          distance) ∧
      (((graph.shortestPaths source).path? target).isSome = true ↔
        ((graph.shortestPaths source).distance? target).isSome = true) ∧
      ∀ path, (graph.shortestPaths source).path? target = some path →
        graph.IsSimplePath source target path ∧
        (path.switches.reverse.IsChain fun switch previous =>
          (graph.shortestPaths source).predecessor? switch = some previous) ∧
        ∀ front last, (front ++ [last]) <+: path.switches →
          (graph.shortestPaths source).distance? last =
            some (graph.pathWeight ⟨front ++ [last]⟩) := by
  refine ⟨tryShortestPaths_eq graph source, search_waiting_nil graph source,
    predecessor?_source graph source, ?_⟩
  intro target
  refine ⟨distance?_isSome_iff, fun _ h => distance?_isLeast h, path?_isSome_iff, ?_⟩
  intro path hpath
  refine ⟨path?_isSimplePath hpath, path?_predecessors hpath, ?_⟩
  intro front last hfront
  exact distance?_of_path? (path?_of_front hpath hfront)

/-- In the tangled graph the fourth switch is reached past the second, at a distance of three. -/
theorem shortestPaths_shortest_tangle :
    IsLeast {weight | ∃ path, tangle.IsWalk ⟨1⟩ ⟨4⟩ path ∧ tangle.pathWeight path = weight} 3 ∧
    tangle.IsSimplePath ⟨1⟩ ⟨4⟩ ⟨[⟨1⟩, ⟨2⟩, ⟨4⟩]⟩ ∧
    (tangle.shortestPaths ⟨1⟩).distance? ⟨2⟩ = some (tangle.pathWeight ⟨[⟨1⟩, ⟨2⟩]⟩) := by
  obtain ⟨_, _, _, hall⟩ := shortestPaths_shortest tangle ⟨1⟩
  obtain ⟨_, hleast, _, hpaths⟩ := hall ⟨4⟩
  obtain ⟨hsimple, _, hfronts⟩ := hpaths ⟨[⟨1⟩, ⟨2⟩, ⟨4⟩]⟩ (by decide)
  exact ⟨hleast 3 (by decide), hsimple, hfronts [⟨1⟩] ⟨2⟩ ⟨[⟨4⟩], rfl⟩⟩

end TrafficSteering.Graph
