import Mathlib.Data.List.Chain
import Mathlib.Data.List.Perm.Subperm
import TrafficSteering.Proofs.Graph.Search.Step
import TrafficSteering.Proofs.Graph.Walk
set_option autoImplicit false

/-!
# The invariant of the search

The settled labels form a tree that grows by leaves: each label belongs to the source or extends one
settled before it along an edge (`Tree`).  So every trail is a simple path back to the source, its
weight is the distance, and each part of it that ends at the source is the trail of a settled label.

What makes the distances least is that no settled switch is farther away than a waiting one
(`Invariant.ordered`) and that every edge out of a settled switch has been followed
(`Invariant.relaxed`).  A step keeps all of this, and the steps that are allowed suffice to settle
everything that can be reached.
-/

namespace TrafficSteering.Graph

/-! ## The tree of settled labels -/

/-- How a label comes about: it is the label of the source, or it extends a settled one along an
edge. -/
inductive Derived (graph : Graph) (source : SwitchId) (settled : List Label) : Label → Prop where
  | origin : Derived graph source settled ⟨source, 0, [source]⟩
  | along {node : Label} {edge : Link} (hnode : node ∈ settled)
      (hedge : edge ∈ graph.edgesFrom node.switch) :
      Derived graph source settled (node.extend edge)

/-- Labels in the opposite order of their settling, each of them derived from older ones and of a
switch that had no label yet. -/
inductive Tree (graph : Graph) (source : SwitchId) : List Label → Prop where
  | nil : Tree graph source []
  | grow {settled : List Label} {label : Label} (htree : Tree graph source settled)
      (hderived : Derived graph source settled label)
      (hnew : label.switch ∉ switchesOf settled) : Tree graph source (label :: settled)

/-- The trail of a label is a simple path back to the source through settled switches, and its
weight is the distance. -/
structure Traced (graph : Graph) (source : SwitchId) (settled : List Label) (label : Label) :
    Prop where
  /-- The trail begins with the switch of the label, and all others are settled. -/
  behind : ∃ behind, label.trail = label.switch :: behind ∧ behind ⊆ switchesOf settled
  simple : graph.IsSimplePath source label.switch ⟨label.trail.reverse⟩
  weight : graph.pathWeight ⟨label.trail.reverse⟩ = label.distance

variable {graph : Graph} {source : SwitchId} {settled : List Label} {label : Label}

theorem Derived.mono (h : Derived graph source settled label) {more : List Label}
    (hsub : settled ⊆ more) : Derived graph source more label := by
  cases h with
  | origin => exact .origin
  | along hnode hedge => exact .along (hsub hnode) hedge

/-- The switch of a derived label is the source or the far end of an edge. -/
theorem Derived.switch_mem (h : Derived graph source settled label) :
    label.switch ∈ source :: graph.edges.map Link.dst := by
  cases h with
  | origin => exact List.mem_cons_self
  | along _ hedge =>
    exact List.mem_cons_of_mem _ (List.mem_map_of_mem (List.mem_of_mem_filter hedge))

theorem Traced.mono (h : Traced graph source settled label) {more : List Label}
    (hsub : switchesOf settled ⊆ switchesOf more) : Traced graph source more label where
  behind := by
    obtain ⟨behind, htrail, hbehind⟩ := h.behind
    exact ⟨behind, htrail, List.Subset.trans hbehind hsub⟩
  simple := h.simple
  weight := h.weight

/-- A label derived from traced ones is traced, if its switch is not settled. -/
theorem Derived.traced (h : Derived graph source settled label)
    (htraced : ∀ node ∈ settled, Traced graph source settled node)
    (hnew : label.switch ∉ switchesOf settled) : Traced graph source settled label := by
  cases h with
  | origin =>
    exact ⟨⟨[], rfl, List.nil_subset _⟩, ⟨IsWalk.single source, List.nodup_singleton source⟩, rfl⟩
  | @along node edge hnode hedge =>
    obtain ⟨⟨behind, htrail, hbehind⟩, hsimple, hweight⟩ := htraced node hnode
    have hsettled : node.trail ⊆ switchesOf settled := by
      rw [htrail]
      exact List.cons_subset.mpr ⟨mem_switchesOf hnode, hbehind⟩
    have hfound := mem_edgesFrom_iff.mp hedge
    have hpath : (node.extend edge).trail.reverse = node.trail.reverse ++ [edge.dst] := by
      simp [Label.extend]
    refine ⟨⟨node.trail, rfl, hsettled⟩, ⟨?_, ?_⟩, ?_⟩
    · rw [hpath]
      exact hsimple.toIsWalk.concat (exists_edge_iff.mp ⟨edge, hfound⟩)
    · rw [List.nodup_reverse]
      exact List.nodup_cons.mpr
        ⟨fun hmem => hnew (hsettled hmem), List.nodup_reverse.mp hsimple.distinct⟩
    · rw [hpath, pathWeight_concat graph hsimple.ends, hweight, hopWeight_of_edge? hfound]
      rfl

namespace Tree

theorem distinct (h : Tree graph source settled) : (switchesOf settled).Nodup := by
  induction h with
  | nil => exact List.nodup_nil
  | grow _ _ hnew ih => exact List.nodup_cons.mpr ⟨hnew, ih⟩

theorem derived (h : Tree graph source settled) :
    ∀ label ∈ settled, Derived graph source settled label := by
  induction h with
  | nil => simp
  | @grow settled newest _ hderived _ ih =>
    intro label hmem
    have hsub : settled ⊆ newest :: settled := List.subset_cons_self _ _
    rcases List.mem_cons.mp hmem with rfl | hold
    · exact hderived.mono hsub
    · exact (ih label hold).mono hsub

theorem traced (h : Tree graph source settled) :
    ∀ label ∈ settled, Traced graph source settled label := by
  induction h with
  | nil => simp
  | @grow settled newest _ hderived hnew ih =>
    intro label hmem
    have hsub : switchesOf settled ⊆ switchesOf (newest :: settled) := List.subset_cons_self _ _
    rcases List.mem_cons.mp hmem with rfl | hold
    · exact (hderived.traced ih hnew).mono hsub
    · exact (ih label hold).mono hsub

/-- Each part of a trail that ends at the source is itself the trail of a settled label. -/
theorem suffix (h : Tree graph source settled) :
    ∀ label ∈ settled, ∀ (switch : SwitchId) (behind : List SwitchId),
      (switch :: behind) <:+ label.trail →
        ∃ node ∈ settled, node.switch = switch ∧ node.trail = switch :: behind := by
  induction h with
  | nil => simp
  | @grow settled newest _ hderived _ ih =>
    intro label hmem switch behind hsuffix
    rcases List.mem_cons.mp hmem with rfl | hold
    · cases hderived with
      | origin =>
        rcases List.suffix_cons_iff.mp hsuffix with heq | hnil
        · obtain ⟨rfl, rfl⟩ := List.cons.inj heq
          exact ⟨_, List.mem_cons_self, rfl, rfl⟩
        · simp at hnil
      | @along node edge hnode _ =>
        rcases List.suffix_cons_iff.mp hsuffix with heq | hrest
        · obtain ⟨rfl, rfl⟩ := List.cons.inj heq
          exact ⟨_, List.mem_cons_self, rfl, rfl⟩
        · obtain ⟨found, hfound, hends⟩ := ih node hnode switch behind hrest
          exact ⟨found, List.mem_cons_of_mem _ hfound, hends⟩
    · obtain ⟨found, hfound, hends⟩ := ih label hold switch behind hsuffix
      exact ⟨found, List.mem_cons_of_mem _ hfound, hends⟩

end Tree

namespace Search

/-! ## The invariant -/

/-- What holds of the search between two steps. -/
structure Invariant (graph : Graph) (source : SwitchId) (search : Search) : Prop where
  tree : Tree graph source search.settled
  /-- Waiting labels extend settled ones. -/
  derived : ∀ label ∈ search.waiting, Derived graph source search.settled label
  /-- No waiting switch is settled. -/
  fresh : ∀ label ∈ search.waiting, label.switch ∉ switchesOf search.settled
  /-- No switch waits twice. -/
  distinct : (switchesOf search.waiting).Nodup
  /-- No settled switch is farther away than a waiting one. -/
  ordered : ∀ node ∈ search.settled, ∀ label ∈ search.waiting, node.distance ≤ label.distance
  /-- The source has been reached. -/
  rooted : Within (search.settled ++ search.waiting) source 0
  /-- All edges out of settled switches have been followed. -/
  relaxed : ∀ node ∈ search.settled, ∀ edge ∈ graph.edgesFrom node.switch,
    Within (search.settled ++ search.waiting) edge.dst (node.distance + edge.weight.toNat)

theorem start_invariant (graph : Graph) (source : SwitchId) :
    Invariant graph source (start source) where
  tree := .nil
  derived := by
    intro label hmem
    rw [List.mem_singleton.mp hmem]
    exact .origin
  fresh := by simp [start, switchesOf]
  distinct := by simp [start, switchesOf]
  ordered := by simp [start]
  rooted := ⟨⟨source, 0, [source]⟩, List.mem_singleton.mpr rfl, rfl, Nat.le_refl 0⟩
  relaxed := by simp [start]

/-- A waiting switch is at least as far away as itself and all settled ones. -/
theorem Invariant.settled_distance_le {search : Search} (h : Invariant graph source search)
    {node : Label} (hnode : node ∈ search.waiting) :
    ∀ done ∈ node :: search.settled, done.distance ≤ node.distance := by
  intro done hdone
  rcases List.mem_cons.mp hdone with rfl | hold
  · exact Nat.le_refl _
  · exact h.ordered done hold node hnode

/-- Settling a nearest waiting switch keeps the invariant. -/
theorem Invariant.settle {search : Search} (h : Invariant graph source search) {node : Label}
    (hnode : node ∈ search.waiting)
    (hnearest : ∀ label ∈ search.waiting, node.distance ≤ label.distance) :
    Invariant graph source (search.settle graph node) := by
  have hsettled := settle_settled graph node h.distinct
  have hmade := settle_made graph node h.distinct
  refine ⟨?_, ?_, ?_, (settle_followed graph node h.distinct).distinct, ?_,
    settle_keeps graph h.distinct hnode h.rooted, ?_⟩
  · rw [hsettled]
    exact h.tree.grow (h.derived node hnode) (h.fresh node hnode)
  · intro label hmem
    rw [hsettled]
    rcases hmade label hmem with ⟨hold, _⟩ | ⟨edge, hedge, rfl, _⟩
    · exact (h.derived label hold).mono (List.subset_cons_self _ _)
    · exact .along List.mem_cons_self hedge
  · intro label hmem
    rw [hsettled]
    rcases hmade label hmem with ⟨hold, hne⟩ | ⟨edge, _, rfl, hopen⟩
    · exact List.not_mem_cons_of_ne_of_not_mem hne (h.fresh label hold)
    · exact hopen
  · intro done hdone label hmem
    rw [hsettled] at hdone
    have hfar : node.distance ≤ label.distance := by
      rcases hmade label hmem with ⟨hold, _⟩ | ⟨edge, _, rfl, _⟩
      · exact hnearest label hold
      · exact Nat.le_add_right _ _
    exact Nat.le_trans (h.settled_distance_le hnode done hdone) hfar
  · intro done hdone edge hedge
    rw [hsettled] at hdone
    rcases List.mem_cons.mp hdone with rfl | hold
    · rcases (settle_followed graph done h.distinct).reached edge hedge with hdst | hwaits
      · -- The far end has been settled before, when it was no farther away.
        obtain ⟨label, hmem, hswitch⟩ := mem_switchesOf_iff.mp hdst
        refine ⟨label, ?_, hswitch,
          Nat.le_trans (h.settled_distance_le hnode label hmem) (Nat.le_add_right _ _)⟩
        rw [hsettled]
        exact List.mem_append_left _ hmem
      · exact hwaits.mono (List.subset_append_right _ _) (Nat.le_refl _)
    · exact settle_keeps graph h.distinct hnode (h.relaxed done hold edge hedge)

/-! ## The run -/

/-- No more switches are settled than there are edges, and one. -/
theorem Invariant.settled_length_le {search : Search} (h : Invariant graph source search) :
    search.settled.length ≤ graph.edges.length + 1 := by
  have hsub : switchesOf search.settled ⊆ source :: graph.edges.map Link.dst := by
    intro switch hmem
    obtain ⟨label, hlabel, rfl⟩ := mem_switchesOf_iff.mp hmem
    exact (h.tree.derived label hlabel).switch_mem
  have hlength := (List.subperm_of_subset h.tree.distinct hsub).length_le
  simpa [switchesOf] using hlength

theorem Invariant.nearest {search : Search} (h : Invariant graph source search) {label : Label}
    {others : List Label} (hwaiting : search.waiting = label :: others) :
    Invariant graph source (search.settle graph (label.first others)) := by
  apply h.settle
  · rw [hwaiting]
    exact Label.first_mem label others
  · rw [hwaiting]
    exact Label.first_distance_le label others

theorem run_of_nil {search : Search} (hwaiting : search.waiting = []) (steps : Nat) :
    search.run graph steps = search := by
  cases steps with
  | zero => rfl
  | succ steps => rw [Search.run, hwaiting]

theorem run_of_cons {search : Search} {label : Label} {others : List Label}
    (hwaiting : search.waiting = label :: others) (steps : Nat) :
    search.run graph (steps + 1) = (search.settle graph (label.first others)).run graph steps := by
  rw [Search.run, hwaiting]

/-- What settling the first of the waiting switches keeps, a run keeps. -/
theorem run_induction {motive : Search → Prop} {search : Search}
    (hstep : ∀ (search : Search) (label : Label) (others : List Label),
      search.waiting = label :: others → motive search →
        motive (search.settle graph (label.first others)))
    (h : motive search) (steps : Nat) : motive (search.run graph steps) := by
  induction steps generalizing search with
  | zero => exact h
  | succ steps ih =>
    cases hwaiting : search.waiting with
    | nil => rwa [run_of_nil hwaiting]
    | cons label others =>
      rw [run_of_cons hwaiting]
      exact ih (hstep search label others hwaiting h)

/-- Steps keep the invariant. -/
theorem Invariant.run {search : Search} (h : Invariant graph source search) (steps : Nat) :
    Invariant graph source (search.run graph steps) :=
  run_induction (fun _ _ _ hwaiting h => h.nearest hwaiting) h steps

/-- As many steps as there are edges, and one, leave nothing waiting. -/
theorem Invariant.run_waiting {search : Search} (h : Invariant graph source search) (steps : Nat)
    (hsteps : graph.edges.length + 1 ≤ search.settled.length + steps) :
    (search.run graph steps).waiting = [] := by
  induction steps generalizing search with
  | zero =>
    cases hwaiting : search.waiting with
    | nil => rw [Search.run, hwaiting]
    | cons label others =>
      -- One more switch could be settled, but then there would be too many.
      have hlength := (h.nearest hwaiting).settled_length_le
      rw [settle_settled graph _ h.distinct, List.length_cons] at hlength
      omega
  | succ steps ih =>
    cases hwaiting : search.waiting with
    | nil => rw [run_of_nil hwaiting, hwaiting]
    | cons label others =>
      rw [run_of_cons hwaiting]
      apply ih (h.nearest hwaiting)
      rw [settle_settled graph _ h.distinct, List.length_cons]
      omega

/-- Once nothing is waiting, every walk from the source leads to a settled switch, which is no
farther away than the walk is long. -/
theorem Invariant.within_of_walk {search : Search} (h : Invariant graph source search)
    (hwaiting : search.waiting = []) {target : SwitchId} {path : Path}
    (hwalk : graph.IsWalk source target path) :
    Within search.settled target (graph.pathWeight path) := by
  have hrooted := h.rooted
  have hrelaxed := h.relaxed
  simp only [hwaiting, List.append_nil] at hrooted hrelaxed
  refine hwalk.rec_last
    (motive := fun last path => Within search.settled last (graph.pathWeight path)) hrooted ?_
  rintro last next switches hbefore hedge ⟨node, hmem, rfl, hbound⟩
  obtain ⟨edge, hfound⟩ := exists_edge_iff.mpr hedge
  obtain ⟨_, rfl⟩ := joins_of_edge? hfound
  have hnext := hrelaxed node hmem edge (mem_edgesFrom_iff.mpr hfound)
  rw [pathWeight_concat graph hbefore.ends, hopWeight_of_edge? hfound]
  exact hnext.mono (List.Subset.refl _) (Nat.add_le_add_right hbound _)

end Search

end TrafficSteering.Graph
