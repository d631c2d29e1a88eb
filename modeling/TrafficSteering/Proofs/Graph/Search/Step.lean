import Mathlib.Data.List.Nodup
import TrafficSteering.Graph.ShortestPath
set_option autoImplicit false

/-!
# One step of the search

What the parts of a step of the shortest-path search do to the labels: which label is settled first,
when a waiting label gives way to a shorter one, and what following the edges of a settled switch
leaves behind.
-/

namespace TrafficSteering.Graph

/-! ## Labels among others -/

/-- The switches that are labelled. -/
def switchesOf (labels : List Label) : List SwitchId := labels.map Label.switch

/-- Some label reaches a switch within a distance. -/
def Within (labels : List Label) (switch : SwitchId) (bound : Nat) : Prop :=
  ∃ label ∈ labels, label.switch = switch ∧ label.distance ≤ bound

theorem mem_switchesOf_iff {labels : List Label} {switch : SwitchId} :
    switch ∈ switchesOf labels ↔ ∃ label ∈ labels, label.switch = switch := by
  simp [switchesOf]

theorem mem_switchesOf {labels : List Label} {label : Label} (h : label ∈ labels) :
    label.switch ∈ switchesOf labels :=
  List.mem_map_of_mem h

/-- Where no switch has two labels, a label is known by its switch. -/
theorem label_unique {labels : List Label} (hdistinct : (switchesOf labels).Nodup) {a b : Label}
    (ha : a ∈ labels) (hb : b ∈ labels) (hswitch : a.switch = b.switch) : a = b :=
  List.inj_on_of_nodup_map hdistinct ha hb hswitch

theorem Within.mono {labels others : List Label} {switch : SwitchId} {a b : Nat}
    (h : Within labels switch a) (hsub : labels ⊆ others) (hle : a ≤ b) :
    Within others switch b := by
  obtain ⟨label, hmem, hswitch, hbound⟩ := h
  exact ⟨label, hsub hmem, hswitch, Nat.le_trans hbound hle⟩

namespace Search

theorem labelOf?_isSome_iff {labels : List Label} {switch : SwitchId} :
    (labelOf? labels switch).isSome = true ↔ switch ∈ switchesOf labels := by
  simp [labelOf?, mem_switchesOf_iff]

theorem of_labelOf? {labels : List Label} {switch : SwitchId} {label : Label}
    (h : labelOf? labels switch = some label) : label ∈ labels ∧ label.switch = switch :=
  ⟨List.mem_of_find?_eq_some h, by simpa using List.find?_some h⟩

theorem labelOf?_eq_some {labels : List Label} (hdistinct : (switchesOf labels).Nodup)
    {label : Label} (hmem : label ∈ labels) : labelOf? labels label.switch = some label := by
  cases hfound : labelOf? labels label.switch with
  | none =>
    have hsome := labelOf?_isSome_iff.mpr (mem_switchesOf hmem)
    rw [hfound] at hsome
    simp at hsome
  | some other =>
    obtain ⟨hother, hswitch⟩ := of_labelOf? hfound
    rw [label_unique hdistinct hother hmem hswitch]

end Search

/-! ## The label that is settled first -/

namespace Label

theorem before_iff {a b : Label} :
    a.before b = true ↔
      a.distance < b.distance ∨ (a.distance = b.distance ∧ a.switch.number < b.switch.number) := by
  simp [before]

/-- Of the labels of two switches, one comes before the other. -/
theorem before_of_not_before {a b : Label} (hne : a.switch ≠ b.switch)
    (h : ¬ b.before a = true) : a.before b = true := by
  have hnumbers : a.switch.number ≠ b.switch.number :=
    fun heq => hne (SwitchId.number_injective heq)
  rw [before_iff] at h ⊢
  omega

theorem distance_le_of_not_before {a b : Label} (h : ¬ b.before a = true) :
    a.distance ≤ b.distance := by
  rw [before_iff] at h
  omega

theorem not_before_of_before {a b : Label} (h : a.before b = true) : ¬ b.before a = true := by
  rw [before_iff] at h ⊢
  omega

theorem first_mem (label : Label) (others : List Label) :
    label.first others ∈ label :: others := by
  induction others generalizing label with
  | nil => exact List.mem_singleton.mpr rfl
  | cons other rest ih =>
    have hmem := ih (if other.before label then other else label)
    rw [first, List.foldl_cons]
    rcases List.mem_cons.mp hmem with heq | hrest
    · rw [first] at heq
      rw [heq]
      split <;> simp
    · exact List.mem_cons_of_mem _ (List.mem_cons_of_mem _ hrest)

/-- No label comes before the one that is settled first. -/
theorem not_before_first (label : Label) (others : List Label) :
    ∀ other ∈ label :: others, ¬ other.before (label.first others) = true := by
  induction others generalizing label with
  | nil =>
    intro other hmem
    rw [List.mem_singleton.mp hmem, before_iff]
    simp [first]
  | cons next rest ih =>
    have hrest := ih (if next.before label then next else label)
    rw [first, List.foldl_cons]
    rw [first] at hrest
    have hbest := hrest _ List.mem_cons_self
    intro other hmem
    rcases List.mem_cons.mp hmem with rfl | hmem
    · by_cases hnext : next.before other = true
      · rw [if_pos hnext] at hbest ⊢
        rw [before_iff] at hbest hnext ⊢
        omega
      · rw [if_neg hnext] at hbest ⊢
        exact hbest
    · rcases List.mem_cons.mp hmem with rfl | hmem
      · by_cases hnext : other.before label = true
        · rw [if_pos hnext] at hbest ⊢
          exact hbest
        · rw [if_neg hnext] at hbest ⊢
          rw [before_iff] at hbest hnext ⊢
          omega
      · exact hrest other (List.mem_cons_of_mem _ hmem)

theorem first_distance_le (label : Label) (others : List Label) :
    ∀ other ∈ label :: others, (label.first others).distance ≤ other.distance :=
  fun other hmem => distance_le_of_not_before (not_before_first label others other hmem)

end Label

namespace Search

/-! ## Taking a new label -/

theorem mem_improve {waiting : List Label} {candidate label : Label}
    (h : label ∈ improve waiting candidate) : label ∈ waiting ∨ label = candidate := by
  rw [improve] at h
  split at h
  · exact (List.mem_cons.mp h).symm
  · split at h
    · rcases List.mem_cons.mp h with heq | hmem
      · exact Or.inr heq
      · exact Or.inl (List.mem_of_mem_filter hmem)
    · exact Or.inl h

theorem improve_distinct {waiting : List Label} (candidate : Label)
    (hdistinct : (switchesOf waiting).Nodup) :
    (switchesOf (improve waiting candidate)).Nodup := by
  rw [improve]
  split
  · rename_i hnone
    refine List.nodup_cons.mpr ⟨?_, hdistinct⟩
    intro hmem
    have hsome := labelOf?_isSome_iff.mpr hmem
    rw [hnone] at hsome
    simp at hsome
  · split
    · refine List.nodup_cons.mpr ⟨?_, hdistinct.sublist (List.filter_sublist.map _)⟩
      intro hmem
      obtain ⟨label, hkept, hswitch⟩ := mem_switchesOf_iff.mp hmem
      have hne := (List.mem_filter.mp hkept).2
      simp [hswitch] at hne
    · exact hdistinct

/-- A switch that could be reached within a distance still can. -/
theorem improve_keeps {waiting : List Label} (candidate : Label)
    (hdistinct : (switchesOf waiting).Nodup) {switch : SwitchId} {bound : Nat}
    (h : Within waiting switch bound) : Within (improve waiting candidate) switch bound := by
  obtain ⟨label, hmem, hswitch, hbound⟩ := h
  rw [improve]
  split
  · exact ⟨label, List.mem_cons_of_mem _ hmem, hswitch, hbound⟩
  · rename_i old hold
    obtain ⟨hmemOld, hswitchOld⟩ := of_labelOf? hold
    split
    · rename_i hshorter
      by_cases hsame : label.switch = candidate.switch
      · -- The label gives way to the candidate, which is shorter.
        have hlabel : label = old :=
          label_unique hdistinct hmem hmemOld (hsame.trans hswitchOld.symm)
        rw [← hlabel] at hshorter
        exact ⟨candidate, List.mem_cons_self, hsame.symm.trans hswitch, by omega⟩
      · exact ⟨label, List.mem_cons_of_mem _ (List.mem_filter.mpr ⟨hmem, by simpa using hsame⟩),
          hswitch, hbound⟩
    · exact ⟨label, hmem, hswitch, hbound⟩

/-- The switch of a new label can be reached within its distance. -/
theorem improve_reaches (waiting : List Label) (candidate : Label) :
    Within (improve waiting candidate) candidate.switch candidate.distance := by
  rw [improve]
  split
  · exact ⟨candidate, List.mem_cons_self, rfl, Nat.le_refl _⟩
  · rename_i old hold
    obtain ⟨hmemOld, hswitchOld⟩ := of_labelOf? hold
    split
    · exact ⟨candidate, List.mem_cons_self, rfl, Nat.le_refl _⟩
    · rename_i hlonger
      exact ⟨old, hmemOld, hswitchOld, by omega⟩

/-! ## Following edges -/

/-- What following some edges of a settled switch does to the search. -/
structure Followed (node : Label) (edges : List Link) (search after : Search) : Prop where
  /-- Nothing is settled on the way. -/
  settled : after.settled = search.settled
  /-- No switch waits twice. -/
  distinct : (switchesOf after.waiting).Nodup
  /-- Every new label extends the settled one to a switch that is not settled. -/
  made : ∀ label ∈ after.waiting, label ∈ search.waiting ∨
    ∃ edge ∈ edges, label = node.extend edge ∧ edge.dst ∉ switchesOf search.settled
  /-- Whatever waited within a distance still does. -/
  kept : ∀ {switch : SwitchId} {bound : Nat},
    Within search.waiting switch bound → Within after.waiting switch bound
  /-- The far end of each edge is settled or waits within the distance along the edge. -/
  reached : ∀ edge ∈ edges, edge.dst ∈ switchesOf search.settled ∨
    Within after.waiting edge.dst (node.distance + edge.weight.toNat)

theorem relax_followed (node : Label) (search : Search) (edge : Link)
    (hdistinct : (switchesOf search.waiting).Nodup) :
    Followed node [edge] search (relax node search edge) := by
  rw [relax]
  split
  · rename_i hsettled
    rw [labelOf?_isSome_iff] at hsettled
    exact ⟨rfl, hdistinct, fun _ h => Or.inl h, fun h => h,
      fun other hmem => Or.inl (by rw [List.mem_singleton.mp hmem]; exact hsettled)⟩
  · rename_i hopen
    rw [labelOf?_isSome_iff] at hopen
    refine ⟨rfl, improve_distinct _ hdistinct, ?_, improve_keeps _ hdistinct, ?_⟩
    · intro label hmem
      rcases mem_improve hmem with hold | hnew
      · exact Or.inl hold
      · exact Or.inr ⟨edge, List.mem_singleton.mpr rfl, hnew, hopen⟩
    · intro other hmem
      rw [List.mem_singleton.mp hmem]
      exact Or.inr (improve_reaches search.waiting (node.extend edge))

theorem Followed.trans {node : Label} {edges others : List Link} {a b c : Search}
    (hab : Followed node edges a b) (hbc : Followed node others b c) :
    Followed node (edges ++ others) a c where
  settled := hbc.settled.trans hab.settled
  distinct := hbc.distinct
  made := by
    intro label hmem
    rcases hbc.made label hmem with hold | ⟨edge, hedge, hlabel, hopen⟩
    · rcases hab.made label hold with hold | ⟨edge, hedge, hlabel, hopen⟩
      · exact Or.inl hold
      · exact Or.inr ⟨edge, List.mem_append_left _ hedge, hlabel, hopen⟩
    · rw [hab.settled] at hopen
      exact Or.inr ⟨edge, List.mem_append_right _ hedge, hlabel, hopen⟩
  kept := fun h => hbc.kept (hab.kept h)
  reached := by
    intro edge hmem
    rcases List.mem_append.mp hmem with hfirst | hsecond
    · exact (hab.reached edge hfirst).imp_right fun h => hbc.kept h
    · have hreached := hbc.reached edge hsecond
      rwa [hab.settled] at hreached

/-- Following edges one after another. -/
theorem foldl_relax_followed (node : Label) (edges : List Link) (search : Search)
    (hdistinct : (switchesOf search.waiting).Nodup) :
    Followed node edges search (edges.foldl (relax node) search) := by
  induction edges generalizing search with
  | nil => exact ⟨rfl, hdistinct, fun _ h => Or.inl h, fun h => h, by simp⟩
  | cons edge rest ih =>
    have hone := relax_followed node search edge hdistinct
    exact hone.trans (ih _ hone.distinct)

/-- Settling a switch takes its label out of the waiting ones and follows its edges. -/
theorem settle_followed (graph : Graph) {search : Search} (node : Label)
    (hdistinct : (switchesOf search.waiting).Nodup) :
    Followed node (graph.edgesFrom node.switch)
      ⟨node :: search.settled, search.waiting.filter fun label => label.switch != node.switch⟩
      (search.settle graph node) :=
  foldl_relax_followed _ _ _ (hdistinct.sublist (List.filter_sublist.map _))

theorem settle_settled (graph : Graph) {search : Search} (node : Label)
    (hdistinct : (switchesOf search.waiting).Nodup) :
    (search.settle graph node).settled = node :: search.settled :=
  (settle_followed graph node hdistinct).settled

/-- What waits after a step has waited before it or extends the settled label. -/
theorem settle_made (graph : Graph) {search : Search} (node : Label)
    (hdistinct : (switchesOf search.waiting).Nodup) :
    ∀ label ∈ (search.settle graph node).waiting,
      (label ∈ search.waiting ∧ label.switch ≠ node.switch) ∨
        ∃ edge ∈ graph.edgesFrom node.switch, label = node.extend edge ∧
          edge.dst ∉ switchesOf (node :: search.settled) := by
  intro label hmem
  rcases (settle_followed graph node hdistinct).made label hmem with hold | hnew
  · exact Or.inl (by simpa using hold)
  · exact Or.inr hnew

/-- A step leaves every switch within the distance it had. -/
theorem settle_keeps (graph : Graph) {search : Search} {node : Label}
    (hdistinct : (switchesOf search.waiting).Nodup) (hnode : node ∈ search.waiting)
    {switch : SwitchId} {bound : Nat}
    (h : Within (search.settled ++ search.waiting) switch bound) :
    Within ((search.settle graph node).settled ++ (search.settle graph node).waiting)
      switch bound := by
  obtain ⟨label, hmem, hswitch, hbound⟩ := h
  rw [settle_settled graph node hdistinct]
  rcases List.mem_append.mp hmem with hsettled | hwaiting
  · exact ⟨label, by simp [hsettled], hswitch, hbound⟩
  · by_cases hsame : label.switch = node.switch
    · obtain rfl := label_unique hdistinct hwaiting hnode hsame
      exact ⟨label, by simp, hswitch, hbound⟩
    · have hopen := (settle_followed graph node hdistinct).kept
        ⟨label, List.mem_filter.mpr ⟨hwaiting, by simpa using hsame⟩, hswitch, hbound⟩
      exact hopen.mono (List.subset_append_right _ _) (Nat.le_refl _)

end Search

end TrafficSteering.Graph
