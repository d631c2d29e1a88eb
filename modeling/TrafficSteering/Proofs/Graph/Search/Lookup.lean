import TrafficSteering.Proofs.Graph.Edges
import TrafficSteering.Proofs.Graph.Search.Step
set_option autoImplicit false

/-!
# A step, switch by switch

Which label a switch has after a step of the search depends on three things only: whether it is
settled, which label it had before, and which edge leads to it from the switch that has just been
settled.  No two edges of a switch lead to the same other switch, so the order in which they are
followed does not matter.
-/

namespace TrafficSteering.Graph

/-- The label of a switch that is offered another one, which it takes if it has none or if the other
one is strictly shorter. -/
def Label.shorter? : Option Label → Option Label → Option Label
  | old, none => old
  | none, some new => some new
  | some old, some new => if new.distance < old.distance then some new else some old

namespace Search

/-! ## Taking a label in or out -/

theorem labelOf?_cons (label : Label) (labels : List Label) (switch : SwitchId) :
    labelOf? (label :: labels) switch =
      if label.switch = switch then some label else labelOf? labels switch := by
  unfold labelOf?
  by_cases h : label.switch = switch
  · rw [if_pos h, List.find?_cons_of_pos (by simpa using h)]
  · rw [if_neg h, List.find?_cons_of_neg (by simpa using h)]

theorem labelOf?_filter (labels : List Label) (gone switch : SwitchId) :
    labelOf? (labels.filter fun label => label.switch != gone) switch =
      if gone = switch then none else labelOf? labels switch := by
  unfold labelOf?
  rw [List.find?_filter]
  by_cases h : gone = switch
  · rw [if_pos h, List.find?_eq_none]
    simp [h]
  · rw [if_neg h]
    congr 1
    funext label
    by_cases hlabel : label.switch = switch
    · simp [hlabel, Ne.symm h]
    · simp [hlabel]

theorem labelOf?_improve (waiting : List Label) (candidate : Label) (switch : SwitchId) :
    labelOf? (improve waiting candidate) switch =
      if candidate.switch = switch then
        Label.shorter? (labelOf? waiting switch) (some candidate)
      else labelOf? waiting switch := by
  unfold improve
  by_cases h : candidate.switch = switch
  · subst h
    rw [if_pos rfl]
    cases hold : labelOf? waiting candidate.switch with
    | none => rw [labelOf?_cons, if_pos rfl, Label.shorter?]
    | some old =>
      simp only [Label.shorter?]
      split
      · rw [labelOf?_cons, if_pos rfl]
      · exact hold
  · rw [if_neg h]
    split
    · rw [labelOf?_cons, if_neg h]
    · split
      · rw [labelOf?_cons, if_neg h, labelOf?_filter, if_neg h]
      · rfl

/-! ## Following edges -/

theorem relax_settled (node : Label) (search : Search) (edge : Link) :
    (relax node search edge).settled = search.settled := by
  unfold relax
  split <;> rfl

theorem labelOf?_relax {search : Search} {switch : SwitchId} (node : Label)
    (hopen : switch ∉ switchesOf search.settled) (edge : Link) :
    labelOf? (relax node search edge).waiting switch =
      if edge.dst = switch then
        Label.shorter? (labelOf? search.waiting switch) (some (node.extend edge))
      else labelOf? search.waiting switch := by
  unfold relax
  split
  · rename_i hsettled
    rw [labelOf?_isSome_iff] at hsettled
    have hother : edge.dst ≠ switch := fun heq => hopen (heq ▸ hsettled)
    rw [if_neg hother]
  · exact labelOf?_improve search.waiting (node.extend edge) switch

/-- Of several edges to different switches, the one that leads to a switch decides over its
label. -/
theorem labelOf?_foldl_relax {search : Search} {switch : SwitchId} (node : Label)
    (hopen : switch ∉ switchesOf search.settled) {edges : List Link}
    (hdistinct : (edges.map Link.dst).Nodup) :
    labelOf? (edges.foldl (relax node) search).waiting switch =
      Label.shorter? (labelOf? search.waiting switch)
        ((edges.find? fun edge => edge.dst == switch).map node.extend) := by
  induction edges generalizing search with
  | nil => rfl
  | cons edge rest ih =>
    obtain ⟨hfirst, hrest⟩ := List.nodup_cons.mp hdistinct
    rw [List.foldl_cons, ih (by rwa [relax_settled]) hrest, labelOf?_relax node hopen]
    by_cases h : edge.dst = switch
    · -- No edge that follows leads there again.
      have hlast : (rest.find? fun other => other.dst == switch) = none := by
        rw [List.find?_eq_none]
        intro other hmem hother
        apply hfirst
        rw [h, ← beq_iff_eq.mp hother]
        exact List.mem_map_of_mem hmem
      rw [if_pos h, hlast, List.find?_cons_of_pos (by simpa using h)]
      rfl
    · rw [if_neg h, List.find?_cons_of_neg (by simpa using h)]

/-! ## Settling a switch -/

theorem find?_edgesFrom (graph : Graph) (src dst : SwitchId) :
    ((graph.edgesFrom src).find? fun edge => edge.dst == dst) = graph.edge? src dst := by
  unfold edgesFrom edge?
  rw [List.find?_filter]
  congr 1
  funext edge
  rw [Bool.eq_iff_iff]
  simp

/-- The label of a switch that is not settled, after another one has been. -/
theorem labelOf?_settle (graph : Graph) {search : Search} {node : Label} {switch : SwitchId}
    (hopen : switch ∉ switchesOf (node :: search.settled)) :
    labelOf? (search.settle graph node).waiting switch =
      Label.shorter? (labelOf? search.waiting switch)
        ((graph.edge? node.switch switch).map node.extend) := by
  have hother : node.switch ≠ switch := fun heq => hopen (heq ▸ List.mem_cons_self)
  unfold settle
  rw [labelOf?_foldl_relax node hopen (neighbors_nodup node.switch), find?_edgesFrom,
    labelOf?_filter, if_neg hother]

end Search

end TrafficSteering.Graph
