import TrafficSteering.Graph
set_option autoImplicit false

/-!
# Graphs from reports

A report makes a graph exactly if it lists both ends of each of its links.  Otherwise the fault
names the first end that it does not list: links are read in report order, and of each link the
source first.
-/

namespace TrafficSteering

/-- Both ends of a link are listed. -/
def Link.Within (link : Link) (switches : List SwitchId) : Prop :=
  link.src ∈ switches ∧ link.dst ∈ switches

instance (link : Link) (switches : List SwitchId) : Decidable (link.Within switches) :=
  inferInstanceAs (Decidable (_ ∧ _))

/-- Reading link by link, this switch is the first end that is not listed. -/
structure FirstStranger (switches : List SwitchId) (links : List Link) (stranger : SwitchId) :
    Prop where
  unlisted : stranger ∉ switches
  /-- It is an end of a link before which all links are within; and if it is the destination, the
  source is listed. -/
  first : ∃ earlier link later, links = earlier ++ link :: later ∧
    (∀ other ∈ earlier, other.Within switches) ∧
    (link.src = stranger ∨ link.src ∈ switches ∧ link.dst = stranger)

namespace Graph

variable {switches : List SwitchId} {links : List Link} {stranger : SwitchId}

/-! ## The first stranger -/

theorem firstStranger?_of_src {link : Link} (h : link.src ∉ switches) (rest : List Link) :
    firstStranger? switches (link :: rest) = some link.src := by
  simp [firstStranger?, linkEnds, h]

theorem firstStranger?_of_dst {link : Link} (hsrc : link.src ∈ switches)
    (hdst : link.dst ∉ switches) (rest : List Link) :
    firstStranger? switches (link :: rest) = some link.dst := by
  simp [firstStranger?, linkEnds, hsrc, hdst]

theorem firstStranger?_of_within {link : Link} (h : link.Within switches) (rest : List Link) :
    firstStranger? switches (link :: rest) = firstStranger? switches rest := by
  simp [firstStranger?, linkEnds, h.1, h.2]

theorem firstStranger?_eq_none_iff :
    firstStranger? switches links = none ↔ ∀ link ∈ links, link.Within switches := by
  simp only [firstStranger?, linkEnds, List.find?_eq_none, List.mem_flatMap]
  constructor
  · intro h link hmem
    have hends := fun switch hend => h switch ⟨link, hmem, hend⟩
    exact ⟨by simpa using hends link.src (by simp), by simpa using hends link.dst (by simp)⟩
  · rintro h switch ⟨link, hmem, hend⟩
    obtain ⟨hsrc, hdst⟩ := h link hmem
    simp only [List.mem_cons, List.not_mem_nil, or_false] at hend
    rcases hend with rfl | rfl
    · simpa using hsrc
    · simpa using hdst

/-- A link with both ends listed can be left out. -/
theorem firstStranger_cons_iff {link : Link} (h : link.Within switches) {rest : List Link} :
    FirstStranger switches (link :: rest) stranger ↔ FirstStranger switches rest stranger := by
  constructor
  · rintro ⟨hunlisted, earlier, found, later, hlinks, hearlier, hend⟩
    refine ⟨hunlisted, ?_⟩
    cases earlier with
    | nil =>
      -- Then the stranger would be an end of this link.
      obtain ⟨rfl, -⟩ := List.cons.inj hlinks
      rcases hend with rfl | ⟨-, rfl⟩
      · exact absurd h.1 hunlisted
      · exact absurd h.2 hunlisted
    | cons head tail =>
      obtain ⟨-, hrest⟩ := List.cons.inj hlinks
      exact ⟨tail, found, later, hrest, fun other hmem => hearlier other (by simp [hmem]), hend⟩
  · rintro ⟨hunlisted, earlier, found, later, rfl, hearlier, hend⟩
    refine ⟨hunlisted, link :: earlier, found, later, rfl, ?_, hend⟩
    intro other hmem
    rcases List.mem_cons.mp hmem with rfl | hmem
    · exact h
    · exact hearlier other hmem

theorem firstStranger_of_head {link : Link} (hunlisted : stranger ∉ switches)
    (hend : link.src = stranger ∨ link.src ∈ switches ∧ link.dst = stranger) (rest : List Link) :
    FirstStranger switches (link :: rest) stranger :=
  ⟨hunlisted, [], link, rest, rfl, by simp, hend⟩

/-- What is found is the first stranger in the order of the links. -/
theorem firstStranger_of_eq_some (h : firstStranger? switches links = some stranger) :
    FirstStranger switches links stranger := by
  induction links with
  | nil => cases h
  | cons link rest ih =>
    by_cases hsrc : link.src ∈ switches
    · by_cases hdst : link.dst ∈ switches
      · rw [firstStranger?_of_within ⟨hsrc, hdst⟩] at h
        exact (firstStranger_cons_iff ⟨hsrc, hdst⟩).mpr (ih h)
      · obtain rfl := Option.some.inj ((firstStranger?_of_dst hsrc hdst rest).symm.trans h)
        exact firstStranger_of_head hdst (.inr ⟨hsrc, rfl⟩) rest
    · obtain rfl := Option.some.inj ((firstStranger?_of_src hsrc rest).symm.trans h)
      exact firstStranger_of_head hsrc (.inl rfl) rest

theorem firstStranger?_eq_some_iff :
    firstStranger? switches links = some stranger ↔ FirstStranger switches links stranger := by
  constructor
  · exact firstStranger_of_eq_some
  · intro h
    induction links with
    | nil =>
      obtain ⟨earlier, _, _, hlinks, _⟩ := h.first
      simp at hlinks
    | cons link rest ih =>
      by_cases hwithin : link.Within switches
      · rw [firstStranger?_of_within hwithin]
        exact ih ((firstStranger_cons_iff hwithin).mp h)
      · obtain ⟨hunlisted, earlier, found, later, hlinks, hearlier, hend⟩ := h
        cases earlier with
        | cons head tail =>
          obtain ⟨rfl, -⟩ := List.cons.inj hlinks
          exact absurd (hearlier link (by simp)) hwithin
        | nil =>
          obtain ⟨rfl, -⟩ := List.cons.inj hlinks
          rcases hend with rfl | ⟨hsrc, rfl⟩
          · exact firstStranger?_of_src hunlisted rest
          · exact firstStranger?_of_dst hsrc hunlisted rest

/-! ## Building a graph -/

theorem build_eq_error_iff {fault : Fault} :
    build switches links = .error fault ↔
      ∃ stranger, FirstStranger switches links stranger ∧ fault = .unknownSwitch stranger := by
  unfold build
  split
  · rename_i stranger hfound
    constructor
    · intro h
      exact ⟨stranger, firstStranger_of_eq_some hfound, (Except.error.inj h).symm⟩
    · rintro ⟨other, hother, rfl⟩
      rw [firstStranger?_eq_some_iff.mpr hother] at hfound
      rw [Option.some.inj hfound]
  · rename_i hnone
    constructor
    · exact nofun
    · rintro ⟨other, hother, -⟩
      rw [firstStranger?_eq_some_iff.mpr hother] at hnone
      cases hnone

/-- A graph has the listed switches and the reported links. -/
theorem build_eq_ok {graph : Graph} (h : build switches links = .ok graph) :
    graph.switches = switches.eraseDups ∧ graph.links = links := by
  unfold build at h
  split at h
  · cases h
  · obtain rfl := Except.ok.inj h
    exact ⟨rfl, rfl⟩

/-- A graph is made exactly if both ends of each link are listed. -/
theorem exists_build_iff :
    (∃ graph, build switches links = .ok graph) ↔ ∀ link ∈ links, link.Within switches := by
  rw [← firstStranger?_eq_none_iff]
  unfold build
  split
  · rename_i stranger hfound
    simp [hfound]
  · rename_i hnone
    simp [hnone]

end Graph

end TrafficSteering
