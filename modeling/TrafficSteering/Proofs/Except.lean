import Mathlib.Data.List.Forall2
set_option autoImplicit false

/-!
# Computations that can fail

What a computation from several parts comes to in terms of its parts: all of them have succeeded, or
the fault is that of one of them.
-/

namespace TrafficSteering

variable {ε α β : Type} {result : Except ε α} {next : α → Except ε β}

theorem bind_eq_ok_iff {value : β} :
    (result >>= next) = .ok value ↔ ∃ first, result = .ok first ∧ next first = .ok value := by
  cases result <;> simp [bind, Except.bind]

theorem bind_eq_error_iff {fault : ε} :
    (result >>= next) = .error fault ↔
      result = .error fault ∨ ∃ first, result = .ok first ∧ next first = .error fault := by
  cases result <;> simp [bind, Except.bind]

theorem map_eq_ok_iff {change : α → β} {value : β} :
    (change <$> result) = .ok value ↔ ∃ first, result = .ok first ∧ change first = value := by
  cases result <;> simp [Functor.map, Except.map]

theorem map_eq_error_iff {change : α → β} {fault : ε} :
    (change <$> result) = .error fault ↔ result = .error fault := by
  cases result <;> simp [Functor.map, Except.map]

/-- The results are those of the items, one for each and in their order. -/
theorem forall₂_of_mapM_eq_ok {step : α → Except ε β} {items : List α} {values : List β}
    (h : items.mapM step = .ok values) :
    List.Forall₂ (fun item value => step item = .ok value) items values := by
  induction items generalizing values with
  | nil =>
    obtain rfl : [] = values := by simpa [pure, Except.pure] using h
    exact .nil
  | cons item rest ih =>
    rw [List.mapM_cons, bind_eq_ok_iff] at h
    obtain ⟨first, hfirst, h⟩ := h
    obtain ⟨others, hothers, h⟩ := bind_eq_ok_iff.mp h
    obtain rfl : first :: others = values := by simpa [pure, Except.pure] using h
    exact .cons hfirst (ih hothers)

/-- Of two lists that correspond, each item of the first has its partner in the second. -/
theorem exists_partner {related : α → β → Prop} {items : List α} {values : List β}
    (h : List.Forall₂ related items values) {item : α} (hitem : item ∈ items) :
    ∃ value ∈ values, related item value := by
  induction h with
  | nil => simp at hitem
  | @cons first value _ _ hfirst _ ih =>
    rcases List.mem_cons.mp hitem with rfl | hmem
    · exact ⟨value, List.mem_cons_self, hfirst⟩
    · obtain ⟨partner, hpartner, hrelated⟩ := ih hmem
      exact ⟨partner, List.mem_cons_of_mem _ hpartner, hrelated⟩

/-- Every one of the results comes from one of the items. -/
theorem exists_of_mapM_eq_ok {step : α → Except ε β} {items : List α} {values : List β}
    (h : items.mapM step = .ok values) :
    ∀ value ∈ values, ∃ item ∈ items, step item = .ok value :=
  fun _ hvalue => exists_partner (forall₂_of_mapM_eq_ok h).flip hvalue

/-- If one of the items has a fault, so do all together. -/
theorem exists_mapM_eq_error {step : α → Except ε β} {items : List α} {item : α}
    (hitem : item ∈ items) {fault : ε} (h : step item = .error fault) :
    ∃ first, items.mapM step = .error first := by
  cases hall : items.mapM step with
  | error first => exact ⟨first, rfl⟩
  | ok values =>
    obtain ⟨value, _, hvalue⟩ := exists_partner (forall₂_of_mapM_eq_ok hall) hitem
    rw [h] at hvalue
    cases hvalue

/-- A fault of all comes from one of the items. -/
theorem exists_of_mapM_eq_error {step : α → Except ε β} {items : List α} {fault : ε}
    (h : items.mapM step = .error fault) : ∃ item ∈ items, step item = .error fault := by
  induction items with
  | nil => simp [pure, Except.pure] at h
  | cons item rest ih =>
    rw [List.mapM_cons, bind_eq_error_iff] at h
    rcases h with hfirst | ⟨first, _, h⟩
    · exact ⟨item, List.mem_cons_self, hfirst⟩
    · rcases bind_eq_error_iff.mp h with hothers | ⟨others, _, hpure⟩
      · obtain ⟨other, hmem, hother⟩ := ih hothers
        exact ⟨other, List.mem_cons_of_mem _ hmem, hother⟩
      · simp [pure, Except.pure] at hpure

end TrafficSteering
