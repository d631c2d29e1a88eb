import TrafficSteering.Proofs.Forum.Minutes
set_option autoImplicit false

/-!
# Accurate minutes

At every moment the list is what the minutes say: those who have registered and have not been taken
off it since, in the order of their registration.  Everything that a forum does is written down as
it happens (`Fits`), so the minutes stay accurate and lawful.
-/

namespace TrafficSteering

/-! ## One more minute -/

theorem Incident.change_cons (incident : Incident) (listener : Handle) (members : List Handle) :
    incident.change (listener :: members) =
      if incident.dismisses listener then incident.change members
      else listener :: incident.change members := by
  cases incident with
  | dismissed other member =>
    by_cases h : listener = other
    · simp [change, dismisses, h]
    · simp [change, dismisses, h, Ne.symm h]
  | _ => rfl

/-- The list after one more incident. -/
theorem registered_concat (minutes : List Minute) (minute : Minute) :
    registered (minutes ++ [minute]) = minute.incident.change (registered minutes) := by
  induction minutes with
  | nil =>
    cases hincident : minute.incident <;>
      simp [registered, Incident.change, Incident.enlisted?, hincident]
  | cons first rest ih =>
    rw [List.cons_append, registered, registered]
    cases first.incident.enlisted? with
    | none => exact ih
    | some listener =>
      simp only [List.any_append, List.any_cons, List.any_nil, Bool.or_false]
      cases hrest : rest.any fun later => later.incident.dismisses listener with
      | true => exact ih
      | false =>
        simp only [Bool.false_or, ih, Bool.false_eq_true, if_false, Incident.change_cons]

theorem registered_sublist (minutes : List Minute) :
    (registered minutes).Sublist (enlistedIn minutes) := by
  induction minutes with
  | nil => exact List.Sublist.refl _
  | cons first rest ih =>
    rw [registered, enlistedIn, List.filterMap_cons]
    cases first.incident.enlisted? with
    | none => exact ih
    | some listener =>
      dsimp only
      split
      · exact ih.cons listener
      · exact ih.cons_cons listener

/-! ## Accurate minutes -/

namespace Minuted

variable {σ ρ : Type} {serve : ρ → σ → Outcome σ Unit}

/-- The minutes say who is on the list, which numbers have been given and who has been called, and
are lawful. -/
structure Accurate (hall : Minuted σ ρ) : Prop where
  members : hall.forum.audience.members = registered hall.minutes
  handles : enlistedIn hall.minutes = List.range hall.forum.audience.roll.length
  calls : hall.forum.calls.map (fun call => (call.listener, call.event)) =
    (callsIn hall.minutes).map Prod.snd
  lawful : ∀ before minute after, hall.minutes = before ++ minute :: after → minute.Lawful before

variable {hall next : Minuted σ ρ}

/-- What has to be true of an incident that leads to another forum, for the minutes to stay
accurate. -/
structure Fits (hall : Minuted σ ρ) (incident : Incident) (next : Forum σ ρ) : Prop where
  admissible : incident.Admissible hall.minutes
  members : next.audience.members = incident.change hall.forum.audience.members
  handles : List.range next.audience.roll.length =
    List.range hall.forum.audience.roll.length ++ incident.enlisted?.toList
  calls : next.calls.map (fun call => (call.listener, call.event)) =
    hall.forum.calls.map (fun call => (call.listener, call.event)) ++
      incident.call?.toList.map Prod.snd

theorem Accurate.ordered (h : hall.Accurate) : (registered hall.minutes).Pairwise (· < ·) := by
  have hhandles : (enlistedIn hall.minutes).Pairwise (· < ·) := by
    rw [h.handles]
    exact List.pairwise_lt_range
  exact hhandles.sublist (registered_sublist _)

theorem Accurate.write (h : hall.Accurate) {incident : Incident} {forum : Forum σ ρ}
    (hfits : hall.Fits incident forum) : (hall.write incident forum).Accurate where
  members := by
    rw [Minuted.write, registered_concat, ← h.members]
    exact hfits.members
  handles := by
    rw [Minuted.write, enlistedIn, List.filterMap_append, ← enlistedIn, h.handles, hfits.handles]
    cases incident <;> rfl
  calls := by
    rw [Minuted.write, callsIn, List.filterMap_append, ← callsIn, List.map_append, ← h.calls,
      hfits.calls]
    cases incident <;> rfl
  lawful := by
    intro before minute after hminutes
    rcases List.eq_nil_or_concat after with rfl | ⟨front, last, rfl⟩
    · obtain ⟨rfl, hminute⟩ := List.append_inj' hminutes rfl
      obtain rfl := List.singleton_inj.mp hminute
      exact ⟨hfits.admissible, h.members, h.members ▸ h.ordered, hfits.members⟩
    · rw [List.concat_eq_append, ← List.cons_append, ← List.append_assoc] at hminutes
      exact h.lawful before minute front (List.append_inj' hminutes rfl).1

theorem Accurate.enlist (h : hall.Accurate) (listener : Listener ρ) :
    (hall.enlist listener).Accurate := by
  refine h.write ⟨?_, rfl, ?_, by simp [Incident.call?, Forum.enlist]⟩
  · intro other hother
    rw [h.handles] at hother
    exact List.mem_range.mp hother
  · simp [Forum.enlist, Audience.enlist, Audience.nextHandle, Incident.enlisted?, List.range_succ]

theorem Accurate.dismiss (h : hall.Accurate) (listener : Handle) :
    (hall.dismiss listener).Accurate := by
  refine h.write ⟨?_, rfl, ?_, by simp [Incident.call?, Forum.dismiss]⟩
  · rw [Incident.Admissible, ← h.members]
    exact List.contains_iff_mem
  · simp [Forum.dismiss, Audience.dismiss, Incident.enlisted?]

theorem Accurate.commence (h : hall.Accurate) (event : Event) :
    (hall.commence event).Accurate :=
  h.write ⟨rfl, rfl, by simp [Incident.enlisted?], by simp [Incident.call?]⟩

theorem Accurate.note (h : hall.Accurate) {announcement : Nat}
    (hbegun : announcement < begunIn hall.minutes) (listener : Handle) (event : Event) :
    (hall.note announcement listener event).Accurate :=
  h.write ⟨hbegun, rfl, by simp [Forum.note, Incident.enlisted?],
    by simp [Incident.call?, Forum.note]⟩

/-- The minutes stay accurate when nothing changes that they tell of. -/
theorem Accurate.of_forum (h : hall.Accurate) {forum : Forum σ ρ}
    (hmembers : forum.audience.members = hall.forum.audience.members)
    (hroll : forum.audience.roll.length = hall.forum.audience.roll.length)
    (hcalls : forum.calls = hall.forum.calls) : { hall with forum }.Accurate where
  members := hmembers.trans h.members
  handles := by simpa only [hroll] using h.handles
  calls := by simpa only [hcalls] using h.calls
  lawful := h.lawful

end Minuted

end TrafficSteering
