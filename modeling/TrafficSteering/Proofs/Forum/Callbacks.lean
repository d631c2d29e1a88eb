import TrafficSteering.Forum
set_option autoImplicit false

/-!
# Audiences that call back

Whatever listeners do when they are called, they come at the state through requests to its owner.
So a property that every request keeps holds at the end of an operation and also whenever a listener
is called on the way.
-/

namespace TrafficSteering.Forum

variable {σ ρ α : Type} {serve : ρ → σ → Outcome σ Unit} {P : σ → Prop} {since : List (Call σ)}

/-- A property of the state that holds now and held at every call since. -/
structure Throughout (P : σ → Prop) (since : List (Call σ)) (forum : Forum σ ρ) : Prop where
  now : P forum.state
  calls : ∃ later, forum.calls = since ++ later ∧ ∀ call ∈ later, P call.found

theorem Throughout.note {forum : Forum σ ρ} (h : forum.Throughout P since) (listener : Handle)
    (event : Event) : (forum.note listener event).Throughout P since := by
  obtain ⟨later, hcalls, hlater⟩ := h.calls
  refine ⟨h.now, later ++ [⟨listener, event, forum.state⟩], by simp [Forum.note, hcalls], ?_⟩
  intro call hcall
  rcases List.mem_append.mp hcall with hbefore | hlast
  · exact hlater call hbefore
  · obtain rfl := List.mem_singleton.mp hlast
    exact h.now

/-- What each step of a sequence keeps, the sequence keeps. -/
theorem Throughout.foldl {β : Type} {step : Forum σ ρ → β → Forum σ ρ}
    (hstep : ∀ forum item, forum.Throughout P since → (step forum item).Throughout P since)
    {forum : Forum σ ρ} (h : forum.Throughout P since) (items : List β) :
    (items.foldl step forum).Throughout P since := by
  induction items generalizing forum with
  | nil => exact h
  | cons item rest ih => exact ih (hstep forum item h)

section

variable (hserve : ∀ request state, P state → P (serve request state).state)
include hserve

theorem react_throughout {tell : Event → Forum σ ρ → Forum σ ρ} (listener : Handle)
    (htell : ∀ event forum, forum.Throughout P since → (tell event forum).Throughout P since) :
    ∀ (reaction : Reaction ρ) (forum : Forum σ ρ), forum.Throughout P since →
      (react serve tell listener reaction forum).Throughout P since
  | .leave, _, h => ⟨h.now, h.calls⟩
  | .enlist _ _ _, _, h => ⟨h.now, h.calls⟩
  | .dismiss _, _, h => ⟨h.now, h.calls⟩
  | .announce event, forum, h => htell event forum h
  | .ask request, forum, h => by
    have hserved : { forum with state := (serve request forum.state).state }.Throughout P since :=
      ⟨hserve request forum.state h.now, h.calls⟩
    exact hserved.foldl (fun forum event hforum => htell event forum hforum) _
  | .andThen first second, forum, h => by
    have hfirst := react_throughout listener htell first forum h
    exact react_throughout listener htell second _ hfirst

/-- The induction is on the depth to which reactions may nest. -/
theorem call_throughout (depth : Nat) {forum : Forum σ ρ} (h : forum.Throughout P since)
    (listener : Handle) (event : Event) :
    (call serve depth listener event forum).Throughout P since := by
  induction depth generalizing forum listener event with
  | zero => exact h.note listener event
  | succ depth ih =>
    have hnoted := h.note listener event
    unfold call
    cases hnext : (forum.note listener event).audience.nextReaction? listener event with
    | none => simpa only [hnext] using hnoted
    | some found =>
      obtain ⟨reaction, audience⟩ := found
      simp only [hnext]
      refine react_throughout hserve listener ?_ reaction _ ⟨hnoted.now, hnoted.calls⟩
      intro event forum hforum
      exact hforum.foldl (fun _ member h => ih h member event) _

theorem announce_throughout {forum : Forum σ ρ} (h : forum.Throughout P since) (event : Event) :
    (forum.announce serve event).Throughout P since := by
  unfold announce tell
  exact h.foldl (fun _ member h => call_throughout hserve _ h member event) _

/-- An operation with all its callbacks. -/
theorem settle_throughout (forum : Forum σ ρ) {outcome : Outcome σ α} (houtcome : P outcome.state) :
    (forum.settle serve outcome).1.Throughout P forum.calls := by
  have htaken : { forum with state := outcome.state }.Throughout P forum.calls :=
    ⟨houtcome, [], by simp, by simp⟩
  exact htaken.foldl (fun _ event h => announce_throughout hserve h event) outcome.events

end

end TrafficSteering.Forum
