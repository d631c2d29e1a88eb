import TrafficSteering.Forum
set_option autoImplicit false

/-!
# No reaction is lost

An announcement gives listeners as much depth as the audience has patience.  Every reaction uses up
at least one unit of the patience and brings in only as much as it weighs, so a listener that still
has a reaction is never called at depth zero: more depth would change nothing.
-/

namespace TrafficSteering

variable {σ ρ α : Type}

/-! ## Weights and patience -/

namespace Reaction

theorem weight_pos (reaction : Reaction ρ) : 0 < reaction.weight := by
  cases reaction <;> simp only [weight] <;> omega

theorem weights_append (reactions others : List (Streak (Reaction ρ))) :
    weights (reactions ++ others) = weights reactions + weights others := by
  induction reactions with
  | nil => simp [weights]
  | cons streak rest ih => simp only [List.cons_append, weights, ih, Nat.add_assoc]

theorem weights_of_next? {reactions rest : List (Streak (Reaction ρ))} {reaction : Reaction ρ}
    (h : Streak.next? reactions = some (reaction, rest)) :
    weights reactions = reaction.weight + weights rest := by
  match reactions with
  | [] => simp [Streak.next?] at h
  | ⟨item, 0⟩ :: others =>
    simp only [Streak.next?, Option.some.injEq, Prod.mk.injEq] at h
    obtain ⟨rfl, rfl⟩ := h
    simp [weights]
  | ⟨item, more + 1⟩ :: others =>
    simp only [Streak.next?, Option.some.injEq, Prod.mk.injEq] at h
    obtain ⟨rfl, rfl⟩ := h
    simp only [weights, Nat.add_one_mul]
    omega

/-- What another list of reactions in one place of the roll adds to the weight of all. -/
theorem weights_set {roll : List (Listener ρ)} {place : Nat} {old : Listener ρ}
    (h : roll[place]? = some old) (new : Listener ρ) :
    weights ((roll.set place new).flatMap Listener.reactions) + weights old.reactions =
      weights (roll.flatMap Listener.reactions) + weights new.reactions := by
  induction roll generalizing place with
  | nil => simp at h
  | cons first rest ih =>
    cases place with
    | zero =>
      obtain rfl : first = old := Option.some.inj h
      simp only [List.set_cons_zero, List.flatMap_cons, weights_append]
      omega
    | succ place =>
      have hrest := ih h
      simp only [List.set_cons_succ, List.flatMap_cons, weights_append]
      omega

end Reaction

namespace Audience

theorem patience_enlist (audience : Audience ρ) (listener : Listener ρ) :
    (audience.enlist listener).patience =
      audience.patience + Reaction.weights listener.reactions := by
  simp [patience, enlist, Reaction.weights_append]

/-- A reaction takes from the patience what it weighs. -/
theorem patience_of_nextReaction? {audience rest : Audience ρ} {listener : Handle} {event : Event}
    {reaction : Reaction ρ} (h : audience.nextReaction? listener event = some (reaction, rest)) :
    audience.patience = reaction.weight + rest.patience := by
  obtain ⟨entry, reactions, hentry, hnext, -, rfl⟩ := nextReaction?_eq_some_iff.mp h
  have htaken := Reaction.weights_of_next? hnext
  have hset := Reaction.weights_set hentry { entry with reactions }
  simp only [patience] at hset ⊢
  show _ = _ + Reaction.weights _
  omega

end Audience

/-! ## Announcements -/

namespace Forum

variable {serve : ρ → σ → Outcome σ Unit}

/-- What does not add to the patience in one step does not in many. -/
theorem patience_foldl_le {β : Type} {step : Forum σ ρ → β → Forum σ ρ}
    (hstep : ∀ forum item, (step forum item).audience.patience ≤ forum.audience.patience)
    (forum : Forum σ ρ) (items : List β) :
    (items.foldl step forum).audience.patience ≤ forum.audience.patience := by
  induction items generalizing forum with
  | nil => exact Nat.le_refl _
  | cons item rest ih => exact Nat.le_trans (ih (step forum item)) (hstep forum item)

/-- Steps that agree on audiences of little patience agree in sequence. -/
theorem foldl_congr_of_patience {β : Type} {step other : Forum σ ρ → β → Forum σ ρ} {bound : Nat}
    (hstep : ∀ forum item, (step forum item).audience.patience ≤ forum.audience.patience)
    (hsame : ∀ forum item, forum.audience.patience ≤ bound → step forum item = other forum item)
    {forum : Forum σ ρ} (hbound : forum.audience.patience ≤ bound) (items : List β) :
    items.foldl step forum = items.foldl other forum := by
  induction items generalizing forum with
  | nil => rfl
  | cons item rest ih =>
    have hnext := ih (Nat.le_trans (hstep forum item) hbound)
    rw [List.foldl_cons, List.foldl_cons, hnext, hsame forum item hbound]

section

variable {tell other : Event → Forum σ ρ → Forum σ ρ}
  (htell : ∀ event forum, (tell event forum).audience.patience ≤ forum.audience.patience)
include htell

variable (serve) in
/-- A reaction adds less to the patience than it weighs. -/
theorem patience_react_lt (listener : Handle) : ∀ (reaction : Reaction ρ) (forum : Forum σ ρ),
    (react serve tell listener reaction forum).audience.patience <
      forum.audience.patience + reaction.weight
  | .leave, forum => by
    simp [react, dismiss, Audience.dismiss, Audience.patience, Reaction.weight]
  | .enlist records attention reactions, forum => by
    simp only [react, enlist, Audience.patience_enlist, Reaction.weight]
    omega
  | .dismiss other, forum => by
    simp [react, dismiss, Audience.dismiss, Audience.patience, Reaction.weight]
  | .announce event, forum => by
    have hle := htell event forum
    simp only [react, Reaction.weight]
    omega
  | .ask request, forum => by
    have hle := patience_foldl_le (fun forum event => htell event forum)
      { forum with state := (serve request forum.state).state } (serve request forum.state).events
    simp only [react, Reaction.weight]
    exact Nat.lt_add_one_of_le hle
  | .andThen first second, forum => by
    have hfirst := patience_react_lt listener first forum
    have hsecond := patience_react_lt listener second
      (react serve tell listener first forum)
    simp only [react, Reaction.weight]
    omega

/-- A reaction comes to the same however announcements are made to audiences of more patience than
it leaves. -/
theorem react_congr_of_patience {bound : Nat}
    (hsame : ∀ event forum, forum.audience.patience ≤ bound → tell event forum = other event forum)
    (listener : Handle) : ∀ (reaction : Reaction ρ) (forum : Forum σ ρ),
      forum.audience.patience + reaction.weight ≤ bound + 1 →
      react serve tell listener reaction forum = react serve other listener reaction forum
  | .leave, _, _ => rfl
  | .enlist _ _ _, _, _ => rfl
  | .dismiss _, _, _ => rfl
  | .announce event, forum, h => by
    simp only [Reaction.weight] at h
    exact hsame event forum (by omega)
  | .ask request, forum, h => by
    simp only [Reaction.weight] at h
    have hbound : { forum with state := (serve request forum.state).state }.audience.patience ≤
        bound := Nat.le_of_add_le_add_right h
    simp only [react]
    exact foldl_congr_of_patience (fun forum event => htell event forum)
      (fun forum event hforum => hsame event forum hforum) hbound _
  | .andThen first second, forum, h => by
    simp only [Reaction.weight] at h
    have hpos := second.weight_pos
    have hfirst := react_congr_of_patience hsame listener first forum (by omega)
    have hafter := patience_react_lt serve htell listener first forum
    have hsecond := react_congr_of_patience hsame listener second
      (react serve tell listener first forum) (by omega)
    simp only [react]
    rw [hsecond, hfirst]

end

theorem patience_call_le (depth : Nat) (listener : Handle) (event : Event) (forum : Forum σ ρ) :
    (call serve depth listener event forum).audience.patience ≤ forum.audience.patience := by
  induction depth generalizing listener event forum with
  | zero => exact Nat.le_refl _
  | succ depth ih =>
    unfold call
    cases hnext : forum.audience.nextReaction? listener event with
    | none => simp [note, hnext]
    | some found =>
      obtain ⟨reaction, audience⟩ := found
      have htaken := Audience.patience_of_nextReaction? hnext
      have htell : ∀ event (forum : Forum σ ρ),
          (forum.audience.members.foldl (fun forum member => call serve depth member event forum)
            forum).audience.patience ≤ forum.audience.patience :=
        fun event forum => patience_foldl_le (fun forum member => ih member event forum) forum _
      have hreact := patience_react_lt serve htell listener reaction
        { forum.note listener event with audience }
      simp only [note, hnext] at hreact ⊢
      omega

/-- With as much depth as patience, one more level of depth changes nothing.  The induction is on
the depth: the reaction leaves less patience to the announcements that it makes. -/
theorem call_succ_of_patience {depth : Nat} {forum : Forum σ ρ}
    (h : forum.audience.patience ≤ depth) (listener : Handle) (event : Event) :
    call serve (depth + 1) listener event forum = call serve depth listener event forum := by
  induction depth generalizing forum listener event with
  | zero =>
    have hnone : forum.audience.nextReaction? listener event = none := by
      cases hnext : forum.audience.nextReaction? listener event with
      | none => rfl
      | some found =>
        have htaken := Audience.patience_of_nextReaction? hnext
        have hpos := found.1.weight_pos
        omega
    unfold call
    simp only [note, hnone]
  | succ depth ih =>
    unfold call
    cases hnext : forum.audience.nextReaction? listener event with
    | none => simp only [note, hnext]
    | some found =>
      obtain ⟨reaction, audience⟩ := found
      have htaken := Audience.patience_of_nextReaction? hnext
      simp only [note, hnext]
      refine react_congr_of_patience ?_ ?_ listener reaction _ (?_ : _ ≤ depth + 1)
      · exact fun event forum =>
          patience_foldl_le (fun forum member => patience_call_le _ member event forum) forum _
      · exact fun event forum hforum => foldl_congr_of_patience
          (fun forum member => patience_call_le _ member event forum)
          (fun forum member hmember => ih hmember member event) hforum _
      · show audience.patience + reaction.weight ≤ depth + 1
        omega

theorem call_of_patience_le {depth : Nat} {forum : Forum σ ρ} (h : forum.audience.patience ≤ depth)
    (more : Nat) (listener : Handle) (event : Event) :
    call serve (depth + more) listener event forum = call serve depth listener event forum := by
  induction more with
  | zero => rfl
  | succ more ih =>
    rw [← ih, ← Nat.add_assoc]
    exact call_succ_of_patience (Nat.le_trans h (Nat.le_add_right depth more)) listener event

/-- However deep reactions are allowed to nest beyond the patience of the audience, an announcement
comes to the same. -/
theorem tell_eq_announce {depth : Nat} {forum : Forum σ ρ} (h : forum.audience.patience ≤ depth)
    (event : Event) : forum.tell serve depth event = forum.announce serve event := by
  obtain ⟨more, rfl⟩ := Nat.exists_eq_add_of_le h
  unfold announce tell
  refine foldl_congr_of_patience (fun forum member => patience_call_le _ member event forum) ?_
    (Nat.le_refl forum.audience.patience) _
  intro _ member hmember
  obtain ⟨room, hroom⟩ := Nat.exists_eq_add_of_le hmember
  rw [hroom, Nat.add_assoc, call_of_patience_le (Nat.le_refl _),
    call_of_patience_le (Nat.le_refl _)]

end Forum

end TrafficSteering
