import TrafficSteering.Proofs.Forum.Accuracy
set_option autoImplicit false

/-!
# Who is called

However listeners react when they are called, each announcement calls exactly those who are on the
list when it begins, each once and in their order.  What happens on the way from one of its calls to
the next belongs to announcements that begin later, so an announcement finds its own calls as it has
left them (`Conducted`).
-/

namespace TrafficSteering

/-! ## Numbers of announcements -/

theorem begunIn_append (minutes later : List Minute) :
    begunIn (minutes ++ later) = begunIn minutes + begunIn later := List.countP_append

theorem begunIn_le_append (minutes later : List Minute) :
    begunIn minutes ≤ begunIn (minutes ++ later) :=
  begunIn_append minutes later ▸ Nat.le_add_right _ _

theorem callsOf_append (announcement : Nat) (minutes later : List Minute) :
    callsOf announcement (minutes ++ later) =
      callsOf announcement minutes ++ callsOf announcement later := by
  simp [callsOf, callsIn]

theorem callsOf_cons (announcement : Nat) (minute : Minute) (later : List Minute) :
    callsOf announcement (minute :: later) =
      callsOf announcement [minute] ++ callsOf announcement later :=
  callsOf_append announcement [minute] later

theorem callsOf_singleton {minute : Minute} (h : minute.incident.call? = none)
    (announcement : Nat) : callsOf announcement [minute] = [] := by
  simp [callsOf, callsIn, h]

/-! ## Calls that nest -/

/-- What has been written down since, while one announcement was calling: its own calls, and whole
announcements that began later. -/
structure Conducted (current : Nat) (called : List (Handle × Event)) (before later : List Minute) :
    Prop where
  /-- Of the announcements that had begun only the current one has called, and only these. -/
  earlier : ∀ announcement < begunIn before,
    callsOf announcement later = if announcement = current then called else []
  /-- No announcement calls before it begins. -/
  future : ∀ announcement, begunIn (before ++ later) ≤ announcement →
    callsOf announcement later = []
  /-- An announcement that has begun since is over, and has called those whom it found. -/
  delivered : ∀ minute ∈ later, ∀ announcement event,
    minute.incident = .begun announcement event →
    (begunIn before ≤ announcement ∧ announcement < begunIn (before ++ later)) ∧
      callsOf announcement later = minute.found.map fun listener => (listener, event)

namespace Conducted

variable {current : Nat} {called further : List (Handle × Event)}
  {before later rest : List Minute} {minute : Minute}

theorem nil : Conducted current [] before [] :=
  ⟨fun _ _ => by simp [callsOf, callsIn], fun _ _ => rfl, by simp⟩

/-- Somebody registers or is taken off the list. -/
theorem still (hcall : minute.incident.call? = none)
    (hbegun : minute.incident.isBeginning = false) : Conducted current [] before [minute] where
  earlier := by simp [callsOf_singleton hcall]
  future announcement _ := callsOf_singleton hcall announcement
  delivered := by
    intro other hother announcement event hincident
    obtain rfl := List.mem_singleton.mp hother
    simp [hincident, Incident.isBeginning] at hbegun

theorem call (hcurrent : current < begunIn before) {listener : Handle} {event : Event}
    (hminute : minute.incident = .called current listener event) :
    Conducted current [(listener, event)] before [minute] where
  earlier := by
    intro announcement _
    by_cases h : announcement = current
    · simp [callsOf, callsIn, hminute, Incident.call?, h]
    · simp [callsOf, callsIn, hminute, Incident.call?, h, Ne.symm h]
  future := by
    intro announcement hfuture
    have hbefore : current < announcement :=
      Nat.lt_of_lt_of_le hcurrent (Nat.le_trans (begunIn_le_append before [minute]) hfuture)
    simp [callsOf, callsIn, hminute, Incident.call?, Nat.ne_of_lt hbefore]
  delivered := by
    intro other hother announcement event hincident
    obtain rfl := List.mem_singleton.mp hother
    simp [hincident] at hminute

/-- One stretch after another.  If the current announcement calls in the second, it has begun
before the first. -/
theorem trans (h : Conducted current called before later)
    (hrest : Conducted current further (before ++ later) rest)
    (hcurrent : further = [] ∨ current < begunIn before) :
    Conducted current (called ++ further) before (later ++ rest) := by
  have hgrows := begunIn_le_append before later
  have hgrowsRest := begunIn_le_append (before ++ later) rest
  rw [List.append_assoc] at hgrowsRest
  refine ⟨?_, ?_, ?_⟩
  · intro announcement hearlier
    rw [callsOf_append, h.earlier announcement hearlier,
      hrest.earlier announcement (Nat.lt_of_lt_of_le hearlier hgrows)]
    split <;> rfl
  · intro announcement hfuture
    rw [callsOf_append, h.future announcement (Nat.le_trans hgrowsRest hfuture),
      hrest.future announcement (List.append_assoc .. ▸ hfuture), List.append_nil]
  · intro minute hminute announcement event hincident
    rcases List.mem_append.mp hminute with hfirst | hsecond
    · obtain ⟨⟨hafter, hbegun⟩, hcalls⟩ := h.delivered minute hfirst announcement event hincident
      refine ⟨⟨hafter, Nat.lt_of_lt_of_le hbegun hgrowsRest⟩, ?_⟩
      -- It is over, and it is not the current one, if that goes on calling.
      have hover : callsOf announcement rest = [] := by
        rw [hrest.earlier announcement hbegun]
        rcases hcurrent with rfl | hcurrent
        · exact ite_self _
        · exact if_neg (Nat.ne_of_gt (Nat.lt_of_lt_of_le hcurrent hafter))
      rw [callsOf_append, hcalls, hover, List.append_nil]
    · obtain ⟨⟨hafter, hbegun⟩, hcalls⟩ :=
        hrest.delivered minute hsecond announcement event hincident
      rw [List.append_assoc] at hbegun
      refine ⟨⟨Nat.le_trans hgrows hafter, hbegun⟩, ?_⟩
      rw [callsOf_append, h.future announcement hafter, hcalls, List.nil_append]

/-- A whole announcement, from its beginning. -/
theorem of_begun {event : Event} (hminute : minute.incident = .begun (begunIn before) event)
    (h : Conducted (begunIn before) (minute.found.map fun listener => (listener, event))
      (before ++ [minute]) later) : Conducted current [] before (minute :: later) := by
  have hbegun : begunIn (before ++ [minute]) = begunIn before + 1 := by
    simp [begunIn, hminute, Incident.isBeginning]
  -- The beginning itself calls nobody.
  have hcalls : ∀ announcement,
      callsOf announcement (minute :: later) = callsOf announcement later := by
    intro announcement
    rw [callsOf_cons, callsOf_singleton (by rw [hminute]; rfl), List.nil_append]
  have hwhole : before ++ minute :: later = before ++ [minute] ++ later := by simp
  refine ⟨?_, ?_, ?_⟩
  · intro announcement hearlier
    rw [hcalls, h.earlier announcement (hbegun ▸ Nat.lt_succ_of_lt hearlier),
      if_neg (Nat.ne_of_lt hearlier), ite_self]
  · intro announcement hfuture
    rw [hcalls]
    exact h.future announcement (hwhole ▸ hfuture)
  · intro other hother announcement begun hincident
    rw [hwhole, hcalls]
    rcases List.mem_cons.mp hother with rfl | hlater
    · obtain ⟨rfl, rfl⟩ : begunIn before = announcement ∧ event = begun := by
        simpa [hminute] using hincident
      refine ⟨⟨Nat.le_refl _, ?_⟩, ?_⟩
      · rw [begunIn_append, hbegun]
        exact Nat.lt_add_right _ (Nat.lt_succ_self _)
      · rw [h.earlier _ (hbegun ▸ Nat.lt_succ_self _), if_pos rfl]
    · obtain ⟨⟨hafter, hbefore⟩, hdelivered⟩ :=
        h.delivered other hlater announcement begun hincident
      rw [hbegun] at hafter
      exact ⟨⟨Nat.le_of_succ_le hafter, hbefore⟩, hdelivered⟩

end Conducted

/-! ## However listeners react -/

namespace Minuted

variable {σ ρ : Type} {serve : ρ → σ → Outcome σ Unit} {hall next last : Minuted σ ρ}
  {current : Nat} {called further : List (Handle × Event)}

/-- From one moment to another, with these calls of the current announcement on the way. -/
structure Leads (current : Nat) (called : List (Handle × Event)) (hall next : Minuted σ ρ) :
    Prop where
  accurate : hall.Accurate → next.Accurate
  conducted : ∃ later, next.minutes = hall.minutes ++ later ∧
    Conducted current called hall.minutes later

theorem Leads.begunIn_le (h : Leads current called hall next) :
    begunIn hall.minutes ≤ begunIn next.minutes := by
  obtain ⟨later, hminutes, -⟩ := h.conducted
  exact hminutes ▸ begunIn_le_append hall.minutes later

theorem Leads.refl (hall : Minuted σ ρ) : Leads current [] hall hall :=
  ⟨id, [], (List.append_nil _).symm, Conducted.nil⟩

/-- Nothing changes that the minutes tell of. -/
theorem Leads.of_forum {forum : Forum σ ρ}
    (hmembers : forum.audience.members = hall.forum.audience.members)
    (hroll : forum.audience.roll.length = hall.forum.audience.roll.length)
    (hcalls : forum.calls = hall.forum.calls) : Leads current [] hall { hall with forum } :=
  ⟨fun h => h.of_forum hmembers hroll hcalls, [], (List.append_nil _).symm, Conducted.nil⟩

theorem Leads.trans (h : Leads current called hall next) (hnext : Leads current further next last)
    (hcurrent : further = [] ∨ current < begunIn hall.minutes) :
    Leads current (called ++ further) hall last := by
  obtain ⟨later, hminutes, hconducted⟩ := h.conducted
  obtain ⟨rest, hrest, hfurther⟩ := hnext.conducted
  refine ⟨hnext.accurate ∘ h.accurate, later ++ rest, ?_, ?_⟩
  · rw [hrest, hminutes, List.append_assoc]
  · rw [hminutes] at hfurther
    exact hconducted.trans hfurther hcurrent

/-- What is done besides the calls of the current announcement, one thing after another. -/
theorem Leads.foldl {β : Type} {step : Minuted σ ρ → β → Minuted σ ρ}
    (hstep : ∀ hall item, Leads current [] hall (step hall item)) (hall : Minuted σ ρ)
    (items : List β) : Leads current [] hall (items.foldl step hall) := by
  induction items generalizing hall with
  | nil => exact Leads.refl hall
  | cons item rest ih => exact (hstep hall item).trans (ih _) (.inl rfl)

/-- The current announcement calls one listener after another. -/
theorem Leads.foldl_call {step : Minuted σ ρ → Handle → Minuted σ ρ} {event : Event}
    (hstep : ∀ hall member, current < begunIn hall.minutes →
      Leads current [(member, event)] hall (step hall member))
    (hall : Minuted σ ρ) (hcurrent : current < begunIn hall.minutes) (members : List Handle) :
    Leads current (members.map fun member => (member, event)) hall (members.foldl step hall) := by
  induction members generalizing hall with
  | nil => exact Leads.refl hall
  | cons member rest ih =>
    have hfirst := hstep hall member hcurrent
    exact hfirst.trans (ih _ (Nat.lt_of_lt_of_le hcurrent hfirst.begunIn_le)) (.inr hcurrent)

theorem leads_enlist (hall : Minuted σ ρ) (listener : Listener ρ) :
    Leads current [] hall (hall.enlist listener) :=
  ⟨fun h => h.enlist listener, _, rfl, Conducted.still rfl rfl⟩

theorem leads_dismiss (hall : Minuted σ ρ) (listener : Handle) :
    Leads current [] hall (hall.dismiss listener) :=
  ⟨fun h => h.dismiss listener, _, rfl, Conducted.still rfl rfl⟩

theorem leads_note (hall : Minuted σ ρ) (hcurrent : current < begunIn hall.minutes)
    (listener : Handle) (event : Event) :
    Leads current [(listener, event)] hall (hall.note current listener event) :=
  ⟨fun h => h.note hcurrent listener event, _, rfl, Conducted.call hcurrent rfl⟩

theorem leads_enter (hall : Minuted σ ρ) (state : σ) : Leads current [] hall (hall.enter state) :=
  .of_forum rfl rfl rfl

/-- A listener has a reaction less. -/
theorem leads_nextReaction {listener : Handle} {event : Event} {reaction : Reaction ρ}
    {audience : Audience ρ}
    (h : hall.forum.audience.nextReaction? listener event = some (reaction, audience)) :
    Leads current [] hall { hall with forum := { hall.forum with audience } } := by
  obtain ⟨_, _, -, -, -, rfl⟩ := Audience.nextReaction?_eq_some_iff.mp h
  exact .of_forum rfl List.length_set rfl

theorem leads_react {tell : Event → Minuted σ ρ → Minuted σ ρ}
    (htell : ∀ event hall, Leads current [] hall (tell event hall)) (listener : Handle) :
    ∀ (reaction : Reaction ρ) (hall : Minuted σ ρ),
      Leads current [] hall (react serve tell listener reaction hall)
  | .leave, hall => hall.leads_dismiss listener
  | .enlist records attention reactions, hall => hall.leads_enlist ⟨records, attention, reactions⟩
  | .dismiss other, hall => hall.leads_dismiss other
  | .announce event, hall => htell event hall
  | .ask request, hall =>
    (hall.leads_enter (serve request hall.forum.state).state).trans
      (Leads.foldl (fun hall event => htell event hall) _ _) (.inl rfl)
  | .andThen first second, hall =>
    (leads_react htell listener first hall).trans (leads_react htell listener second _) (.inl rfl)

/-- A whole announcement is nothing to the one that is current. -/
theorem leads_tellBy {call : Nat → Handle → Event → Minuted σ ρ → Minuted σ ρ}
    (hcall : ∀ announcement listener event hall, announcement < begunIn hall.minutes →
      Leads announcement [(listener, event)] hall (call announcement listener event hall))
    (event : Event) (hall : Minuted σ ρ) : Leads current [] hall (tellBy call event hall) := by
  have hbegun : begunIn hall.minutes < begunIn (hall.commence event).minutes := by
    simp [commence, write, begunIn, Incident.isBeginning]
  have hcalls := Leads.foldl_call (fun hall member => hcall _ member event hall) _ hbegun
    hall.forum.audience.members
  obtain ⟨later, hminutes, hconducted⟩ := hcalls.conducted
  refine ⟨fun h => hcalls.accurate (h.commence event),
    ⟨.begun (begunIn hall.minutes) event, hall.forum.audience.members,
      hall.forum.audience.members⟩ :: later, ?_, ?_⟩
  · exact hminutes.trans (List.append_assoc ..)
  · exact Conducted.of_begun rfl hconducted

/-- The induction is on the depth to which reactions may nest. -/
theorem leads_call (depth announcement : Nat) (listener : Handle) (event : Event)
    (hall : Minuted σ ρ) (hbegun : announcement < begunIn hall.minutes) :
    Leads announcement [(listener, event)] hall
      (call serve depth announcement listener event hall) := by
  induction depth generalizing announcement listener event hall with
  | zero => exact hall.leads_note hbegun listener event
  | succ depth ih =>
    have hnoted := hall.leads_note hbegun listener event
    unfold call
    cases hnext : (hall.note announcement listener event).forum.audience.nextReaction?
        listener event with
    | none => simpa only [hnext] using hnoted
    | some found =>
      obtain ⟨reaction, audience⟩ := found
      simp only [hnext]
      refine hnoted.trans ?_ (.inl rfl)
      exact (leads_nextReaction hnext).trans
        (leads_react (leads_tellBy ih) listener reaction _) (.inl rfl)

theorem leads_announce (hall : Minuted σ ρ) (event : Event) :
    Leads current [] hall (hall.announce serve event) :=
  leads_tellBy (leads_call _) event hall

theorem leads_operate (hall : Minuted σ ρ) (operation : Forum.Operation ρ) :
    Leads current [] hall (hall.operate serve operation) := by
  cases operation with
  | enlist listener => exact hall.leads_enlist listener
  | dismiss listener => exact hall.leads_dismiss listener
  | announce event => exact hall.leads_announce event
  | serve request =>
    exact (hall.leads_enter _).trans (Leads.foldl (fun hall event => hall.leads_announce event) _ _)
      (.inl rfl)

theorem leads_operateAll (hall : Minuted σ ρ) (operations : List (Forum.Operation ρ)) :
    Leads current [] hall (hall.operateAll serve operations) :=
  Leads.foldl (fun hall operation => hall.leads_operate operation) hall operations

/-! ## Who is called -/

/-- A forum before anything has happened. -/
def opened (state : σ) : Minuted σ ρ := { forum := { state } }

theorem accurate_opened (state : σ) : (opened state : Minuted σ ρ).Accurate :=
  ⟨rfl, rfl, rfl, by simp [opened]⟩

/-- What the minutes of a forum tell. -/
structure Delivered (hall : Minuted σ ρ) : Prop where
  /-- At every moment all is in order: who is on the list, which numbers are given, and what a
  dismissal answers. -/
  lawful : ∀ before minute after, hall.minutes = before ++ minute :: after → minute.Lawful before
  /-- An announcement calls those who are on the list when it begins, in their order, each once and
  nobody else. -/
  called : ∀ before minute after, hall.minutes = before ++ minute :: after →
    ∀ announcement event, minute.incident = .begun announcement event →
      callsOf announcement hall.minutes =
        (registered before).map fun listener => (listener, event)
  /-- The minutes know of all calls. -/
  calls : hall.forum.calls.map (fun call => (call.listener, call.event)) =
    (callsIn hall.minutes).map Prod.snd
  /-- On the list are those who have registered and have not been taken off it since. -/
  members : hall.forum.audience.members = registered hall.minutes
  size : hall.forum.audience.size = (registered hall.minutes).length

/-- Whatever is done with a forum and however listeners react to what they are told, everybody who
is on the list when an announcement begins is called by it.  The minutes are those of the very run
that is made without them. -/
theorem operateAll_delivered (serve : ρ → σ → Outcome σ Unit) (state : σ)
    (operations : List (Forum.Operation ρ)) :
    ((opened state).operateAll serve operations).forum =
        operations.foldl (fun forum operation => forum.operate serve operation) { state } ∧
      ((opened state).operateAll serve operations).Delivered := by
  refine ⟨operateAll_forum (opened state) operations, ?_⟩
  have hleads : Leads 0 [] (opened state) ((opened state).operateAll serve operations) :=
    leads_operateAll (opened state) operations
  have haccurate := hleads.accurate (accurate_opened state)
  obtain ⟨later, hminutes, hconducted⟩ := hleads.conducted
  obtain rfl : _ = later := hminutes
  refine ⟨haccurate.lawful, ?_, haccurate.calls, haccurate.members, ?_⟩
  · intro before minute after hsplit announcement event hbegun
    have hmember : minute ∈ ((opened state).operateAll serve operations).minutes := by
      rw [hsplit]
      exact List.mem_append_right before List.mem_cons_self
    have hcalls := (hconducted.delivered minute hmember announcement event hbegun).2
    rwa [(haccurate.lawful before minute after hsplit).found] at hcalls
  · rw [Audience.size, haccurate.members]

/-- When it is told that the session starts, the first of two listeners leaves, takes the other off
the list, registers a third one and has it announced that the session stops. -/
def upheaval : List (Forum.Operation Empty) :=
  [.enlist { reactions := [⟨.andThen .leave (.andThen (.dismiss 1)
      (.andThen (.enlist true .everything []) (.announce .stopped))), 0⟩] },
    .enlist {}, .announce .started]

/-- The second listener is called although it is not on the list any more.  The third one is told of
the end of the session only. -/
theorem operateAll_delivered_upheaval :
    let hall := (opened ()).operateAll (fun request _ => nomatch request) upheaval
    callsOf 0 hall.minutes = [(0, .started), (1, .started)] ∧
      callsOf 1 hall.minutes = [(2, .stopped)] := by
  have hdelivered := (operateAll_delivered (fun request _ => nomatch request) () upheaval).2
  constructor
  · exact hdelivered.called [⟨.enlisted 0, [], [0]⟩, ⟨.enlisted 1, [0], [0, 1]⟩]
      ⟨.begun 0 .started, [0, 1], [0, 1]⟩ _ rfl 0 .started rfl
  · exact hdelivered.called
      [⟨.enlisted 0, [], [0]⟩, ⟨.enlisted 1, [0], [0, 1]⟩, ⟨.begun 0 .started, [0, 1], [0, 1]⟩,
        ⟨.called 0 0 .started, [0, 1], [0, 1]⟩, ⟨.dismissed 0 true, [0, 1], [1]⟩,
        ⟨.dismissed 1 true, [1], []⟩, ⟨.enlisted 2, [], [2]⟩]
      ⟨.begun 1 .stopped, [2], [2]⟩ _ rfl 1 .stopped rfl

end Minuted

end TrafficSteering
