import Mathlib.Data.List.Nodup
import TrafficSteering.Forum
set_option autoImplicit false

/-!
# Quiet audiences

Listeners that do not call back leave everything as it is.  Before a quiet audience an operation
comes to its new state and its answer, and each of its events is told to every listener once, in the
order of registration; every call finds the new state.  So what a listener has been told of grows by
just these events.
-/

namespace TrafficSteering

variable {σ ρ α : Type}

/-- No registered listener reacts to anything. -/
def Audience.Quiet (audience : Audience ρ) : Prop :=
  ∀ member ∈ audience.members, ∀ listener, audience.roll[member]? = some listener →
    listener.reactions = []

/-- Where nobody listens, nobody calls back. -/
theorem Audience.quiet_of_nobody {audience : Audience ρ} (h : audience.members = []) :
    audience.Quiet := by
  intro member hmember
  rw [h] at hmember
  exact absurd hmember List.not_mem_nil

theorem Audience.Quiet.nextReaction? {audience : Audience ρ} (h : audience.Quiet)
    {member : Handle} (hmember : member ∈ audience.members) (event : Event) :
    audience.nextReaction? member event = none := by
  unfold Audience.nextReaction?
  cases hlistener : audience.roll[member]? with
  | none => rfl
  | some listener =>
    have hreactions := h member hmember listener hlistener
    simp [hreactions, Streak.next?]

namespace Audience

variable {audience : Audience ρ}

theorem Quiet.enlist (h : audience.Quiet) {other : Listener ρ} (hother : other.reactions = []) :
    (audience.enlist other).Quiet := by
  intro member hmember listener hlistener
  simp only [Audience.enlist, List.getElem?_append] at hlistener
  split at hlistener
  · rename_i hlt
    rcases List.mem_append.mp hmember with hbefore | hnew
    · exact h member hbefore listener hlistener
    · exact absurd (List.mem_singleton.mp hnew) (Nat.ne_of_lt hlt)
  · obtain rfl := List.mem_singleton.mp (List.mem_of_getElem? hlistener)
    exact hother

theorem Quiet.dismiss (h : audience.Quiet) (other : Handle) : (audience.dismiss other).Quiet :=
  fun member hmember => h member (List.mem_of_mem_filter hmember)

/-- Nobody is registered twice, and everyone who is registered has registered before. -/
structure Orderly (audience : Audience ρ) : Prop where
  distinct : audience.members.Nodup
  known : ∀ member ∈ audience.members, member < audience.roll.length

theorem Orderly.enlist (h : audience.Orderly) (other : Listener ρ) :
    (audience.enlist other).Orderly where
  distinct := by
    refine List.nodup_append.mpr ⟨h.distinct, List.nodup_singleton _, ?_⟩
    intro member hmember last hlast
    obtain rfl := List.mem_singleton.mp hlast
    exact Nat.ne_of_lt (h.known member hmember)
  known := by
    intro member hmember
    simp only [Audience.enlist, List.length_append, List.length_singleton]
    rcases List.mem_append.mp hmember with hbefore | hnew
    · exact Nat.lt_succ_of_lt (h.known member hbefore)
    · obtain rfl := List.mem_singleton.mp hnew
      exact Nat.lt_succ_self _

theorem Orderly.dismiss (h : audience.Orderly) (other : Handle) :
    (audience.dismiss other).Orderly :=
  ⟨h.distinct.filter _, fun member hmember => h.known member (List.mem_of_mem_filter hmember)⟩

end Audience

namespace Forum

variable (serve : ρ → σ → Outcome σ Unit)

/-- The calls by which members are told of events, one event after another. -/
def callsFor (members : List Handle) (found : σ) (events : List Event) : List (Call σ) :=
  events.flatMap fun event => members.map fun member => ⟨member, event, found⟩

variable {forum : Forum σ ρ}

theorem call_of_quiet (h : forum.audience.Quiet) (depth : Nat) {member : Handle}
    (hmember : member ∈ forum.audience.members) (event : Event) :
    call serve depth member event forum = forum.note member event := by
  cases depth with
  | zero => rfl
  | succ depth =>
    unfold call
    simp only [note, h.nextReaction? hmember]

theorem tell_of_quiet (h : forum.audience.Quiet) (depth : Nat) (event : Event) :
    forum.tell serve depth event =
      { forum with
        calls := forum.calls ++ callsFor forum.audience.members forum.state [event] } := by
  have hfold : ∀ members ⊆ forum.audience.members, ∀ calls : List (Call σ),
      members.foldl (fun forum member => call serve depth member event forum)
          { forum with calls := calls } =
        { forum with
          calls := calls ++ members.map fun member => ⟨member, event, forum.state⟩ } := by
    intro members
    induction members with
    | nil => simp
    | cons member rest ih =>
      intro hmembers calls
      obtain ⟨hmember, hrest⟩ := List.cons_subset.mp hmembers
      have hquiet : ({ forum with calls := calls } : Forum σ ρ).audience.Quiet := h
      rw [List.foldl_cons, call_of_quiet serve hquiet depth hmember, note, ih hrest]
      simp
  unfold tell
  simpa [callsFor] using hfold forum.audience.members (List.Subset.refl _) forum.calls

/-- What an operation comes to before a quiet audience. -/
theorem settle_of_quiet (h : forum.audience.Quiet) (outcome : Outcome σ α) :
    forum.settle serve outcome =
      ({ forum with
          state := outcome.state
          calls := forum.calls ++ callsFor forum.audience.members outcome.state outcome.events },
        outcome.answer) := by
  have hfold : ∀ (events : List Event) (calls : List (Call σ)),
      events.foldl (fun forum event => forum.announce serve event)
          ({ forum with state := outcome.state, calls := calls } : Forum σ ρ) =
        { forum with
          state := outcome.state
          calls := calls ++ callsFor forum.audience.members outcome.state events } := by
    intro events
    induction events with
    | nil => simp [callsFor]
    | cons event rest ih =>
      intro calls
      have hquiet :
          ({ forum with state := outcome.state, calls := calls } : Forum σ ρ).audience.Quiet := h
      rw [List.foldl_cons, announce, tell_of_quiet serve hquiet, ih]
      simp [callsFor]
  unfold settle
  rw [hfold]

/-! ## One listener -/

variable {listener : Handle}

/-- What a listener has been told so far, in order. -/
def told (forum : Forum σ ρ) (listener : Handle) : List Event :=
  (forum.calls.filter fun call => call.listener = listener).map Call.event

/-- Of the calls by which all members are told of events, each member gets one for each event. -/
theorem told_callsFor {members : List Handle} (hmember : listener ∈ members)
    (hdistinct : members.Nodup) (found : σ) (events : List Event) :
    ((callsFor members found events).filter fun call => call.listener = listener).map Call.event =
      events := by
  have hone : ∀ event, (members.map fun member => (⟨member, event, found⟩ : Call σ)).filter
      (fun call => call.listener = listener) = [⟨listener, event, found⟩] := by
    intro event
    have hself : members.filter (fun member => member = listener) = [listener] := by
      rw [List.filter_eq, List.count_eq_one_of_mem hdistinct hmember, List.replicate_one]
    rw [List.filter_map]
    exact congrArg (List.map _) hself
  induction events with
  | nil => rfl
  | cons event rest ih =>
    simp only [callsFor, List.flatMap_cons, List.filter_append, List.map_append, hone] at ih ⊢
    rw [ih]
    rfl

/-- Before listeners that do not call back, a member is told of the events of an operation. -/
theorem told_settle (hquiet : forum.audience.Quiet)
    (hmember : listener ∈ forum.audience.members) (hdistinct : forum.audience.members.Nodup)
    (outcome : Outcome σ α) :
    (forum.settle serve outcome).1.told listener = forum.told listener ++ outcome.events := by
  rw [settle_of_quiet serve hquiet]
  simp only [told, List.filter_append, List.map_append, told_callsFor hmember hdistinct]

end Forum

end TrafficSteering
