import TrafficSteering.Audience
set_option autoImplicit false

/-!
# Announcements

A forum is a state together with the audience that is told of its changes.  An announcement calls
every listener registered when it begins, once, in the order of registration.  A listener that is
called may react at once, and its reaction, with all announcements that follow from it, is over
before the next listener is called.

The state is changed before anything is announced, so a listener finds the new state; every call is
written down together with the state that it finds.

`Forum.announce` gives each announcement as much depth as the audience has patience.  Every reaction
uses up a part of the patience, so the depth lasts and no reaction is lost.
-/

namespace TrafficSteering

/-- A listener was told of an event. -/
structure Call (σ : Type) where
  listener : Handle
  event : Event
  /-- The state at the time of the call. -/
  found : σ
  deriving DecidableEq, Repr

/-- What an operation comes to: the new state, the events to be announced in order, and an
answer. -/
structure Outcome (σ α : Type) where
  state : σ
  events : List Event
  answer : α
  deriving DecidableEq, Repr

/-- A state, the audience that is told of its changes, and all calls so far. -/
structure Forum (σ ρ : Type) where
  state : σ
  audience : Audience ρ := {}
  calls : List (Call σ) := []

namespace Forum

variable {σ ρ α : Type}

def enlist (forum : Forum σ ρ) (listener : Listener ρ) : Forum σ ρ :=
  { forum with audience := forum.audience.enlist listener }

def dismiss (forum : Forum σ ρ) (listener : Handle) : Forum σ ρ :=
  { forum with audience := forum.audience.dismiss listener }

/-- Writes down that a listener is called. -/
def note (forum : Forum σ ρ) (listener : Handle) (event : Event) : Forum σ ρ :=
  { forum with calls := forum.calls ++ [⟨listener, event, forum.state⟩] }

/-- A listener reacts.  Announcements are made by `tell`, and `serve` says what a request to the
owner comes to. -/
def react (serve : ρ → σ → Outcome σ Unit) (tell : Event → Forum σ ρ → Forum σ ρ)
    (listener : Handle) : Reaction ρ → Forum σ ρ → Forum σ ρ
  | .leave, forum => forum.dismiss listener
  | .enlist records attention reactions, forum => forum.enlist ⟨records, attention, reactions⟩
  | .dismiss other, forum => forum.dismiss other
  | .announce event, forum => tell event forum
  | .ask request, forum =>
    let outcome := serve request forum.state
    outcome.events.foldl (fun forum event => tell event forum)
      { forum with state := outcome.state }
  | .andThen first second, forum =>
    react serve tell listener second (react serve tell listener first forum)

/-- Calls one listener.  Reactions may nest up to the given depth. -/
def call (serve : ρ → σ → Outcome σ Unit) : Nat → Handle → Event → Forum σ ρ → Forum σ ρ
  | 0, listener, event, forum => forum.note listener event
  | depth + 1, listener, event, forum =>
    let forum := forum.note listener event
    match forum.audience.nextReaction? listener event with
    | none => forum
    | some (reaction, audience) =>
      react serve
        (fun event forum => forum.audience.members.foldl
          (fun forum member => call serve depth member event forum) forum)
        listener reaction { forum with audience }

/-- Calls every listener registered at the beginning.  Reactions may nest up to the given depth. -/
def tell (serve : ρ → σ → Outcome σ Unit) (depth : Nat) (event : Event) (forum : Forum σ ρ) :
    Forum σ ρ :=
  forum.audience.members.foldl (fun forum member => call serve depth member event forum) forum

/-- Announces an event. -/
def announce (serve : ρ → σ → Outcome σ Unit) (event : Event) (forum : Forum σ ρ) : Forum σ ρ :=
  forum.tell serve forum.audience.patience event

/-- Takes over the state of an outcome and then announces its events. -/
def settle (serve : ρ → σ → Outcome σ Unit) (forum : Forum σ ρ) (outcome : Outcome σ α) :
    Forum σ ρ × α :=
  (outcome.events.foldl (fun forum event => forum.announce serve event)
    { forum with state := outcome.state }, outcome.answer)

/-- The calls to listeners that write down what they are told. -/
def written (forum : Forum σ ρ) : List (Call σ) :=
  forum.calls.filter fun call => forum.audience.records call.listener

/-- The same forum with nothing written down yet. -/
def forget (forum : Forum σ ρ) : Forum σ ρ := { forum with calls := [] }

end Forum

/-- A call on one line: the number of the listener and the event. -/
def Call.render {σ : Type} (call : Call σ) : String :=
  toString call.listener ++ ":" ++ call.event.render

end TrafficSteering
