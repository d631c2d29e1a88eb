import TrafficSteering.Event
set_option autoImplicit false

/-!
# Listeners

Listeners register with an audience and are then told of every event, in the order of their
registration.  A listener may react: it may leave, enlist or dismiss others, announce another event,
or ask the owner of the audience for something.  Its reactions are a finite sequence, of which every
event it attends to uses up one, so callbacks that call back come to an end; `Audience.patience`
counts what is left.  The sequence is kept in streaks, since a listener may react in the same way
very often.

A listener is known by the number it got at its registration.  Numbers are never reused: the roll
keeps everyone who ever registered, and `members` are those still registered.
-/

namespace TrafficSteering

/-- The number that a listener gets at its registration. -/
abbrev Handle := Nat

/-- The events that a listener reacts to. -/
inductive Attention where
  | everything
  | pathChanges
  deriving DecidableEq, Repr

/-- Whether an event gets attention. -/
def Attention.covers : Attention → Event → Bool
  | .everything, _ => true
  | .pathChanges, event => event.isPathChange

/-- The same thing several times in a row: once, and then some more times. -/
structure Streak (α : Type) where
  item : α
  more : Nat := 0

/-- What a listener does when it is told of an event.  What it may ask of the owner is the type
`ρ`. -/
inductive Reaction (ρ : Type) where
  | leave
  | enlist (records : Bool) (attention : Attention) (reactions : List (Streak (Reaction ρ)))
  | dismiss (listener : Handle)
  /-- It has another event announced. -/
  | announce (event : Event)
  /-- It asks the owner for something. -/
  | ask (request : ρ)
  | andThen (first second : Reaction ρ)

/-- A listener: whether it writes down what it is told, what it reacts to, and how it will react. -/
structure Listener (ρ : Type) where
  records : Bool := true
  attention : Attention := .everything
  reactions : List (Streak (Reaction ρ)) := []

namespace Streak

variable {α : Type}

/-- Takes the first item of a sequence, and returns it with what is left. -/
def next? : List (Streak α) → Option (α × List (Streak α))
  | [] => none
  | ⟨item, 0⟩ :: rest => some (item, rest)
  | ⟨item, more + 1⟩ :: rest => some (item, ⟨item, more⟩ :: rest)

/-- An item so many times. -/
def ofCount (item : α) : Nat → List (Streak α)
  | 0 => []
  | more + 1 => [⟨item, more⟩]

end Streak

namespace Reaction

variable {ρ : Type}

mutual

/-- How many reactions a reaction can bring about, itself included. -/
def weight : Reaction ρ → Nat
  | .enlist _ _ reactions => 1 + weights reactions
  | .andThen first second => 1 + first.weight + second.weight
  | _ => 1

/-- How many reactions a sequence of reactions can bring about. -/
def weights : List (Streak (Reaction ρ)) → Nat
  | [] => 0
  | ⟨reaction, more⟩ :: rest => (more + 1) * reaction.weight + weights rest

end

end Reaction

/-- Everyone who ever registered, by number, and those still registered, in order. -/
structure Audience (ρ : Type) where
  roll : List (Listener ρ) := []
  members : List Handle := []

namespace Audience

variable {ρ : Type}

/-- Registers a listener under the next number. -/
def enlist (audience : Audience ρ) (listener : Listener ρ) : Audience ρ :=
  { roll := audience.roll ++ [listener], members := audience.members ++ [audience.roll.length] }

/-- The number that the next listener gets. -/
def nextHandle (audience : Audience ρ) : Handle := audience.roll.length

def hasMember (audience : Audience ρ) (listener : Handle) : Bool :=
  audience.members.contains listener

def dismiss (audience : Audience ρ) (listener : Handle) : Audience ρ :=
  { audience with members := audience.members.filter fun member => member != listener }

def size (audience : Audience ρ) : Nat := audience.members.length

/-- Whether a listener writes down what it is told. -/
def records (audience : Audience ρ) (listener : Handle) : Bool :=
  match audience.roll[listener]? with
  | some listener => listener.records
  | none => false

/-- The next reaction of a listener to an event, and the audience in which it has been used up. -/
def nextReaction? (audience : Audience ρ) (listener : Handle) (event : Event) :
    Option (Reaction ρ × Audience ρ) := do
  let entry ← audience.roll[listener]?
  let (reaction, reactions) ← Streak.next? entry.reactions
  if entry.attention.covers event then
    some (reaction, { audience with roll := audience.roll.set listener { entry with reactions } })
  else none

theorem nextReaction?_eq_some_iff {audience rest : Audience ρ} {listener : Handle} {event : Event}
    {reaction : Reaction ρ} :
    audience.nextReaction? listener event = some (reaction, rest) ↔
      ∃ entry reactions, audience.roll[listener]? = some entry ∧
        Streak.next? entry.reactions = some (reaction, reactions) ∧
        entry.attention.covers event = true ∧
        rest = { audience with roll := audience.roll.set listener { entry with reactions } } := by
  simp only [nextReaction?, Option.bind_eq_bind, Option.bind_eq_some_iff]
  constructor
  · rintro ⟨entry, hentry, ⟨first, reactions⟩, hnext, h⟩
    split at h
    · rename_i hcovers
      obtain ⟨rfl, rfl⟩ := Prod.mk.inj (Option.some.inj h)
      exact ⟨entry, reactions, hentry, hnext, hcovers, rfl⟩
    · cases h
  · rintro ⟨entry, reactions, hentry, hnext, hcovers, rfl⟩
    exact ⟨entry, hentry, (reaction, reactions), hnext, if_pos hcovers⟩

/-- How many more reactions the audience can show. -/
def patience (audience : Audience ρ) : Nat :=
  Reaction.weights (audience.roll.flatMap Listener.reactions)

end Audience

end TrafficSteering
