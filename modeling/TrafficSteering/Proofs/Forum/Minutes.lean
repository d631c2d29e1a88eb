import TrafficSteering.Forum
set_option autoImplicit false

/-!
# Minutes of a forum

What happens in a forum, written down in its order: who registers, who is taken off the list, which
announcements begin, and whom they call.  An announcement may begin before another is over, so
announcements are numbered, and every call is put down to its own.  What happens is written down
with the list before and after it.

`Minuted` has the functions of a forum once more, keeping minutes.  The forum itself is the same
with and without them.
-/

namespace TrafficSteering

/-- What may happen in a forum. -/
inductive Incident where
  /-- A listener registers, under a number. -/
  | enlisted (listener : Handle)
  /-- A number is to be taken off the list, and was on it or not. -/
  | dismissed (listener : Handle) (member : Bool)
  | begun (announcement : Nat) (event : Event)
  | called (announcement : Nat) (listener : Handle) (event : Event)
  deriving DecidableEq, Repr

/-- An incident, with those on the list before it and after it. -/
structure Minute where
  incident : Incident
  found : List Handle
  left : List Handle
  deriving DecidableEq, Repr

namespace Incident

/-- The list after an incident. -/
def change : Incident → List Handle → List Handle
  | .enlisted listener, members => members ++ [listener]
  | .dismissed listener _, members => members.filter fun member => member != listener
  | .begun _ _, members | .called _ _ _, members => members

/-- The number that has been given, if one has. -/
def enlisted? : Incident → Option Handle
  | .enlisted listener => some listener
  | _ => none

def dismisses (incident : Incident) (listener : Handle) : Bool :=
  match incident with
  | .dismissed other _ => other == listener
  | _ => false

def isBeginning : Incident → Bool
  | .begun _ _ => true
  | _ => false

/-- Whom an announcement calls, and of what. -/
def call? : Incident → Option (Nat × Handle × Event)
  | .called announcement listener event => some (announcement, listener, event)
  | _ => none

end Incident

/-! ## What minutes say -/

/-- The numbers that have been given, in order. -/
def enlistedIn (minutes : List Minute) : List Handle :=
  minutes.filterMap fun minute => minute.incident.enlisted?

/-- Those who have registered and have not been taken off the list since, in the order in which they
registered. -/
def registered : List Minute → List Handle
  | [] => []
  | minute :: rest =>
    match minute.incident.enlisted? with
    | some listener =>
      if rest.any fun later => later.incident.dismisses listener then registered rest
      else listener :: registered rest
    | none => registered rest

/-- How many announcements have begun. -/
def begunIn (minutes : List Minute) : Nat :=
  minutes.countP fun minute => minute.incident.isBeginning

/-- All calls, in order. -/
def callsIn (minutes : List Minute) : List (Nat × Handle × Event) :=
  minutes.filterMap fun minute => minute.incident.call?

/-- The calls of one announcement, in order. -/
def callsOf (announcement : Nat) (minutes : List Minute) : List (Handle × Event) :=
  ((callsIn minutes).filter fun call => call.1 == announcement).map Prod.snd

/-- What has to be true of an incident after these minutes. -/
def Incident.Admissible (before : List Minute) : Incident → Prop
  -- A number is larger than all that have been given.
  | .enlisted listener => ∀ other ∈ enlistedIn before, other < listener
  -- Whether a number was on the list is answered truly.
  | .dismissed listener member => member = true ↔ listener ∈ registered before
  -- Announcements are numbered in the order in which they begin, and call nobody before.
  | .begun announcement _ => announcement = begunIn before
  | .called announcement _ _ => announcement < begunIn before

/-- What a minute has to say after these minutes. -/
structure Minute.Lawful (minute : Minute) (before : List Minute) : Prop where
  admissible : minute.incident.Admissible before
  /-- On the list are those who have registered and have not been taken off it since. -/
  found : minute.found = registered before
  /-- They are listed in the order of their numbers, and nobody is listed twice. -/
  ordered : minute.found.Pairwise (· < ·)
  /-- One who registers is added at the end, one who is dismissed is taken off and nobody else. -/
  left : minute.left = minute.incident.change minute.found

/-! ## Forums that keep minutes -/

/-- What the owner of a forum does with it. -/
inductive Forum.Operation (ρ : Type) where
  | enlist (listener : Listener ρ)
  | dismiss (listener : Handle)
  | announce (event : Event)
  /-- Something is asked of the owner, who announces what it brings about. -/
  | serve (request : ρ)

/-- A forum and its minutes. -/
structure Minuted (σ ρ : Type) where
  forum : Forum σ ρ
  minutes : List Minute := []

variable {σ ρ : Type} (serve : ρ → σ → Outcome σ Unit)

/-- Performs an operation. -/
def Forum.operate (forum : Forum σ ρ) : Operation ρ → Forum σ ρ
  | .enlist listener => forum.enlist listener
  | .dismiss listener => forum.dismiss listener
  | .announce event => forum.announce serve event
  | .serve request => (forum.settle serve (serve request forum.state)).1

namespace Minuted

/-- Writes down what has led to another forum. -/
def write (hall : Minuted σ ρ) (incident : Incident) (next : Forum σ ρ) : Minuted σ ρ :=
  ⟨next, hall.minutes ++ [⟨incident, hall.forum.audience.members, next.audience.members⟩]⟩

def enlist (hall : Minuted σ ρ) (listener : Listener ρ) : Minuted σ ρ :=
  hall.write (.enlisted hall.forum.audience.nextHandle) (hall.forum.enlist listener)

def dismiss (hall : Minuted σ ρ) (listener : Handle) : Minuted σ ρ :=
  hall.write (.dismissed listener (hall.forum.audience.hasMember listener))
    (hall.forum.dismiss listener)

/-- An announcement begins, under the next number. -/
def commence (hall : Minuted σ ρ) (event : Event) : Minuted σ ρ :=
  hall.write (.begun (begunIn hall.minutes) event) hall.forum

def note (hall : Minuted σ ρ) (announcement : Nat) (listener : Handle) (event : Event) :
    Minuted σ ρ :=
  hall.write (.called announcement listener event) (hall.forum.note listener event)

/-- The state changes. -/
def enter (hall : Minuted σ ρ) (state : σ) : Minuted σ ρ :=
  { hall with forum := { hall.forum with state } }

/-- A listener reacts. -/
def react (tell : Event → Minuted σ ρ → Minuted σ ρ) (listener : Handle) :
    Reaction ρ → Minuted σ ρ → Minuted σ ρ
  | .leave, hall => hall.dismiss listener
  | .enlist records attention reactions, hall => hall.enlist ⟨records, attention, reactions⟩
  | .dismiss other, hall => hall.dismiss other
  | .announce event, hall => tell event hall
  | .ask request, hall =>
    let outcome := serve request hall.forum.state
    outcome.events.foldl (fun hall event => tell event hall) (hall.enter outcome.state)
  | .andThen first second, hall =>
    react tell listener second (react tell listener first hall)

/-- Makes an announcement, given how one listener is called. -/
def tellBy (call : Nat → Handle → Event → Minuted σ ρ → Minuted σ ρ) (event : Event)
    (hall : Minuted σ ρ) : Minuted σ ρ :=
  hall.forum.audience.members.foldl
    (fun later member => call (begunIn hall.minutes) member event later) (hall.commence event)

/-- An announcement calls one listener.  Reactions may nest up to the given depth. -/
def call : Nat → Nat → Handle → Event → Minuted σ ρ → Minuted σ ρ
  | 0, announcement, listener, event, hall => hall.note announcement listener event
  | depth + 1, announcement, listener, event, hall =>
    let hall := hall.note announcement listener event
    match hall.forum.audience.nextReaction? listener event with
    | none => hall
    | some (reaction, audience) =>
      react serve (tellBy (call depth)) listener reaction
        { hall with forum := { hall.forum with audience } }

/-- Announces an event. -/
def announce (hall : Minuted σ ρ) (event : Event) : Minuted σ ρ :=
  tellBy (call serve hall.forum.audience.patience) event hall

/-- Performs an operation. -/
def operate (hall : Minuted σ ρ) : Forum.Operation ρ → Minuted σ ρ
  | .enlist listener => hall.enlist listener
  | .dismiss listener => hall.dismiss listener
  | .announce event => hall.announce serve event
  | .serve request =>
    let outcome := serve request hall.forum.state
    outcome.events.foldl (fun hall event => hall.announce serve event) (hall.enter outcome.state)

/-- Performs one operation after another. -/
def operateAll (hall : Minuted σ ρ) (operations : List (Forum.Operation ρ)) : Minuted σ ρ :=
  operations.foldl (fun hall operation => hall.operate serve operation) hall

/-! ## The forum is the same -/

theorem foldl_forum {β : Type} {step : Minuted σ ρ → β → Minuted σ ρ}
    {plain : Forum σ ρ → β → Forum σ ρ}
    (hstep : ∀ hall item, (step hall item).forum = plain hall.forum item) (hall : Minuted σ ρ)
    (items : List β) : (items.foldl step hall).forum = items.foldl plain hall.forum := by
  induction items generalizing hall with
  | nil => rfl
  | cons item rest ih => rw [List.foldl_cons, List.foldl_cons, ih, hstep]

variable {serve}

theorem react_forum {tell : Event → Minuted σ ρ → Minuted σ ρ}
    {plain : Event → Forum σ ρ → Forum σ ρ}
    (htell : ∀ event hall, (tell event hall).forum = plain event hall.forum) (listener : Handle) :
    ∀ (reaction : Reaction ρ) (hall : Minuted σ ρ),
      (react serve tell listener reaction hall).forum =
        Forum.react serve plain listener reaction hall.forum
  | .leave, _ => rfl
  | .enlist _ _ _, _ => rfl
  | .dismiss _, _ => rfl
  | .announce event, hall => htell event hall
  | .ask _, _ => foldl_forum (fun hall event => htell event hall) _ _
  | .andThen first second, hall => by
    rw [react, Forum.react, react_forum htell listener second,
      react_forum htell listener first]

theorem call_forum (depth announcement : Nat) (listener : Handle) (event : Event)
    (hall : Minuted σ ρ) :
    (call serve depth announcement listener event hall).forum =
      Forum.call serve depth listener event hall.forum := by
  induction depth generalizing announcement listener event hall with
  | zero => rfl
  | succ depth ih =>
    have hnoted : (hall.note announcement listener event).forum =
      hall.forum.note listener event := rfl
    unfold call Forum.call
    simp only [hnoted]
    cases (hall.forum.note listener event).audience.nextReaction? listener event with
    | none => exact hnoted
    | some found =>
      refine react_forum (fun event hall => ?_) listener found.1 _
      exact foldl_forum (fun later member => ih _ member event later) _ _

theorem announce_forum (hall : Minuted σ ρ) (event : Event) :
    (hall.announce serve event).forum = hall.forum.announce serve event :=
  foldl_forum (fun later member => call_forum _ _ member event later) _ _

theorem operate_forum (hall : Minuted σ ρ) (operation : Forum.Operation ρ) :
    (hall.operate serve operation).forum = hall.forum.operate serve operation := by
  cases operation with
  | enlist | dismiss => rfl
  | announce event => exact hall.announce_forum event
  | serve request => exact foldl_forum (fun later event => later.announce_forum event) _ _

/-- The forum of a run is the one without minutes. -/
theorem operateAll_forum (hall : Minuted σ ρ) (operations : List (Forum.Operation ρ)) :
    (hall.operateAll serve operations).forum =
      operations.foldl (fun forum operation => forum.operate serve operation) hall.forum :=
  foldl_forum (fun later operation => later.operate_forum operation) hall operations

end Minuted

end TrafficSteering
