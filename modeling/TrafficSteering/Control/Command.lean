import TrafficSteering.Text.Blank
set_option autoImplicit false

/-!
# Control commands

The three things a remote client can ask for, each written as one word.
-/

namespace TrafficSteering

/-- What a remote client can ask for. -/
inductive Command where
  | start
  | stop
  /-- Choose a path for the last flow again. -/
  | reroute
  deriving DecidableEq, Repr

namespace Command

/-- The word for a command. -/
def render : Command → String
  | .start => "Start"
  | .stop => "Stop"
  | .reroute => "Reroute"

/-- The command for a word, in exactly this spelling. -/
def ofWord? (word : String) : Option Command :=
  if word = "Start" then some .start
  else if word = "Stop" then some .stop
  else if word = "Reroute" then some .reroute
  else none

/-- The command in a text, which may have blanks around the word. -/
def ofString? (text : String) : Option Command :=
  ofWord? (String.ofList (Text.trim text.toList))

theorem ofWord?_eq_some_iff {word : String} {command : Command} :
    ofWord? word = some command ↔ word = command.render := by
  constructor
  · intro h
    unfold ofWord? at h
    split at h
    · next he => cases h; exact he
    · split at h
      · next he => cases h; exact he
      · split at h
        · next he => cases h; exact he
        · cases h
  · rintro rfl
    cases command <;> decide

end Command

end TrafficSteering
