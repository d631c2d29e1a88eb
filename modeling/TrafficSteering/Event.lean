import TrafficSteering.Topology
set_option autoImplicit false

/-!
# Events

What listeners are told: that the traffic session starts or stops, that a new choice of path is
forced, and that another path has become active.
-/

namespace TrafficSteering

/-- Why another path has become active. -/
inductive ChangeReason where
  /-- It is the shortest path of a new flow. -/
  | selected
  /-- A new choice was forced. -/
  | rerouted
  /-- It was the best candidate of a switch run. -/
  | switched
  deriving DecidableEq, Repr

/-- The name of a reason. -/
def ChangeReason.render : ChangeReason → String
  | .selected => "Selected"
  | .rerouted => "Rerouted"
  | .switched => "Switched"

/-- The path that has become active. -/
structure PathChange where
  /-- Its place among the candidates. -/
  index : Nat
  path : Path
  reason : ChangeReason
  deriving DecidableEq, Repr

/-- What listeners are told. -/
inductive Event where
  | started
  | stopped
  | rerouted
  | pathChanged (change : PathChange)
  deriving DecidableEq, Repr

namespace Event

/-- Whether the event tells of another active path. -/
def isPathChange : Event → Bool
  | .pathChanged _ => true
  | _ => false

/-- An event on one line: its kind, and for a change of path the place, the reason and the numbers
of the switches. -/
def render : Event → String
  | .started => "start"
  | .stopped => "stop"
  | .rerouted => "reroute"
  | .pathChanged change =>
    "path:" ++ toString change.index ++ ":" ++ change.reason.render ++ ":" ++
      String.intercalate ">" (change.path.switches.map fun switch => toString switch.number)

end Event

end TrafficSteering
