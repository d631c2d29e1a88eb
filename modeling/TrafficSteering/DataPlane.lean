import TrafficSteering.Fault
set_option autoImplicit false

/-!
# The data plane

The rules that switches have taken, in order, and the two reasons for which a rule may be refused:
the switches do not want it, or there is no room for another one.  What the switches want is a
verdict on each offer, so the same rule may be refused at one time and taken at another.  A rule
that the switches do not want takes no room.
-/

namespace TrafficSteering

/-- The rules taken so far and what decides about further ones. -/
structure DataPlane where
  rules : List Rule := []
  /-- How many rules have been offered so far. -/
  offers : Nat := 0
  /-- Why the switches do not want the rule of an offer, given by its number, if they do not. -/
  verdict : Nat → Rule → Option Refusal := fun _ _ => none
  /-- How many more rules there is room for, if there is a limit. -/
  room : Option Nat := none

namespace DataPlane

/-- The verdict where one switch, if any, rejects every rule. -/
def rejecting (switch : Option SwitchId) (_ : Nat) (rule : Rule) : Option Refusal :=
  if switch = some rule.switch then some (.rejected rule) else none

/-- Why the next offer is refused, if it is. -/
def refusal? (plane : DataPlane) (rule : Rule) : Option Refusal :=
  match plane.verdict plane.offers rule with
  | some refusal => some refusal
  | none => if plane.room = some 0 then some .full else none

/-- Takes a rule in. -/
def take (plane : DataPlane) (rule : Rule) : DataPlane :=
  { plane with rules := plane.rules ++ [rule], room := plane.room.map (· - 1) }

/-- Offers a rule to the data plane. -/
def install (plane : DataPlane) (rule : Rule) : DataPlane × Except Fault Unit :=
  let offered := { plane with offers := plane.offers + 1 }
  match plane.refusal? rule with
  | some refusal => (offered, .error (.refused refusal))
  | none => (offered.take rule, .ok ())

/-- Takes out the rules taken so far. -/
def drain (plane : DataPlane) : DataPlane := { plane with rules := [] }

end DataPlane

end TrafficSteering
