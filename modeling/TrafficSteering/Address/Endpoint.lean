import TrafficSteering.Address.IPv6
set_option autoImplicit false

/-!
# Socket addresses

The place a server listens on: an IPv4 address and a port behind a colon, or an IPv6 address in
brackets, with a scope behind a percent sign if it has one, and a port.
-/

namespace TrafficSteering.Address

/-- An address with a port. -/
inductive Endpoint where
  | v4 (ip : IPv4) (port : UInt16)
  | v6 (ip : IPv6) (scope : UInt32) (port : UInt16)
  deriving DecidableEq, Repr

namespace Endpoint

/-- A port behind its colon.  Leading zeros are allowed. -/
def port? (text : List Char) : Option (UInt16 × List Char) := do
  let (port, text) ← decimal? UInt16.size (← mark? ':' text)
  some (UInt16.ofNat port, text)

/-- A scope behind its percent sign, or scope zero if there is none to read. -/
def scope (text : List Char) : UInt32 × List Char :=
  match (mark? '%' text).bind (decimal? UInt32.size) with
  | some (scope, rest) => (UInt32.ofNat scope, rest)
  | none => (0, text)

/-- The form with an IPv4 address at the front of a text. -/
def readV4? (text : List Char) : Option (Endpoint × List Char) := do
  let (ip, text) ← IPv4.read? text
  let (port, text) ← port? text
  some (.v4 ip port, text)

/-- The form with an IPv6 address at the front of a text. -/
def readV6? (text : List Char) : Option (Endpoint × List Char) := do
  let (ip, text) ← IPv6.read? (← mark? '[' text)
  let (scope, text) := scope text
  let (port, text) ← port? (← mark? ']' text)
  some (.v6 ip scope port, text)

/-- The socket address written by the whole of a text. -/
def ofString? (text : String) : Option Endpoint :=
  match (readV4? text.toList).or (readV6? text.toList) with
  | some (endpoint, []) => some endpoint
  | _ => none

/-- The characters of the printed form.  Scope zero is not shown. -/
def chars : Endpoint → List Char
  | .v4 ip port => ip.chars ++ ':' :: Text.Radix.write 10 port.toNat
  | .v6 ip scope port =>
    let shown := if scope = 0 then [] else '%' :: Text.Radix.write 10 scope.toNat
    '[' :: ip.chars ++ shown ++ "]:".toList ++ Text.Radix.write 10 port.toNat

def render (endpoint : Endpoint) : String := String.ofList endpoint.chars

instance : ToString Endpoint := ⟨render⟩

end Endpoint

end TrafficSteering.Address
