import TrafficSteering.Text.Radix
import TrafficSteering.Text.Split
set_option autoImplicit false

/-!
# IPv4 addresses

An address is written as four decimal octets with dots between them and without leading zeros.  The
readers here take an address from the front of a text and return what follows it, because the same
form also ends some IPv6 addresses and begins a socket address.
-/

namespace TrafficSteering.Address

/-- An address of four octets, most significant first. -/
structure IPv4 where
  a : UInt8
  b : UInt8
  c : UInt8
  d : UInt8
  deriving DecidableEq, Hashable, Repr, Inhabited

/-- A decimal numeral of any length at the front of a text, if it stays below a bound. -/
def decimal? (bound : Nat) (text : List Char) : Option (Nat × List Char) := do
  let value ← Text.Radix.read? 10 (text.takeWhile Char.isDigit)
  if value < bound then some (value, text.dropWhile Char.isDigit) else none

/-- Drops one given character from the front of a text. -/
def mark? (c : Char) : List Char → Option (List Char)
  | [] => none
  | c' :: rest => if c' = c then some rest else none

namespace IPv4

/-- One octet at the front of a text: at most three digits, without leading zeros. -/
def octet? (text : List Char) : Option (UInt8 × List Char) := do
  let digits := text.takeWhile Char.isDigit
  let value ← Text.Radix.read? 10 digits
  if digits.length ≤ 3 ∧ (digits.head? = some '0' → digits.length = 1) ∧ value < 256 then
    some (UInt8.ofNat value, text.dropWhile Char.isDigit)
  else none

/-- An address at the front of a text. -/
def read? (text : List Char) : Option (IPv4 × List Char) := do
  let (a, text) ← octet? text
  let (b, text) ← octet? (← mark? '.' text)
  let (c, text) ← octet? (← mark? '.' text)
  let (d, text) ← octet? (← mark? '.' text)
  some (⟨a, b, c, d⟩, text)

/-- The address written by the whole of a text. -/
def ofString? (text : String) : Option IPv4 :=
  match read? text.toList with
  | some (ip, []) => some ip
  | _ => none

def octets (ip : IPv4) : List UInt8 := [ip.a, ip.b, ip.c, ip.d]

def chars (ip : IPv4) : List Char :=
  Text.join ['.'] (ip.octets.map fun octet => Text.Radix.write 10 octet.toNat)

/-- Four decimal octets with dots between them. -/
def render (ip : IPv4) : String := String.ofList ip.chars

instance : ToString IPv4 := ⟨render⟩

end IPv4

end TrafficSteering.Address
