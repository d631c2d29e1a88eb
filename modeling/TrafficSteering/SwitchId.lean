import TrafficSteering.Text.Blank
import TrafficSteering.Text.Radix
import TrafficSteering.Text.Split
set_option autoImplicit false

/-!
# Switch identifiers

A switch is named by a 64-bit datapath identifier.  It is printed as eight octets in hexadecimal,
most significant first, with colons between them.  It is read from that form, from a hexadecimal
numeral behind `0x`, or from a decimal numeral, in each case between any number of blanks.
-/

namespace TrafficSteering

/-- The datapath identifier of a switch. -/
structure SwitchId where
  value : UInt64
  deriving DecidableEq, Hashable, Repr, Inhabited

namespace SwitchId

/-- The identifier as a natural number, which also fixes the order of switches. -/
def number (id : SwitchId) : Nat := id.value.toNat

/-- The identifier with a given number, if it fits into 64 bits. -/
def ofNumber? (number : Nat) : Option SwitchId :=
  if number < UInt64.size then some ⟨UInt64.ofNat number⟩ else none

theorem number_injective {a b : SwitchId} (h : a.number = b.number) : a = b := by
  cases a; cases b
  exact congrArg SwitchId.mk (UInt64.toNat.inj h)

theorem number_lt (id : SwitchId) : id.number < UInt64.size := id.value.toNat_lt

theorem ofNumber?_number (id : SwitchId) : ofNumber? id.number = some id := by
  rw [ofNumber?, if_pos id.number_lt]
  exact congrArg (some ∘ SwitchId.mk) (UInt64.ofNat_toNat (x := id.value))

/-! ## The printed form -/

/-- The eight octets, most significant first. -/
def octets (id : SwitchId) : List Nat :=
  [7, 6, 5, 4, 3, 2, 1, 0].map fun place => id.number >>> (8 * place) % 256

def chars (id : SwitchId) : List Char :=
  Text.join [':'] (id.octets.map (Text.Radix.writePadded 16 2))

/-- Eight octets of two hexadecimal digits each, with colons between them. -/
def render (id : SwitchId) : String := String.ofList id.chars

instance : ToString SwitchId := ⟨render⟩

/-! ## Reading -/

/-- A text that names no switch, without the blanks around it. -/
structure Malformed where
  text : String
  deriving DecidableEq, Repr

/-- The value of one written octet: one or two characters, of which the first may be a plus sign if
a digit follows it. -/
def octet? (digits : List Char) : Option Nat :=
  if digits.length = 1 ∨ digits.length = 2 then Text.Radix.readSigned? 16 digits else none

/-- The number whose base-256 digits are given, most significant first. -/
def ofOctets (octets : List Nat) : Nat :=
  octets.foldl (fun total octet => total * 256 + octet) 0

/-- The identifier written as exactly eight parts. -/
def ofParts? (parts : List (List Char)) : Option SwitchId :=
  if parts.length = 8 then do ofNumber? (ofOctets (← parts.mapM octet?)) else none

/-- The identifier named by a text that has no blanks around it. -/
def ofChars? (text : List Char) : Option SwitchId :=
  if ':' ∈ text then ofParts? (Text.split ':' text)
  else match text with
    | '0' :: 'x' :: digits => (Text.Radix.readSigned? 16 digits).bind ofNumber?
    | digits => (Text.Radix.readSigned? 10 digits).bind ofNumber?

/-- The identifier named by a text, or the text without the blanks around it. -/
def parse (text : String) : Except Malformed SwitchId :=
  let trimmed := Text.trim text.toList
  match ofChars? trimmed with
  | some id => .ok id
  | none => .error ⟨String.ofList trimmed⟩

end SwitchId

end TrafficSteering
