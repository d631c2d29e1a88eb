import TrafficSteering.Json.Reader
import TrafficSteering.SwitchId
import TrafficSteering.Address.Endpoint
set_option autoImplicit false

/-!
# Decoding JSON

A decoder turns a JSON value into a value of the domain or finds a fault.  The fault it finds is
always the first one in document order, and a break of the grammar counts as a fault at the place
of the break.

A record is described once, as `Fields`, and is then read in two forms: from an object, where
members may come in any order and unknown ones are passed over, and from an array, where the fields
come in the order of the description.
-/

namespace TrafficSteering.Json

/-- Why a text or a value does not have the wanted form. -/
inductive Fault where
  /-- The text breaks the grammar, or more text follows the value. -/
  | malformed
  /-- The value is of another kind, out of range, or a text in the wrong notation. -/
  | unexpected
  /-- A record lacks a field. -/
  | missing (field : String)
  /-- A field occurs twice. -/
  | repeated (field : String)
  /-- An array has more elements than the record has fields. -/
  | surplus
  /-- A text stands for a switch and names none. -/
  | switchId (cause : SwitchId.Malformed)
  deriving DecidableEq, Repr

namespace Fault

/-- What a fault says. -/
def message : Fault → String
  | .malformed => "malformed JSON"
  | .unexpected => "unexpected value"
  | .missing field => "missing field " ++ field
  | .repeated field => "repeated field " ++ field
  | .surplus => "too many elements"
  | .switchId cause => "invalid switch id: " ++ cause.text

end Fault

/-- Turns a JSON value into a value of the domain. -/
abbrev Decoder (α : Type) := Json → Except Fault α

/-! ## Simple values -/

/-- The fault of a value that is not of the wanted kind. -/
def mismatch : Json → Fault
  | .malformed => .malformed
  | _ => .unexpected

/-- A natural number below a bound. -/
def decodeNatural (bound : Nat) : Decoder Nat
  | .natural value => if value < bound then .ok value else .error .unexpected
  | other => .error (mismatch other)

/-- A number of 16 bits. -/
def decodeUInt16 : Decoder UInt16 := fun value => UInt16.ofNat <$> decodeNatural UInt16.size value

/-- A number of 32 bits. -/
def decodeUInt32 : Decoder UInt32 := fun value => UInt32.ofNat <$> decodeNatural UInt32.size value

/-- A text. -/
def decodeText : Decoder String
  | .string (some text) => .ok text
  | other => .error (mismatch other)

/-- A text that a given reader accepts. -/
def decodeWritten {α : Type} (read? : String → Option α) : Decoder α := fun value => do
  match read? (← decodeText value) with
  | some result => .ok result
  | none => .error .unexpected

/-- A value that may be absent. -/
def decodeOption {α : Type} (decode : Decoder α) : Decoder (Option α)
  | .null => .ok none
  | value => some <$> decode value

/-- An array of values of one kind. -/
def decodeList {α : Type} (decode : Decoder α) : Decoder (List α)
  | .array elements => elements.mapM decode
  | other => .error (mismatch other)

/-! ## Records -/

/-- A description of the fields of a record. -/
structure Fields (α : Type) where
  /-- The names of the fields, each with a test of the value it may have. -/
  tests : List (String × Decoder Unit)
  /-- The record in the members of an object that have passed the tests. -/
  ofMembers : List (Option String × Json) → Except Fault α
  /-- The record at the front of a list of elements, and the elements that follow it. -/
  ofElements : List Json → Except Fault (α × List Json)

namespace Fields

variable {α β : Type}

/-- The value of the first member with a given name. -/
def member? (name : String) (members : List (Option String × Json)) : Option Json :=
  (members.find? fun member => member.1 = some name).map Prod.snd

/-- One field, which takes a default where it is absent. -/
def optional (name : String) (decode : Decoder α) (fallback : Except Fault α) : Fields α where
  tests := [(name, fun value => (fun _ => ()) <$> decode value)]
  ofMembers members :=
    match member? name members with
    | some value => decode value
    | none => fallback
  ofElements
    | [] => (·, []) <$> fallback
    | element :: rest => (·, rest) <$> decode element

/-- One field that has to be present. -/
def required (name : String) (decode : Decoder α) : Fields α :=
  optional name decode (.error (.missing name))

/-- One field with a default value. -/
def withDefault (name : String) (decode : Decoder α) (fallback : α) : Fields α :=
  optional name decode (.ok fallback)

/-- No field. -/
def nothing (value : α) : Fields α where
  tests := []
  ofMembers _ := .ok value
  ofElements elements := .ok (value, elements)

/-- The fields of one description and then those of another. -/
def append (first : Fields (α → β)) (second : Fields α) : Fields β where
  tests := first.tests ++ second.tests
  ofMembers members := do return (← first.ofMembers members) (← second.ofMembers members)
  ofElements elements := do
    let (build, elements) ← first.ofElements elements
    let (value, elements) ← second.ofElements elements
    return (build value, elements)

instance : Applicative Fields where
  pure := nothing
  seq first second := append first (second ())

/-- Goes through the members of an object in document order.  A known field passes its test and
occurs once; any other member only has to keep to the grammar. -/
def testMembers (tests : List (String × Decoder Unit)) :
    List String → List (Option String × Json) → Except Fault Unit
  | _, [] => .ok ()
  | _, (Option.none, value) :: _ => .error (mismatch value)
  | seen, (some name, value) :: rest =>
    match tests.lookup name with
    | some test =>
      if name ∈ seen then .error (.repeated name)
      else do
        test value
        testMembers tests (name :: seen) rest
    | none =>
      if value.intact then testMembers tests seen rest else .error .malformed

/-- The decoder of the described record. -/
def decoder (fields : Fields α) : Decoder α
  | .object members => do
    testMembers fields.tests [] members
    fields.ofMembers members
  | .array elements => do
    match ← fields.ofElements elements with
    | (record, []) => .ok record
    | (_, .malformed :: _) => .error .malformed
    | (_, _ :: _) => .error .surplus
  | other => .error (mismatch other)

end Fields

/-! ## Values of the fabric -/

/-- A switch, as a text that names it. -/
def decodeSwitchId : Decoder SwitchId := fun value => do
  match SwitchId.parse (← decodeText value) with
  | .ok id => .ok id
  | .error cause => .error (.switchId cause)

/-- An IPv4 address, as a text. -/
def decodeIPv4 : Decoder Address.IPv4 := decodeWritten Address.IPv4.ofString?

/-- A socket address, as a text. -/
def decodeEndpoint : Decoder Address.Endpoint := decodeWritten Address.Endpoint.ofString?

/-- Decodes a whole document. -/
def Document.decode {α : Type} (decode : Decoder α) (document : Document) : Except Fault α := do
  let result ← decode document.root
  if document.ended then return result else throw .malformed

end TrafficSteering.Json
