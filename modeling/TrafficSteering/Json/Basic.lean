set_option autoImplicit false

/-!
# JSON values

A JSON text is read into a tree.  The tree keeps what the program can tell apart and no more: a
number is either a plain run of digits or some other number, because every number the program reads
is a natural number written without sign, fraction or exponent.

A text that breaks the grammar still has a tree: everything before the break, and `malformed` at
the place of the break.  So whoever goes through a tree from left to right meets the faults of a
document in document order, whether they are faults of grammar or of meaning.
-/

namespace TrafficSteering

/-- A JSON value.  A text is absent if the string holds a surrogate without its partner: such a
string can be passed over but has no characters. -/
inductive Json where
  | null
  | bool (value : Bool)
  /-- A number written as digits only. -/
  | natural (value : Nat)
  /-- A number with a sign, a fraction or an exponent. -/
  | otherNumber
  | string (text : Option String)
  | array (elements : List Json)
  /-- The members in document order.  A key may occur more than once. -/
  | object (members : List (Option String × Json))
  /-- The place at which the text breaks the grammar. -/
  | malformed
  deriving Repr, Inhabited

namespace Json

/-- A string with a text. -/
def text (s : String) : Json := .string (some s)

/-- An object whose keys have texts. -/
def record (members : List (String × Json)) : Json :=
  .object (members.map fun member => (some member.1, member.2))

/-- The characters that may stand between the parts of a document. -/
def isSpace (c : Char) : Bool := c = ' ' || c = '\n' || c = '\r' || c = '\t'

/-! ## Values without a break -/

mutual

/-- Whether the grammar holds throughout a value. -/
def intact : Json → Bool
  | .malformed => false
  | .array elements => intactElements elements
  | .object members => intactMembers members
  | _ => true

/-- Whether the grammar holds throughout every element. -/
def intactElements : List Json → Bool
  | [] => true
  | element :: rest => element.intact && intactElements rest

/-- Whether the grammar holds throughout every member. -/
def intactMembers : List (Option String × Json) → Bool
  | [] => true
  | member :: rest => member.2.intact && intactMembers rest

end

end Json

end TrafficSteering
