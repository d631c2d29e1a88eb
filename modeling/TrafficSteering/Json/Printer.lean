import TrafficSteering.Json.Basic
import TrafficSteering.Text.Radix
set_option autoImplicit false

/-!
# Printing JSON

A value is printed in a layout, of which there are two: compact, without any space, and indented,
with one element or member on a line.  Characters outside ASCII stand for themselves.
-/

namespace TrafficSteering.Json

/-! ## Strings -/

/-- One character of a string, escaped where the grammar asks for it. -/
def escape (c : Char) : List Char :=
  if c = '"' then ['\\', '"']
  else if c = '\\' then ['\\', '\\']
  else if c = '\n' then ['\\', 'n']
  else if c = '\r' then ['\\', 'r']
  else if c = '\t' then ['\\', 't']
  else if c.toNat = 8 then ['\\', 'b']
  else if c.toNat = 12 then ['\\', 'f']
  else if c.toNat < 32 then '\\' :: 'u' :: Text.Radix.writePadded 16 4 c.toNat
  else [c]

/-- A string in quotation marks. -/
def quote (text : String) : List Char := '"' :: text.toList.flatMap escape ++ ['"']

/-- A string that may lack a text.  One unpaired surrogate is as good as another. -/
def quoteText : Option String → List Char
  | some text => quote text
  | none => "\"\\ud800\"".toList

/-- A value without parts. -/
def charsOfLeaf : Json → List Char
  | .bool true => "true".toList
  | .bool false => "false".toList
  | .natural value => Text.Radix.write 10 value
  | .otherNumber => "-0".toList
  | .string text => quoteText text
  | _ => "null".toList

/-! ## Layouts -/

/-- How the parts of arrays and objects are set apart: with nothing but space. -/
structure Layout where
  /-- What stands in front of a part or a closing bracket at a given depth. -/
  lead : Nat → List Char
  /-- What stands between the colon of a member and its value. -/
  gap : List Char
  isSpace_lead : ∀ depth, ∀ c ∈ lead depth, isSpace c = true
  isSpace_gap : ∀ c ∈ gap, isSpace c = true

namespace Layout

/-- No space at all. -/
def compact : Layout where
  lead _ := []
  gap := []
  isSpace_lead _ _ h := absurd h List.not_mem_nil
  isSpace_gap _ h := absurd h List.not_mem_nil

/-- A new line at a given depth, two blanks for each level. -/
def newLine (depth : Nat) : List Char := '\n' :: List.replicate (2 * depth) ' '

theorem isSpace_newLine (depth : Nat) : ∀ c ∈ newLine depth, isSpace c = true := by
  intro c hc
  rcases List.mem_cons.1 hc with rfl | hc
  · decide
  · rw [List.eq_of_mem_replicate hc]
    decide

/-- One part on a line. -/
def indented : Layout where
  lead := newLine
  gap := [' ']
  isSpace_lead := isSpace_newLine
  isSpace_gap c hc := by
    rw [List.mem_singleton.1 hc]
    decide

end Layout

/-! ## Values -/

mutual

/-- The characters of a value in a layout, at a given depth. -/
def chars (layout : Layout) (depth : Nat) : Json → List Char
  | .array [] => ['[', ']']
  | .array elements =>
    '[' :: charsOfElements layout (depth + 1) elements ++ layout.lead depth ++ [']']
  | .object [] => ['{', '}']
  | .object members =>
    '{' :: charsOfMembers layout (depth + 1) members ++ layout.lead depth ++ ['}']
  | leaf => charsOfLeaf leaf

/-- Elements with commas between them. -/
def charsOfElements (layout : Layout) (depth : Nat) : List Json → List Char
  | [] => []
  | [element] => layout.lead depth ++ element.chars layout depth
  | element :: rest =>
    layout.lead depth ++ element.chars layout depth ++ ',' :: charsOfElements layout depth rest

/-- Members with commas between them. -/
def charsOfMembers (layout : Layout) (depth : Nat) : List (Option String × Json) → List Char
  | [] => []
  | [member] =>
    layout.lead depth ++ quoteText member.1 ++ ':' :: layout.gap ++ member.2.chars layout depth
  | member :: rest =>
    layout.lead depth ++ quoteText member.1 ++ ':' :: layout.gap ++ member.2.chars layout depth ++
      ',' :: charsOfMembers layout depth rest

end

/-- A value without any space between its parts. -/
def render (value : Json) : String := String.ofList (value.chars .compact 0)

/-- A value with one part on a line. -/
def renderIndented (value : Json) : String := String.ofList (value.chars .indented 0)

end TrafficSteering.Json
