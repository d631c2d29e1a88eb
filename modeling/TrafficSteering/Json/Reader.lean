import TrafficSteering.Json.Basic
import TrafficSteering.Text.Radix
set_option autoImplicit false

/-!
# Reading JSON

The readers take a value from the front of a text and return it with the text that follows it.
When the text breaks the grammar there is nothing to go on with: the rest is `none`, and the value
holds `Json.malformed` at the place of the break.
-/

namespace TrafficSteering.Json

/-- A value read from the front of a text, and the rest of the text unless the grammar broke. -/
abbrev Reading (α : Type) := α × Option (List Char)

/-- The text from the first character that is no space. -/
def skipSpace (text : List Char) : List Char := text.dropWhile isSpace

/-! ## Strings -/

/-- A part of a string: a character, or a 16-bit unit written as an escape. -/
inductive Piece where
  | char (c : Char)
  | unit (value : Nat)
  deriving DecidableEq, Repr

/-- The character that a one-letter escape stands for. -/
def simpleEscape? : Char → Option Char
  | '"' => some '"'
  | '\\' => some '\\'
  | '/' => some '/'
  | 'b' => some (Char.ofNat 8)
  | 'f' => some (Char.ofNat 12)
  | 'n' => some '\n'
  | 'r' => some '\r'
  | 't' => some '\t'
  | _ => none

/-- The unit written as four hexadecimal digits. -/
def unit? (a b c d : Char) : Option Nat := Text.Radix.read? 16 [a, b, c, d]

/-- The parts of a string up to its closing quotation mark, and the text behind it. -/
def pieces? : List Char → Option (List Piece × List Char)
  | [] => none
  | '"' :: rest => some ([], rest)
  | '\\' :: 'u' :: a :: b :: c :: d :: rest => do
    let value ← unit? a b c d
    let (pieces, rest) ← pieces? rest
    some (.unit value :: pieces, rest)
  | '\\' :: letter :: rest => do
    let c ← simpleEscape? letter
    let (pieces, rest) ← pieces? rest
    some (.char c :: pieces, rest)
  | c :: rest => do
    if c.toNat < 32 then none
    let (pieces, rest) ← pieces? rest
    some (.char c :: pieces, rest)

/-- Whether a unit is the first half of a pair of surrogates. -/
def isHighSurrogate (value : Nat) : Bool := 0xD800 ≤ value && value < 0xDC00

/-- Whether a unit is the second half of a pair of surrogates. -/
def isLowSurrogate (value : Nat) : Bool := 0xDC00 ≤ value && value < 0xE000

/-- The character that two halves of a pair stand for. -/
def ofSurrogates (high low : Nat) : Char :=
  Char.ofNat (0x10000 + (high - 0xD800) * 0x400 + (low - 0xDC00))

/-- The characters of a string, unless a surrogate lacks its partner. -/
def assemble? : List Piece → Option (List Char)
  | [] => some []
  | .char c :: rest => (assemble? rest).map (c :: ·)
  | .unit high :: .unit low :: rest =>
    if isHighSurrogate high then
      if isLowSurrogate low then (assemble? rest).map (ofSurrogates high low :: ·) else none
    else if isLowSurrogate high then none
    else (assemble? (.unit low :: rest)).map (Char.ofNat high :: ·)
  | .unit value :: rest =>
    if isHighSurrogate value || isLowSurrogate value then none
    else (assemble? rest).map (Char.ofNat value :: ·)

/-- The text of a string whose opening quotation mark has been read. -/
def string? (text : List Char) : Option (Option String × List Char) := do
  let (pieces, rest) ← pieces? text
  some ((assemble? pieces).map String.ofList, rest)

/-! ## Numbers -/

/-- The text behind a minus sign, if there is one, and whether there is one. -/
def sign : List Char → Bool × List Char
  | '-' :: text => (true, text)
  | text => (false, text)

/-- The text behind a fraction, if there is one, and whether there is one. -/
def fraction? : List Char → Option (Bool × List Char)
  | '.' :: text =>
    if (text.takeWhile Char.isDigit).isEmpty then none
    else some (true, text.dropWhile Char.isDigit)
  | text => some (false, text)

/-- The text behind an exponent, if there is one, and whether there is one. -/
def exponent? : List Char → Option (Bool × List Char)
  | c :: text =>
    if c = 'e' ∨ c = 'E' then
      let digits := match text with
        | '+' :: digits => digits
        | '-' :: digits => digits
        | digits => digits
      if (digits.takeWhile Char.isDigit).isEmpty then none
      else some (true, digits.dropWhile Char.isDigit)
    else some (false, c :: text)
  | [] => some (false, [])

/-- A number.  Its digits have no leading zero. -/
def number? (text : List Char) : Option (Json × List Char) := do
  let (negative, text) := sign text
  let digits := text.takeWhile Char.isDigit
  let value ← Text.Radix.read? 10 digits
  if digits.head? = some '0' ∧ digits.length ≠ 1 then none
  let (hasFraction, text) ← fraction? (text.dropWhile Char.isDigit)
  let (hasExponent, text) ← exponent? text
  if negative || hasFraction || hasExponent then some (.otherNumber, text)
  else some (.natural value, text)

/-! ## Values -/

/-- The text behind a given word. -/
def word? : List Char → List Char → Option (List Char)
  | [], text => some text
  | _ :: _, [] => none
  | c :: word, c' :: text => if c = c' then word? word text else none

/-- A word that stands for a value. -/
def literal (word : String) (value : Json) (text : List Char) : Reading Json :=
  match word? word.toList text with
  | some rest => (value, some rest)
  | none => (.malformed, none)

/-- A value that has no parts. -/
def leaf (text : List Char) : Reading Json :=
  match text with
  | [] => (.malformed, none)
  | '"' :: rest =>
    match string? rest with
    | some (text, rest) => (.string text, some rest)
    | none => (.malformed, none)
  | c :: _ =>
    if c = 'n' then literal "null" .null text
    else if c = 't' then literal "true" (.bool true) text
    else if c = 'f' then literal "false" (.bool false) text
    else match number? text with
      | some (value, rest) => (value, some rest)
      | none => (.malformed, none)

mutual

/-- A value at the front of a text, with or without space before it. -/
def value : Nat → List Char → Reading Json
  | 0, _ => (.malformed, none)
  | fuel + 1, text =>
    match skipSpace text with
    | '[' :: text =>
      match skipSpace text with
      | ']' :: rest => (.array [], some rest)
      | text =>
        let (elements, rest) := elements fuel text
        (.array elements, rest)
    | '{' :: text =>
      match skipSpace text with
      | '}' :: rest => (.object [], some rest)
      | text =>
        let (members, rest) := members fuel text
        (.object members, rest)
    | text => leaf text

/-- One or more elements up to the bracket that closes the array. -/
def elements : Nat → List Char → Reading (List Json)
  | 0, _ => ([.malformed], none)
  | fuel + 1, text =>
    match value fuel text with
    | (first, none) => ([first], none)
    | (first, some text) =>
      match skipSpace text with
      | ']' :: rest => ([first], some rest)
      | ',' :: text =>
        let (others, rest) := elements fuel text
        (first :: others, rest)
      | _ => ([first, .malformed], none)

/-- One or more members up to the brace that closes the object. -/
def members : Nat → List Char → Reading (List (Option String × Json))
  | 0, _ => ([(none, .malformed)], none)
  | fuel + 1, text =>
    match skipSpace text with
    | '"' :: text =>
      match string? text with
      | none => ([(none, .malformed)], none)
      | some (key, text) =>
        match skipSpace text with
        | ':' :: text =>
          match value fuel text with
          | (first, none) => ([(key, first)], none)
          | (first, some text) =>
            match skipSpace text with
            | '}' :: rest => ([(key, first)], some rest)
            | ',' :: text =>
              let (others, rest) := members fuel text
              ((key, first) :: others, rest)
            | _ => ([(key, first), (none, .malformed)], none)
        | _ => ([(key, .malformed)], none)
    | _ => ([(none, .malformed)], none)

end

/-- A whole text: its value, and whether nothing but space follows the value. -/
structure Document where
  root : Json
  ended : Bool
  deriving Repr

/-- Reads a whole text.  Every level of nesting and every element takes at least one character, so
the fuel lasts. -/
def document (text : String) : Document :=
  match value (2 * text.toList.length + 2) text.toList with
  | (root, some rest) => ⟨root, (skipSpace rest).isEmpty⟩
  | (root, none) => ⟨root, false⟩

end TrafficSteering.Json
