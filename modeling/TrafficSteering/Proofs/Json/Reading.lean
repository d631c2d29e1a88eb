import TrafficSteering.Json.Printer
import TrafficSteering.Json.Reader
set_option autoImplicit false

/-!
# Reading what was printed

A printed value reads back as that value, in every layout and whatever follows it, as long as
nothing follows that would go on with a number.  The readers are taken from the inside out: the
parts of a string, numerals, values without parts, and then arrays and objects.
-/

namespace TrafficSteering.Json

open Text.Radix (Stops stops_nil stops_cons)

/-! ## Strings -/

/-- A part of a string that has been read stands for a character. -/
def Piece.Means : Piece → Char → Prop
  | .char c, meant => c = meant
  | .unit value, meant => value = meant.toNat ∧ value < 32

/-- Puts a part in front of the parts read behind it. -/
def before (piece : Piece) : List Piece × List Char → List Piece × List Char
  | (pieces, rest) => (piece :: pieces, rest)

theorem pieces?_simple {letter c : Char} (hescaped : simpleEscape? letter = some c)
    (text : List Char) :
    pieces? ('\\' :: letter :: text) = (pieces? text).map (before (.char c)) := by
  have hother : letter ≠ 'u' := by
    rintro rfl
    simp [simpleEscape?] at hescaped
  rw [pieces?.eq_4 _ _ fun _ _ _ _ _ h => absurd h hother, hescaped]
  cases pieces? text <;> rfl

theorem pieces?_unit {a b c d : Char} {value : Nat} (hdigits : unit? a b c d = some value)
    (text : List Char) :
    pieces? ('\\' :: 'u' :: a :: b :: c :: d :: text) =
      (pieces? text).map (before (.unit value)) := by
  rw [pieces?, hdigits]
  cases pieces? text <;> rfl

theorem pieces?_plain {c : Char} (hvisible : 32 ≤ c.toNat) (hmark : c ≠ '"') (hslash : c ≠ '\\')
    (text : List Char) : pieces? (c :: text) = (pieces? text).map (before (.char c)) := by
  rw [pieces?.eq_5 _ _ hmark (fun _ _ _ _ _ h => absurd h hslash) (fun _ _ h => absurd h hslash),
    if_neg (by omega)]
  cases pieces? text <;> rfl

/-- A control character without a letter of its own is written as four digits, which read back. -/
theorem unit?_control {n : Nat} (h : n < 32) : ∃ a b c d,
    Text.Radix.writePadded 16 4 n = [a, b, c, d] ∧ unit? a b c d = some n := by
  have hlength : (Text.Radix.writePadded 16 4 n).length = 4 :=
    Text.Radix.length_writePadded
      ((Nat.length_toDigits_le_iff (by decide) (by decide)).2 (by omega))
  match hwritten : Text.Radix.writePadded 16 4 n, hlength with
  | [a, b, c, d], _ =>
    refine ⟨a, b, c, d, rfl, ?_⟩
    rw [unit?, ← hwritten, Text.Radix.read?_writePadded Text.Radix.isRadix_sixteen]

/-- An escaped character is read as one part, which stands for it. -/
theorem pieces?_escape (c : Char) : ∃ piece : Piece, piece.Means c ∧
    ∀ text, pieces? (escape c ++ text) = (pieces? text).map (before piece) := by
  have hofNat : ∀ {n}, c.toNat = n → Char.ofNat n = c := fun h => h ▸ Char.ofNat_toNat c
  rw [escape]
  split
  · exact ⟨.char c, rfl, pieces?_simple (by simp [simpleEscape?, *])⟩
  split
  · exact ⟨.char c, rfl, pieces?_simple (by simp [simpleEscape?, *])⟩
  split
  · exact ⟨.char c, rfl, pieces?_simple (by simp [simpleEscape?, *])⟩
  split
  · exact ⟨.char c, rfl, pieces?_simple (by simp [simpleEscape?, *])⟩
  split
  · exact ⟨.char c, rfl, pieces?_simple (by simp [simpleEscape?, *])⟩
  split
  · next hcode => exact ⟨.char c, rfl, pieces?_simple (congrArg some (hofNat hcode))⟩
  split
  · next hcode => exact ⟨.char c, rfl, pieces?_simple (congrArg some (hofNat hcode))⟩
  split
  · next hcontrol =>
    obtain ⟨p, q, r, s, hwritten, hread⟩ := unit?_control hcontrol
    rw [hwritten]
    exact ⟨.unit c.toNat, ⟨rfl, hcontrol⟩, pieces?_unit hread⟩
  · exact ⟨.char c, rfl, pieces?_plain (by omega) ‹_› ‹_›⟩

/-- A part that stands for a character adds it to the characters of the parts behind it. -/
theorem assemble?_cons {piece : Piece} {c : Char} (h : piece.Means c) (pieces : List Piece) :
    assemble? (piece :: pieces) = (assemble? pieces).map (c :: ·) := by
  cases piece with
  | char c' => rw [assemble?, show c' = c from h]
  | unit value =>
    obtain ⟨rfl, hsmall⟩ := h
    have hhigh : isHighSurrogate c.toNat = false := by simp [isHighSurrogate]; omega
    have hlow : isLowSurrogate c.toNat = false := by simp [isLowSurrogate]; omega
    by_cases hpaired : ∃ next rest, pieces = .unit next :: rest
    · obtain ⟨next, rest, rfl⟩ := hpaired
      rw [assemble?.eq_3]
      simp [hhigh, hlow, Char.ofNat_toNat]
    · rw [assemble?.eq_4 _ _ fun next rest h => hpaired ⟨next, rest, h⟩]
      simp [hhigh, hlow, Char.ofNat_toNat]

theorem pieces?_flatMap_escape (text rest : List Char) : ∃ pieces,
    pieces? (text.flatMap escape ++ '"' :: rest) = some (pieces, rest) ∧
      assemble? pieces = some text := by
  induction text with
  | nil => exact ⟨[], rfl, rfl⟩
  | cons c text ih =>
    obtain ⟨pieces, hread, hassembled⟩ := ih
    obtain ⟨piece, hmeant, hescaped⟩ := pieces?_escape c
    refine ⟨piece :: pieces, ?_, ?_⟩
    · rw [List.flatMap_cons, List.append_assoc, hescaped, hread]
      rfl
    · rw [assemble?_cons hmeant, hassembled]
      rfl

/-- A text in quotation marks, and a text that is absent, read back behind the first mark. -/
theorem quoteText_eq (text : Option String) : ∃ body, quoteText text = '"' :: body ∧
    ∀ rest, string? (body ++ rest) = some (text, rest) := by
  cases text with
  | none => exact ⟨"\\ud800\"".toList, rfl, fun rest => rfl⟩
  | some text =>
    refine ⟨text.toList.flatMap escape ++ ['"'], rfl, fun rest => ?_⟩
    obtain ⟨pieces, hread, hassembled⟩ := pieces?_flatMap_escape text.toList rest
    rw [string?, List.append_assoc, List.singleton_append, hread]
    simp [hassembled]

/-! ## Numbers -/

/-- The characters with which a number would go on. -/
def goesOn (c : Char) : Bool := c.isDigit || c = '.' || c = 'e' || c = 'E'

theorem fraction?_of_stops {rest : List Char} (hstops : Stops goesOn rest) :
    fraction? rest = some (false, rest) := by
  unfold fraction?
  split
  · exact absurd (hstops '.' rfl) (by decide)
  · rfl

theorem exponent?_of_stops {rest : List Char} (hstops : Stops goesOn rest) :
    exponent? rest = some (false, rest) := by
  cases rest with
  | nil => rfl
  | cons c rest =>
    have hother := hstops c rfl
    unfold exponent?
    refine if_neg ?_
    rintro (rfl | rfl) <;> exact absurd hother (by decide)

theorem isDigit_of_goesOn {rest : List Char} (hstops : Stops goesOn rest) :
    Stops Char.isDigit rest := by
  intro c hc
  have := hstops c hc
  simp only [goesOn, Bool.or_eq_false_iff] at this
  exact this.1.1.1

/-- A text that starts with a digit has no sign. -/
theorem sign_of_digit {text : List Char} (h : ∀ c ∈ text.head?, c.isDigit = true) :
    sign text = (false, text) := by
  unfold sign
  split
  · exact absurd (h '-' rfl) (by decide)
  · rfl

/-- The digits of a number, with or without a sign, are a number. -/
theorem number?_of_sign {text : List Char} {negative : Bool} {n : Nat} {rest : List Char}
    (hsigned : sign text = (negative, Text.Radix.write 10 n ++ rest)) (hstops : Stops goesOn rest) :
    number? text = some (if negative then .otherNumber else .natural n, rest) := by
  have hrun := (isDigit_of_goesOn hstops).takeWhile_write n
  have hbehind := (isDigit_of_goesOn hstops).dropWhile_write n
  have hread := Text.Radix.read?_write Text.Radix.isRadix_ten n
  unfold number?
  simp only [hsigned, hrun, hbehind, hread, Option.bind_eq_bind, Option.bind_some,
    fraction?_of_stops hstops, exponent?_of_stops hstops, Bool.or_false]
  rw [if_neg fun hlong => hlong.2 (Text.Radix.length_write_of_zero hlong.1)]
  cases negative <;> rfl

/-! ## Space -/

/-- Nothing but characters that may stand between the parts of a document. -/
def Spaces (text : List Char) : Prop := ∀ c ∈ text, isSpace c = true

theorem skipSpace_append {space : List Char} (h : Spaces space) (text : List Char) :
    skipSpace (space ++ text) = skipSpace text :=
  List.dropWhile_append_of_pos h

theorem skipSpace_cons {c : Char} (h : isSpace c = false) (text : List Char) :
    skipSpace (c :: text) = c :: text := by
  simp [skipSpace, h]

theorem skipSpace_skipSpace (text : List Char) : skipSpace (skipSpace text) = skipSpace text := by
  induction text with
  | nil => rfl
  | cons c text ih =>
    cases h : isSpace c with
    | true =>
      have hskip : skipSpace (c :: text) = skipSpace text := List.dropWhile_cons_of_pos h
      rw [hskip, ih]
    | false => rw [skipSpace_cons h, skipSpace_cons h]

theorem stops_of_spaces {space : List Char} (h : Spaces space) {c : Char} (hc : goesOn c = false)
    (rest : List Char) : Stops goesOn (space ++ c :: rest) := by
  cases space with
  | nil => exact stops_cons hc rest
  | cons blank space =>
    refine stops_cons ?_ _
    have hwhich := h blank (List.mem_cons_self ..)
    simp only [isSpace, Bool.or_eq_true, decide_eq_true_eq] at hwhich
    rcases hwhich with ((rfl | rfl) | rfl) | rfl <;> decide

theorem value_skipSpace (fuel : Nat) (text : List Char) :
    value fuel (skipSpace text) = value fuel text := by
  cases fuel with
  | zero => rfl
  | succ fuel => rw [value, value, skipSpace_skipSpace]

theorem value_append {space : List Char} (h : Spaces space) (fuel : Nat) (text : List Char) :
    value fuel (space ++ text) = value fuel text := by
  rw [← value_skipSpace, skipSpace_append h, value_skipSpace]

theorem elements_skipSpace (fuel : Nat) (text : List Char) :
    elements fuel (skipSpace text) = elements fuel text := by
  cases fuel with
  | zero => rfl
  | succ fuel => rw [elements, elements, value_skipSpace]

theorem members_skipSpace (fuel : Nat) (text : List Char) :
    members fuel (skipSpace text) = members fuel text := by
  cases fuel with
  | zero => rfl
  | succ fuel => rw [members, members, skipSpace_skipSpace]

/-! ## Values without parts -/

/-- A character with which a value may begin that is neither an array nor an object. -/
def Begins (c : Char) : Prop := isSpace c = false ∧ c ≠ '[' ∧ c ≠ '{' ∧ c ≠ ']'

instance (c : Char) : Decidable (Begins c) := inferInstanceAs (Decidable (_ ∧ _))

theorem ne_of_isDigit {c d : Char} (hc : c.isDigit = true) (hd : d.isDigit = false) : c ≠ d := by
  rintro rfl
  rw [hc] at hd
  exact absurd hd (by decide)

theorem begins_of_isDigit {c : Char} (h : c.isDigit = true) : Begins c := by
  have hother : ∀ {d : Char}, d.isDigit = false → c ≠ d := ne_of_isDigit h
  have hblank : isSpace c = false := by
    simp only [isSpace, Bool.or_eq_false_iff, decide_eq_false_iff_not]
    exact ⟨⟨⟨hother (by decide), hother (by decide)⟩, hother (by decide)⟩, hother (by decide)⟩
  exact ⟨hblank, hother (by decide), hother (by decide), hother (by decide)⟩

theorem value_of_begins {c : Char} (h : Begins c) (fuel : Nat) (text : List Char) :
    value (fuel + 1) (c :: text) = leaf (c :: text) := by
  obtain ⟨hspace, harray, hobject, -⟩ := h
  rw [value, skipSpace_cons hspace]
  split
  · next he => exact absurd (List.cons.inj he).1 harray
  · next he => exact absurd (List.cons.inj he).1 hobject
  · rfl

/-- A text that begins neither a string nor a word is a number. -/
theorem leaf_of_number {c : Char} {text : List Char} {read : Json × List Char}
    (h : c.isDigit = true ∨ c = '-') (hnumber : number? (c :: text) = some read) :
    leaf (c :: text) = (read.1, some read.2) := by
  have hother : ∀ d : Char, d.isDigit = false → d ≠ '-' → c ≠ d := by
    intro d hdigit hminus
    rcases h with h | rfl
    · exact ne_of_isDigit h hdigit
    · exact hminus.symm
  unfold leaf
  split
  · next he => exact absurd he (by simp)
  · next he => exact absurd (List.cons.inj he).1 (hother '"' (by decide) (by decide))
  · next he =>
    rw [← (List.cons.inj he).1, hnumber, if_neg (hother 'n' (by decide) (by decide)),
      if_neg (hother 't' (by decide) (by decide)), if_neg (hother 'f' (by decide) (by decide))]

/-- A printed value without parts reads back as that value. -/
theorem leaf_charsOfLeaf {value : Json} (hwhole : value.intact = true)
    (harray : ∀ elements, value ≠ .array elements) (hobject : ∀ members, value ≠ .object members) :
    ∃ c text, charsOfLeaf value = c :: text ∧ Begins c ∧
      ∀ rest, Stops goesOn rest → leaf (c :: text ++ rest) = (value, some rest) := by
  cases value with
  | null => exact ⟨'n', _, rfl, by decide, fun rest _ => rfl⟩
  | bool value =>
    cases value with
    | true => exact ⟨'t', _, rfl, by decide, fun rest _ => rfl⟩
    | false => exact ⟨'f', _, rfl, by decide, fun rest _ => rfl⟩
  | natural n =>
    cases hwritten : Text.Radix.write 10 n with
    | nil => exact absurd hwritten (Text.Radix.write_ne_nil _ _)
    | cons c text =>
      have hdigit : c.isDigit = true :=
        Text.Radix.isDigit_of_mem_write c (hwritten ▸ List.mem_cons_self ..)
      refine ⟨c, text, hwritten, begins_of_isDigit hdigit, fun rest hstops => ?_⟩
      have hunsigned : sign (c :: text ++ rest) = (false, Text.Radix.write 10 n ++ rest) := by
        rw [hwritten]
        exact sign_of_digit fun c' hc' => Option.some.inj hc' ▸ hdigit
      exact leaf_of_number (.inl hdigit) (number?_of_sign hunsigned hstops)
  | otherNumber =>
    exact ⟨'-', ['0'], rfl, by decide, fun rest hstops =>
      leaf_of_number (.inr rfl) (@number?_of_sign _ true 0 _ rfl hstops)⟩
  | string text =>
    obtain ⟨body, hquoted, hread⟩ := quoteText_eq text
    refine ⟨'"', body, hquoted, by decide, fun rest _ => ?_⟩
    simp [leaf, hread rest]
  | array elements => exact absurd rfl (harray elements)
  | object members => exact absurd rfl (hobject members)
  | malformed => exact absurd hwhole (by decide)

/-! ## Arrays and objects, one part at a time -/

theorem value_array {fuel : Nat} {text rest : List Char} {parts : List Json}
    (hinhabited : ∀ c ∈ (skipSpace text).head?, c ≠ ']')
    (hread : elements fuel text = (parts, some rest)) :
    value (fuel + 1) ('[' :: text) = (.array parts, some rest) := by
  rw [value, skipSpace_cons (by decide)]
  simp only
  split
  · next he => exact absurd rfl (hinhabited ']' (by rw [he]; rfl))
  · rw [elements_skipSpace, hread]

theorem value_object {fuel : Nat} {text rest : List Char} {parts : List (Option String × Json)}
    (hinhabited : ∀ c ∈ (skipSpace text).head?, c ≠ '}')
    (hread : members fuel text = (parts, some rest)) :
    value (fuel + 1) ('{' :: text) = (.object parts, some rest) := by
  rw [value, skipSpace_cons (by decide)]
  simp only
  split
  · next he => exact absurd rfl (hinhabited '}' (by rw [he]; rfl))
  · rw [members_skipSpace, hread]

theorem elements_last {fuel : Nat} {text space rest : List Char} {element : Json}
    (hread : value fuel text = (element, some (space ++ ']' :: rest))) (h : Spaces space) :
    elements (fuel + 1) text = ([element], some rest) := by
  rw [elements, hread]
  simp only [skipSpace_append h]
  rfl

theorem elements_next {fuel : Nat} {text behind : List Char} {element : Json}
    (hread : value fuel text = (element, some (',' :: behind))) :
    elements (fuel + 1) text = (element :: (elements fuel behind).1, (elements fuel behind).2) := by
  rw [elements, hread]
  rfl

/-- The key of a member and its colon leave the value and what follows it to read. -/
theorem members_member {lead : List Char} (h : Spaces lead) (fuel : Nat) (key : Option String)
    (text : List Char) :
    members (fuel + 1) (lead ++ quoteText key ++ ':' :: text) =
      match value fuel text with
      | (first, none) => ([(key, first)], none)
      | (first, some behind) =>
        match skipSpace behind with
        | '}' :: rest => ([(key, first)], some rest)
        | ',' :: behind => ((key, first) :: (members fuel behind).1, (members fuel behind).2)
        | _ => ([(key, first), (none, .malformed)], none) := by
  obtain ⟨body, hquoted, hread⟩ := quoteText_eq key
  rw [List.append_assoc, hquoted, members, skipSpace_append h, List.cons_append,
    skipSpace_cons (by decide)]
  simp only [hread]
  rw [skipSpace_cons (by decide)]
  rfl

theorem members_last {fuel : Nat} {lead text space rest : List Char} {content : Json}
    (hahead : Spaces lead) (hread : value fuel text = (content, some (space ++ '}' :: rest)))
    (h : Spaces space) (key : Option String) :
    members (fuel + 1) (lead ++ quoteText key ++ ':' :: text) = ([(key, content)], some rest) := by
  rw [members_member hahead, hread]
  simp only [skipSpace_append h]
  rfl

theorem members_next {fuel : Nat} {lead text behind : List Char} {content : Json}
    (hahead : Spaces lead) (hread : value fuel text = (content, some (',' :: behind)))
    (key : Option String) :
    members (fuel + 1) (lead ++ quoteText key ++ ':' :: text) =
      ((key, content) :: (members fuel behind).1, (members fuel behind).2) := by
  rw [members_member hahead, hread]
  rfl

/-! ## Printed values -/

variable (layout : Layout)

theorem chars_of_leaf (depth : Nat) {v : Json} (harray : ∀ elements, v ≠ .array elements)
    (hobject : ∀ members, v ≠ .object members) : v.chars layout depth = charsOfLeaf v :=
  chars.eq_5 _ _ _ (harray _) harray (hobject _) hobject

/-- A value without parts reads back, since its first character begins no array and no object. -/
theorem value_leaf (depth : Nat) {v : Json} (hwhole : v.intact = true)
    (harray : ∀ elements, v ≠ .array elements) (hobject : ∀ members, v ≠ .object members)
    {fuel : Nat} {rest : List Char} (henough : 2 * (v.chars layout depth).length ≤ fuel)
    (hstops : Stops goesOn rest) :
    value fuel (v.chars layout depth ++ rest) = (v, some rest) := by
  obtain ⟨c, text, hprinted, hbegins, hread⟩ := leaf_charsOfLeaf hwhole harray hobject
  rw [chars_of_leaf layout depth harray hobject, hprinted] at henough ⊢
  cases fuel with
  | zero => simp at henough
  | succ fuel =>
    rw [List.cons_append, value_of_begins hbegins, ← List.cons_append, hread rest hstops]

/-- The first character of a printed value is no space and closes no array. -/
theorem chars_head (depth : Nat) {v : Json} (hwhole : v.intact = true) :
    ∃ c text, v.chars layout depth = c :: text ∧ isSpace c = false ∧ c ≠ ']' := by
  by_cases harray : ∃ elements, v = .array elements
  · obtain ⟨_ | ⟨element, more⟩, rfl⟩ := harray
    · exact ⟨'[', _, rfl, by decide, by decide⟩
    · exact ⟨'[', _, rfl, by decide, by decide⟩
  by_cases hobject : ∃ members, v = .object members
  · obtain ⟨_ | ⟨member, more⟩, rfl⟩ := hobject
    · exact ⟨'{', _, rfl, by decide, by decide⟩
    · exact ⟨'{', _, rfl, by decide, by decide⟩
  have harray' : ∀ elements, v ≠ .array elements := fun _ h => harray ⟨_, h⟩
  have hobject' : ∀ members, v ≠ .object members := fun _ h => hobject ⟨_, h⟩
  obtain ⟨c, text, hprinted, hbegins, -⟩ := leaf_charsOfLeaf hwhole harray' hobject'
  exact ⟨c, text, by rw [chars_of_leaf layout depth harray' hobject', hprinted], hbegins.1,
    hbegins.2.2.2⟩

theorem charsOfElements_head (depth : Nat) {element : Json} (hwhole : element.intact = true)
    (more : List Json) (behind : List Char) :
    ∀ c ∈ (skipSpace (charsOfElements layout depth (element :: more) ++ behind)).head?,
      c ≠ ']' := by
  obtain ⟨c, text, hprinted, hspace, hother⟩ := chars_head layout depth hwhole
  have hshape : ∃ text, charsOfElements layout depth (element :: more) ++ behind =
      layout.lead depth ++ c :: text := by
    cases more with
    | nil => exact ⟨text ++ behind, by simp [charsOfElements, hprinted]⟩
    | cons next more =>
      exact ⟨text ++ ',' :: charsOfElements layout depth (next :: more) ++ behind,
        by simp [charsOfElements, hprinted]⟩
  obtain ⟨text, hshape⟩ := hshape
  rw [hshape, skipSpace_append (layout.isSpace_lead depth), skipSpace_cons hspace]
  intro c' hc'
  rwa [← Option.some.inj hc']

theorem charsOfMembers_head (depth : Nat) (member : Option String × Json)
    (more : List (Option String × Json)) (behind : List Char) :
    ∀ c ∈ (skipSpace (charsOfMembers layout depth (member :: more) ++ behind)).head?, c ≠ '}' := by
  obtain ⟨body, hquoted, -⟩ := quoteText_eq member.1
  have hshape : ∃ text, charsOfMembers layout depth (member :: more) ++ behind =
      layout.lead depth ++ '"' :: text := by
    cases more <;> simp only [charsOfMembers, hquoted, List.append_assoc, List.cons_append] <;>
      exact ⟨_, rfl⟩
  obtain ⟨text, hshape⟩ := hshape
  rw [hshape, skipSpace_append (layout.isSpace_lead depth), skipSpace_cons (by decide)]
  intro c' hc'
  rw [← Option.some.inj hc']
  decide

-- By induction on the value.  Two units of fuel for each printed character last, one for the value
-- that begins there and one for the sequence in which it stands.
mutual

/-- A printed value reads back as that value. -/
theorem value_chars : ∀ (v : Json) (depth fuel : Nat) (rest : List Char),
    v.intact = true → 2 * (v.chars layout depth).length ≤ fuel → Stops goesOn rest →
      value fuel (v.chars layout depth ++ rest) = (v, some rest)
  | .array [], _, fuel + 2, rest, _, _, _ => rfl
  | .array (element :: more), depth, fuel + 1, rest, hwhole, henough, _ => by
    simp only [chars, List.cons_append, List.append_assoc] at henough ⊢
    refine value_array ?_ ?_
    · exact charsOfElements_head layout _ (Bool.and_eq_true_iff.1 hwhole).1 more _
    · refine elements_chars (element :: more) (depth + 1) fuel _ rest (by simp) hwhole ?_
        (layout.isSpace_lead depth)
      simp only [List.length_cons, List.length_append] at henough
      omega
  | .object [], _, fuel + 2, rest, _, _, _ => rfl
  | .object (member :: more), depth, fuel + 1, rest, hwhole, henough, _ => by
    simp only [chars, List.cons_append, List.append_assoc] at henough ⊢
    refine value_object (charsOfMembers_head layout _ member more _) ?_
    refine members_chars (member :: more) (depth + 1) fuel _ rest (by simp) hwhole ?_
      (layout.isSpace_lead depth)
    simp only [List.length_cons, List.length_append] at henough
    omega
  | .null, depth, _, _, hwhole, henough, hstops =>
    value_leaf layout depth hwhole (by simp) (by simp) henough hstops
  | .bool _, depth, _, _, hwhole, henough, hstops =>
    value_leaf layout depth hwhole (by simp) (by simp) henough hstops
  | .natural _, depth, _, _, hwhole, henough, hstops =>
    value_leaf layout depth hwhole (by simp) (by simp) henough hstops
  | .otherNumber, depth, _, _, hwhole, henough, hstops =>
    value_leaf layout depth hwhole (by simp) (by simp) henough hstops
  | .string _, depth, _, _, hwhole, henough, hstops =>
    value_leaf layout depth hwhole (by simp) (by simp) henough hstops

theorem elements_chars : ∀ (parts : List Json) (depth fuel : Nat) (space rest : List Char),
    parts ≠ [] → intactElements parts = true →
      2 * (charsOfElements layout depth parts).length < fuel → Spaces space →
        elements fuel (charsOfElements layout depth parts ++ (space ++ ']' :: rest)) =
          (parts, some rest)
  | [], _, _, _, _, habsent, _, _, _ => absurd rfl habsent
  | [element], depth, fuel + 1, space, rest, _, hwhole, henough, h => by
    simp only [charsOfElements, List.length_append, intactElements, Bool.and_true] at henough hwhole
    have hread := value_chars element depth fuel (space ++ ']' :: rest) hwhole (by omega)
      (stops_of_spaces h (by decide) rest)
    rw [charsOfElements, List.append_assoc]
    exact elements_last (by rw [value_append (layout.isSpace_lead depth), hread]) h
  | element :: next :: more, depth, fuel + 1, space, rest, _, hwhole, henough, h => by
    obtain ⟨hfirst, hothers⟩ := Bool.and_eq_true_iff.1 hwhole
    simp only [charsOfElements, List.length_append, List.length_cons] at henough
    have hread := value_chars element depth fuel
      (',' :: (charsOfElements layout depth (next :: more) ++ (space ++ ']' :: rest))) hfirst
      (by omega) (stops_cons (by decide) _)
    have hbehind := elements_chars (next :: more) depth fuel space rest (by simp) hothers
      (by omega) h
    rw [charsOfElements, List.append_assoc, List.append_assoc, List.cons_append,
      elements_next (by rw [value_append (layout.isSpace_lead depth), hread]), hbehind]
    simp

theorem members_chars :
    ∀ (parts : List (Option String × Json)) (depth fuel : Nat) (space rest : List Char),
      parts ≠ [] → intactMembers parts = true →
        2 * (charsOfMembers layout depth parts).length < fuel → Spaces space →
          members fuel (charsOfMembers layout depth parts ++ (space ++ '}' :: rest)) =
            (parts, some rest)
  | [], _, _, _, _, habsent, _, _, _ => absurd rfl habsent
  | [(key, content)], depth, fuel + 1, space, rest, _, hwhole, henough, h => by
    simp only [charsOfMembers, List.length_append, List.length_cons, intactMembers,
      Bool.and_true] at henough hwhole
    have hread := value_chars content depth fuel (space ++ '}' :: rest) hwhole (by omega)
      (stops_of_spaces h (by decide) rest)
    have hmember := members_last (layout.isSpace_lead depth)
      (by rw [value_append layout.isSpace_gap, hread]) h key
    simpa [charsOfMembers] using hmember
  | (key, content) :: next :: more, depth, fuel + 1, space, rest, _, hwhole, henough, h => by
    obtain ⟨hfirst, hothers⟩ := Bool.and_eq_true_iff.1 hwhole
    simp only [charsOfMembers, List.length_append, List.length_cons] at henough
    have hread := value_chars content depth fuel
      (',' :: (charsOfMembers layout depth (next :: more) ++ (space ++ '}' :: rest))) hfirst
      (by omega) (stops_cons (by decide) _)
    have hbehind := members_chars (next :: more) depth fuel space rest (by simp) hothers
      (by omega) h
    have hmember := members_next (layout.isSpace_lead depth)
      (by rw [value_append layout.isSpace_gap, hread]) key
    rw [hbehind] at hmember
    simpa [charsOfMembers] using hmember

end

/-- A document that was printed has the printed value and nothing behind it. -/
theorem document_chars {v : Json} (hwhole : v.intact = true) (depth : Nat) :
    document (String.ofList (v.chars layout depth)) = ⟨v, true⟩ := by
  have hread := value_chars layout v depth (2 * (v.chars layout depth).length + 2) [] hwhole
    (by omega) (stops_nil _)
  rw [List.append_nil] at hread
  rw [document, String.toList_ofList, hread]
  rfl

end TrafficSteering.Json
