import TrafficSteering.Proofs.Except
import TrafficSteering.Proofs.SwitchId
import TrafficSteering.Proofs.Text.Numerals
set_option autoImplicit false

/-!
# The notations of a switch

There are three ways to write an identifier: eight octets with colons between them, a hexadecimal
numeral behind `0x`, and a decimal numeral.  Reading takes the blanks away at both ends, accepts
these three and nothing else, and complains about what is left otherwise (`parse_exact`).  Every
identifier has each of the three, and the printed form is one of them.
-/

namespace TrafficSteering.SwitchId

open Text.Radix (IsDigit IsRadix IsSigned digit? digit?_eq_some_iff isNumeral_pair_iff
  isNumeral_singleton_iff isNumeral_write isRadix_ten isRadix_sixteen readSigned?
  readSigned?_eq_some_iff)

/-! ## Notations -/

/-- The notation of one octet: one hexadecimal digit or two, or a plus sign and one digit. -/
inductive IsOctet : List Char → Nat → Prop where
  | one {c : Char} {value : Nat} (h : IsDigit 16 c value) : IsOctet [c] value
  | two {c d : Char} {high low : Nat} (hhigh : IsDigit 16 c high) (hlow : IsDigit 16 d low) :
      IsOctet [c, d] (16 * high + low)
  | plus {c : Char} {value : Nat} (h : IsDigit 16 c value) : IsOctet ['+', c] value

/-- A text without blanks around it is a notation of the identifier with a number. -/
inductive Denotes : List Char → Nat → Prop where
  /-- Eight octets, the most significant first. -/
  | octets {parts : List (List Char)} {values : List Nat} (hcount : parts.length = 8)
      (hparts : List.Forall₂ IsOctet parts values) :
      Denotes (Text.join [':'] parts) (Nat.ofDigits 256 values.reverse)
  | hexadecimal {digits : List Char} {number : Nat} (h : IsSigned 16 digits number)
      (hfits : number < 2 ^ 64) : Denotes ('0' :: 'x' :: digits) number
  | decimal {digits : List Char} {number : Nat} (h : IsSigned 10 digits number)
      (hfits : number < 2 ^ 64) : Denotes digits number

variable {id : SwitchId} {number value : Nat} {digits text : List Char}

/-! ## Octets -/

theorem ofNumber?_eq_some_iff : ofNumber? number = some id ↔ id.number = number := by
  constructor
  · intro h
    unfold ofNumber? at h
    split at h
    · rename_i hfits
      rw [← Option.some.inj h]
      exact UInt64.toNat_ofNat_of_lt' hfits
    · cases h
  · rintro rfl
    exact ofNumber?_number id

theorem octet?_eq_some_iff : octet? digits = some value ↔ IsOctet digits value := by
  unfold octet?
  constructor
  · intro h
    split at h
    · rename_i hlength
      rw [readSigned?_eq_some_iff isRadix_sixteen] at h
      rcases h with hplain | @⟨digits, _, hplus⟩
      · rcases hlength with hone | htwo
        · obtain ⟨c, rfl⟩ := List.length_eq_one_iff.mp hone
          exact .one (isNumeral_singleton_iff.mp hplain)
        · obtain ⟨c, d, rfl⟩ := List.length_eq_two.mp htwo
          obtain ⟨high, low, hhigh, hlow, rfl⟩ := isNumeral_pair_iff.mp hplain
          exact .two hhigh hlow
      · have hsome : digits ≠ [] := hplus.1
        rcases hlength with hone | htwo
        · exact absurd (List.eq_nil_of_length_eq_zero (by simpa using hone)) hsome
        · obtain ⟨c, rfl⟩ := List.length_eq_one_iff.mp (by simpa using htwo)
          exact .plus (isNumeral_singleton_iff.mp hplus)
    · cases h
  · intro h
    cases h with
    | one h =>
      rw [if_pos (.inl rfl), readSigned?_eq_some_iff isRadix_sixteen]
      exact .plain (isNumeral_singleton_iff.mpr h)
    | two hhigh hlow =>
      rw [if_pos (.inr rfl), readSigned?_eq_some_iff isRadix_sixteen]
      exact .plain (isNumeral_pair_iff.mpr ⟨_, _, hhigh, hlow, rfl⟩)
    | plus h =>
      rw [if_pos (.inr rfl), readSigned?_eq_some_iff isRadix_sixteen]
      exact .plus (isNumeral_singleton_iff.mpr h)

theorem IsOctet.lt (h : IsOctet digits value) : value < 256 := by
  cases h with
  | one h | plus h => exact Nat.lt_trans h.1 (by decide)
  | two hhigh hlow =>
    have hhigh := hhigh.1
    have hlow := hlow.1
    omega

/-- All parts are octets exactly if each of them is. -/
theorem mapM_octet?_eq_some_iff {parts : List (List Char)} {values : List Nat} :
    parts.mapM octet? = some values ↔ List.Forall₂ IsOctet parts values := by
  induction parts generalizing values with
  | nil => simp [eq_comm]
  | cons part parts ih =>
    rw [List.mapM_cons, List.forall₂_cons_left_iff]
    simp only [Option.bind_eq_bind, Option.bind_eq_some_iff, octet?_eq_some_iff, ih,
      Option.pure_def, Option.some.injEq, exists_and_left, eq_comm (a := values)]

/-- Octets are digits to the base of 256. -/
theorem ofOctets_eq (values : List Nat) : ofOctets values = Nat.ofDigits 256 values.reverse := by
  rw [Nat.ofDigits_eq_foldr, List.foldr_reverse, ofOctets]
  simp [Nat.add_comm, Nat.mul_comm]

theorem ofParts?_eq_some_iff {parts : List (List Char)} :
    ofParts? parts = some id ↔ parts.length = 8 ∧
      ∃ values, List.Forall₂ IsOctet parts values ∧
        id.number = Nat.ofDigits 256 values.reverse := by
  unfold ofParts?
  split
  · rename_i hcount
    simp only [Option.bind_eq_bind, Option.bind_eq_some_iff, mapM_octet?_eq_some_iff,
      ofNumber?_eq_some_iff, ofOctets_eq, hcount, true_and]
  · rename_i hcount
    simp [hcount]

/-! ## Reading -/

/-- A numeral holds neither colons nor blanks, and a plus sign is neither. -/
theorem clean_of_isSigned {radix : Nat} (hr : IsRadix radix) (h : IsSigned radix digits number) :
    ∀ c ∈ digits, c ≠ ':' ∧ Text.isBlank c = false := by
  have hclean : ∀ {c : Char} {value : Nat}, IsDigit radix c value →
      c ≠ ':' ∧ Text.isBlank c = false := by
    intro c value hc
    have hc : IsDigit 16 c value := ⟨Nat.lt_of_lt_of_le hc.1 hr.small, hc.2⟩
    exact (plain_of_digit (Option.isSome_of_eq_some
      ((digit?_eq_some_iff isRadix_sixteen).mpr hc))).2
  intro c hc
  cases h with
  | plain h =>
    obtain ⟨value, hdigit⟩ := h.isDigit c hc
    exact hclean hdigit
  | plus h =>
    rcases List.mem_cons.mp hc with rfl | hc
    · exact ⟨by decide, by decide⟩
    · obtain ⟨value, hdigit⟩ := h.isDigit c hc
      exact hclean hdigit

/-- An octet is a numeral of one character or two, with the sign if there is one. -/
theorem IsOctet.isSigned (h : IsOctet digits value) : IsSigned 16 digits value := by
  have hread := octet?_eq_some_iff.mpr h
  unfold octet? at hread
  split at hread
  · exact (readSigned?_eq_some_iff isRadix_sixteen).mp hread
  · cases hread

theorem Denotes.fits (h : Denotes text number) : number < 2 ^ 64 := by
  cases h with
  | octets hcount hparts =>
    have hlt : ∀ value ∈ _, value < 256 := fun value hvalue =>
      have ⟨_, _, hoctet⟩ := exists_partner hparts.flip (List.mem_reverse.mp hvalue)
      hoctet.lt
    have hbound := Nat.ofDigits_lt_base_pow_length (by decide) hlt
    rwa [List.length_reverse, ← hparts.length_eq, hcount] at hbound
  | hexadecimal _ hfits | decimal _ hfits => exact hfits

theorem ofChars?_of_octets {parts : List (List Char)} {values : List Nat}
    (hcount : parts.length = 8) (hparts : List.Forall₂ IsOctet parts values)
    (hnumber : id.number = Nat.ofDigits 256 values.reverse) :
    ofChars? (Text.join [':'] parts) = some id := by
  have hcolon : ':' ∈ Text.join [':'] parts := by
    match parts, hcount with
    | part :: next :: rest, _ => simp [Text.join]
  have hfree : ∀ part ∈ parts, ':' ∉ part := by
    intro part hpart hmem
    obtain ⟨value, -, hoctet⟩ := exists_partner hparts hpart
    exact (clean_of_isSigned isRadix_sixteen hoctet.isSigned ':' hmem).1 rfl
  have hsome : parts ≠ [] := List.ne_nil_of_length_eq_add_one hcount
  unfold ofChars?
  rw [if_pos hcolon, Text.split_join ':' hsome hfree, ofParts?_eq_some_iff]
  exact ⟨hcount, values, hparts, hnumber⟩

theorem ofChars?_of_hexadecimal (h : IsSigned 16 digits id.number) :
    ofChars? ('0' :: 'x' :: digits) = some id := by
  have hcolon : ':' ∉ '0' :: 'x' :: digits := by
    intro hmem
    simp only [List.mem_cons, show ':' ≠ '0' by decide, show ':' ≠ 'x' by decide, false_or] at hmem
    exact (clean_of_isSigned isRadix_sixteen h ':' hmem).1 rfl
  unfold ofChars?
  rw [if_neg hcolon]
  simp only [(readSigned?_eq_some_iff isRadix_sixteen).mpr h, Option.bind_some, ofNumber?_number]

theorem ofChars?_of_decimal (h : IsSigned 10 digits id.number) : ofChars? digits = some id := by
  have hcolon : ':' ∉ digits := fun hmem => (clean_of_isSigned isRadix_ten h ':' hmem).1 rfl
  have hread := (readSigned?_eq_some_iff isRadix_ten).mpr h
  unfold ofChars?
  rw [if_neg hcolon]
  split
  · -- The mark of hexadecimal numerals is no decimal digit.
    rename_i rest
    have hnone : readSigned? 10 ('0' :: 'x' :: rest) = none := by
      simp [readSigned?, Text.Radix.read?, Text.Radix.extend?, show digit? 10 'x' = none by decide]
    rw [hnone] at hread
    cases hread
  · rw [hread, Option.bind_some, ofNumber?_number]

theorem ofChars?_eq_some_iff : ofChars? text = some id ↔ Denotes text id.number := by
  constructor
  · intro h
    unfold ofChars? at h
    split at h
    · obtain ⟨hcount, values, hparts, hnumber⟩ := ofParts?_eq_some_iff.mp h
      rw [hnumber, ← Text.join_split ':' text]
      exact .octets hcount hparts
    · split at h
      · obtain ⟨number, hread, hnumber⟩ := Option.bind_eq_some_iff.mp h
        obtain rfl := ofNumber?_eq_some_iff.mp hnumber
        exact .hexadecimal ((readSigned?_eq_some_iff isRadix_sixteen).mp hread) id.number_lt
      · obtain ⟨number, hread, hnumber⟩ := Option.bind_eq_some_iff.mp h
        obtain rfl := ofNumber?_eq_some_iff.mp hnumber
        exact .decimal ((readSigned?_eq_some_iff isRadix_ten).mp hread) id.number_lt
  · intro h
    generalize hnumber : id.number = number at h
    cases h with
    | octets hcount hparts => exact ofChars?_of_octets hcount hparts hnumber
    | hexadecimal h _ => exact ofChars?_of_hexadecimal (hnumber ▸ h)
    | decimal h _ => exact ofChars?_of_decimal (hnumber ▸ h)

/-- A notation without blanks is read as what it denotes. -/
theorem parse_of_denotes (h : Denotes text id.number)
    (hclean : ∀ c ∈ text, Text.isBlank c = false) : parse (String.ofList text) = .ok id := by
  rw [parse, String.toList_ofList, Text.trim_of_not_blank hclean, ofChars?_eq_some_iff.mpr h]

/-- A text is no notation exactly if it denotes no number. -/
theorem ofChars?_eq_none_iff : ofChars? text = none ↔ ∀ number, ¬ Denotes text number := by
  rw [Option.eq_none_iff_forall_ne_some]
  constructor
  · intro h number hdenotes
    have hnumber : ofNumber? number = some ⟨UInt64.ofNat number⟩ := if_pos hdenotes.fits
    rw [← ofNumber?_eq_some_iff.mp hnumber] at hdenotes
    exact h _ (ofChars?_eq_some_iff.mpr hdenotes)
  · intro h id hread
    exact h id.number (ofChars?_eq_some_iff.mp hread)

theorem parse_eq_ok_iff {text : String} :
    parse text = .ok id ↔ Denotes (Text.trim text.toList) id.number := by
  rw [← ofChars?_eq_some_iff, parse]
  cases ofChars? (Text.trim text.toList) <;> simp

theorem parse_eq_error_iff {text : String} {cause : Malformed} :
    parse text = .error cause ↔ (∀ number, ¬ Denotes (Text.trim text.toList) number) ∧
      cause = ⟨String.ofList (Text.trim text.toList)⟩ := by
  rw [← ofChars?_eq_none_iff, parse]
  cases ofChars? (Text.trim text.toList) <;> simp [eq_comm]

/-! ## Writing -/

theorem parse_decimal (id : SwitchId) : parse (toString id.number) = .ok id := by
  have hsigned : IsSigned 10 (Nat.toDigits 10 id.number) id.number :=
    .plain (isNumeral_write isRadix_ten id.number)
  exact parse_of_denotes (.decimal hsigned id.number_lt) fun c hc =>
    (clean_of_isSigned isRadix_ten hsigned c hc).2

theorem parse_hexadecimal (id : SwitchId) :
    parse ("0x" ++ String.ofList (Nat.toDigits 16 id.number)) = .ok id := by
  have hsigned : IsSigned 16 (Nat.toDigits 16 id.number) id.number :=
    .plain (isNumeral_write isRadix_sixteen id.number)
  have htext : "0x" ++ String.ofList (Nat.toDigits 16 id.number) =
      String.ofList ('0' :: 'x' :: Nat.toDigits 16 id.number) := by
    simp [← String.toList_inj]
  rw [htext]
  refine parse_of_denotes (.hexadecimal hsigned id.number_lt) fun c hc => ?_
  rcases List.mem_cons.mp hc with rfl | hc
  · decide
  rcases List.mem_cons.mp hc with rfl | hc
  · decide
  exact (clean_of_isSigned isRadix_sixteen hsigned c hc).2

/-! ## The whole -/

/-- Reading takes the blanks away at both ends of a text.  What is left is accepted exactly if it
denotes an identifier, as that identifier, and is what is complained about otherwise.  The printed
form of an identifier, its decimal numeral, and its hexadecimal numeral behind `0x` all denote it;
so no two identifiers are printed alike, and what has been read is read again from its printed
form. -/
theorem parse_exact :
    (∀ text : String, Text.Stripped text.toList (Text.trim text.toList) ∧
      (∀ id, parse text = .ok id ↔ Denotes (Text.trim text.toList) id.number) ∧
      ∀ cause, parse text = .error cause ↔
        (∀ number, ¬ Denotes (Text.trim text.toList) number) ∧
          cause = ⟨String.ofList (Text.trim text.toList)⟩) ∧
    (∀ id : SwitchId, parse id.render = .ok id ∧ parse (toString id.number) = .ok id ∧
      parse ("0x" ++ String.ofList (Nat.toDigits 16 id.number)) = .ok id) ∧
    Function.Injective render ∧
    ∀ text id, parse text = .ok id → parse id.render = parse text := by
  refine ⟨?_, ?_, ?_, ?_⟩
  · intro text
    exact ⟨Text.stripped_trim text.toList, fun _ => parse_eq_ok_iff, fun _ => parse_eq_error_iff⟩
  · intro id
    exact ⟨parse_render id, parse_decimal id, parse_hexadecimal id⟩
  · intro a b hprinted
    have hsame := parse_render a
    rw [hprinted, parse_render b] at hsame
    exact (Except.ok.inj hsame).symm
  · intro text id hread
    rw [hread]
    exact parse_render id

/-- A numeral with blanks around it, a sign, zeros in front and letters of both cases, and one that
is too large by one. -/
theorem parse_exact_blanks :
    parse " 0x+00fF\u3000" = .ok ⟨255⟩ ∧
    Denotes ['0', 'x', '+', '0', '0', 'f', 'F'] 255 ∧
    parse (render ⟨255⟩) = parse " 0x+00fF\u3000" ∧
    parse "\t18446744073709551616" = .error ⟨"18446744073709551616"⟩ ∧
    ∀ number, ¬ Denotes "18446744073709551616".toList number := by
  obtain ⟨hreads, _, _, hagain⟩ := parse_exact
  obtain ⟨_, haccepts, _⟩ := hreads " 0x+00fF\u3000"
  obtain ⟨_, _, hrefuses⟩ := hreads "\t18446744073709551616"
  have hread : parse " 0x+00fF\u3000" = .ok ⟨255⟩ := by decide
  have hrefused : parse "\t18446744073709551616" = .error ⟨"18446744073709551616"⟩ := by decide
  exact ⟨hread, (haccepts ⟨255⟩).mp hread, hagain _ _ hread, hrefused,
    ((hrefuses _).mp hrefused).1⟩

end TrafficSteering.SwitchId
