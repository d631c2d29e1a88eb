import Mathlib.Data.List.Forall2
import Mathlib.Data.Nat.Digits.Defs
import Mathlib.Tactic.Ring
import TrafficSteering.Proofs.Except
import TrafficSteering.Text.Radix
set_option autoImplicit false

/-!
# What a numeral is

A numeral is one digit or more, the most significant first.  Letters are digits in either case, and
zeros in front make no difference.  Reading accepts numerals and nothing else
(`read?_eq_some_iff`), so what is written for a number is a numeral of it.
-/

namespace TrafficSteering.Text.Radix

/-! ## Numerals -/

/-- A character is the digit of a value in a radix. -/
def IsDigit (radix : Nat) (c : Char) (value : Nat) : Prop :=
  value < radix ∧ (c = value.digitChar ∨ c = value.digitChar.toUpper)

/-- One digit or more stand for a number to the base of the radix. -/
def IsNumeral (radix : Nat) (digits : List Char) (number : Nat) : Prop :=
  digits ≠ [] ∧ ∃ values, List.Forall₂ (IsDigit radix) digits values ∧
    number = Nat.ofDigits radix values.reverse

/-- A numeral, or a plus sign and a numeral. -/
inductive IsSigned (radix : Nat) : List Char → Nat → Prop where
  | plain {digits : List Char} {number : Nat} (h : IsNumeral radix digits number) :
      IsSigned radix digits number
  | plus {digits : List Char} {number : Nat} (h : IsNumeral radix digits number) :
      IsSigned radix ('+' :: digits) number

variable {radix number value : Nat} {digits : List Char} {c : Char}

theorem isNumeral_singleton_iff : IsNumeral radix [c] number ↔ IsDigit radix c number := by
  constructor
  · rintro ⟨-, _, hall, rfl⟩
    obtain _ | ⟨hc, _ | _⟩ := hall
    simpa using hc
  · intro hc
    exact ⟨List.cons_ne_nil c [], [number], .cons hc .nil, by simp⟩

theorem isNumeral_pair_iff {d : Char} :
    IsNumeral radix [c, d] number ↔ ∃ high low, IsDigit radix c high ∧ IsDigit radix d low ∧
      number = radix * high + low := by
  constructor
  · rintro ⟨-, _, hall, rfl⟩
    obtain _ | @⟨_, high, _, _, hc, _ | @⟨_, low, _, _, hd, _ | _⟩⟩ := hall
    exact ⟨high, low, hc, hd, by simp [Nat.ofDigits_cons, Nat.add_comm]⟩
  · rintro ⟨high, low, hc, hd, rfl⟩
    exact ⟨List.cons_ne_nil c [d], [high, low], .cons hc (.cons hd .nil),
      by simp [Nat.ofDigits_cons, Nat.add_comm]⟩

/-! ## Digits -/

/-- The digits and letters of ASCII, and the value of each in the radix sixteen. -/
theorem digitValue?_ofNat : ∀ n : Fin 123, ∀ value ∈ digitValue? (Char.ofNat n), value < 16 →
    Char.ofNat n = value.digitChar ∨ Char.ofNat n = value.digitChar.toUpper := by
  decide

theorem digitValue?_toUpper :
    ∀ n : Fin 16, digitValue? n.val.digitChar.toUpper = some n.val := by
  decide

/-- Reading knows a character as a digit exactly if it is one. -/
theorem digit?_eq_some_iff (hr : IsRadix radix) :
    digit? radix c = some value ↔ IsDigit radix c value := by
  constructor
  · intro h
    have hbound := toNat_of_digit? (Option.isSome_of_eq_some h)
    obtain ⟨hvalue, hlt⟩ := Option.filter_eq_some_iff.mp h
    have hsmall : value < radix := of_decide_eq_true hlt
    have hc : Char.ofNat c.toNat = c := Char.ofNat_toNat c
    have hknown := digitValue?_ofNat ⟨c.toNat, Nat.lt_succ_of_le hbound.2⟩ value
    simp only [hc] at hknown
    exact ⟨hsmall, hknown hvalue (Nat.lt_of_lt_of_le hsmall hr.small)⟩
  · rintro ⟨hsmall, rfl | rfl⟩
    · exact digit?_digitChar hr hsmall
    · have hvalue := digitValue?_toUpper ⟨value, Nat.lt_of_lt_of_le hsmall hr.small⟩
      exact Option.filter_eq_some_iff.mpr ⟨hvalue, decide_eq_true hsmall⟩

/-! ## Reading -/

/-- Digits behind a number already read add their own value to it. -/
theorem extend?_eq_some_iff (hr : IsRadix radix) {total : Nat} :
    extend? radix total digits = some number ↔
      ∃ values, List.Forall₂ (IsDigit radix) digits values ∧
        number = total * radix ^ values.length + Nat.ofDigits radix values.reverse := by
  induction digits generalizing total with
  | nil => simp [extend?, List.forall₂_nil_left_iff, eq_comm]
  | cons c rest ih =>
    have hplaces : ∀ (value : Nat) (values : List Nat),
        (total * radix + value) * radix ^ values.length + Nat.ofDigits radix values.reverse =
          total * radix ^ (value :: values).length +
            Nat.ofDigits radix (value :: values).reverse := by
      intro value values
      rw [Nat.ofDigits_reverse_cons, List.length_cons]
      ring
    rw [extend?, Option.bind_eq_bind, Option.bind_eq_some_iff]
    constructor
    · rintro ⟨value, hc, hrest⟩
      obtain ⟨values, hvalues, rfl⟩ := ih.mp hrest
      exact ⟨value :: values, .cons ((digit?_eq_some_iff hr).mp hc) hvalues, hplaces value values⟩
    · rintro ⟨_, hall, rfl⟩
      obtain _ | @⟨_, value, _, values, hc, hvalues⟩ := hall
      have hrest := ih.mpr ⟨values, hvalues, (hplaces value values).symm⟩
      exact ⟨value, (digit?_eq_some_iff hr).mpr hc, hrest⟩

theorem read?_eq_some_iff (hr : IsRadix radix) :
    read? radix digits = some number ↔ IsNumeral radix digits number := by
  cases digits with
  | nil => simp [read?, IsNumeral]
  | cons c rest =>
    rw [read?, extend?_eq_some_iff hr, IsNumeral, and_iff_right (List.cons_ne_nil c rest)]
    · simp only [Nat.zero_mul, Nat.zero_add]
    · exact fun h => List.cons_ne_nil c rest h

/-- What is written for a number is a numeral of it. -/
theorem isNumeral_write (hr : IsRadix radix) (number : Nat) :
    IsNumeral radix (write radix number) number :=
  (read?_eq_some_iff hr).mp (read?_write hr number)

/-- What stands in a numeral is a digit. -/
theorem IsNumeral.isDigit (h : IsNumeral radix digits number) :
    ∀ c ∈ digits, ∃ value, IsDigit radix c value := by
  obtain ⟨-, values, hall, -⟩ := h
  intro c hc
  obtain ⟨value, -, hdigit⟩ := exists_partner hall hc
  exact ⟨value, hdigit⟩

theorem readSigned?_eq_some_iff (hr : IsRadix radix) :
    readSigned? radix digits = some number ↔ IsSigned radix digits number := by
  constructor
  · intro h
    unfold readSigned? at h
    split at h
    · exact .plus ((read?_eq_some_iff hr).mp h)
    · exact .plain ((read?_eq_some_iff hr).mp h)
  · rintro (h | h)
    · have hunsigned : '+' ∉ digits := by
        intro hmem
        obtain ⟨value, hdigit⟩ := h.isDigit '+' hmem
        have hknown := (digit?_eq_some_iff hr).mpr hdigit
        rw [digit?, show digitValue? '+' = none by decide] at hknown
        cases hknown
      rw [readSigned?_of_unsigned hunsigned]
      exact (read?_eq_some_iff hr).mpr h
    · exact (read?_eq_some_iff hr).mpr h

end TrafficSteering.Text.Radix
