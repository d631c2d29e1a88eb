set_option autoImplicit false

/-!
# Numerals

Natural numbers in positional notation, for radices from two to sixteen.  Digits above nine are
written as lower-case letters and read in either case.  `read?_write` says that the digits written
for a number read back as that number.
-/

namespace TrafficSteering.Text.Radix

/-- The value of a digit or letter. -/
def digitValue? (c : Char) : Option Nat :=
  if '0' ≤ c ∧ c ≤ '9' then some (c.toNat - 48)
  else if 'a' ≤ c ∧ c ≤ 'z' then some (c.toNat - 87)
  else if 'A' ≤ c ∧ c ≤ 'Z' then some (c.toNat - 55)
  else none

/-- The value of a digit in this radix. -/
def digit? (radix : Nat) (c : Char) : Option Nat := (digitValue? c).filter (· < radix)

/-- Reads further digits behind a number already read. -/
def extend? (radix : Nat) : Nat → List Char → Option Nat
  | total, [] => some total
  | total, c :: rest => do extend? radix (total * radix + (← digit? radix c)) rest

/-- Reads a run of one or more digits.  Leading zeros are allowed. -/
def read? (radix : Nat) : List Char → Option Nat
  | [] => none
  | digits => extend? radix 0 digits

/-- Reads a run of digits that may follow a plus sign. -/
def readSigned? (radix : Nat) : List Char → Option Nat
  | '+' :: digits => read? radix digits
  | digits => read? radix digits

/-- The digits of a number, without leading zeros. -/
def write (radix number : Nat) : List Char := Nat.toDigits radix number

/-- The digits of a number, with zeros in front up to a given width. -/
def writePadded (radix width number : Nat) : List Char :=
  let digits := write radix number
  List.replicate (width - digits.length) '0' ++ digits

/-- The radices for which there are enough digits. -/
structure IsRadix (radix : Nat) : Prop where
  large : 1 < radix
  small : radix ≤ 16

theorem isRadix_ten : IsRadix 10 := ⟨by decide, by decide⟩

theorem isRadix_sixteen : IsRadix 16 := ⟨by decide, by decide⟩

variable {radix : Nat}

theorem digitValue?_digitChar : ∀ n : Fin 16, digitValue? n.val.digitChar = some n.val := by
  decide

theorem digit?_digitChar {n : Nat} (hr : IsRadix radix) (h : n < radix) :
    digit? radix n.digitChar = some n := by
  simp [digit?, digitValue?_digitChar ⟨n, Nat.lt_of_lt_of_le h hr.small⟩, h]

/-- Digits and letters lie in one range of ASCII. -/
theorem toNat_of_digit? {c : Char} (h : (digit? radix c).isSome = true) :
    48 ≤ c.toNat ∧ c.toNat ≤ 122 := by
  obtain ⟨value, hsome⟩ := Option.isSome_iff_exists.1 h
  have hknown := (Option.filter_eq_some_iff.1 hsome).1
  have hbounds : ∀ {a b : Char}, a ≤ c ∧ c ≤ b → a.toNat ≤ c.toNat ∧ c.toNat ≤ b.toNat :=
    fun h => ⟨UInt32.le_iff_toNat_le.1 h.1, UInt32.le_iff_toNat_le.1 h.2⟩
  unfold digitValue? at hknown
  split at hknown
  · next hrange => exact (hbounds hrange).imp_right fun h => Nat.le_trans h (by decide)
  split at hknown
  · next hrange => exact (hbounds hrange).imp_left fun h => Nat.le_trans (by decide) h
  split at hknown
  · next hrange =>
    exact (hbounds hrange).imp (fun h => Nat.le_trans (by decide) h)
      fun h => Nat.le_trans h (by decide)
  · cases hknown

theorem extend?_append (first second : List Char) (total : Nat) :
    extend? radix total (first ++ second) =
      (extend? radix total first).bind fun total => extend? radix total second := by
  induction first generalizing total with
  | nil => rfl
  | cons c rest ih =>
    simp only [List.cons_append, extend?, bind, Option.bind]
    cases digit? radix c with
    | none => rfl
    | some value => exact ih _

/-! ## Written numerals -/

theorem write_ne_nil (radix n : Nat) : write radix n ≠ [] := Nat.toDigits_ne_nil

theorem write_of_lt {n : Nat} (h : n < radix) : write radix n = [n.digitChar] :=
  Nat.toDigits_of_lt_base h

theorem write_of_le {n : Nat} (hr : IsRadix radix) (h : radix ≤ n) :
    write radix n = write radix (n / radix) ++ [(n % radix).digitChar] :=
  Nat.toDigits_of_base_le hr.large h

theorem extend?_write (hr : IsRadix radix) (n : Nat) :
    extend? radix 0 (write radix n) = some n := by
  have hpositive : 0 < radix := Nat.lt_of_succ_lt hr.large
  induction n using Nat.strongRecOn with
  | _ n ih =>
    by_cases h : n < radix
    · rw [write_of_lt h]
      simp [extend?, digit?_digitChar hr h]
    · have hshorter : n / radix < n := Nat.div_lt_self (by omega) hr.large
      rw [write_of_le hr (Nat.le_of_not_lt h), extend?_append, ih _ hshorter]
      simp [extend?, digit?_digitChar hr (Nat.mod_lt n hpositive), Nat.div_add_mod']

/-- The digits written for a number read back as that number. -/
theorem read?_write (hr : IsRadix radix) (n : Nat) : read? radix (write radix n) = some n := by
  cases h : write radix n with
  | nil => exact absurd h (write_ne_nil _ _)
  | cons c rest => rw [read?, ← h, extend?_write hr]; simp

/-- Only zero is written with a zero in front. -/
theorem head?_write {n : Nat} (hr : IsRadix radix) (h : (write radix n).head? = some '0') :
    n = 0 := by
  have hlarge := hr.large
  induction n using Nat.strongRecOn with
  | _ n ih =>
    by_cases hsingle : n < radix
    · have hvalue := digit?_digitChar hr hsingle
      rw [write_of_lt hsingle, List.head?_cons, Option.some.injEq] at h
      rw [h, digit?, show digitValue? '0' = some 0 by decide] at hvalue
      simpa using (Option.filter_eq_some_iff.1 hvalue).1.symm
    · have hshorter : n / radix < n := Nat.div_lt_self (by omega) hlarge
      have hfirst := List.head?_eq_some_head (write_ne_nil radix (n / radix))
      rw [write_of_le hr (Nat.le_of_not_lt hsingle), List.head?_append, hfirst, Option.some_or,
        ← hfirst] at h
      exact absurd (Nat.div_eq_zero_iff.1 (ih _ hshorter h)) (by omega)

/-- A decimal numeral with a zero in front has no other digit. -/
theorem length_write_of_zero {n : Nat} (h : (write 10 n).head? = some '0') :
    (write 10 n).length = 1 := by
  rw [head?_write isRadix_ten h]
  rfl

theorem readSigned?_of_unsigned {digits : List Char} (h : '+' ∉ digits) :
    readSigned? radix digits = read? radix digits := by
  unfold readSigned?
  split
  · exact absurd List.mem_cons_self h
  · rfl

/-! ## Padded numerals -/

theorem extend?_zeros (hr : IsRadix radix) (count : Nat) (digits : List Char) :
    extend? radix 0 (List.replicate count '0' ++ digits) = extend? radix 0 digits := by
  have hzero : digit? radix '0' = some 0 := by
    rw [digit?, show digitValue? '0' = some 0 by decide]
    simp [Nat.lt_of_succ_lt hr.large]
  induction count with
  | zero => rfl
  | succ count ih =>
    rw [List.replicate_succ, List.cons_append, extend?, hzero]
    simpa using ih

theorem extend?_writePadded (hr : IsRadix radix) (width n : Nat) :
    extend? radix 0 (writePadded radix width n) = some n := by
  rw [writePadded, extend?_zeros hr, extend?_write hr]

/-- Zeros in front make no difference to the number that is read. -/
theorem read?_writePadded (hr : IsRadix radix) (width n : Nat) :
    read? radix (writePadded radix width n) = some n := by
  have hpadded := extend?_writePadded hr width n
  cases h : writePadded radix width n with
  | nil =>
    rw [writePadded, List.append_eq_nil_iff] at h
    exact absurd h.2 (write_ne_nil _ _)
  | cons c rest => rw [read?, ← h, hpadded]; simp

/-- A number whose digits fit into the width is padded to exactly that width. -/
theorem length_writePadded {width n : Nat} (hfits : (write radix n).length ≤ width) :
    (writePadded radix width n).length = width := by
  rw [writePadded, List.length_append, List.length_replicate]
  omega

/-! ## Numerals in front of a text -/

/-- A text does not go on with a character of a class. -/
def Stops (p : Char → Bool) (rest : List Char) : Prop := ∀ c ∈ rest.head?, p c = false

theorem stops_nil (p : Char → Bool) : Stops p [] := fun _ h => nomatch h

theorem stops_cons {p : Char → Bool} {c : Char} (h : p c = false) (rest : List Char) :
    Stops p (c :: rest) := by
  intro c' h'
  rw [← Option.some.inj h', h]

theorem Stops.takeWhile_append {p : Char → Bool} {run rest : List Char} (hstops : Stops p rest)
    (h : ∀ c ∈ run, p c = true) : (run ++ rest).takeWhile p = run := by
  rw [List.takeWhile_append_of_pos h]
  cases rest with
  | nil => simp
  | cons c rest => simp [hstops c rfl]

theorem Stops.dropWhile_append {p : Char → Bool} {run rest : List Char} (hstops : Stops p rest)
    (h : ∀ c ∈ run, p c = true) : (run ++ rest).dropWhile p = rest := by
  rw [List.dropWhile_append_of_pos h]
  cases rest with
  | nil => rfl
  | cons c rest => simp [hstops c rfl]

theorem Stops.takeWhile_eq_nil {p : Char → Bool} {rest : List Char} (hstops : Stops p rest) :
    rest.takeWhile p = [] :=
  @Stops.takeWhile_append p [] rest hstops (by simp)

theorem Stops.dropWhile_eq_self {p : Char → Bool} {rest : List Char} (hstops : Stops p rest) :
    rest.dropWhile p = rest :=
  @Stops.dropWhile_append p [] rest hstops (by simp)

theorem isDigit_of_mem_write {n : Nat} : ∀ c ∈ write 10 n, c.isDigit = true := fun _ h =>
  Nat.isDigit_of_mem_toDigits (by decide) (by decide) h

theorem Stops.takeWhile_write {rest : List Char} (hstops : Stops Char.isDigit rest) (n : Nat) :
    (write 10 n ++ rest).takeWhile Char.isDigit = write 10 n :=
  hstops.takeWhile_append isDigit_of_mem_write

theorem Stops.dropWhile_write {rest : List Char} (hstops : Stops Char.isDigit rest) (n : Nat) :
    (write 10 n ++ rest).dropWhile Char.isDigit = rest :=
  hstops.dropWhile_append isDigit_of_mem_write

theorem digit?_of_mem_extend? {digits : List Char} {total value : Nat}
    (h : extend? radix total digits = some value) :
    ∀ c ∈ digits, (digit? radix c).isSome = true := by
  induction digits generalizing total with
  | nil => simp
  | cons c rest ih =>
    rw [extend?] at h
    cases hfirst : digit? radix c with
    | none => simp [hfirst] at h
    | some digit =>
      rw [hfirst] at h
      rw [List.forall_mem_cons]
      exact ⟨by rw [hfirst]; rfl, ih h⟩

theorem digit?_of_mem_write (hr : IsRadix radix) (n : Nat) :
    ∀ c ∈ write radix n, (digit? radix c).isSome = true :=
  digit?_of_mem_extend? (extend?_write hr n)

end TrafficSteering.Text.Radix
