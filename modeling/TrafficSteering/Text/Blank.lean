set_option autoImplicit false

/-!
# Blank characters

Identifiers and control lines may stand between blanks, and a blank is any character with the
Unicode property `White_Space`.  The property is a table of ten ranges; `isBlank` looks a character
up in it, and `trim` removes the blanks at both ends of a text and none inside it.
-/

namespace TrafficSteering.Text

/-- The code points with the Unicode property `White_Space`, as inclusive ranges in increasing
order. -/
def blankRanges : List (Nat × Nat) :=
  [(0x09, 0x0D), (0x20, 0x20), (0x85, 0x85), (0xA0, 0xA0), (0x1680, 0x1680), (0x2000, 0x200A),
   (0x2028, 0x2029), (0x202F, 0x202F), (0x205F, 0x205F), (0x3000, 0x3000)]

/-- Whether a character is white space in the sense of Unicode. -/
def isBlank (c : Char) : Bool :=
  blankRanges.any fun range => range.1 ≤ c.toNat && c.toNat ≤ range.2

/-- The text without the blanks in front of it. -/
def trimLeft (text : List Char) : List Char := text.dropWhile isBlank

/-- The text without the blanks at either end. -/
def trim (text : List Char) : List Char := (trimLeft (trimLeft text).reverse).reverse

/-- The table has twenty-five code points. -/
example : (blankRanges.map fun range => range.2 + 1 - range.1).sum = 25 := by decide

/-- A text that starts with something other than a blank has nothing to remove in front. -/
theorem trimLeft_cons_of_not_blank {c : Char} (text : List Char) (h : isBlank c = false) :
    trimLeft (c :: text) = c :: text := by
  simp [trimLeft, List.dropWhile, h]

/-- A blank at the end of a text makes no difference to what trimming leaves of it. -/
theorem trim_append_blank (text : List Char) {c : Char} (h : isBlank c = true) :
    trim (text ++ [c]) = trim text := by
  unfold trim trimLeft
  rw [List.dropWhile_append]
  split
  · next hempty => simp [List.isEmpty_iff.1 hempty, h]
  · rw [List.reverse_append]
    simp [h]

/-- What is left of a text without the blanks at both its ends. -/
structure Stripped (text rest : List Char) : Prop where
  /-- Only blanks are taken away, and only at the ends. -/
  around : ∃ before after, text = before ++ rest ++ after ∧
    ∀ c ∈ before ++ after, isBlank c = true
  /-- No blank is left in front. -/
  first : ∀ c ∈ rest.head?, isBlank c = false
  /-- No blank is left at the end. -/
  last : ∀ c ∈ rest.getLast?, isBlank c = false

theorem head?_trimLeft (text : List Char) :
    ∀ c ∈ (trimLeft text).head?, isBlank c = false := by
  intro c h
  have hfound := List.head?_dropWhile_not isBlank text
  rw [trimLeft, Option.mem_def] at h
  rwa [h] at hfound

/-- The blanks behind a text are what trimming takes away once nothing is left in front. -/
theorem trim_append (text : List Char) :
    trim text ++ ((trimLeft text).reverse.takeWhile isBlank).reverse = trimLeft text := by
  have hboth : (trimLeft text).reverse.takeWhile isBlank ++ trimLeft (trimLeft text).reverse =
      (trimLeft text).reverse := List.takeWhile_append_dropWhile
  rw [trim, ← List.reverse_append, hboth, List.reverse_reverse]

/-- Trimming takes the blanks away at both ends and nothing else. -/
theorem stripped_trim (text : List Char) : Stripped text (trim text) where
  around := by
    refine ⟨text.takeWhile isBlank, ((trimLeft text).reverse.takeWhile isBlank).reverse, ?_, ?_⟩
    · rw [List.append_assoc, trim_append]
      exact List.takeWhile_append_dropWhile.symm
    · intro c h
      rcases List.mem_append.1 h with hbefore | hafter
      · exact List.all_eq_true.1 List.all_takeWhile c hbefore
      · exact List.all_eq_true.1 List.all_takeWhile c (List.mem_reverse.1 hafter)
  first := by
    intro c h
    apply head?_trimLeft text c
    rw [← trim_append, List.head?_append, Option.mem_def.1 h]
    rfl
  last := by
    intro c h
    apply head?_trimLeft (trimLeft text).reverse c
    simpa [trim] using h

/-- What trimming takes away is blank. -/
theorem mem_trim {text : List Char} {c : Char} (hpresent : c ∈ text) (h : isBlank c = false) :
    c ∈ trim text := by
  have hkept : ∀ {text : List Char}, c ∈ text → c ∈ trimLeft text := by
    intro text hpresent
    rw [← List.takeWhile_append_dropWhile (p := isBlank) (l := text)] at hpresent
    rcases List.mem_append.1 hpresent with hblank | hkept
    · exact absurd (List.all_eq_true.1 List.all_takeWhile c hblank) (by simp [h])
    · exact hkept
  exact List.mem_reverse.2 (hkept (List.mem_reverse.2 (hkept hpresent)))

/-- Trimming leaves a text alone when both its ends are not blank. -/
theorem trim_eq_self {text : List Char} (hfirst : trimLeft text = text)
    (hlast : trimLeft text.reverse = text.reverse) : trim text = text := by
  rw [trim, hfirst, hlast, List.reverse_reverse]

/-- Trimming leaves a text without blanks alone. -/
theorem trim_of_not_blank {text : List Char} (h : ∀ c ∈ text, isBlank c = false) :
    trim text = text := by
  have hkept : ∀ {text : List Char}, (∀ c ∈ text, isBlank c = false) → trimLeft text = text := by
    intro text h
    cases text with
    | nil => rfl
    | cons c rest => exact trimLeft_cons_of_not_blank rest (h c List.mem_cons_self)
  exact trim_eq_self (hkept h) (hkept fun c hc => h c (List.mem_reverse.1 hc))

end TrafficSteering.Text
