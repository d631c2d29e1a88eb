set_option autoImplicit false

/-!
# Separated parts

A text cut at every occurrence of a separator, and the parts put together again.  `split_join` says
that parts free of the separator survive the trip, and `join_split` that every text does; a text
without a separator is one part.
-/

namespace TrafficSteering.Text

/-- The parts of a text between separators.  There is one part more than there are separators, so
the empty text has one empty part. -/
def split (separator : Char) : List Char → List (List Char)
  | [] => [[]]
  | c :: rest =>
    if c = separator then [] :: split separator rest
    else match split separator rest with
      | [] => [[c]]
      | part :: parts => (c :: part) :: parts

/-- The parts with a separator between each two of them. -/
def join (separator : List Char) : List (List Char) → List Char
  | [] => []
  | [part] => part
  | part :: parts => part ++ separator ++ join separator parts

theorem split_ne_nil (separator : Char) (text : List Char) : split separator text ≠ [] := by
  induction text with
  | nil => simp [split]
  | cons c rest ih =>
    rw [split]
    split
    · simp
    · split <;> simp

/-- A part free of the separator is read up to the next separator. -/
theorem split_append_cons (separator : Char) {part : List Char} (hfree : separator ∉ part)
    (rest : List Char) :
    split separator (part ++ separator :: rest) = part :: split separator rest := by
  induction part with
  | nil => simp [split]
  | cons c part ih =>
    obtain ⟨hc, hpart⟩ := not_or.1 (mt List.mem_cons.2 hfree)
    rw [List.cons_append, split, if_neg (fun h => hc h.symm), ih hpart]

/-- A text free of the separator is one part. -/
theorem split_of_not_mem (separator : Char) {part : List Char} (hfree : separator ∉ part) :
    split separator part = [part] := by
  induction part with
  | nil => rfl
  | cons c part ih =>
    obtain ⟨hc, hpart⟩ := not_or.1 (mt List.mem_cons.2 hfree)
    rw [split, if_neg (fun h => hc h.symm), ih hpart]

/-- Joined parts are found again if none of them holds the separator. -/
theorem split_join (separator : Char) {parts : List (List Char)} (hparts : parts ≠ [])
    (hfree : ∀ part ∈ parts, separator ∉ part) :
    split separator (join [separator] parts) = parts := by
  induction parts with
  | nil => exact absurd rfl hparts
  | cons part parts ih =>
    have hhead := hfree part (List.mem_cons_self ..)
    cases parts with
    | nil => exact split_of_not_mem separator hhead
    | cons next parts =>
      have htail := ih (by simp) fun p hp => hfree p (List.mem_cons_of_mem _ hp)
      rw [join, List.append_assoc, List.singleton_append, split_append_cons _ hhead, htail]
      simp

/-- The parts of a text make the text when they are joined again. -/
theorem join_split (separator : Char) (text : List Char) :
    join [separator] (split separator text) = text := by
  induction text with
  | nil => rfl
  | cons c rest ih =>
    obtain ⟨part, parts, hcut⟩ := List.exists_cons_of_ne_nil (split_ne_nil separator rest)
    rw [hcut] at ih
    rw [split, hcut]
    split
    · next hhere => simp [join, ih, hhere]
    · cases parts with
      | nil => simpa [join] using ih
      | cons next parts => simpa [join] using ih

/-- What stands in joined parts stands in the separator or in a part. -/
theorem mem_join {separator : List Char} {parts : List (List Char)} {c : Char}
    (h : c ∈ join separator parts) : c ∈ separator ∨ ∃ part ∈ parts, c ∈ part := by
  induction parts with
  | nil => exact absurd h List.not_mem_nil
  | cons part parts ih =>
    cases parts with
    | nil => exact .inr ⟨part, List.mem_cons_self, h⟩
    | cons next parts =>
      rw [join, List.append_assoc, List.mem_append, List.mem_append] at h
      · rcases h with hhere | hbetween | hlater
        · exact .inr ⟨part, List.mem_cons_self, hhere⟩
        · exact .inl hbetween
        · refine (ih hlater).imp_right fun ⟨other, hother, hc⟩ => ?_
          exact ⟨other, List.mem_cons_of_mem _ hother, hc⟩
      · simp

end TrafficSteering.Text
