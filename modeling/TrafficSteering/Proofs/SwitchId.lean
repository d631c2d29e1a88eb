import TrafficSteering.SwitchId
set_option autoImplicit false

/-!
# Reading printed identifiers

The printed form of a switch is one of the accepted forms, and it names that switch.
-/

namespace TrafficSteering.SwitchId

open Text.Radix (writePadded)

theorem octets_lt (id : SwitchId) : ∀ octet ∈ id.octets, octet < 256 := by
  intro octet h
  obtain ⟨place, -, rfl⟩ := List.mem_map.1 h
  exact Nat.mod_lt _ (by decide)

/-- The octets are the digits of the identifier to the base 256. -/
theorem ofOctets_octets (id : SwitchId) : ofOctets id.octets = id.number := by
  have hbound : id.number < 2 ^ 64 := id.number_lt
  simp only [ofOctets, octets, List.map_cons, List.map_nil, List.foldl_cons, List.foldl_nil,
    Nat.shiftRight_eq_div_pow]
  omega

/-- The two digits of an octet hold no sign, no colon and no blank. -/
theorem plain_of_digit {c : Char} (h : (Text.Radix.digit? 16 c).isSome = true) :
    c ≠ '+' ∧ c ≠ ':' ∧ Text.isBlank c = false := by
  refine ⟨?_, ?_, ?_⟩
  · rintro rfl
    exact absurd h (by decide)
  · rintro rfl
    exact absurd h (by decide)
  · have hrange := Text.Radix.toNat_of_digit? h
    simp [Text.isBlank, Text.blankRanges]
    omega

theorem digit_of_mem_writePadded {octet : Nat} {c : Char} (h : c ∈ writePadded 16 2 octet) :
    (Text.Radix.digit? 16 c).isSome = true :=
  Text.Radix.digit?_of_mem_extend?
    (Text.Radix.extend?_writePadded Text.Radix.isRadix_sixteen 2 octet) c h

theorem octet?_writePadded {octet : Nat} (h : octet < 256) :
    octet? (writePadded 16 2 octet) = some octet := by
  have hlength : (writePadded 16 2 octet).length = 2 :=
    Text.Radix.length_writePadded ((Nat.length_toDigits_le_iff (by decide) (by decide)).2 h)
  have hunsigned : '+' ∉ writePadded 16 2 octet := fun hplus =>
    (plain_of_digit (digit_of_mem_writePadded hplus)).1 rfl
  rw [octet?, if_pos (.inr hlength), Text.Radix.readSigned?_of_unsigned hunsigned,
    Text.Radix.read?_writePadded Text.Radix.isRadix_sixteen]

theorem mapM_octet? {octets : List Nat} (h : ∀ octet ∈ octets, octet < 256) :
    (octets.map (writePadded 16 2)).mapM octet? = some octets := by
  induction octets with
  | nil => rfl
  | cons octet octets ih =>
    rw [List.forall_mem_cons] at h
    simp [List.mapM_cons, octet?_writePadded h.1, ih h.2]

/-- What stands in the printed form is a digit or a colon. -/
theorem mem_chars {id : SwitchId} {c : Char} (h : c ∈ id.chars) :
    c = ':' ∨ (Text.Radix.digit? 16 c).isSome = true := by
  rcases Text.mem_join h with hcolon | ⟨part, hpresent, hc⟩
  · exact .inl (List.mem_singleton.1 hcolon)
  · obtain ⟨octet, -, rfl⟩ := List.mem_map.1 hpresent
    exact .inr (digit_of_mem_writePadded hc)

/-- The printed form of a switch names that switch. -/
theorem parse_render (id : SwitchId) : parse id.render = .ok id := by
  have htrimmed : Text.trim id.chars = id.chars := by
    refine Text.trim_of_not_blank fun c hc => ?_
    rcases mem_chars hc with rfl | hdigit
    · decide
    · exact (plain_of_digit hdigit).2.2
  have hparts : Text.split ':' id.chars = id.octets.map (writePadded 16 2) := by
    refine Text.split_join ':' (by simp [octets]) fun part hpresent hcolon => ?_
    obtain ⟨octet, -, rfl⟩ := List.mem_map.1 hpresent
    exact (plain_of_digit (digit_of_mem_writePadded hcolon)).2.1 rfl
  have hcolon : ':' ∈ id.chars := by
    simp [chars, octets, Text.join]
  have hnamed : ofChars? id.chars = some id := by
    unfold ofChars?
    rw [if_pos hcolon, hparts, ofParts?, if_pos (by simp [octets]), mapM_octet? id.octets_lt]
    simp [ofOctets_octets, ofNumber?_number]
  rw [parse, render, String.toList_ofList, htrimmed, hnamed]

end TrafficSteering.SwitchId
