import TrafficSteering.Json.Decoder
import TrafficSteering.Proofs.Except
set_option autoImplicit false

/-!
# Decoding records

What the description of a record reads and what it can yield.  Both are proved along the way in
which descriptions are built, one field after another, and then hold of the decoder, for objects and
for arrays.
-/

namespace TrafficSteering.Json

namespace Fields

variable {α β : Type}

/-! ## Members with distinct names -/

theorem lookup_of_mem {γ : Type} {entries : List (String × γ)} {name : String} {entry : γ}
    (hdistinct : (entries.map Prod.fst).Nodup) (h : (name, entry) ∈ entries) :
    entries.lookup name = some entry := by
  induction entries with
  | nil => exact absurd h List.not_mem_nil
  | cons first rest ih =>
    obtain ⟨hother, hdistinct⟩ := List.nodup_cons.1 hdistinct
    rcases List.mem_cons.1 h with rfl | hlater
    · exact List.lookup_cons_self
    · have hdiffers : name ≠ first.1 := by
        rintro rfl
        exact hother (List.mem_map.2 ⟨_, hlater, rfl⟩)
      rw [List.lookup_cons, beq_false_of_ne hdiffers]
      exact ih hdistinct hlater

/-- The members of a record, as members of an object. -/
def named (members : List (String × Json)) : List (Option String × Json) :=
  members.map fun member => (some member.1, member.2)

theorem member?_named {members : List (String × Json)} {name : String} {value : Json}
    (hdistinct : (members.map Prod.fst).Nodup) (h : (name, value) ∈ members) :
    member? name (named members) = some value := by
  induction members with
  | nil => exact absurd h List.not_mem_nil
  | cons first rest ih =>
    obtain ⟨hother, hdistinct⟩ := List.nodup_cons.1 hdistinct
    rcases List.mem_cons.1 h with rfl | hlater
    · simp [member?, named]
    · have hdiffers : first.1 ≠ name := by
        rintro rfl
        exact hother (List.mem_map.2 ⟨_, hlater, rfl⟩)
      have hbehind := ih hdistinct hlater
      rw [member?, named] at hbehind ⊢
      rw [List.map_cons, List.find?_cons_of_neg (by simpa using hdiffers)]
      exact hbehind

/-- Members with distinct names that all pass their tests pass together. -/
theorem testMembers_named {tests : List (String × Decoder Unit)} {members : List (String × Json)}
    (hpasses : ∀ member ∈ members, ∃ test,
      tests.lookup member.1 = some test ∧ test member.2 = .ok ())
    (hdistinct : (members.map Prod.fst).Nodup) (seen : List String)
    (hfresh : ∀ member ∈ members, member.1 ∉ seen) :
    testMembers tests seen (named members) = .ok () := by
  induction members generalizing seen with
  | nil => rfl
  | cons first rest ih =>
    obtain ⟨hother, hdistinct⟩ := List.nodup_cons.1 hdistinct
    rw [List.forall_mem_cons] at hpasses hfresh
    obtain ⟨test, hknown, hpassed⟩ := hpasses.1
    have hbehind : testMembers tests (first.1 :: seen) (named rest) = .ok () := by
      refine ih hpasses.2 hdistinct _ fun member hpresent hagain => ?_
      rcases List.mem_cons.1 hagain with hsame | hagain
      · exact hother (hsame ▸ List.mem_map_of_mem hpresent)
      · exact hfresh.2 member hpresent hagain
    rw [named, List.map_cons, ← named, testMembers, hknown]
    simp only [if_neg hfresh.1, hpassed]
    exact hbehind

/-! ## What a description reads -/

/-- A description reads a value from members that carry the names of its fields in their order. -/
structure Reads (fields : Fields α) (members : List (String × Json)) (value : α) : Prop where
  names : fields.tests.map Prod.fst = members.map Prod.fst
  passes : ∀ member ∈ members, ∃ test,
    (member.1, test) ∈ fields.tests ∧ test member.2 = .ok ()
  ofMembers : ∀ all, (∀ member ∈ members, member? member.1 all = some member.2) →
    fields.ofMembers all = .ok value
  ofElements : ∀ rest, fields.ofElements (members.map Prod.snd ++ rest) = .ok (value, rest)

theorem reads_pure (value : α) : (pure value : Fields α).Reads [] value where
  names := rfl
  passes := by simp
  ofMembers _ _ := rfl
  ofElements _ := rfl

theorem reads_optional (name : String) {decode : Decoder α} (fallback : Except Fault α)
    {value : Json} {result : α} (h : decode value = .ok result) :
    (optional name decode fallback).Reads [(name, value)] result where
  names := rfl
  passes member hpresent := by
    rw [List.mem_singleton.1 hpresent]
    exact ⟨_, List.mem_singleton.2 rfl, by rw [h]; rfl⟩
  ofMembers all hpresent := by
    rw [optional]
    simp only [hpresent (name, value) List.mem_cons_self, h]
  ofElements rest := by
    show (·, rest) <$> decode value = _
    rw [h]
    rfl

theorem Reads.seq {first : Fields (α → β)} {second : Fields α} {ahead behind : List (String × Json)}
    {build : α → β} {value : α} (hfirst : first.Reads ahead build)
    (hsecond : second.Reads behind value) :
    (first <*> second).Reads (ahead ++ behind) (build value) where
  names := by
    show (first.tests ++ second.tests).map Prod.fst = _
    rw [List.map_append, List.map_append, hfirst.names, hsecond.names]
  passes member hpresent := by
    show ∃ test, (member.1, test) ∈ first.tests ++ second.tests ∧ _
    rcases List.mem_append.1 hpresent with hpresent | hpresent
    · obtain ⟨test, hknown, hpassed⟩ := hfirst.passes member hpresent
      exact ⟨test, List.mem_append_left _ hknown, hpassed⟩
    · obtain ⟨test, hknown, hpassed⟩ := hsecond.passes member hpresent
      exact ⟨test, List.mem_append_right _ hknown, hpassed⟩
  ofMembers all hpresent := by
    show (do return (← first.ofMembers all) (← second.ofMembers all)) = _
    rw [hfirst.ofMembers all fun member h => hpresent member (List.mem_append_left _ h),
      hsecond.ofMembers all fun member h => hpresent member (List.mem_append_right _ h)]
    rfl
  ofElements rest := by
    show (append first second).ofElements _ = _
    rw [List.map_append, List.append_assoc, append]
    simp only [hfirst.ofElements, hsecond.ofElements, bind, Except.bind]
    rfl

/-- One more field that has to be present. -/
theorem Reads.required {first : Fields (α → β)} {ahead : List (String × Json)} {build : α → β}
    (h : first.Reads ahead build) (name : String) {decode : Decoder α} {value : Json} {result : α}
    (hdecoded : decode value = .ok result) :
    (first <*> required name decode).Reads (ahead ++ [(name, value)]) (build result) :=
  h.seq (reads_optional name _ hdecoded)

/-- One more field with a default value. -/
theorem Reads.withDefault {first : Fields (α → β)} {ahead : List (String × Json)} {build : α → β}
    (h : first.Reads ahead build) (name : String) (fallback : α) {decode : Decoder α} {value : Json}
    {result : α} (hdecoded : decode value = .ok result) :
    (first <*> withDefault name decode fallback).Reads (ahead ++ [(name, value)]) (build result) :=
  h.seq (reads_optional name _ hdecoded)

variable {fields : Fields α} {members : List (String × Json)} {value : α}

/-- An object with the names of the fields is decoded as the value. -/
theorem Reads.decoder (h : fields.Reads members value)
    (hdistinct : (fields.tests.map Prod.fst).Nodup) :
    fields.decoder (.record members) = .ok value := by
  have hpasses : ∀ member ∈ members, ∃ test,
      fields.tests.lookup member.1 = some test ∧ test member.2 = .ok () := by
    intro member hpresent
    obtain ⟨test, hknown, hpassed⟩ := h.passes member hpresent
    exact ⟨test, lookup_of_mem hdistinct hknown, hpassed⟩
  rw [h.names] at hdistinct
  have hpassed := testMembers_named hpasses hdistinct [] (by simp)
  have hbuilt : fields.ofMembers (named members) = .ok value :=
    h.ofMembers _ fun member hpresent => member?_named hdistinct hpresent
  show (do testMembers fields.tests [] (named members); fields.ofMembers (named members)) = _
  rw [hpassed, hbuilt]
  rfl

/-- An array with the values of the fields is decoded as the value. -/
theorem Reads.decoder_array (h : fields.Reads members value) :
    fields.decoder (.array (members.map Prod.snd)) = .ok value := by
  have hread := h.ofElements []
  rw [List.append_nil] at hread
  rw [Fields.decoder, hread]
  rfl

/-! ## What a description yields -/

/-- Whatever a description is given, the value it yields has a property. -/
structure Yields (fields : Fields α) (p : α → Prop) : Prop where
  ofMembers : ∀ members value, fields.ofMembers members = .ok value → p value
  ofElements : ∀ elements value rest, fields.ofElements elements = .ok (value, rest) → p value

theorem yields_pure {value : α} {p : α → Prop} (h : p value) :
    (pure value : Fields α).Yields p where
  ofMembers _ _ he := Except.ok.inj he ▸ h
  ofElements _ _ _ he := (Prod.mk.inj (Except.ok.inj he)).1 ▸ h

theorem yields_optional (name : String) {decode : Decoder α} {fallback : Except Fault α}
    {p : α → Prop} (hdecoded : ∀ value result, decode value = .ok result → p result)
    (habsent : ∀ result, fallback = .ok result → p result) :
    (optional name decode fallback).Yields p where
  ofMembers members value he := by
    rw [optional] at he
    dsimp only at he
    split at he
    · exact hdecoded _ _ he
    · exact habsent _ he
  ofElements elements value rest he := by
    rw [optional] at he
    cases elements with
    | nil =>
      obtain ⟨result, hgiven, hpair⟩ := map_eq_ok_iff.1 he
      exact habsent _ (hgiven.trans (by rw [(Prod.mk.inj hpair).1]))
    | cons element elements =>
      obtain ⟨result, hgiven, hpair⟩ := map_eq_ok_iff.1 he
      exact hdecoded _ _ (hgiven.trans (by rw [(Prod.mk.inj hpair).1]))

/-- What holds of a function at every argument that can come holds of its result. -/
theorem Yields.seq {first : Fields (α → β)} {second : Fields α} {p : α → Prop} {q : β → Prop}
    (hfirst : first.Yields fun build => ∀ value, p value → q (build value))
    (hsecond : second.Yields p) : (first <*> second).Yields q where
  ofMembers members result he := by
    obtain ⟨build, hbuilt, he⟩ := bind_eq_ok_iff.1 he
    obtain ⟨value, hgiven, he⟩ := bind_eq_ok_iff.1 he
    exact Except.ok.inj he ▸ hfirst.ofMembers _ _ hbuilt value (hsecond.ofMembers _ _ hgiven)
  ofElements elements result rest he := by
    obtain ⟨⟨build, behind⟩, hbuilt, he⟩ := bind_eq_ok_iff.1 he
    obtain ⟨⟨value, behind'⟩, hgiven, he⟩ := bind_eq_ok_iff.1 he
    obtain ⟨rfl, -⟩ := Prod.mk.inj (Except.ok.inj he)
    exact hfirst.ofElements _ _ _ hbuilt value (hsecond.ofElements _ _ _ hgiven)

/-- One more field of which nothing is known. -/
theorem Yields.other {first : Fields (α → β)} {q : β → Prop}
    (h : first.Yields fun build => ∀ value, q (build value)) (second : Fields α) :
    (first <*> second).Yields q := by
  have hanything : second.Yields fun _ => True := ⟨fun _ _ _ => trivial, fun _ _ _ _ => trivial⟩
  refine Yields.seq ⟨?_, ?_⟩ hanything
  · exact fun members build hbuilt value _ => h.ofMembers members build hbuilt value
  · exact fun elements build rest hbuilt value _ => h.ofElements elements build rest hbuilt value

/-- One more field that has to be present. -/
theorem Yields.required {first : Fields (α → β)} {p : α → Prop} {q : β → Prop}
    (h : first.Yields fun build => ∀ value, p value → q (build value)) (name : String)
    {decode : Decoder α} (hdecoded : ∀ value result, decode value = .ok result → p result) :
    (first <*> required name decode).Yields q :=
  h.seq (yields_optional name hdecoded fun _ habsent => nomatch habsent)

/-- One more field with a default value. -/
theorem Yields.withDefault {first : Fields (α → β)} {p : α → Prop} {q : β → Prop}
    (h : first.Yields fun build => ∀ value, p value → q (build value)) (name : String)
    {decode : Decoder α} {fallback : α}
    (hdecoded : ∀ value result, decode value = .ok result → p result) (habsent : p fallback) :
    (first <*> withDefault name decode fallback).Yields q :=
  h.seq (yields_optional name hdecoded fun _ hgiven => Except.ok.inj hgiven ▸ habsent)

/-- What a decoder accepts is decoded as a value with the property. -/
theorem Yields.decoder {p : α → Prop} (h : fields.Yields p) {value : Json} {result : α}
    (he : fields.decoder value = .ok result) : p result := by
  cases value with
  | object members =>
    obtain ⟨-, -, hbuilt⟩ := bind_eq_ok_iff.1 he
    exact h.ofMembers _ _ hbuilt
  | array elements =>
    obtain ⟨⟨record, rest⟩, hbuilt, he⟩ := bind_eq_ok_iff.1 he
    split at he
    · next hsame =>
      obtain ⟨rfl, -⟩ := Prod.mk.inj hsame
      exact Except.ok.inj he ▸ h.ofElements _ _ _ hbuilt
    · cases he
    · cases he
  | _ => cases he

end Fields

end TrafficSteering.Json
