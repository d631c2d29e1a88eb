set_option autoImplicit false

/-!
# Bytes as text

A text is sent as the UTF-8 encoding of its characters.  Bytes that are no such encoding are decoded
all the same: a replacement character stands for every longest run of them that could begin a
character and does not.
-/

namespace TrafficSteering.Text

/-- The bytes of a text. -/
def encode (text : List Char) : List UInt8 := text.flatMap String.utf8EncodeChar

/-- The character that stands for bytes that encode none. -/
def replacement : Char := Char.ofNat 0xFFFD

/-- The character with whose encoding the bytes begin. -/
def leading? (bytes : List UInt8) : Option Char := bytes.toByteArray.utf8DecodeChar? 0

/-- Whether a character of three or four bytes can begin with these two. -/
def canBegin (first second : UInt8) : Bool :=
  if first = 0xE0 then 0xA0 ≤ second && second ≤ 0xBF
  else if first = 0xED then 0x80 ≤ second && second ≤ 0x9F
  else if first = 0xF0 then 0x90 ≤ second && second ≤ 0xBF
  else if first = 0xF4 then 0x80 ≤ second && second ≤ 0x8F
  else 0xE0 < first && first < 0xF4 && (0x80 ≤ second && second ≤ 0xBF)

/-- How many bytes after a first one that begins no character are replaced together with it. -/
def spoiled (first : UInt8) : List UInt8 → Nat
  | [] => 0
  | second :: rest =>
    if canBegin first second then
      match rest with
      | [] => 1
      | third :: _ => if 0xF0 ≤ first && (0x80 ≤ third && third ≤ 0xBF) then 2 else 1
    else 0

/-- The text of the bytes behind the first few. -/
def decodeBehind : Nat → List UInt8 → List Char
  | _, [] => []
  | skip + 1, _ :: rest => decodeBehind skip rest
  | 0, first :: rest =>
    match leading? (first :: rest) with
    | some c => c :: decodeBehind (c.utf8Size - 1) rest
    | none => replacement :: decodeBehind (spoiled first rest) rest

/-- The text of bytes, with replacement characters where they encode nothing. -/
def decode (bytes : List UInt8) : List Char := decodeBehind 0 bytes

/-- A character cut short is replaced as a whole, and what follows it is read. -/
example : decode [0xF0, 0x9F, 0x98, 0x41, 0xC3, 0xA9, 0xFF] =
    [replacement, 'A', 'é', replacement] := by decide

theorem encode_append (first second : List Char) :
    encode (first ++ second) = encode first ++ encode second :=
  List.flatMap_append

theorem decodeBehind_eq (skip : Nat) (bytes : List UInt8) :
    decodeBehind skip bytes = decode (bytes.drop skip) := by
  induction skip generalizing bytes with
  | zero => rfl
  | succ skip ih =>
    cases bytes with
    | nil => rfl
    | cons first rest => exact ih rest

theorem leading?_encodeChar_append (c : Char) (rest : List UInt8) :
    leading? (String.utf8EncodeChar c ++ rest) = some c := by
  rw [leading?, List.toByteArray_append]
  exact ByteArray.utf8DecodeChar?_utf8EncodeChar_append

/-- Two encodings at the same place are those of one character. -/
theorem encodeChar_inj {c d : Char} (h : String.utf8EncodeChar c = String.utf8EncodeChar d) :
    c = d := by
  have hc := leading?_encodeChar_append c []
  rw [h, leading?_encodeChar_append] at hc
  exact (Option.some.inj hc).symm

theorem exists_of_leading?_eq_some {bytes : List UInt8} {c : Char} (h : leading? bytes = some c) :
    ∃ rest, bytes = String.utf8EncodeChar c ++ rest := by
  obtain ⟨rest, he⟩ := ByteArray.exists_of_utf8DecodeChar?_eq_some h
  refine ⟨rest.data.toList, ?_⟩
  have hdata := congrArg (fun bytes : ByteArray => bytes.data.toList) he
  simpa using hdata

theorem decode_encodeChar_append (c : Char) (rest : List UInt8) :
    decode (String.utf8EncodeChar c ++ rest) = c :: decode rest := by
  have hlead := leading?_encodeChar_append c rest
  have hsize := String.length_utf8EncodeChar c
  cases hbytes : String.utf8EncodeChar c with
  | nil => exact absurd hbytes String.utf8EncodeChar_ne_nil
  | cons first more =>
    rw [hbytes, List.length_cons] at hsize
    rw [hbytes, List.cons_append] at hlead
    rw [decode, List.cons_append, decodeBehind, hlead]
    simp only [decodeBehind_eq, ← hsize, Nat.add_sub_cancel, List.drop_left]

/-- What has been encoded is decoded as it was. -/
theorem decode_encode (text : List Char) : decode (encode text) = text := by
  induction text with
  | nil => rfl
  | cons c text ih => rw [encode, List.flatMap_cons, decode_encodeChar_append, ← encode, ih]

/-- Bytes of which none has been replaced are the encoding of their text. -/
theorem encode_decodeBehind (skip : Nat) (bytes : List UInt8)
    (hsound : replacement ∉ decodeBehind skip bytes) :
    encode (decodeBehind skip bytes) = bytes.drop skip := by
  induction skip, bytes using decodeBehind.induct with
  | case1 skip => simp [decodeBehind, encode]
  | case2 skip first rest ih => exact ih hsound
  | case3 first rest c hlead ih =>
    rw [decodeBehind, hlead] at hsound ⊢
    obtain ⟨more, he⟩ := exists_of_leading?_eq_some hlead
    have hsize := String.length_utf8EncodeChar c
    have hbehind := ih fun h => hsound (List.mem_cons_of_mem _ h)
    cases hbytes : String.utf8EncodeChar c with
    | nil => exact absurd hbytes String.utf8EncodeChar_ne_nil
    | cons head tail =>
      rw [hbytes, List.length_cons] at hsize
      rw [hbytes, List.cons_append, List.cons.injEq] at he
      simp only [encode, List.flatMap_cons] at hbehind ⊢
      rw [hbehind, hbytes, ← hsize, Nat.add_sub_cancel, he.1, he.2, List.drop_left]
      rfl
  | case4 first rest hlead ih =>
    rw [decodeBehind, hlead] at hsound
    exact absurd (List.mem_cons_self ..) hsound

theorem encode_decode {bytes : List UInt8} (hsound : replacement ∉ decode bytes) :
    encode (decode bytes) = bytes :=
  encode_decodeBehind 0 bytes hsound

end TrafficSteering.Text
