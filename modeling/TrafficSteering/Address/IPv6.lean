import TrafficSteering.Address.IPv4
set_option autoImplicit false

/-!
# IPv6 addresses

An address of eight 16-bit groups, written in hexadecimal with colons between the groups.  One run
of zero groups may be left out, which two colons show, and the last two groups may be written as an
IPv4 address.  The printed form leaves out the first longest run of two or more zero groups; an
address that embeds an IPv4 address behind `::ffff:` shows it with dots.
-/

namespace TrafficSteering.Address

/-- An address of eight groups, most significant first. -/
structure IPv6 where
  groups : List UInt16
  length_eq : groups.length = 8
  deriving DecidableEq, Repr

namespace IPv6

/-- The address with the given groups, if there are eight. -/
def ofGroups? (groups : List UInt16) : Option IPv6 :=
  if h : groups.length = 8 then some ⟨groups, h⟩ else none

def isUnspecified (ip : IPv6) : Bool := ip.groups.all (· == 0)

def firstGroup (ip : IPv6) : Nat := (ip.groups.headD 0).toNat

/-- Whether the address stands for a group of receivers. -/
def isMulticast (ip : IPv6) : Bool := 0xff00 ≤ ip.firstGroup

/-- Whether the address is valid on one link only. -/
def isLinkLocal (ip : IPv6) : Bool := 0xfe80 ≤ ip.firstGroup && ip.firstGroup < 0xfec0

/-! ## Reading -/

/-- Whether a character is a hexadecimal digit. -/
def isHex (c : Char) : Bool := (Text.Radix.digit? 16 c).isSome

/-- One group at the front of a text: one to four hexadecimal digits. -/
def group? (text : List Char) : Option (UInt16 × List Char) := do
  let digits := text.takeWhile isHex
  let value ← Text.Radix.read? 16 digits
  if digits.length ≤ 4 then some (UInt16.ofNat value, text.dropWhile isHex) else none

/-- Reads behind a colon, which the first part of a sequence does not have. -/
def separated? {α : Type} (first : Bool) (part? : List Char → Option (α × List Char))
    (text : List Char) : Option (α × List Char) :=
  if first then part? text else (mark? ':' text).bind part?

/-- The two groups that hold an IPv4 address. -/
def embedded (ip : IPv4) : List UInt16 :=
  [UInt16.ofNat (ip.a.toNat * 256 + ip.b.toNat), UInt16.ofNat (ip.c.toNat * 256 + ip.d.toNat)]

/-- As many groups as stand at the front of a text, up to a limit, whether they end with a dotted
IPv4 address, and what follows them.  A dotted address needs room for two groups and ends the
sequence. -/
def takeGroups : Nat → Bool → List Char → List UInt16 × Bool × List Char
  | 0, _, text => ([], false, text)
  | room + 1, first, text =>
    match if room = 0 then none else separated? first IPv4.read? text with
    | some (ip, rest) => (embedded ip, true, rest)
    | none =>
      match separated? first group? text with
      | none => ([], false, text)
      | some (group, rest) =>
        let (groups, dotted, rest) := takeGroups room false rest
        (group :: groups, dotted, rest)

/-- An address at the front of a text.  Two colons stand for at least one zero group, and a dotted
address may only stand at the end. -/
def read? (text : List Char) : Option (IPv6 × List Char) := do
  let (head, dotted, text) := takeGroups 8 true text
  if head.length = 8 then
    some (← ofGroups? head, text)
  else if dotted then
    none
  else
    let text ← mark? ':' (← mark? ':' text)
    let (tail, _, text) := takeGroups (7 - head.length) true text
    let zeros := List.replicate (8 - head.length - tail.length) 0
    some (← ofGroups? (head ++ zeros ++ tail), text)

/-! ## Printing -/

/-- Where the first longest run of zero groups starts, and how many groups it has. -/
def zeroRun (groups : List UInt16) : Nat × Nat :=
  (List.range groups.length).foldl
    (fun best start =>
      let size := ((groups.drop start).takeWhile (· == 0)).length
      if best.2 < size then (start, size) else best)
    (0, 0)

/-- Groups in hexadecimal without leading zeros, with colons between them. -/
def charsOfGroups (groups : List UInt16) : List Char :=
  Text.join [':'] (groups.map fun group => Text.Radix.write 16 group.toNat)

/-- The IPv4 address that the last two groups hold behind five zero groups and `ffff`. -/
def mapped? (ip : IPv6) : Option IPv4 :=
  match ip.groups with
  | [0, 0, 0, 0, 0, 0xffff, high, low] =>
    some ⟨high.toNat / 256 |>.toUInt8, high.toNat % 256 |>.toUInt8,
      low.toNat / 256 |>.toUInt8, low.toNat % 256 |>.toUInt8⟩
  | _ => none

def chars (ip : IPv6) : List Char :=
  match ip.mapped? with
  | some quad => "::ffff:".toList ++ quad.chars
  | none =>
    let (start, size) := zeroRun ip.groups
    if 1 < size then
      charsOfGroups (ip.groups.take start) ++ "::".toList ++
        charsOfGroups (ip.groups.drop (start + size))
    else charsOfGroups ip.groups

end IPv6

end TrafficSteering.Address
