import TrafficSteering.Address.Endpoint
set_option autoImplicit false

/-!
# Reading printed addresses

A printed address reads back as that address, whatever follows it, as long as nothing follows that
would go on with it.  For IPv6 that rests on two facts: the run of groups that the printed form
leaves out is a run of zeros, and the reader fills exactly as many zeros in as are missing.
-/

namespace TrafficSteering.Address

open Text.Radix (Stops stops_nil stops_cons isRadix_ten isRadix_sixteen)

/-! ## Decimal numerals -/

theorem decimal?_write {bound n : Nat} (h : n < bound) {rest : List Char}
    (hstops : Stops Char.isDigit rest) :
    decimal? bound (Text.Radix.write 10 n ++ rest) = some (n, rest) := by
  rw [decimal?, hstops.takeWhile_write, hstops.dropWhile_write,
    Text.Radix.read?_write isRadix_ten]
  exact if_pos h

/-! ## IPv4 -/

namespace IPv4

theorem octet?_write (octet : UInt8) {rest : List Char} (hstops : Stops Char.isDigit rest) :
    octet? (Text.Radix.write 10 octet.toNat ++ rest) = some (octet, rest) := by
  have hbound := octet.toNat_lt
  have hshort : (Text.Radix.write 10 octet.toNat).length ≤ 3 :=
    (Nat.length_toDigits_le_iff (by decide) (by decide)).2 (by omega)
  rw [octet?, hstops.takeWhile_write, hstops.dropWhile_write,
    Text.Radix.read?_write isRadix_ten]
  simpa [hshort, hbound] using Text.Radix.length_write_of_zero

/-- An octet takes all digits there are. -/
theorem octet?_rest {text rest : List Char} {octet : UInt8} (h : octet? text = some (octet, rest)) :
    rest = text.dropWhile Char.isDigit := by
  simp only [octet?, Option.bind_eq_bind, Option.bind_eq_some_iff, Option.ite_none_right_eq_some,
    Option.some.injEq, Prod.mk.injEq] at h
  obtain ⟨value, -, -, -, rfl⟩ := h
  rfl

theorem read?_chars (ip : IPv4) {rest : List Char} (hstops : Stops Char.isDigit rest) :
    read? (ip.chars ++ rest) = some (ip, rest) := by
  have hdot : ∀ text, Stops Char.isDigit ('.' :: text) := stops_cons (by decide)
  simp [read?, chars, octets, Text.join, octet?_write, hdot, hstops, mark?]

/-- A printed address reads back as that address. -/
theorem ofString?_render (ip : IPv4) : ofString? ip.render = some ip := by
  have hread := read?_chars ip (stops_nil _)
  rw [List.append_nil] at hread
  rw [ofString?, render, String.toList_ofList, hread]

end IPv4

/-! ## Groups of an IPv6 address -/

namespace IPv6

theorem isHex_of_isDigit {c : Char} (h : c.isDigit = true) : isHex c = true := by
  simp only [Char.isDigit, Bool.and_eq_true, decide_eq_true_eq] at h
  have hrange : '0' ≤ c ∧ c ≤ '9' := h
  have hsmall : c.toNat ≤ 57 := UInt32.le_iff_toNat_le.1 h.2
  rw [isHex, Text.Radix.digit?, Text.Radix.digitValue?, if_pos hrange]
  simp
  omega

theorem isHex_of_mem_write (n : Nat) : ∀ c ∈ Text.Radix.write 16 n, isHex c = true :=
  Text.Radix.digit?_of_mem_write isRadix_sixteen n

/-- The characters that go on with a group or make it the start of a dotted address. -/
def goesOn (c : Char) : Bool := isHex c || c = '.'

theorem isHex_of_goesOn {rest : List Char} (hstops : Stops goesOn rest) : Stops isHex rest :=
  fun c hc => (Bool.or_eq_false_iff.1 (hstops c hc)).1

theorem isDigit_of_goesOn {rest : List Char} (hstops : Stops goesOn rest) :
    Stops Char.isDigit rest := by
  intro c hc
  have hother := isHex_of_goesOn hstops c hc
  exact Bool.eq_false_iff.2 fun hdigit => by rw [isHex_of_isDigit hdigit] at hother; cases hother

theorem group?_write (group : UInt16) {rest : List Char} (hstops : Stops isHex rest) :
    group? (Text.Radix.write 16 group.toNat ++ rest) = some (group, rest) := by
  have hbound := group.toNat_lt
  have hshort : (Text.Radix.write 16 group.toNat).length ≤ 4 :=
    (Nat.length_toDigits_le_iff (by decide) (by decide)).2 (by omega)
  rw [group?, hstops.takeWhile_append (isHex_of_mem_write _),
    hstops.dropWhile_append (isHex_of_mem_write _), Text.Radix.read?_write isRadix_sixteen]
  simp [hshort]

theorem group?_none {rest : List Char} (hstops : Stops isHex rest) : group? rest = none := by
  rw [group?, hstops.takeWhile_eq_nil]
  rfl

/-- Hexadecimal digits are not the start of a dotted address, for no dot follows them. -/
theorem quad?_none {digits rest : List Char} (hhex : ∀ c ∈ digits, isHex c = true)
    (hstops : Stops goesOn rest) : IPv4.read? (digits ++ rest) = none := by
  have hundotted : mark? '.' ((digits ++ rest).dropWhile Char.isDigit) = none := by
    induction digits with
    | nil =>
      rw [List.nil_append, (isDigit_of_goesOn hstops).dropWhile_eq_self]
      cases rest with
      | nil => rfl
      | cons c rest =>
        have hother := (Bool.or_eq_false_iff.1 (hstops c rfl)).2
        exact if_neg (by simpa using hother)
    | cons c digits ih =>
      rw [List.forall_mem_cons] at hhex
      rw [List.cons_append, List.dropWhile_cons]
      split
      · exact ih hhex.2
      · refine if_neg ?_
        rintro rfl
        exact absurd hhex.1 (by decide)
  rw [IPv4.read?]
  cases hread : IPv4.octet? (digits ++ rest) with
  | none => rfl
  | some first =>
    obtain ⟨a, behind⟩ := first
    simp [IPv4.octet?_rest hread, hundotted]

/-! ## Sequences of groups -/

/-- What may follow a sequence of groups: nothing that goes on with its last group, and a colon
only as the first of two. -/
structure Closed (rest : List Char) : Prop where
  stops : Stops goesOn rest
  colons : ∀ behind, rest = ':' :: behind → ∃ more, behind = ':' :: more

theorem closed_colons (rest : List Char) : Closed (':' :: ':' :: rest) where
  stops := stops_cons (by decide) _
  colons behind he := ⟨rest, (List.cons.inj he).2.symm⟩

/-- Groups as they stand in an address, from its start or behind other groups. -/
def sequence : Bool → List UInt16 → List Char
  | _, [] => []
  | first, group :: groups =>
    (if first then [] else [':']) ++ Text.Radix.write 16 group.toNat ++ sequence false groups

theorem charsOfGroups_eq (groups : List UInt16) : charsOfGroups groups = sequence true groups := by
  rw [charsOfGroups]
  induction groups with
  | nil => rfl
  | cons group groups ih =>
    cases groups with
    | nil => simp [sequence, Text.join]
    | cons next groups =>
      simp only [List.map_cons, Text.join, sequence] at ih ⊢
      simp [ih]

theorem Closed.stops_sequence {rest : List Char} (h : Closed rest) (groups : List UInt16) :
    Stops goesOn (sequence false groups ++ rest) := by
  cases groups with
  | nil => exact h.stops
  | cons group groups => exact stops_cons (by decide) _

theorem Closed.separated?_none {rest : List Char} (h : Closed rest) (first : Bool) {α : Type}
    {part? : List Char → Option (α × List Char)}
    (hfails : ∀ text, Stops goesOn text → part? text = none) :
    separated? first part? rest = none := by
  cases first with
  | true => exact hfails rest h.stops
  | false =>
    rw [separated?, if_neg (by decide)]
    cases rest with
    | nil => rfl
    | cons c behind =>
      rw [mark?]
      split
      · next hcolon =>
        obtain ⟨more, rfl⟩ := h.colons behind (hcolon ▸ rfl)
        exact hfails _ (stops_cons (by decide) _)
      · rfl

theorem takeGroups_closed {rest : List Char} (h : Closed rest) (room : Nat) (first : Bool) :
    takeGroups room first rest = ([], false, rest) := by
  have hgroup : separated? first group? rest = none :=
    h.separated?_none first fun _ hstops => group?_none (isHex_of_goesOn hstops)
  have hquad : separated? first IPv4.read? rest = none :=
    h.separated?_none first fun text hstops => @quad?_none [] text (by simp) hstops
  cases room with
  | zero => rfl
  | succ room => simp [takeGroups, hgroup, hquad]

theorem takeGroups_cons (room : Nat) (first : Bool) (group : UInt16) {behind : List Char}
    (hstops : Stops goesOn behind) :
    takeGroups (room + 1) first
        ((if first then [] else [':']) ++ Text.Radix.write 16 group.toNat ++ behind) =
      (group :: (takeGroups room false behind).1, (takeGroups room false behind).2) := by
  have hquad := quad?_none (isHex_of_mem_write group.toNat) hstops
  have htaken := group?_write group (isHex_of_goesOn hstops)
  cases first <;> simp [takeGroups, separated?, mark?, hquad, htaken]

/-- Groups that fit are all taken. -/
theorem takeGroups_sequence {rest : List Char} (h : Closed rest) (groups : List UInt16) :
    ∀ (room : Nat) (first : Bool), groups.length ≤ room →
      takeGroups room first (sequence first groups ++ rest) = (groups, false, rest) := by
  induction groups with
  | nil => exact fun room first _ => takeGroups_closed h room first
  | cons group groups ih =>
    intro room first hfits
    cases room with
    | zero => exact absurd hfits (by simp)
    | succ room =>
      rw [sequence, List.append_assoc, takeGroups_cons room first group (h.stops_sequence groups),
        ih room false (by simpa using hfits)]

/-! ## The run that is left out -/

/-- A run of zeros starts at a place and has a length. -/
def IsZeroRun (groups : List UInt16) (run : Nat × Nat) : Prop :=
  (groups.drop run.1).take run.2 = List.replicate run.2 0 ∧ run.1 + run.2 ≤ groups.length

/-- The zeros at a place are a run as long as there are. -/
theorem isZeroRun_takeWhile (groups : List UInt16) {start : Nat} (h : start ≤ groups.length) :
    IsZeroRun groups (start, ((groups.drop start).takeWhile (· == 0)).length) := by
  have hfront : (groups.drop start).takeWhile (· == 0) <+: groups.drop start :=
    List.takeWhile_prefix _
  constructor
  · rw [← List.prefix_iff_eq_take.1 hfront, List.eq_replicate_iff]
    refine ⟨rfl, fun group hpresent => ?_⟩
    exact eq_of_beq (List.all_eq_true.1 List.all_takeWhile group hpresent)
  · have := hfront.length_le
    rw [List.length_drop] at this
    dsimp only
    omega

theorem isZeroRun_zeroRun (groups : List UInt16) : IsZeroRun groups (zeroRun groups) := by
  rw [zeroRun]
  refine List.foldlRecOn _ _ ⟨rfl, Nat.zero_le _⟩ fun best hrun start hpresent => ?_
  dsimp only
  split
  · exact isZeroRun_takeWhile groups (Nat.le_of_lt (List.mem_range.1 hpresent))
  · exact hrun

/-- Zeros in the place of the run make the groups whole. -/
theorem IsZeroRun.groups_eq {groups : List UInt16} {start size : Nat}
    (h : IsZeroRun groups (start, size)) :
    groups.take start ++ List.replicate size 0 ++ groups.drop (start + size) = groups := by
  rw [← h.1, List.append_assoc, ← List.drop_drop, List.take_append_drop, List.take_append_drop]

/-! ## Whole addresses -/

/-- What does not go on with an address: no digit, dot or colon. -/
def follows (c : Char) : Bool := goesOn c || c = ':'

theorem closed_of_follows {rest : List Char} (hstops : Stops follows rest) : Closed rest where
  stops c hc := (Bool.or_eq_false_iff.1 (hstops c hc)).1
  colons behind he := by
    subst he
    exact absurd (hstops ':' rfl) (by decide)

theorem ofGroups?_groups (ip : IPv6) : ofGroups? ip.groups = some ip := by
  rw [ofGroups?, dif_pos ip.length_eq]

/-- All eight groups. -/
theorem read?_whole (ip : IPv6) {rest : List Char} (hclosed : Closed rest) :
    read? (charsOfGroups ip.groups ++ rest) = some (ip, rest) := by
  have htaken := takeGroups_sequence hclosed ip.groups 8 true (Nat.le_of_eq ip.length_eq)
  rw [← charsOfGroups_eq] at htaken
  simp [read?, htaken, ip.length_eq, ofGroups?_groups]

/-- Groups before and behind two colons, which stand for the zeros that are missing. -/
theorem read?_around (ip : IPv6) {front back : List UInt16} {dotted : Bool}
    {text more rest : List Char}
    (hahead : takeGroups 8 true text = (front, false, ':' :: ':' :: more))
    (hbehind : takeGroups (7 - front.length) true more = (back, dotted, rest))
    (hzero : front.length < 8)
    (hwhole : front ++ List.replicate (8 - front.length - back.length) 0 ++ back = ip.groups) :
    read? text = some (ip, rest) := by
  have hpartly : front.length ≠ 8 := by omega
  have hmade := ofGroups?_groups ip
  rw [← hwhole, List.append_assoc] at hmade
  simp [read?, hahead, hbehind, hpartly, mark?, hmade]

theorem groups_eq_of_mapped {ip : IPv6} {quad : IPv4} (hmapped : ip.mapped? = some quad) :
    ip.groups = [0, 0, 0, 0, 0, 0xffff] ++ embedded quad := by
  unfold mapped? at hmapped
  split at hmapped
  · next high low hgroups =>
    obtain rfl := Option.some.inj hmapped
    rw [hgroups, embedded]
    have hjoin : ∀ group : UInt16, UInt16.ofNat
        ((group.toNat / 256).toUInt8.toNat * 256 + (group.toNat % 256).toUInt8.toNat) = group := by
      intro group
      have hbound := group.toNat_lt
      refine UInt16.toNat.inj ?_
      simp
      omega
    rw [hjoin, hjoin]
    rfl
  · exact absurd hmapped (by simp)

/-- A dotted address behind two colons and `ffff`. -/
theorem read?_mapped (ip : IPv6) {quad : IPv4} (hmapped : ip.mapped? = some quad) {rest : List Char}
    (hstops : Stops Char.isDigit rest) :
    read? ("::ffff:".toList ++ quad.chars ++ rest) = some (ip, rest) := by
  have htext : "::ffff:".toList ++ quad.chars ++ rest =
      ':' :: ':' :: ("ffff".toList ++ ':' :: (quad.chars ++ rest)) := by simp
  have hahead := takeGroups_closed (closed_colons ("ffff".toList ++ ':' :: (quad.chars ++ rest)))
    8 true
  have hdotted : takeGroups 6 false (':' :: (quad.chars ++ rest)) =
      (embedded quad, true, rest) := by
    simp [takeGroups, separated?, mark?, IPv4.read?_chars quad hstops]
  have hbehind : takeGroups 7 true ("ffff".toList ++ ':' :: (quad.chars ++ rest)) =
      (0xffff :: embedded quad, true, rest) := by
    have hcolon : Stops goesOn (':' :: (quad.chars ++ rest)) := stops_cons (by decide) _
    have htaken := takeGroups_cons 6 true 0xffff hcolon
    rwa [hdotted, show Text.Radix.write 16 (0xffff : UInt16).toNat = "ffff".toList by decide]
      at htaken
  rw [htext]
  exact read?_around ip hahead hbehind (by decide) (groups_eq_of_mapped hmapped).symm

theorem read?_chars (ip : IPv6) {rest : List Char} (hstops : Stops follows rest) :
    read? (ip.chars ++ rest) = some (ip, rest) := by
  have hclosed := closed_of_follows hstops
  cases hmapped : ip.mapped? with
  | some quad =>
    rw [show ip.chars = "::ffff:".toList ++ quad.chars by simp only [chars, hmapped]]
    exact read?_mapped ip hmapped (isDigit_of_goesOn hclosed.stops)
  | none =>
    have hrun := isZeroRun_zeroRun ip.groups
    simp only [chars, hmapped]
    generalize zeroRun ip.groups = best at hrun ⊢
    obtain ⟨start, size⟩ := best
    split
    · next hlong =>
      have hinside := hrun.2
      have height := ip.length_eq
      have hfront : (ip.groups.take start).length = start := by rw [List.length_take]; omega
      have hback : (ip.groups.drop (start + size)).length = 8 - (start + size) := by
        rw [List.length_drop, height]
      have hzeros : 8 - start - (8 - (start + size)) = size := by omega
      have hahead := takeGroups_sequence
        (closed_colons (charsOfGroups (ip.groups.drop (start + size)) ++ rest))
        (ip.groups.take start) 8 true (by omega)
      have hbehind := takeGroups_sequence hclosed (ip.groups.drop (start + size))
        (7 - (ip.groups.take start).length) true (by omega)
      rw [← charsOfGroups_eq] at hahead hbehind
      have haround := read?_around ip hahead hbehind (by omega)
        (by rw [hfront, hback, hzeros]; exact hrun.groups_eq)
      simpa using haround
    · exact read?_whole ip hclosed

end IPv6

/-! ## Socket addresses -/

namespace Endpoint

theorem port?_write (port : UInt16) :
    port? (':' :: Text.Radix.write 10 port.toNat) = some (port, []) := by
  have hread := decimal?_write port.toNat_lt (stops_nil _)
  rw [List.append_nil] at hread
  rw [port?]
  simp [mark?, hread]

/-- Scope zero is not shown and read where none is shown. -/
theorem scope_shown (number : UInt32) (rest : List Char) :
    scope ((if number = 0 then [] else '%' :: Text.Radix.write 10 number.toNat) ++ ']' :: rest) =
      (number, ']' :: rest) := by
  have hbracket : Stops Char.isDigit (']' :: rest) := stops_cons (by decide) rest
  have hread := decimal?_write number.toNat_lt hbracket
  split
  · next hzero => simp [scope, mark?, hzero]
  · simp [scope, mark?, hread]

theorem readV4?_chars (ip : IPv4) (port : UInt16) :
    readV4? (Endpoint.v4 ip port).chars = some (.v4 ip port, []) := by
  have hcolon : Stops Char.isDigit (':' :: Text.Radix.write 10 port.toNat) :=
    stops_cons (by decide) _
  simp [readV4?, chars, IPv4.read?_chars ip hcolon, port?_write]

theorem readV6?_chars (ip : IPv6) (number : UInt32) (port : UInt16) :
    readV6? (Endpoint.v6 ip number port).chars = some (.v6 ip number port, []) := by
  have hbehind : ∀ rest, Stops IPv6.follows
      ((if number = 0 then [] else '%' :: Text.Radix.write 10 number.toNat) ++ ']' :: rest) := by
    intro rest
    split
    · exact stops_cons (by decide) _
    · exact stops_cons (by decide) _
  have hip := IPv6.read?_chars ip (hbehind (':' :: Text.Radix.write 10 port.toNat))
  simp [readV6?, chars, mark?, hip, scope_shown, port?_write]

/-- A printed socket address reads back as that address. -/
theorem ofString?_render (endpoint : Endpoint) : ofString? endpoint.render = some endpoint := by
  rw [ofString?, render, String.toList_ofList]
  cases endpoint with
  | v4 ip port => rw [readV4?_chars, Option.some_or]
  | v6 ip number port =>
    have hbracket : readV4? (Endpoint.v6 ip number port).chars = none := rfl
    rw [hbracket, Option.none_or, readV6?_chars]

end Endpoint

end TrafficSteering.Address
