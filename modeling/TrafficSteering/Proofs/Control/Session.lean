import TrafficSteering.Control.Session
import Mathlib.Data.List.Basic
set_option autoImplicit false

/-!
# What a session makes of its bytes

A session is what its lines are: the bytes between two newlines hold a command if there are at most
255 of them and they spell one, and where the stream has been cut into chunks and reads shows
nowhere.  The way there is through the session that takes in one byte after another.  `Within` says
what it keeps of the line it is in, `feedAll_within` follows it through all lines, and
`serveFrom_eq` finds in it the loop that reads up to `maxRead` bytes at a time.
-/

namespace TrafficSteering

namespace Session

/-! ## The command on a line -/

/-- The command on a line, whose bytes are given without the newline. -/
def lineCommand? (line : List UInt8) : Option Command :=
  if line.length < maxRead then commandOf? line else none

theorem ofString?_ofList_eq_some_iff {text : List Char} {command : Command} :
    Command.ofString? (String.ofList text) = some command ↔
      Text.trim text = command.render.toList := by
  rw [Command.ofString?, Command.ofWord?_eq_some_iff, String.toList_ofList]
  constructor
  · intro h
    rw [← h, String.toList_ofList]
  · intro h
    rw [h, String.ofList_toList]

theorem replacement_not_mem_render (command : Command) :
    Text.replacement ∉ command.render.toList := by
  cases command <;> decide

/-- Bytes hold a command if they encode a text with the word for it between blanks. -/
theorem commandOf?_eq_some_iff {line : List UInt8} {command : Command} :
    commandOf? line = some command ↔
      ∃ text, Text.encode text = line ∧ Text.trim text = command.render.toList := by
  rw [commandOf?, ofString?_ofList_eq_some_iff]
  constructor
  · intro h
    -- a replaced byte would be left over by trimming, and no word contains the replacement
    have hsound : Text.replacement ∉ Text.decode line := fun hpresent =>
      replacement_not_mem_render command (h ▸ Text.mem_trim hpresent (by decide))
    exact ⟨Text.decode line, Text.encode_decode hsound, h⟩
  · rintro ⟨text, rfl, h⟩
    rw [Text.decode_encode, h]

/-- Only the newline has a newline as the last byte of its encoding. -/
theorem eq_newline_of_encodeChar {c : Char} {before : List UInt8}
    (h : String.utf8EncodeChar c = before ++ [newline]) : c = Char.ofNat 10 ∧ before = [] := by
  have hlength := congrArg List.length h
  have hinside : before.length < (String.utf8EncodeChar c).length := by simp [h]
  have hlast : (String.utf8EncodeChar c)[before.length] = newline := by simp [h]
  have hfirst := (@UInt8.isUTF8FirstByte_getElem_utf8EncodeChar c before.length hinside).1
    (by rw [hlast]; decide)
  have hnone : before = [] := List.eq_nil_of_length_eq_zero hfirst
  subst hnone
  exact ⟨Text.encodeChar_inj (h.trans (by decide)), rfl⟩

theorem commandOf?_append_newline (line : List UInt8) :
    commandOf? (line ++ [newline]) = commandOf? line := by
  refine Option.ext fun command => ?_
  rw [commandOf?_eq_some_iff, commandOf?_eq_some_iff]
  have hblank : Text.isBlank (Char.ofNat 10) = true := by decide
  constructor
  · rintro ⟨text, hencoded, htrimmed⟩
    obtain ⟨before, c, rfl⟩ := (List.eq_nil_or_concat' text).resolve_left
      (by rintro rfl; simp [Text.encode] at hencoded)
    obtain ⟨bytes, last, hsplit⟩ := (List.eq_nil_or_concat' (String.utf8EncodeChar c)).resolve_left
      String.utf8EncodeChar_ne_nil
    rw [Text.encode_append, Text.encode, Text.encode, List.flatMap_singleton, hsplit,
      ← List.append_assoc] at hencoded
    obtain ⟨hwhole, rfl⟩ := List.append_singleton_inj.1 hencoded
    obtain ⟨rfl, rfl⟩ := eq_newline_of_encodeChar hsplit
    rw [List.append_nil] at hwhole
    exact ⟨before, hwhole, by rw [← htrimmed, Text.trim_append_blank before hblank]⟩
  · rintro ⟨text, rfl, htrimmed⟩
    refine ⟨text ++ [Char.ofNat 10], ?_, by rw [Text.trim_append_blank text hblank, htrimmed]⟩
    rw [Text.encode_append]
    rfl

theorem lineCommand?_eq_some_iff {line : List UInt8} {command : Command} :
    lineCommand? line = some command ↔ line.length < maxRead ∧
      ∃ text, Text.encode text = line ∧ Text.trim text = command.render.toList := by
  rw [lineCommand?]
  split
  · next hshort => rw [commandOf?_eq_some_iff, and_iff_right hshort]
  · next hlong => simp [hlong]

/-! ## The end of a read -/

/-- A read that ends the line gives its command, unless the line is passed over. -/
theorem endRead_newline (discarding : Bool) (line : List UInt8) :
    endRead discarding (line ++ [newline]) =
      (false, if discarding then none else commandOf? line) := by
  cases discarding <;> simp [endRead, commandOf?_append_newline]

/-- A read that is full and does not end the line makes it too long. -/
theorem endRead_full (discarding : Bool) {line : List UInt8}
    (hunended : line.getLast? ≠ some newline) (hfull : line.length = maxRead) :
    endRead discarding line = (true, none) := by
  cases discarding <;> simp [endRead, hunended, hfull]

/-- A read that neither ends the line nor is full is cut short by the end of the stream. -/
theorem endRead_short (discarding : Bool) {line : List UInt8}
    (hunended : line.getLast? ≠ some newline) (hshort : line.length ≠ maxRead) :
    endRead discarding line = (discarding, if discarding then none else commandOf? line) := by
  cases discarding <;> simp [endRead, hunended, hshort]

/-! ## One byte after another -/

/-- A session that has read this part of a line. -/
structure Within (line : List UInt8) (session : Session) : Prop where
  open_line : newline ∉ line
  /-- All of the line is there as long as it is not too long. -/
  kept : line.length < maxRead → session = { buffer := line }
  lost : maxRead ≤ line.length → session.discarding = true
  room : session.buffer.length < maxRead

theorem Within.start : Within [] {} :=
  ⟨List.not_mem_nil, fun _ => rfl, fun h => absurd h (by decide), by decide⟩

theorem getLast?_ne_of_not_mem {line : List UInt8} (h : newline ∉ line) :
    line.getLast? ≠ some newline := fun hlast => h (List.mem_of_getLast? hlast)

/-- A byte that is no newline goes on with the line. -/
theorem Within.feed {line : List UInt8} {session : Session} (h : Within line session)
    {byte : UInt8} (hother : byte ≠ newline) :
    Within (line ++ [byte]) (session.feed byte).1 ∧ (session.feed byte).2 = none := by
  have hopen : newline ∉ line ++ [byte] := by
    simp [h.open_line, Ne.symm hother]
  have hroom := h.room
  have hbytes : (session.buffer ++ [byte]).length = session.buffer.length + 1 := by simp
  have hgrown : (line ++ [byte]).length = line.length + 1 := by simp
  by_cases hfull : session.buffer.length + 1 = maxRead
  · -- the read is full, so either the line has just become too long or it has been so before
    have hdiscards : endRead session.discarding (session.buffer ++ [byte]) = (true, none) :=
      endRead_full _ (by simpa using hother) (hbytes.trans hfull)
    have hlong : maxRead ≤ line.length + 1 := by
      by_cases hshort : line.length < maxRead
      · rw [h.kept hshort] at hfull
        exact Nat.le_of_eq hfull.symm
      · omega
    have hstep : session.feed byte = ({ discarding := true }, none) := by
      rw [Session.feed, hbytes, if_pos (.inr hfull), hdiscards]
    rw [hstep]
    exact ⟨⟨hopen, fun hshort => by omega, fun _ => rfl, by decide⟩, rfl⟩
  · have hstep : session.feed byte =
        ({ session with buffer := session.buffer ++ [byte] }, none) := by
      rw [Session.feed, hbytes, if_neg (by simp [hother, hfull])]
    rw [hstep]
    refine ⟨⟨hopen, fun hshort => ?_, fun hlong => ?_, ?_⟩, rfl⟩
    · rw [h.kept (by omega)]
    · refine h.lost (Nat.le_of_not_lt fun hshort => hfull ?_)
      rw [h.kept hshort]
      rw [h.kept hshort] at hroom
      change line.length + 1 = maxRead
      omega
    · change (session.buffer ++ [byte]).length < maxRead
      omega

/-- A newline ends the line with the command on it. -/
theorem Within.feed_newline {line : List UInt8} {session : Session} (h : Within line session) :
    session.feed newline = ({}, lineCommand? line) := by
  rw [Session.feed, if_pos (.inl rfl), endRead_newline, lineCommand?]
  by_cases hshort : line.length < maxRead
  · simp [hshort, h.kept hshort]
  · rw [if_neg hshort, h.lost (Nat.le_of_not_lt hshort)]
    rfl

/-- The end of the stream ends the line, too. -/
theorem Within.finish? {line : List UInt8} {session : Session} (h : Within line session) :
    session.finish? = lineCommand? line := by
  rw [Session.finish?, lineCommand?]
  by_cases hshort : line.length < maxRead
  · rw [if_pos hshort, h.kept hshort,
      endRead_short _ (getLast?_ne_of_not_mem h.open_line) (Nat.ne_of_lt hshort)]
    simp
  · rw [if_neg hshort, h.lost (Nat.le_of_not_lt hshort), endRead]
    rfl

theorem feedAll_cons (session : Session) (byte : UInt8) (bytes : List UInt8) :
    session.feedAll (byte :: bytes) =
      (((session.feed byte).1.feedAll bytes).1,
        (session.feed byte).2.toList ++ ((session.feed byte).1.feedAll bytes).2) := rfl

theorem feedAll_append (session : Session) (first second : List UInt8) :
    session.feedAll (first ++ second) =
      (((session.feedAll first).1.feedAll second).1,
        (session.feedAll first).2 ++ ((session.feedAll first).1.feedAll second).2) := by
  induction first generalizing session with
  | nil => rfl
  | cons byte bytes ih =>
    rw [List.cons_append, feedAll_cons, ih, feedAll_cons, List.append_assoc]

/-- Whatever part of a line has been read, the bytes that follow give the commands of all lines but
the last, of which they leave the session within. -/
theorem feedAll_within {line : List UInt8} {session : Session} (h : Within line session)
    (bytes : List UInt8) :
    ∃ lines last, (line ++ bytes).splitOn newline = lines ++ [last] ∧
      (session.feedAll bytes).2 = lines.filterMap lineCommand? ∧
      Within last (session.feedAll bytes).1 := by
  induction bytes generalizing line session with
  | nil =>
    refine ⟨[], line, ?_, rfl, h⟩
    rw [List.append_nil, List.splitOn_eq_singleton h.open_line, List.nil_append]
  | cons byte bytes ih =>
    by_cases he : byte = newline
    · subst he
      obtain ⟨lines, last, hsplit, hcommands, hwithin⟩ := ih .start
      refine ⟨line :: lines, last, ?_, ?_, ?_⟩
      · rw [List.splitOn_append_cons_self_of_not_mem h.open_line]
        exact congrArg (line :: ·) hsplit
      · rw [feedAll_cons, h.feed_newline, hcommands, List.filterMap_cons]
        cases lineCommand? line <;> rfl
      · rw [feedAll_cons, h.feed_newline]
        exact hwithin
    · obtain ⟨hwithin, hsilent⟩ := h.feed he
      obtain ⟨lines, last, hsplit, hcommands, hwithin⟩ := ih hwithin
      refine ⟨lines, last, ?_, ?_, hwithin⟩
      · rw [← hsplit, List.append_assoc, List.singleton_append]
      · rw [feedAll_cons, hsilent, hcommands]
        rfl

/-! ## One read after another -/

/-- The bytes of a stream up to its end or its first fault, and which of the two it is. -/
def stream : List Chunk → List UInt8 × SessionEnd
  | [] => ([], .closed)
  | .failure :: _ => ([], .failed)
  | .data bytes :: rest => (bytes ++ (stream rest).1, (stream rest).2)

theorem stream_map_data (reads : List (List UInt8)) :
    stream (reads.map .data) = (reads.flatten, .closed) := by
  induction reads with
  | nil => rfl
  | cons bytes reads ih => rw [List.map_cons, stream, ih, List.flatten_cons]

theorem stream_map_data_failure (reads : List (List UInt8)) (later : List Chunk) :
    stream (reads.map .data ++ .failure :: later) = (reads.flatten, .failed) := by
  induction reads with
  | nil => rfl
  | cons bytes reads ih => rw [List.map_cons, List.cons_append, stream, ih, List.flatten_cons]

/-- What a read of a chunk takes: a front part of it with no newline but at its end, and all of it
unless the room or a newline ends the read. -/
theorem upToNewline_spec (room : Nat) (bytes : List UInt8) :
    (upToNewline room bytes).length ≤ room ∧ newline ∉ (upToNewline room bytes).dropLast ∧
      bytes = upToNewline room bytes ++ bytes.drop (upToNewline room bytes).length ∧
      ((upToNewline room bytes).length = room ∨
        (upToNewline room bytes).getLast? = some newline ∨ upToNewline room bytes = bytes) := by
  induction room, bytes using upToNewline.induct with
  | case1 bytes => simp [upToNewline]
  | case2 room => simp [upToNewline]
  | case3 room bytes => simp [upToNewline]
  | case4 room byte bytes hother ih =>
    obtain ⟨hfits, hinner, hfront, hended⟩ := ih
    have hstep : upToNewline (room + 1) (byte :: bytes) = byte :: upToNewline room bytes := by
      rw [upToNewline, if_neg hother]
    rw [hstep]
    refine ⟨by simpa using hfits, ?_, ?_, ?_⟩
    · by_cases hnone : upToNewline room bytes = []
      · simp [hnone]
      · rw [List.dropLast_cons_of_ne_nil hnone]
        simp [Ne.symm hother, hinner]
    · simpa using hfront
    · rcases hended with hfull | hlast | hwhole
      · exact .inl (by rw [List.length_cons, hfull])
      · exact .inr (.inl (by rw [List.getLast?_cons, hlast]; rfl))
      · exact .inr (.inr (by rw [hwhole]))

theorem not_mem_of_dropLast {line : List UInt8} (hinner : newline ∉ line.dropLast)
    (hunended : line.getLast? ≠ some newline) : newline ∉ line := by
  rcases List.eq_nil_or_concat' line with rfl | ⟨before, last, rfl⟩
  · exact List.not_mem_nil
  · simp_all [eq_comm]

/-- A read that goes on behind a chunk has taken all of it, and has room left. -/
theorem upToNewline_of_going {room : Nat} {bytes : List UInt8}
    (hgoing : ¬((upToNewline room bytes).length = room ∨
      (upToNewline room bytes).getLast? = some newline)) :
    newline ∉ bytes ∧ bytes.length < room := by
  obtain ⟨hfits, hinner, -, hended⟩ := upToNewline_spec room bytes
  obtain ⟨hunfilled, hunended⟩ := not_or.1 hgoing
  have hwhole := (hended.resolve_left hunfilled).resolve_left hunended
  rw [hwhole] at hfits hinner hunfilled hunended
  exact ⟨not_mem_of_dropLast hinner hunended, Nat.lt_of_le_of_ne hfits hunfilled⟩

/-- A read that finds its line or fills up has taken a front part of the stream; one that does
neither has come to the end of the stream. -/
theorem stream_of_read {room : Nat} {chunks rest : List Chunk} {line : List UInt8}
    (h : read room chunks = some (line, rest)) :
    stream chunks = (line ++ (stream rest).1, (stream rest).2) ∧ line.length ≤ room ∧
      newline ∉ line.dropLast ∧
      (line.length = room ∨ line.getLast? = some newline ∨ stream rest = ([], .closed)) := by
  induction chunks generalizing room line with
  | nil => cases h; exact ⟨rfl, Nat.zero_le _, List.not_mem_nil, .inr (.inr rfl)⟩
  | cons chunk chunks ih =>
    cases chunk with
    | failure =>
      rw [read] at h
      split at h
      · next hfull => cases h; exact ⟨rfl, Nat.zero_le _, List.not_mem_nil, .inl hfull.symm⟩
      · cases h
    | data bytes =>
      rw [read] at h
      split at h
      · next hdone =>
        obtain ⟨hfits, hinner, hfront, -⟩ := upToNewline_spec room bytes
        cases h
        refine ⟨?_, hfits, hinner, hdone.imp_right .inl⟩
        rw [stream, stream, ← List.append_assoc, ← hfront]
      · next hgoing =>
        obtain ⟨hfree, hshort⟩ := upToNewline_of_going hgoing
        obtain ⟨⟨more, left⟩, hmore, he⟩ := Option.bind_eq_some_iff.1 h
        cases he
        obtain ⟨hbehind, hfits, hinner, hended⟩ := ih hmore
        refine ⟨?_, ?_, ?_, ?_⟩
        · rw [stream, hbehind, List.append_assoc]
        · rw [List.length_append]
          omega
        · rw [List.dropLast_append]
          split
          · exact fun h => hfree (List.dropLast_subset bytes h)
          · exact fun h => (List.mem_append.1 h).elim hfree hinner
        · refine hended.imp (fun hfull => ?_) (Or.imp_left fun hlast => ?_)
          · rw [List.length_append]
            omega
          · rw [List.getLast?_append, hlast]
            rfl

/-- A read that fails has found no whole line before the fault. -/
theorem stream_of_read_none {room : Nat} {chunks : List Chunk} (h : read room chunks = none) :
    (stream chunks).2 = .failed ∧ newline ∉ (stream chunks).1 ∧
      (stream chunks).1.length < room := by
  induction chunks generalizing room with
  | nil => cases h
  | cons chunk chunks ih =>
    cases chunk with
    | failure =>
      rw [read] at h
      split at h
      · cases h
      · next hopen => exact ⟨rfl, List.not_mem_nil, Nat.pos_of_ne_zero hopen⟩
    | data bytes =>
      rw [read] at h
      split at h
      · cases h
      · next hgoing =>
        obtain ⟨hfree, hshort⟩ := upToNewline_of_going hgoing
        have hmore : read (room - bytes.length) chunks = none := by
          cases he : read (room - bytes.length) chunks with
          | none => rfl
          | some found => rw [he] at h; cases h
        obtain ⟨hlost, hunended, hfits⟩ := ih hmore
        refine ⟨hlost, fun h => (List.mem_append.1 h).elim hfree hunended, ?_⟩
        rw [stream, List.length_append]
        omega

/-! ## A whole stream -/

/-- A session keeps the bytes of a read until the read ends. -/
theorem feedAll_short (session : Session) {bytes : List UInt8} (hfree : newline ∉ bytes)
    (hshort : session.buffer.length + bytes.length < maxRead) :
    session.feedAll bytes = ({ session with buffer := session.buffer ++ bytes }, []) := by
  induction bytes generalizing session with
  | nil => simp [feedAll]
  | cons byte bytes ih =>
    obtain ⟨hother, hfree⟩ := not_or.1 (mt List.mem_cons.2 hfree)
    rw [List.length_cons] at hshort
    have hstep : session.feed byte =
        ({ session with buffer := session.buffer ++ [byte] }, none) := by
      rw [feed, if_neg]
      rw [List.length_append, List.length_singleton]
      exact not_or.2 ⟨Ne.symm hother, by omega⟩
    rw [feedAll_cons, hstep, ih _ hfree (by simp; omega)]
    simp

/-- A session that takes in the bytes of a read has then done what the read does. -/
theorem feedAll_read (discarding : Bool) {line : List UInt8} (hbyte : line ≠ [])
    (hfits : line.length ≤ maxRead) (hinner : newline ∉ line.dropLast)
    (hended : line.length = maxRead ∨ line.getLast? = some newline) :
    feedAll { discarding } line =
      ({ discarding := (endRead discarding line).1 }, (endRead discarding line).2.toList) := by
  obtain ⟨before, last, rfl⟩ := (List.eq_nil_or_concat' line).resolve_left hbyte
  rw [List.dropLast_concat] at hinner
  rw [List.length_append, List.length_singleton] at hfits hended
  rw [List.getLast?_concat, Option.some.injEq] at hended
  have hshort : ({ discarding } : Session).buffer.length + before.length < maxRead := by
    change 0 + before.length < maxRead
    omega
  have hcloses : ({ buffer := before, discarding } : Session).feed last =
      ({ discarding := (endRead discarding (before ++ [last])).1 },
        (endRead discarding (before ++ [last])).2) := by
    rw [feed, if_pos]
    rw [List.length_append, List.length_singleton]
    exact hended.symm
  rw [feedAll_append, feedAll_short _ hinner hshort]
  change (_, [] ++ _) = _
  rw [List.nil_append, List.nil_append, feedAll_cons, hcloses]
  simp [feedAll]

/-- The commands of the bytes that follow, with that of the open line if the stream does not break
off. -/
def commandsBefore (session : Session) (bytes : List UInt8) : SessionEnd → List Command
  | .closed => (session.feedAll bytes).2 ++ (session.feedAll bytes).1.finish?.toList
  | .failed => (session.feedAll bytes).2

theorem commandsBefore_append (session : Session) (first second : List UInt8)
    (ending : SessionEnd) :
    session.commandsBefore (first ++ second) ending =
      (session.feedAll first).2 ++ (session.feedAll first).1.commandsBefore second ending := by
  cases ending <;> simp [commandsBefore, feedAll_append]

/-- Nothing more comes where a read has just ended and the stream ends. -/
theorem commandsBefore_nil (discarding : Bool) :
    commandsBefore { discarding } [] .closed = [] := by
  cases discarding <;> rfl

/-- The loop over reads does what the session does that takes in one byte after another. -/
theorem serveFrom_eq (discarding : Bool) (chunks : List Chunk) :
    serveFrom discarding chunks =
      (commandsBefore { discarding } (stream chunks).1 (stream chunks).2, (stream chunks).2) := by
  induction discarding, chunks using serveFrom.induct with
  | case1 discarding chunks hlost =>
    obtain ⟨hending, hfree, hshort⟩ := stream_of_read_none hlost
    rw [serveFrom, hlost, hending, commandsBefore, feedAll_short _ hfree (by simpa using hshort)]
  | case2 discarding chunks rest hsilent =>
    obtain ⟨hwhole, -, -, hended⟩ := stream_of_read hsilent
    have hexhausted : stream rest = ([], .closed) :=
      (hended.resolve_left (by decide)).resolve_left (by simp)
    rw [serveFrom, hsilent, hwhole, hexhausted]
    exact Prod.ext (commandsBefore_nil discarding).symm rfl
  | case3 discarding chunks byte bytes rest hfound now command he commands ending hbehind ih =>
    obtain ⟨hwhole, hfits, hinner, hended⟩ := stream_of_read hfound
    have hunfolded : serveFrom discarding chunks = (command.toList ++ commands, ending) := by
      rw [serveFrom, hfound]
      simp only [he, hbehind]
    obtain ⟨rfl, rfl⟩ := Prod.mk.inj (hbehind.symm.trans ih)
    rw [hunfolded, hwhole]
    refine Prod.ext ?_ rfl
    by_cases hdone : (byte :: bytes).length = maxRead ∨ (byte :: bytes).getLast? = some newline
    · rw [commandsBefore_append, feedAll_read _ (by simp) hfits hinner hdone, he]
    · -- the stream has ended within the line
      obtain ⟨hunfilled, hunended⟩ := not_or.1 hdone
      have hexhausted := (hended.resolve_left hunfilled).resolve_left hunended
      have hshort : (byte :: bytes).length < maxRead := Nat.lt_of_le_of_ne hfits hunfilled
      rw [hexhausted, commandsBefore_nil, List.append_nil, List.append_nil, commandsBefore,
        feedAll_short _ (not_mem_of_dropLast hinner hunended) (by simpa using hshort)]
      change command.toList = [] ++ (endRead discarding (byte :: bytes)).2.toList
      rw [he, List.nil_append]

/-- The commands of a session are those on the lines of its stream, with no regard to how the stream
has been cut into chunks.  A line holds a command if it has at most 255 bytes and these encode the
word for the command between blanks.  Where the stream ends, its last line counts like any other;
where it breaks off, the line it is in does not count. -/
theorem serve_eq_lines :
    (∀ reads : List (List UInt8),
      serve (reads.map .data) =
        ((reads.flatten.splitOn newline).filterMap lineCommand?, .closed)) ∧
    (∀ (reads : List (List UInt8)) (later : List Chunk),
      serve (reads.map .data ++ .failure :: later) =
        ((reads.flatten.splitOn newline).dropLast.filterMap lineCommand?, .failed)) ∧
    ∀ line command, lineCommand? line = some command ↔
      line.length ≤ 255 ∧
        ∃ text, Text.encode text = line ∧ Text.trim text = command.render.toList := by
  refine ⟨fun reads => ?_, fun reads later => ?_, fun line command => ?_⟩
  · obtain ⟨lines, last, hsplit, hcommands, hwithin⟩ := feedAll_within .start reads.flatten
    rw [List.nil_append] at hsplit
    rw [serve, serveFrom_eq, stream_map_data, commandsBefore, hcommands, hwithin.finish?, hsplit,
      List.filterMap_append]
    cases he : lineCommand? last <;> simp [he]
  · obtain ⟨lines, last, hsplit, hcommands, -⟩ := feedAll_within .start reads.flatten
    rw [List.nil_append] at hsplit
    rw [serve, serveFrom_eq, stream_map_data_failure, commandsBefore, hcommands, hsplit,
      List.dropLast_concat]
  · rw [lineCommand?_eq_some_iff, ← Nat.lt_succ_iff]
    rfl

end Session

end TrafficSteering
