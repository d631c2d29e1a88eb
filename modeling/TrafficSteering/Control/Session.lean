import TrafficSteering.Control.Command
import TrafficSteering.Text.Utf8
set_option autoImplicit false

/-!
# Control sessions

A session is a stream of bytes with one command on a line.  The stream arrives in chunks, and a
session reads it line by line, but never more than `maxRead` bytes at a time.  A line that fills a
read without ending in it is too long: it is passed over up to and with its newline.  A line that
holds no command is passed over, too, and bytes that are not UTF-8 spoil only the line they are on.
The last line need not end with a newline.

`serve` reads a stream that is there as a whole.  While a client is still connected, a `Session` is
what there is between two of its bytes, and `feedAll` goes on from there.
-/

namespace TrafficSteering

/-- A part of the stream: bytes, or the end of the connection by a fault. -/
inductive Chunk where
  | data (bytes : List UInt8)
  | failure
  deriving DecidableEq, Repr

/-- How a session ends. -/
inductive SessionEnd where
  /-- The client has sent everything. -/
  | closed
  | failed
  deriving DecidableEq, Repr

/-- A session between two bytes. -/
structure Session where
  /-- The bytes that the present read has so far. -/
  buffer : List UInt8 := []
  /-- Whether the line is too long, and the rest of it is passed over. -/
  discarding : Bool := false
  deriving DecidableEq, Repr

namespace Session

/-- The most bytes of a single read. -/
def maxRead : Nat := 256

/-- The byte that ends a line. -/
def newline : UInt8 := 10

/-- The bytes of a chunk up to and with its first newline, if there is room for so many. -/
def upToNewline : Nat → List UInt8 → List UInt8
  | 0, _ => []
  | _ + 1, [] => []
  | room + 1, byte :: bytes =>
    if byte = newline then [byte] else byte :: upToNewline room bytes

/-- The next bytes of a stream, up to and with its first newline, if there is room for so many, and
the stream behind them.  There is none if the connection is lost first. -/
def read (room : Nat) : List Chunk → Option (List UInt8 × List Chunk)
  | [] => some ([], [])
  | .failure :: rest => if room = 0 then some ([], .failure :: rest) else none
  | .data bytes :: rest =>
    let taken := upToNewline room bytes
    if taken.length = room ∨ taken.getLast? = some newline then
      some (taken, .data (bytes.drop taken.length) :: rest)
    else do
      let (more, rest) ← read (room - bytes.length) rest
      some (bytes ++ more, rest)

/-- The command in the bytes of a line. -/
def commandOf? (line : List UInt8) : Option Command :=
  Command.ofString? (String.ofList (Text.decode line))

/-- What becomes of the bytes of a read: whether what follows them is passed over, and the command
that they hold. -/
def endRead (discarding : Bool) (line : List UInt8) : Bool × Option Command :=
  let complete := line.getLast? = some newline
  if discarding then (!complete, none)
  else if !complete ∧ line.length = maxRead then (true, none)
  else (false, commandOf? line)

/-- The number of bytes in a stream. -/
def size : List Chunk → Nat
  | [] => 0
  | .data bytes :: rest => bytes.length + size rest
  | .failure :: rest => size rest

theorem length_upToNewline_le (room : Nat) (bytes : List UInt8) :
    (upToNewline room bytes).length ≤ bytes.length := by
  induction room, bytes using upToNewline.induct with
  | case1 => exact Nat.zero_le _
  | case2 => exact Nat.le_refl _
  | case3 => simp [upToNewline]
  | case4 room byte bytes hother ih => simpa [upToNewline, hother] using ih

/-- What is read and what is left make up the stream. -/
theorem size_of_read {room : Nat} {chunks rest : List Chunk} {line : List UInt8}
    (h : read room chunks = some (line, rest)) : line.length + size rest = size chunks := by
  induction chunks generalizing room line with
  | nil => cases h; rfl
  | cons chunk chunks ih =>
    cases chunk with
    | failure =>
      rw [read] at h
      split at h
      · cases h; simp [size]
      · cases h
    | data bytes =>
      have hshort := length_upToNewline_le room bytes
      rw [read] at h
      split at h
      · cases h; simp [size]; omega
      · obtain ⟨⟨more, left⟩, hmore, he⟩ := Option.bind_eq_some_iff.1 h
        cases he
        have hbehind := ih hmore
        simp only [size, List.length_append] at hbehind ⊢
        omega

/-- The commands of a stream from here on, and how it ends. -/
def serveFrom (discarding : Bool) (chunks : List Chunk) : List Command × SessionEnd :=
  match _h : read maxRead chunks with
  | none => ([], .failed)
  | some ([], _) => ([], .closed)
  | some (byte :: bytes, rest) =>
    let (discarding, command) := endRead discarding (byte :: bytes)
    let (commands, ending) := serveFrom discarding rest
    (command.toList ++ commands, ending)
termination_by size chunks
decreasing_by
  have hwhole := size_of_read _h
  rw [List.length_cons] at hwhole
  omega

/-- The commands of a whole stream, and how it ends. -/
def serve (chunks : List Chunk) : List Command × SessionEnd := serveFrom false chunks

/-- Takes in one byte, and returns the command of the line it ends, if it does and there is one. -/
def feed (session : Session) (byte : UInt8) : Session × Option Command :=
  let line := session.buffer ++ [byte]
  if byte = newline ∨ line.length = maxRead then
    let (discarding, command) := endRead session.discarding line
    ({ discarding }, command)
  else ({ session with buffer := line }, none)

/-- Takes in bytes, and returns the commands of the lines they end. -/
def feedAll (session : Session) : List UInt8 → Session × List Command
  | [] => (session, [])
  | byte :: rest =>
    let (session, command) := session.feed byte
    let (session, commands) := session.feedAll rest
    (session, command.toList ++ commands)

/-- The command of the line that the end of the stream leaves open. -/
def finish? (session : Session) : Option Command := (endRead session.discarding session.buffer).2

end Session

end TrafficSteering
