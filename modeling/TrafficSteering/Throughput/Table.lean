set_option autoImplicit false

/-!
# The throughput table

One slot for each candidate path, aligned with one generation of candidates.  A sample of zero means
that the switch has not reported yet, so it never takes the place of a value recorded before.
-/

namespace TrafficSteering

/-- The last throughput of each candidate in kilobits per second. -/
structure ThroughputTable where
  generation : Nat := 0
  samples : List UInt32 := []
  deriving DecidableEq, Repr

namespace ThroughputTable

/-- Makes the table follow a number of candidates of a generation.  The slots are kept if both
match already, and start from zero otherwise. -/
def align (table : ThroughputTable) (generation size : Nat) : ThroughputTable :=
  if table.generation = generation ∧ table.samples.length = size then table
  else ⟨generation, List.replicate size 0⟩

def get? (table : ThroughputTable) (index : Nat) : Option UInt32 := table.samples[index]?

/-- Records a sample, and returns what the slot then holds.  Nothing is recorded for another
generation or a place that is not there. -/
def record (table : ThroughputTable) (generation index : Nat) (kbps : UInt32) :
    ThroughputTable × Option UInt32 :=
  if table.generation = generation then
    match table.get? index with
    | some old =>
      let kept := if kbps = 0 then old else kbps
      ({ table with samples := table.samples.set index kept }, some kept)
    | none => (table, none)
  else (table, none)

/-- The better of the best slot so far and the slot at a place.  A tie goes to the slot that came
first. -/
def better (best : Option (Nat × UInt32)) (index : Nat) (kbps : UInt32) : Option (Nat × UInt32) :=
  match best with
  | none => some (index, kbps)
  | some (_, most) => if most < kbps then some (index, kbps) else best

/-- The best of a slot found so far and the slots from a place on. -/
def bestFrom (best : Option (Nat × UInt32)) (index : Nat) : List UInt32 → Option (Nat × UInt32)
  | [] => best
  | kbps :: rest => bestFrom (better best index kbps) (index + 1) rest

/-- The first slot with the highest value, and the value. -/
def best? (table : ThroughputTable) : Option (Nat × UInt32) := bestFrom none 0 table.samples

/-! ## Calls -/

/-- What can be asked of a table. -/
inductive Call where
  | align (generation size : Nat)
  | record (generation index : Nat) (kbps : UInt32)
  | get (index : Nat)
  | best
  | samples
  deriving DecidableEq, Repr

/-- What a table answers. -/
inductive Answer where
  | nothing
  | slot (kbps : Option UInt32)
  | best (slot : Option (Nat × UInt32))
  | samples (all : List UInt32)
  deriving DecidableEq, Repr

/-- Does what is asked for. -/
def perform (table : ThroughputTable) : Call → ThroughputTable × Answer
  | .align generation size => (table.align generation size, .nothing)
  | .record generation index kbps =>
    let (table, kept) := table.record generation index kbps
    (table, .slot kept)
  | .get index => (table, .slot (table.get? index))
  | .best => (table, .best table.best?)
  | .samples => (table, .samples table.samples)

end ThroughputTable

end TrafficSteering
