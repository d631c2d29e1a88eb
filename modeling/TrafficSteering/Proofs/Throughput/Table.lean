import Mathlib.Data.List.Basic
import TrafficSteering.Throughput.Recorder
set_option autoImplicit false

/-!
# What a slot holds

A table is what the calls to it have made of it.  A slot holds the last sample other than zero that
was recorded at its place since the table was last made to follow other candidates, and zero if
there is none.  Candidates are told apart by their generation and their number only.

Lists of calls have the last call first.
-/

namespace TrafficSteering

namespace ThroughputTable

/-- The table after some calls. -/
def replay : List Call → ThroughputTable
  | [] => {}
  | call :: earlier => ((replay earlier).perform call).1

/-- The generation and the number of the candidates that a table follows. -/
def follows (table : ThroughputTable) : Nat × Nat := (table.generation, table.samples.length)

/-- The generation and the number of the candidates that a table follows after some calls. -/
def followed : List Call → Nat × Nat
  | [] => (0, 0)
  | .align generation size :: _ => (generation, size)
  | _ :: earlier => followed earlier

/-- Whether a call only asks for something. -/
def Call.isQuestion : Call → Bool
  | .align .. | .record .. => false
  | .get _ | .best | .samples => true

/-- The last sample other than zero that some calls have left at a place, for candidates of a
generation and a number. -/
def lastSample (generation size index : Nat) : List Call → UInt32
  | [] => 0
  | .align other count :: earlier =>
    if (other, count) = (generation, size) then lastSample generation size index earlier else 0
  | .record other place kbps :: earlier =>
    if followed earlier = (generation, size) ∧ other = generation ∧ place = index ∧ kbps ≠ 0 then
      kbps
    else lastSample generation size index earlier
  | _ :: earlier => lastSample generation size index earlier

variable {table : ThroughputTable} {generation size index : Nat}

theorem align_eq_self (h : table.follows = (generation, size)) :
    table.align generation size = table := by
  obtain ⟨hgeneration, hsize⟩ := Prod.mk.inj h
  exact if_pos ⟨hgeneration, hsize⟩

theorem align_eq_zeros (h : table.follows ≠ (generation, size)) :
    table.align generation size = ⟨generation, List.replicate size 0⟩ :=
  if_neg fun heq => h (Prod.ext heq.1 heq.2)

theorem follows_align (table : ThroughputTable) (generation size : Nat) :
    (table.align generation size).follows = (generation, size) := by
  by_cases h : table.follows = (generation, size)
  · rw [align_eq_self h, h]
  · simp [align_eq_zeros h, follows]

theorem follows_record (table : ThroughputTable) (generation index : Nat) (kbps : UInt32) :
    (table.record generation index kbps).1.follows = table.follows := by
  unfold record
  split
  · split
    · simp [follows]
    · rfl
  · rfl

/-- What a slot holds after a sample has been recorded at some place. -/
theorem get?_record (table : ThroughputTable) (generation place index : Nat) (kbps : UInt32) :
    (table.record generation place kbps).1.get? index =
      (table.get? index).map fun old =>
        if table.generation = generation ∧ place = index ∧ kbps ≠ 0 then kbps else old := by
  unfold record
  by_cases hgeneration : table.generation = generation
  · rw [if_pos hgeneration]
    cases hold : table.get? place with
    | none =>
      by_cases hplace : place = index
      · subst hplace
        simp [hold]
      · simp [hplace]
    | some old =>
      simp only [get?, List.getElem?_set] at hold ⊢
      by_cases hplace : place = index
      · subst hplace
        obtain ⟨hlt, hvalue⟩ := List.getElem?_eq_some_iff.mp hold
        by_cases hzero : kbps = 0 <;> simp [hgeneration, hlt, hvalue, hzero]
      · simp [hplace]
  · simp [hgeneration]

theorem follows_replay (calls : List Call) : (replay calls).follows = followed calls := by
  induction calls with
  | nil => rfl
  | cons call earlier ih =>
    cases call with
    | align generation size => exact follows_align _ _ _
    | record generation index kbps => exact (follows_record _ _ _ _).trans ih
    | get | best | samples => exact ih

/-- A slot of candidates that others took the place of is zero. -/
theorem get?_align_of_ne (h : table.follows ≠ (generation, size)) (hindex : index < size) :
    (table.align generation size).get? index = some 0 := by
  simp [align_eq_zeros h, get?, hindex]

theorem lastSample_of_ne {calls : List Call} (h : followed calls ≠ (generation, size)) :
    lastSample generation size index calls = 0 := by
  induction calls with
  | nil => rfl
  | cons call earlier ih =>
    cases call with
    | align other count => exact if_neg h
    | record other place kbps =>
      have hskipped : ¬ (followed earlier = (generation, size) ∧ other = generation ∧
          place = index ∧ kbps ≠ 0) := fun hcond => h hcond.1
      exact (if_neg hskipped).trans (ih h)
    | get | best | samples => exact ih h

/-- The slots of candidates, as the calls before have left them. -/
theorem get?_align_replay (generation : Nat) (hindex : index < size) (calls : List Call) :
    ((replay calls).align generation size).get? index =
      some (lastSample generation size index calls) := by
  induction calls with
  | nil =>
    have hother : followed [] ≠ (generation, size) := by
      intro heq
      obtain ⟨_, rfl⟩ := Prod.mk.inj heq
      exact Nat.not_lt_zero index hindex
    rw [get?_align_of_ne (by rw [follows_replay]; exact hother) hindex, lastSample_of_ne hother]
  | cons call earlier ih =>
    by_cases hfollowed : followed (call :: earlier) = (generation, size)
    · rw [align_eq_self ((follows_replay _).trans hfollowed)]
      cases call with
      | align other count =>
        obtain ⟨rfl, rfl⟩ := Prod.mk.inj hfollowed
        exact ih.trans (congrArg some (if_pos rfl).symm)
      | record other place kbps =>
        have hsame := (follows_replay earlier).trans hfollowed
        rw [align_eq_self hsame] at ih
        show ((replay earlier).record other place kbps).1.get? index = _
        rw [get?_record, ih, (Prod.mk.inj hsame).1]
        simp only [Option.map_some, lastSample, show followed earlier = (generation, size) from
          hfollowed, true_and, eq_comm]
      | get | best | samples =>
        rw [align_eq_self ((follows_replay earlier).trans hfollowed)] at ih
        exact ih
    · rw [get?_align_of_ne (by rw [follows_replay]; exact hfollowed) hindex,
        lastSample_of_ne hfollowed]

/-- What a table answers to a recording at a place of the candidates that it follows. -/
theorem record_answer (table : ThroughputTable) {old : UInt32} (h : table.get? index = some old)
    (hgeneration : table.generation = generation) (kbps : UInt32) :
    (table.record generation index kbps).2 = some (if kbps = 0 then old else kbps) := by
  simp only [record, hgeneration, if_true, h]

/-! ## The best slot -/

/-- The first of the slots that none exceeds. -/
structure IsBest (samples : List UInt32) (index : Nat) (kbps : UInt32) : Prop where
  slot : samples[index]? = some kbps
  most : ∀ (other : Nat) (value : UInt32), samples[other]? = some value → value ≤ kbps
  first : ∀ (other : Nat) (value : UInt32), other < index → samples[other]? = some value →
    value < kbps

theorem isBest_singleton (kbps : UInt32) : IsBest [kbps] 0 kbps where
  slot := rfl
  most := by
    intro other value hvalue
    obtain rfl : value = kbps := by simpa using List.mem_of_getElem? hvalue
    exact UInt32.le_refl value
  first := fun other _ hother => absurd hother (Nat.not_lt_zero other)

/-- One more slot is the best if it exceeds the best so far, and changes nothing otherwise. -/
theorem IsBest.better {samples : List UInt32} {kbps : UInt32} (h : IsBest samples index kbps)
    (new : UInt32) : ∃ place most, ThroughputTable.better (some (index, kbps)) samples.length new =
      some (place, most) ∧ IsBest (samples ++ [new]) place most := by
  -- a slot of the longer list is one of the slots before, or the new one
  have hcases : ∀ {other : Nat} {value : UInt32}, (samples ++ [new])[other]? = some value →
      samples[other]? = some value ∨ other = samples.length ∧ new = value := by
    intro other value hvalue
    rcases Nat.lt_or_ge other samples.length with hlt | hge
    · exact .inl (by rwa [List.getElem?_append_left hlt] at hvalue)
    · rw [List.getElem?_append_right hge] at hvalue
      obtain ⟨hlast, hvalue⟩ := List.getElem?_eq_some_iff.mp hvalue
      simp only [List.length_singleton, List.getElem_singleton] at hlast hvalue
      exact .inr ⟨by omega, hvalue⟩
  obtain ⟨hindex, -⟩ := List.getElem?_eq_some_iff.mp h.slot
  by_cases hless : kbps < new
  · refine ⟨samples.length, new, if_pos hless, ⟨by simp, ?_, ?_⟩⟩
    · intro other value hvalue
      rcases hcases hvalue with hbefore | ⟨_, rfl⟩
      · exact UInt32.le_of_lt (UInt32.lt_of_le_of_lt (h.most other value hbefore) hless)
      · exact UInt32.le_refl new
    · intro other value hother hvalue
      rcases hcases hvalue with hbefore | ⟨rfl, _⟩
      · exact UInt32.lt_of_le_of_lt (h.most other value hbefore) hless
      · exact absurd hother (Nat.lt_irrefl _)
  · refine ⟨index, kbps, if_neg hless, ⟨?_, ?_, ?_⟩⟩
    · rw [List.getElem?_append_left hindex, h.slot]
    · intro other value hvalue
      rcases hcases hvalue with hbefore | ⟨_, rfl⟩
      · exact h.most other value hbefore
      · exact UInt32.not_lt.mp hless
    · intro other value hother hvalue
      rcases hcases hvalue with hbefore | ⟨rfl, _⟩
      · exact h.first other value hother hbefore
      · exact absurd (Nat.lt_trans hother hindex) (Nat.lt_irrefl _)

theorem IsBest.bestFrom {samples : List UInt32} {kbps : UInt32} (h : IsBest samples index kbps)
    (rest : List UInt32) :
    ∃ place most, ThroughputTable.bestFrom (some (index, kbps)) samples.length rest =
      some (place, most) ∧ IsBest (samples ++ rest) place most := by
  induction rest generalizing samples index kbps with
  | nil => exact ⟨index, kbps, rfl, by rwa [List.append_nil]⟩
  | cons new rest ih =>
    obtain ⟨place, most, hbetter, hbest⟩ := h.better new
    obtain ⟨last, value, hlast, hall⟩ := ih hbest
    refine ⟨last, value, ?_, ?_⟩
    · rw [List.length_append, List.length_singleton] at hlast
      rw [ThroughputTable.bestFrom, hbetter, hlast]
    · rwa [List.append_assoc] at hall

/-- A table with slots has a best one. -/
theorem best?_isBest (h : table.samples ≠ []) :
    ∃ index kbps, table.best? = some (index, kbps) ∧ IsBest table.samples index kbps := by
  obtain ⟨first, rest, hsamples⟩ := List.exists_cons_of_ne_nil h
  obtain ⟨index, kbps, hbest, his⟩ := (isBest_singleton first).bestFrom rest
  refine ⟨index, kbps, ?_, by rwa [hsamples]⟩
  rw [best?, hsamples]
  exact hbest

end ThroughputTable

namespace Recorder

/-- What a slot holds after a sample, if there is one. -/
def kept (old : UInt32) : Option UInt32 → UInt32
  | some kbps => if kbps = 0 then old else kbps
  | none => old

/-- The calls that a measurement makes to the table, the last one first. -/
def callsOf (sample : Option UInt32) (generation size index : Nat) : List ThroughputTable.Call :=
  match sample with
  | some kbps => [.record generation index kbps, .align generation size]
  | none => []

variable {recorder : Recorder} {graph : Graph} {paths : List Path} {generation index : Nat}

/-- A measurement does to the table what its calls do, and leaves telemetry alone. -/
theorem measure_table {calls : List ThroughputTable.Call}
    (h : recorder.table = ThroughputTable.replay calls) (graph : Graph) (generation : Nat)
    (paths : List Path) (index : Nat) :
    (recorder.measure graph generation paths index).1.table = ThroughputTable.replay
      (callsOf (paths[index]?.bind (recorder.telemetry.sample? graph)) generation paths.length index
        ++ calls) := by
  unfold measure
  cases hsample : paths[index]?.bind (recorder.telemetry.sample? graph) with
  | none => exact h
  | some kbps =>
    simp only [callsOf, List.cons_append, List.nil_append, ThroughputTable.replay,
      ThroughputTable.perform, ← h]
    split <;> simp_all

/-- A measurement answers with the present sample, and in the place of a zero with what the slot
holds. -/
theorem measure_answer {calls : List ThroughputTable.Call}
    (h : recorder.table = ThroughputTable.replay calls) (generation : Nat) {path : Path}
    (hpath : paths[index]? = some path) {kbps : UInt32}
    (hsample : recorder.telemetry.sample? graph path = some kbps) :
    (recorder.measure graph generation paths index).2 = some (if kbps = 0 then
      ThroughputTable.lastSample generation paths.length index calls else kbps) := by
  have hindex := (List.getElem?_eq_some_iff.mp hpath).1
  have hslot := ThroughputTable.get?_align_replay generation hindex calls
  rw [← h] at hslot
  have hgeneration : (recorder.table.align generation paths.length).generation = generation :=
    (Prod.mk.inj (ThroughputTable.follows_align recorder.table generation paths.length)).1
  have hrecorded := ThroughputTable.record_answer _ hslot hgeneration kbps
  unfold measure
  simp only [hpath, Option.bind_some, hsample, hrecorded]

/-- What is answered is an answer for a path that has a sample. -/
theorem measure_answer_eq_some {calls : List ThroughputTable.Call}
    (h : recorder.table = ThroughputTable.replay calls) {value : UInt32}
    (hvalue : (recorder.measure graph generation paths index).2 = some value) :
    ∃ path kbps, paths[index]? = some path ∧ recorder.telemetry.sample? graph path = some kbps ∧
      value = if kbps = 0 then
        ThroughputTable.lastSample generation paths.length index calls else kbps := by
  cases hsample : paths[index]?.bind (recorder.telemetry.sample? graph) with
  | none =>
    unfold measure at hvalue
    simp [hsample] at hvalue
  | some kbps =>
    obtain ⟨path, hpath, hkbps⟩ := Option.bind_eq_some_iff.mp hsample
    have hanswer := measure_answer h generation hpath hkbps
    exact ⟨path, kbps, hpath, hkbps, Option.some.inj (hvalue.symm.trans hanswer)⟩

/-- A measurement changes the slot of its candidate, if the table follows the candidates. -/
theorem measure_slot (h : recorder.table.follows = (generation, paths.length)) {path : Path}
    (hpath : paths[index]? = some path) {old : UInt32} (hold : recorder.table.get? index = some old)
    (graph : Graph) :
    (recorder.measure graph generation paths index).1.table =
        ⟨generation, recorder.table.samples.set index
          (kept old (recorder.telemetry.sample? graph path))⟩ ∧
      (recorder.measure graph generation paths index).1.telemetry = recorder.telemetry := by
  have hgeneration : recorder.table.generation = generation := congrArg Prod.fst h
  unfold measure
  simp only [hpath, Option.bind_some]
  cases recorder.telemetry.sample? graph path with
  | none =>
    obtain ⟨hindex, rfl⟩ := List.getElem?_eq_some_iff.mp hold
    refine ⟨?_, rfl⟩
    rw [kept, List.set_getElem_self, ← hgeneration]
  | some kbps =>
    simp only [ThroughputTable.align_eq_self h, ThroughputTable.record, hgeneration, if_true, hold,
      kept, and_self]

end Recorder

end TrafficSteering
