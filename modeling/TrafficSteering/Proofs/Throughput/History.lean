import TrafficSteering.Proofs.Throughput.Table
set_option autoImplicit false

/-!
# A table as its history

The slots of a table were reset by the latest call that made it follow other candidates than it did
at the time.  Each of them holds the last value other than zero that has been recorded at its place
since then, for the candidates that the table follows.  A recording that is refused leaves no
trace, and of several slots with the highest value the first is the best.

Lists of calls have the last call first.
-/

namespace TrafficSteering.ThroughputTable

/-! ## Resets -/

/-- A call, made after others, makes the table follow other candidates. -/
def Resets (before : List Call) : Call → Prop
  | .align generation size => (replay before).follows ≠ (generation, size)
  | _ => False

/-- None of some calls, made after others, makes the table follow other candidates. -/
def Keeps (before : List Call) : List Call → Prop
  | [] => True
  | call :: since => ¬ Resets (since ++ before) call ∧ Keeps before since

instance decidableResets (before : List Call) : DecidablePred (Resets before)
  | .align generation size =>
    inferInstanceAs (Decidable ((replay before).follows ≠ (generation, size)))
  | .record .. | .get _ | .best | .samples => inferInstanceAs (Decidable False)

instance decidableKeeps (before : List Call) : DecidablePred (Keeps before)
  | [] => inferInstanceAs (Decidable True)
  | call :: since =>
    have := decidableKeeps before since
    inferInstanceAs (Decidable (¬ Resets (since ++ before) call ∧ Keeps before since))

/-- The latest reset among some calls, with the calls since then and those before. -/
structure LastReset (calls since : List Call) (generation size : Nat) (before : List Call) :
    Prop where
  split : calls = since ++ .align generation size :: before
  resets : Resets before (.align generation size)
  keeps : Keeps (.align generation size :: before) since

/-- What a call records at a place for candidates of a generation.  A zero does not count. -/
def Call.recorded? (generation index : Nat) : Call → Option UInt32
  | .record other place kbps =>
    if other = generation ∧ place = index ∧ kbps ≠ 0 then some kbps else none
  | _ => none

variable {table : ThroughputTable} {calls since before : List Call} {generation size : Nat}

/-- As long as nothing resets the slots, the table follows the same candidates. -/
theorem Keeps.follows (h : Keeps before since) :
    (replay (since ++ before)).follows = (replay before).follows := by
  induction since with
  | nil => rfl
  | cons call since ih =>
    obtain ⟨hcall, hsince⟩ := h
    rw [← ih hsince]
    cases call with
    | align generation size => exact (follows_align _ _ _).trans (not_not.mp hcall).symm
    | record generation index kbps => exact follows_record _ _ _ _
    | get | best | samples => rfl

/-- As long as nothing resets the slots, each holds the last value recorded at its place, or what it
held before. -/
theorem Keeps.get? (h : Keeps before since) (index : Nat) :
    (replay (since ++ before)).get? index = ((replay before).get? index).map fun old =>
      (since.findSome? (Call.recorded? (replay before).generation index)).getD old := by
  induction since with
  | nil => simp
  | cons call since ih =>
    obtain ⟨hcall, hsince⟩ := h
    cases call with
    | align generation size =>
      have hsame : (replay (since ++ before)).align generation size = replay (since ++ before) :=
        align_eq_self (not_not.mp hcall)
      show ((replay (since ++ before)).align generation size).get? index = _
      rw [hsame, ih hsince]
      rfl
    | record generation place kbps =>
      have hgeneration : (replay (since ++ before)).generation = (replay before).generation :=
        congrArg Prod.fst hsince.follows
      show ((replay (since ++ before)).record generation place kbps).1.get? index = _
      rw [get?_record, ih hsince, hgeneration, Option.map_map, List.findSome?_cons]
      congr 1
      funext old
      simp only [Function.comp_apply, Call.recorded?, eq_comm (a := (replay before).generation)]
      split <;> rfl
    | get | best | samples => exact ih hsince

/-- Some call was the latest to reset the slots, or none ever did. -/
theorem exists_lastReset (calls : List Call) :
    Keeps [] calls ∨ ∃ since generation size before,
      LastReset calls since generation size before := by
  induction calls with
  | nil => exact .inl trivial
  | cons call earlier ih =>
    by_cases hcall : Resets earlier call
    · cases call with
      | align generation size => exact .inr ⟨[], generation, size, earlier, rfl, hcall, trivial⟩
      | record | get | best | samples => exact hcall.elim
    · rcases ih with hnever | ⟨since, generation, size, before, rfl, hresets, hkeeps⟩
      · exact .inl ⟨by rwa [List.append_nil], hnever⟩
      · exact .inr ⟨call :: since, generation, size, before, rfl, hresets, hcall, hkeeps⟩

/-- Without a reset there are no slots. -/
theorem Keeps.replay_eq_new (h : Keeps [] calls) : replay calls = {} := by
  have hfollows := h.follows
  rw [List.append_nil] at hfollows
  obtain ⟨hgeneration, hlength⟩ := Prod.mk.inj hfollows
  cases htable : replay calls with
  | mk generation samples =>
    rw [htable] at hgeneration hlength
    obtain rfl : generation = 0 := hgeneration
    obtain rfl : samples = [] := List.eq_nil_of_length_eq_zero hlength
    rfl

/-- A reset sets all slots to zero. -/
theorem replay_of_resets (h : Resets before (.align generation size)) :
    replay (.align generation size :: before) = ⟨generation, List.replicate size 0⟩ :=
  align_eq_zeros h

namespace LastReset

theorem follows (h : LastReset calls since generation size before) :
    (replay calls).follows = (generation, size) := by
  rw [h.split, h.keeps.follows]
  exact follows_align _ _ _

theorem get? (h : LastReset calls since generation size before) (index : Nat) :
    (replay calls).get? index =
      if index < size then some ((since.findSome? (Call.recorded? generation index)).getD 0)
      else none := by
  rw [h.split, h.keeps.get?, replay_of_resets h.resets]
  by_cases hindex : index < size <;> simp [ThroughputTable.get?, hindex]

end LastReset

/-! ## Recording -/

/-- A recording is taken for the candidates that the table follows, and changes nothing
otherwise. -/
theorem record_cases (table : ThroughputTable) (generation index : Nat) (kbps : UInt32) :
    (table.generation = generation ∧ index < table.samples.length ∧
      ∃ kept, (table.record generation index kbps).2 = some kept ∧
        (table.record generation index kbps).1.get? index = some kept) ∨
    (¬ (table.generation = generation ∧ index < table.samples.length) ∧
      table.record generation index kbps = (table, none)) := by
  by_cases hgeneration : table.generation = generation
  · cases hslot : table.get? index with
    | some old =>
      obtain ⟨hindex, -⟩ := List.getElem?_eq_some_iff.mp hslot
      refine .inl ⟨hgeneration, hindex, _, record_answer table hslot hgeneration kbps, ?_⟩
      rw [get?_record, hslot]
      by_cases hzero : kbps = 0 <;> simp [hgeneration, hzero]
    | none =>
      have hindex := List.getElem?_eq_none_iff.mp hslot
      refine .inr ⟨fun htaken => Nat.not_lt.mpr hindex htaken.2, ?_⟩
      simp only [record, hgeneration, if_true, hslot]
  · refine .inr ⟨fun htaken => hgeneration htaken.1, ?_⟩
    rw [record, if_neg hgeneration]

/-! ## The best slot -/

theorem IsBest.unique {samples : List UInt32} {index place : Nat} {kbps most : UInt32}
    (h : IsBest samples index kbps) (hother : IsBest samples place most) :
    index = place ∧ kbps = most := by
  rcases Nat.lt_trichotomy index place with hlt | rfl | hgt
  · have hless := hother.first index kbps hlt h.slot
    exact absurd hless (UInt32.not_lt.mpr (h.most place most hother.slot))
  · exact ⟨rfl, Option.some.inj (h.slot.symm.trans hother.slot)⟩
  · have hless := h.first place most hgt hother.slot
    exact absurd hless (UInt32.not_lt.mpr (hother.most index kbps h.slot))

theorem best?_eq_none_iff : table.best? = none ↔ table.samples = [] := by
  constructor
  · intro hnone
    by_contra hslots
    obtain ⟨index, kbps, hbest, _⟩ := best?_isBest hslots
    rw [hnone] at hbest
    cases hbest
  · intro hnil
    rw [best?, hnil, bestFrom]

theorem best?_eq_some_iff {index : Nat} {kbps : UInt32} :
    table.best? = some (index, kbps) ↔ IsBest table.samples index kbps := by
  by_cases hslots : table.samples = []
  · rw [best?_eq_none_iff.mpr hslots, hslots]
    constructor
    · exact nofun
    · intro h
      simpa using h.slot
  · obtain ⟨place, most, hbest, his⟩ := best?_isBest hslots
    rw [hbest, Option.some.injEq, Prod.mk.injEq]
    constructor
    · rintro ⟨rfl, rfl⟩
      exact his
    · exact his.unique

/-! ## The whole -/

/-- After any calls to a new table: it has as many slots as the last align asked for; they have
never been reset, and then there are none, or there is a latest reset, and then each slot holds the
last value other than zero that was recorded at its place since.  A recording is taken exactly for
a slot of the candidates followed, and changes nothing otherwise; and the best slot is the first of
the highest ones. -/
theorem replay_recounts (calls : List Call) :
    (replay calls).samples.length = (followed calls).2 ∧
    ((Keeps [] calls ∧ replay calls = {}) ∨
      ∃ since generation size before, LastReset calls since generation size before) ∧
    (∀ since generation size before, LastReset calls since generation size before →
      replay (.align generation size :: before) = ⟨generation, List.replicate size 0⟩ ∧
      (replay calls).follows = (generation, size) ∧
      ∀ index, (replay calls).get? index =
        if index < size then some ((since.findSome? (Call.recorded? generation index)).getD 0)
        else none) ∧
    (∀ generation index kbps,
      ((replay calls).generation = generation ∧ index < (replay calls).samples.length ∧
        ∃ kept, ((replay calls).record generation index kbps).2 = some kept ∧
          ((replay calls).record generation index kbps).1.get? index = some kept) ∨
      (¬ ((replay calls).generation = generation ∧ index < (replay calls).samples.length) ∧
        (replay calls).record generation index kbps = (replay calls, none))) ∧
    ((replay calls).best? = none ↔ (replay calls).samples = []) ∧
    ∀ index kbps, (replay calls).best? = some (index, kbps) ↔
      IsBest (replay calls).samples index kbps := by
  refine ⟨congrArg Prod.snd (follows_replay calls), ?_, ?_, record_cases (replay calls),
    best?_eq_none_iff, fun _ _ => best?_eq_some_iff⟩
  · exact (exists_lastReset calls).imp_left fun hnever => ⟨hnever, hnever.replay_eq_new⟩
  · intro since generation size before h
    exact ⟨replay_of_resets h.resets, h.follows, h.get?⟩

/-- Calls with a reset, a recording for candidates that are gone, an alignment that changes nothing
and a zero. -/
def eventful : List Call :=
  [.record 2 1 300, .record 1 0 50, .align 2 3, .record 2 0 0, .record 2 0 700, .align 2 3,
    .record 1 1 900, .align 1 2]

theorem replay_recounts_eventful :
    LastReset eventful (eventful.take 5) 2 3 (eventful.drop 6) ∧
    (replay eventful).follows = (2, 3) ∧ (replay eventful).get? 0 = some 700 ∧
    (replay eventful).get? 1 = some 300 ∧ (replay eventful).get? 2 = some 0 ∧
    IsBest (replay eventful).samples 0 700 := by
  have hreset : LastReset eventful (eventful.take 5) 2 3 (eventful.drop 6) :=
    ⟨rfl, by decide, by decide⟩
  obtain ⟨_, _, hslots, _, _, hbest⟩ := replay_recounts eventful
  obtain ⟨_, hfollows, hslot⟩ := hslots _ _ _ _ hreset
  exact ⟨hreset, hfollows, hslot 0, hslot 1, hslot 2, (hbest 0 700).mp (by decide)⟩

end TrafficSteering.ThroughputTable
