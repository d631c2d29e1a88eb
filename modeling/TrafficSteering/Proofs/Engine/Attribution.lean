import TrafficSteering.Proofs.Engine.Reachable
import TrafficSteering.Proofs.Throughput.Table
set_option autoImplicit false

/-!
# Whose throughput is measured

A measurement answers with the present sample of a path.  In the place of a zero it answers with
what the slot of the path holds.  The table tells candidates apart by generation, number and place,
so the slot may hold a sample of another path, and a sample of the path itself may be gone.  It
holds the last sample of the path as long as the table is used for the same candidates only.
-/

namespace TrafficSteering

/-- The present sample of the candidate that is measured. -/
def Measurement.sample? (measurement : Measurement) (found : Moment) : Option UInt32 :=
  measurement.paths[measurement.index]?.bind
    (found.recorder.telemetry.sample? measurement.graph)

namespace Entry

/-- The calls that the engine made to its table, the last one first. -/
def calls (entry : Entry) : List ThroughputTable.Call :=
  match entry.occurrence with
  | .tookUp _ probe => [.align probe.generation probe.paths.length]
  | .measured measurement =>
    Recorder.callsOf (measurement.sample? entry.found) measurement.generation
      measurement.paths.length measurement.index
  | .called call => [call]
  | _ => []

/-- The sample that was taken of a path on the graph of a generation, if one was. -/
def sampleOf? (generation : Nat) (path : Path) (entry : Entry) : Option UInt32 :=
  match entry.occurrence with
  | .measured measurement =>
    if measurement.generation = generation ∧
        measurement.paths[measurement.index]? = some path then
      measurement.sample? entry.found
    else none
  | _ => none

/-- The table was used for the given candidates, if it was used at all. -/
def Concerns (generation : Nat) (paths : List Path) (entry : Entry) : Prop :=
  match entry.occurrence with
  | .tookUp _ probe => probe.generation = generation ∧ probe.paths = paths
  | .measured measurement => measurement.generation = generation ∧ measurement.paths = paths
  | .called call => call.isQuestion = true
  | _ => True

instance (generation : Nat) (paths : List Path) (entry : Entry) :
    Decidable (entry.Concerns generation paths) :=
  match entry with
  | ⟨_, .tookUp _ probe⟩ =>
    inferInstanceAs (Decidable (probe.generation = generation ∧ probe.paths = paths))
  | ⟨_, .measured measurement⟩ =>
    inferInstanceAs (Decidable (measurement.generation = generation ∧ measurement.paths = paths))
  | ⟨_, .called call⟩ => inferInstanceAs (Decidable (call.isQuestion = true))
  | ⟨_, .interjected _⟩ | ⟨_, .computed _⟩ | ⟨_, .offered _⟩ => inferInstanceAs (Decidable True)

end Entry

/-- The last sample other than zero that was taken of a path on the graph of a generation. -/
def lastSampleOf (generation : Nat) (path : Path) : List Entry → UInt32
  | [] => 0
  | entry :: earlier =>
    match entry.sampleOf? generation path with
    | some kbps => if kbps = 0 then lastSampleOf generation path earlier else kbps
    | none => lastSampleOf generation path earlier

namespace Measurement

variable (measurement : Measurement) (earlier : List Entry)

/-- What the slot of the measured candidate holds after what the engine has done so far. -/
def slot : UInt32 :=
  ThroughputTable.lastSample measurement.generation measurement.paths.length measurement.index
    (earlier.flatMap Entry.calls)

/-- The value is that of the measured path itself: its present sample or, in the place of a zero,
the last other sample that was taken of the same path on the same graph. -/
def Attributed (found : Moment) (path : Path) : Prop :=
  ∃ sample, measurement.sample? found = some sample ∧
    measurement.answer = some (if sample = 0 then
      lastSampleOf measurement.generation path earlier else sample)

end Measurement

/-- A candidate is measured: the slot of a path takes the sample in if it is the path's own. -/
theorem lastSample_of_measured {measurement : Measurement} {found : Moment} {path : Path}
    {index : Nat} (hnodup : measurement.paths.Nodup)
    (hpath : measurement.paths[index]? = some path) {earlier : List Entry}
    (hearlier : ThroughputTable.lastSample measurement.generation measurement.paths.length index
      (earlier.flatMap Entry.calls) = lastSampleOf measurement.generation path earlier) :
    ThroughputTable.lastSample measurement.generation measurement.paths.length index
        ((⟨found, .measured measurement⟩ :: earlier).flatMap Entry.calls) =
      lastSampleOf measurement.generation path (⟨found, .measured measurement⟩ :: earlier) := by
  cases hsample : measurement.sample? found with
  | none =>
    simp only [List.flatMap_cons, Entry.calls, hsample, Recorder.callsOf, List.nil_append,
      lastSampleOf, Entry.sampleOf?, ite_self]
    exact hearlier
  | some kbps =>
    simp only [List.flatMap_cons, Entry.calls, hsample, Recorder.callsOf, List.cons_append,
      List.nil_append, ThroughputTable.lastSample, ThroughputTable.followed, true_and, if_true,
      lastSampleOf, Entry.sampleOf?]
    by_cases hplace : measurement.index = index
    · subst hplace
      by_cases hzero : kbps = 0
      · simp [hpath, hzero, hearlier]
      · simp [hpath, hzero]
    · -- Another place is another path.
      have hother : measurement.paths[measurement.index]? ≠ some path := by
        intro hsame
        obtain ⟨hlt, _⟩ := List.getElem?_eq_some_iff.mp hsame
        exact hplace ((List.getElem?_inj hlt hnodup).mp (hsame.trans hpath.symm))
      simp [hplace, hother, hearlier]

/-- While the table is used for the same candidates only, a slot keeps up with its path. -/
theorem lastSample_eq_lastSampleOf {generation index : Nat} {paths : List Path} {path : Path}
    (hnodup : paths.Nodup) (hpath : paths[index]? = some path) {recent old : List Entry}
    (hconcerns : ∀ entry ∈ recent, entry.Concerns generation paths)
    (hold : ThroughputTable.lastSample generation paths.length index (old.flatMap Entry.calls) =
      lastSampleOf generation path old) :
    ThroughputTable.lastSample generation paths.length index
        ((recent ++ old).flatMap Entry.calls) =
      lastSampleOf generation path (recent ++ old) := by
  induction recent with
  | nil => exact hold
  | cons entry rest ih =>
    have hrest := ih fun other hmem => hconcerns other (List.mem_cons_of_mem _ hmem)
    have hentry := hconcerns entry List.mem_cons_self
    obtain ⟨found, occurrence⟩ := entry
    cases occurrence with
    | interjected | computed | offered => exact hrest
    | tookUp number probe =>
      obtain ⟨rfl, rfl⟩ := hentry
      exact (if_pos rfl).trans hrest
    | called call =>
      cases call with
      | align | record => simp [Entry.Concerns, ThroughputTable.Call.isQuestion] at hentry
      | get | best | samples => exact hrest
    | measured measurement =>
      obtain ⟨rfl, rfl⟩ := hentry
      exact lastSample_of_measured hnodup hpath hrest

namespace Engine

variable {engine after : Engine}

/-- The table is what the history has made of it. -/
theorem Turn.table (hturn : Turn engine after)
    (h : engine.recorder.table = ThroughputTable.replay (engine.history.flatMap Entry.calls)) :
    after.recorder.table = ThroughputTable.replay (after.history.flatMap Entry.calls) := by
  cases hturn with
  | asked | arranged | grabbed | released | forced | unforced | triggered | tried | waited
  | decided | finished => exact h
  | interjected | computed | offered => exact h
  | tookUp number hprobe =>
    show engine.recorder.table.align _ _ = _
    rw [h]
    rfl
  | measured generation index hpaths => exact Recorder.measure_table h _ _ _ _
  | called call =>
    show (engine.recorder.table.perform call).1 = _
    rw [h]
    rfl

theorem Turns.table {settings : Settings} (hturns : Turns (idle settings) engine) :
    engine.recorder.table = ThroughputTable.replay (engine.history.flatMap Entry.calls) := by
  induction hturns with
  | refl => rfl
  | tail _ hturn ih => exact hturn.table ih

/-- Where a value is the sample or what the slot holds, it is that of the path exactly if the slot
is not asked or holds the last sample of the path. -/
theorem attributed_iff_of_recorded {measurement : Measurement} {earlier : List Entry}
    {found : Moment} (path : Path) {sample : UInt32}
    (hsample : measurement.sample? found = some sample)
    (hanswer : measurement.answer =
      some (if sample = 0 then measurement.slot earlier else sample)) :
    measurement.Attributed earlier found path ↔
      sample ≠ 0 ∨
        measurement.slot earlier = lastSampleOf measurement.generation path earlier := by
  unfold Measurement.Attributed
  simp only [hsample, hanswer, Option.some.injEq, exists_eq_left']
  by_cases hzero : sample = 0
  · simp [hzero]
  · simp [hzero]

/-- What a measurement answers.  In the place of a zero it is what the slot holds, so the value is
that of the measured path exactly if the sample is not zero or the slot holds the last sample of the
path.  The slot does if the table has been used for the same candidates only, always or since a
moment at which the slot did. -/
theorem Reachable.attributed_iff {storage : Storage} {settings : Settings}
    (h : Reachable storage settings engine) {later earlier : List Entry} {entry : Entry}
    (hhistory : engine.history = later ++ entry :: earlier) {measurement : Measurement}
    (hmeasured : entry.occurrence = .measured measurement) {value : UInt32}
    (hvalue : measurement.answer = some value) :
    ∃ path sample, measurement.paths[measurement.index]? = some path ∧
      measurement.sample? entry.found = some sample ∧
      value = (if sample = 0 then measurement.slot earlier else sample) ∧
      (measurement.Attributed earlier entry.found path ↔
        sample ≠ 0 ∨ measurement.slot earlier = lastSampleOf measurement.generation path earlier) ∧
      ∀ recent old, earlier = recent ++ old →
        measurement.slot old = lastSampleOf measurement.generation path old →
        (∀ other ∈ recent, other.Concerns measurement.generation measurement.paths) →
        measurement.Attributed earlier entry.found path := by
  obtain ⟨hturns, _, hfits⟩ := h.past hhistory
  rw [hmeasured] at hfits
  obtain ⟨⟨src, dst, hpaths⟩, hanswer⟩ := hfits
  obtain ⟨path, sample, hpath, hsample, hrecorded⟩ :=
    Recorder.measure_answer_eq_some hturns.table (hanswer.symm.trans hvalue)
  have htaken : measurement.sample? entry.found = some sample := by
    rw [Measurement.sample?, hpath]
    exact hsample
  have hiff := attributed_iff_of_recorded path htaken (hvalue.trans (congrArg some hrecorded))
  have hnodup : measurement.paths.Nodup := hpaths ▸ Graph.simplePaths_nodup _ src dst
  refine ⟨path, sample, hpath, htaken, hrecorded, hiff, ?_⟩
  rintro recent old rfl hold hconcerns
  exact hiff.mpr (.inr (lastSample_eq_lastSampleOf hnodup hpath hconcerns hold))

/-- What is done to an engine until it has measured the path from the second switch to the fourth
twice.  The port is silent at the second time. -/
def measuring : List Action :=
  [.start, .packet (packetBetween 2 4), .telemetry ⟨⟨2⟩, ⟨3⟩⟩ (some ⟨50000, 0⟩), .tick,
    .telemetry ⟨⟨2⟩, ⟨3⟩⟩ (some ⟨0, 0⟩), .tick]

/-- An engine that has measured the same path twice. -/
def measured : Engine := tangled.play measuring

/-- In the place of the zero stands the sample of the first time. -/
theorem attributed_iff_measured : ∃ entry earlier measurement,
    measured.history = entry :: earlier ∧ entry.occurrence = .measured measurement ∧
    measurement.sample? entry.found = some 0 ∧ measurement.answer = some 50 ∧
    measurement.Attributed earlier entry.found ⟨[⟨2⟩, ⟨4⟩]⟩ := by
  have hreach : Reachable ⟨[], []⟩ tangledSettings measured := tangled_reachable.play _
  have hhistory : measured.history = [] ++ measured.history.head (by decide) ::
      measured.history.tail := (List.cons_head_tail _).symm
  have hmeasured : (measured.history.head (by decide)).occurrence =
      .measured ⟨Graph.tangle, 1, [⟨[⟨2⟩, ⟨3⟩, ⟨4⟩]⟩, ⟨[⟨2⟩, ⟨4⟩]⟩], 1, some 50⟩ := by decide
  obtain ⟨path, _, hpath, _, _, _, hkept⟩ := hreach.attributed_iff hhistory hmeasured rfl
  obtain rfl := Option.some.inj hpath
  refine ⟨_, _, _, hhistory, hmeasured, by decide, rfl, ?_⟩
  -- The table has never been used for other candidates.
  exact hkept measured.history.tail [] (List.append_nil _).symm rfl (by decide)

/-- The same engine after the path from the third switch to the fourth has been measured.  Its port
has never carried anything. -/
def mistaken : Engine :=
  measured.play [.packet (packetBetween 3 4), .telemetry ⟨⟨3⟩, ⟨2⟩⟩ (some ⟨0, 0⟩), .tick]

/-- In the place of the zero stands the sample of the path from the second switch. -/
theorem mistaken_not_attributed :
    Reachable ⟨[], []⟩ tangledSettings mistaken ∧
    ∃ entry earlier measurement,
      mistaken.history = entry :: earlier ∧ entry.occurrence = .measured measurement ∧
      measurement.paths[measurement.index]? = some ⟨[⟨3⟩, ⟨4⟩]⟩ ∧
      measurement.sample? entry.found = some 0 ∧ measurement.answer = some 50 ∧
      lastSampleOf measurement.generation ⟨[⟨3⟩, ⟨4⟩]⟩ earlier = 0 ∧
      ¬ measurement.Attributed earlier entry.found ⟨[⟨3⟩, ⟨4⟩]⟩ := by
  have hsample : Measurement.sample?
      ⟨Graph.tangle, 1, [⟨[⟨3⟩, ⟨2⟩, ⟨4⟩]⟩, ⟨[⟨3⟩, ⟨4⟩]⟩], 1, some 50⟩
      (mistaken.history.head (by decide)).found = some 0 := by decide
  refine ⟨(tangled_reachable.play _).play _, _, mistaken.history.tail, _,
    (List.cons_head_tail _).symm, by decide, rfl, hsample, rfl, by decide, ?_⟩
  rw [attributed_iff_of_recorded _ hsample (by decide)]
  decide

end Engine

end TrafficSteering
