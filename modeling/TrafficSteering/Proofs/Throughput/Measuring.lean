import TrafficSteering.Proofs.Graph.Walk
import TrafficSteering.Proofs.Throughput.Table
set_option autoImplicit false

/-!
# One measurement

A candidate is measured where its last hop leaves.  Without a reading there nothing happens at all;
with one, the throughput of both directions goes into the slot of the candidate, except that a zero
leaves the slot as it is.  The sum of the two directions may exceed what a machine word holds, and
what is recorded is nevertheless the exact quotient, cut off at the largest value of a slot
(`Reading.kbps_toNat`).
-/

namespace TrafficSteering

/-! ## Readings -/

/-- The throughput of both directions in kilobits per second, rounded down, and no more than a slot
can hold. -/
def Reading.clamped (reading : Reading) : Nat :=
  min ((reading.received.toNat + reading.sent.toNat) / 1000) (2 ^ 32 - 1)

/-- A sum that stops at the largest word makes no difference, as a slot is full long before. -/
theorem Reading.kbps_toNat (reading : Reading) : reading.kbps.toNat = reading.clamped := by
  have hfits : min (min (reading.received.toNat + reading.sent.toNat) (UInt64.size - 1) / 1000)
      (UInt32.size - 1) < UInt32.size := by
    simp only [UInt32.size]
    omega
  rw [kbps, UInt32.toNat_ofNat_of_lt' hfits, clamped]
  simp only [UInt64.size, UInt32.size]
  omega

theorem Reading.kbps_eq_zero_iff (reading : Reading) :
    reading.kbps = 0 ↔ reading.clamped = 0 := by
  rw [← UInt32.toNat_inj, kbps_toNat, UInt32.toNat_zero]

/-! ## The last hop -/

namespace Path

/-- A path ends with the hop from one switch to another. -/
def EndsWith (path : Path) (switch last : SwitchId) : Prop :=
  ∃ front, path.switches = front ++ [switch, last]

variable {path : Path} {switch last : SwitchId}

theorem EndsWith.lastHop? (h : path.EndsWith switch last) :
    path.lastHop? = some (switch, last) := by
  obtain ⟨front, hswitches⟩ := h
  obtain rfl : path = ⟨(front ++ [switch]) ++ [last]⟩ := by
    cases path
    simpa using hswitches
  rw [Path.lastHop?, hops_concat List.getLast?_concat, List.getLast?_concat]

theorem lastHop?_of_short (h : path.switches.length < 2) : path.lastHop? = none := by
  obtain ⟨_ | ⟨only, _ | ⟨next, rest⟩⟩⟩ := path
  · rfl
  · rfl
  · exact absurd h (Nat.not_lt.mpr (Nat.le_add_left 2 rest.length))

/-- A path has fewer than two switches or a last hop. -/
theorem short_or_endsWith (path : Path) :
    path.switches.length < 2 ∨ ∃ switch last, path.EndsWith switch last := by
  obtain ⟨switches⟩ := path
  rcases List.eq_nil_or_concat switches with rfl | ⟨front, last, rfl⟩
  · exact .inl (by simp)
  · rcases List.eq_nil_or_concat front with rfl | ⟨front, switch, rfl⟩
    · exact .inl (by simp)
    · exact .inr ⟨switch, last, front, by simp⟩

end Path

namespace Telemetry

/-! ## What there is to read -/

/-- A candidate has this reading: the port by which it leaves its last switch but one has it. -/
inductive Reads (telemetry : Telemetry) (graph : Graph) (paths : List Path) (index : Nat)
    (reading : Reading) : Prop where
  | mk {path : Path} {switch last : SwitchId} {port : PortNo} (hpath : paths[index]? = some path)
      (hends : path.EndsWith switch last) (hport : graph.egressPort switch last = .ok port)
      (hreading : telemetry.read? ⟨switch, port⟩ = some reading)

/-- Why a candidate has no reading. -/
inductive Unread (telemetry : Telemetry) (graph : Graph) (paths : List Path) (index : Nat) :
    Prop where
  /-- There is no such candidate. -/
  | missing (h : paths.length ≤ index)
  /-- It has no hop. -/
  | short {path : Path} (hpath : paths[index]? = some path) (h : path.switches.length < 2)
  /-- Its last hop is no edge. -/
  | unjoined {path : Path} {switch last : SwitchId} (hpath : paths[index]? = some path)
      (hends : path.EndsWith switch last) (h : ¬ graph.Adjacent switch last)
  /-- The port of its last hop has not been polled. -/
  | silent {path : Path} {switch last : SwitchId} {port : PortNo}
      (hpath : paths[index]? = some path) (hends : path.EndsWith switch last)
      (hport : graph.egressPort switch last = .ok port)
      (h : telemetry.read? ⟨switch, port⟩ = none)

variable {telemetry : Telemetry} {graph : Graph} {path : Path} {paths : List Path} {index : Nat}
  {switch last : SwitchId} {port : PortNo}

theorem sample?_of_port (hends : path.EndsWith switch last)
    (hport : graph.egressPort switch last = .ok port) :
    telemetry.sample? graph path = (telemetry.read? ⟨switch, port⟩).map Reading.kbps := by
  obtain ⟨edge, hedge, rfl⟩ := Graph.egressPort_eq_ok_iff.mp hport
  simp only [sample?, Graph.measuredAt?, hends.lastHop?, hedge, Option.bind_eq_bind,
    Option.bind_some, Option.pure_def, Option.map_eq_bind, Function.comp_def]

theorem Reads.sample {reading : Reading} (h : telemetry.Reads graph paths index reading) :
    paths[index]?.bind (telemetry.sample? graph) = some reading.kbps := by
  obtain ⟨hpath, hends, hport, hreading⟩ := h
  rw [hpath, Option.bind_some, sample?_of_port hends hport, hreading, Option.map_some]

theorem Unread.sample (h : telemetry.Unread graph paths index) :
    paths[index]?.bind (telemetry.sample? graph) = none := by
  cases h with
  | missing h => rw [List.getElem?_eq_none h, Option.bind_none]
  | short hpath h =>
    simp only [hpath, Option.bind_some, sample?, Graph.measuredAt?, Path.lastHop?_of_short h,
      Option.bind_eq_bind, Option.bind_none]
  | unjoined hpath hends h =>
    have hnone : graph.edge? _ _ = none :=
      Option.eq_none_iff_forall_ne_some.mpr fun edge hedge =>
        h (Graph.exists_edge_iff.mp ⟨edge, hedge⟩)
    simp only [hpath, Option.bind_some, sample?, Graph.measuredAt?, hends.lastHop?, hnone,
      Option.bind_eq_bind, Option.bind_none]
  | silent hpath hends hport h =>
    rw [hpath, Option.bind_some, sample?_of_port hends hport, h, Option.map_none]

/-- A candidate has a reading or there is a reason why not. -/
theorem reads_or_unread (telemetry : Telemetry) (graph : Graph) (paths : List Path) (index : Nat) :
    (∃ reading, telemetry.Reads graph paths index reading) ∨
      telemetry.Unread graph paths index := by
  cases hpath : paths[index]? with
  | none => exact .inr (.missing (List.getElem?_eq_none_iff.mp hpath))
  | some path =>
    rcases path.short_or_endsWith with hshort | ⟨switch, last, hends⟩
    · exact .inr (.short hpath hshort)
    by_cases hjoined : graph.Adjacent switch last
    · obtain ⟨edge, hedge⟩ := Graph.exists_edge_iff.mpr hjoined
      have hport := Graph.egressPort_eq_ok_iff.mpr ⟨edge, hedge, rfl⟩
      cases hreading : telemetry.read? ⟨switch, edge.port⟩ with
      | none => exact .inr (.silent hpath hends hport hreading)
      | some reading => exact .inl ⟨reading, .mk hpath hends hport hreading⟩
    · exact .inr (.unjoined hpath hends hjoined)

theorem unread_iff : telemetry.Unread graph paths index ↔
    ∀ reading, ¬ telemetry.Reads graph paths index reading := by
  constructor
  · intro hunread reading hreads
    have hsample := hreads.sample
    rw [hunread.sample] at hsample
    cases hsample
  · intro hnone
    exact (reads_or_unread telemetry graph paths index).resolve_left fun ⟨reading, hreads⟩ =>
      hnone reading hreads

end Telemetry

/-! ## The table -/

/-- What a slot holds once the table follows candidates. -/
theorem ThroughputTable.get?_align (table : ThroughputTable) (generation size index : Nat) :
    (table.align generation size).get? index =
      if table.follows = (generation, size) then table.get? index
      else if index < size then some 0 else none := by
  by_cases h : table.follows = (generation, size)
  · rw [align_eq_self h, if_pos h]
  · rw [align_eq_zeros h, if_neg h]
    simp [get?, List.getElem?_replicate]

namespace Recorder

variable {recorder : Recorder} {graph : Graph} {paths : List Path} {generation index : Nat}

theorem measure_of_none (h : paths[index]?.bind (recorder.telemetry.sample? graph) = none) :
    recorder.measure graph generation paths index = (recorder, none) := by
  simp only [measure, h]

/-- A sample is recorded in the slot of its candidate, and what the slot then holds is logged. -/
theorem measure_of_some {sample old : UInt32} {slots : List UInt32}
    (hsample : paths[index]?.bind (recorder.telemetry.sample? graph) = some sample)
    (hslots : recorder.table.align generation paths.length = ⟨generation, slots⟩)
    (hold : slots[index]? = some old) :
    recorder.measure graph generation paths index =
      (⟨recorder.telemetry, ⟨generation, slots.set index (kept old (some sample))⟩,
        recorder.log.map (· ++ [⟨index, kept old (some sample)⟩])⟩,
        some (kept old (some sample))) := by
  simp only [measure, hsample, hslots, ThroughputTable.record, ThroughputTable.get?, hold, if_true,
    kept]

/-! ## The whole -/

/-- What the measurement of a candidate does when there is a reading. -/
structure Takes (before : Recorder) (generation size index : Nat) (reading : Reading)
    (value : UInt32) (after : Recorder) : Prop where
  /-- In place of a zero, the slot keeps what it held if the table followed the candidates before,
  and starts from zero otherwise. -/
  recorded : value.toNat =
    if reading.clamped = 0 then
      if before.table.follows = (generation, size) then
        ((before.table.get? index).getD 0).toNat
      else 0
    else reading.clamped
  /-- The table follows the candidates from now on. -/
  follows : after.table.follows = (generation, size)
  slot : after.table.get? index = some value
  /-- All other slots hold what they held, or zero if the table followed other candidates. -/
  others : ∀ other, other ≠ index → after.table.get? other =
    if before.table.follows = (generation, size) then before.table.get? other
    else if other < size then some 0 else none
  /-- One line more in the log, if there is a log. -/
  log : after.log = before.log.map (· ++ [⟨index, value⟩])
  telemetry : after.telemetry = before.telemetry

/-- What a reading leaves in a slot. -/
theorem toNat_kept (old : UInt32) (reading : Reading) :
    (kept old (some reading.kbps)).toNat =
      if reading.clamped = 0 then old.toNat else reading.clamped := by
  rw [kept]
  by_cases hzero : reading.clamped = 0
  · rw [if_pos hzero, if_pos (reading.kbps_eq_zero_iff.mpr hzero)]
  · rw [if_neg hzero, if_neg (mt reading.kbps_eq_zero_iff.mp hzero), reading.kbps_toNat]

theorem takes_of_reads {reading : Reading}
    (h : recorder.telemetry.Reads graph paths index reading) :
    ∃ value, (recorder.measure graph generation paths index).2 = some value ∧
      recorder.Takes generation paths.length index reading value
        (recorder.measure graph generation paths index).1 := by
  have hindex : index < paths.length := by
    obtain ⟨hpath, -, -, -⟩ := h
    exact (List.getElem?_eq_some_iff.mp hpath).1
  have hslot := recorder.table.get?_align generation paths.length
  have hfollows := recorder.table.follows_align generation paths.length
  rcases halign : recorder.table.align generation paths.length with ⟨aligned, slots⟩
  rw [halign] at hslot hfollows
  obtain rfl : aligned = generation := (Prod.mk.inj hfollows).1
  have hlength : slots.length = paths.length := (Prod.mk.inj hfollows).2
  obtain ⟨old, hold⟩ : ∃ old, slots[index]? = some old :=
    ⟨_, List.getElem?_eq_getElem (hlength ▸ hindex)⟩
  rw [measure_of_some h.sample halign hold]
  refine ⟨_, rfl, ?_, ?_, ?_, ?_, rfl, rfl⟩
  · have hbefore := hslot index
    rw [ThroughputTable.get?, hold, if_pos hindex] at hbefore
    rw [toNat_kept]
    split at hbefore
    · rename_i hsame
      rw [if_pos hsame, ← hbefore, Option.getD_some]
    · rename_i hother
      rw [if_neg hother, Option.some.inj hbefore, UInt32.toNat_zero]
  · exact Prod.ext rfl ((List.length_set).trans hlength)
  · exact List.getElem?_set_self (hlength ▸ hindex)
  · intro other hother
    rw [← hslot other]
    exact List.getElem?_set_ne hother.symm

/-- A measurement comes to nothing exactly if there is a reason why the candidate has no reading,
and then it changes nothing.  If there is a reading, it is taken. -/
theorem measure_exact (recorder : Recorder) (graph : Graph) (generation : Nat) (paths : List Path)
    (index : Nat) :
    ((recorder.measure graph generation paths index).2 = none ↔
      recorder.telemetry.Unread graph paths index) ∧
    (recorder.telemetry.Unread graph paths index →
      recorder.measure graph generation paths index = (recorder, none)) ∧
    (recorder.telemetry.Unread graph paths index ↔
      ∀ reading, ¬ recorder.telemetry.Reads graph paths index reading) ∧
    ∀ reading, recorder.telemetry.Reads graph paths index reading →
      ∃ value, (recorder.measure graph generation paths index).2 = some value ∧
        recorder.Takes generation paths.length index reading value
          (recorder.measure graph generation paths index).1 := by
  refine ⟨⟨?_, ?_⟩, ?_, Telemetry.unread_iff, fun _ => takes_of_reads⟩
  · intro hnone
    rw [Telemetry.unread_iff]
    intro reading hreads
    have htakes := @takes_of_reads recorder graph paths generation index reading hreads
    obtain ⟨value, hvalue, -⟩ := htakes
    rw [hnone] at hvalue
    cases hvalue
  · intro hunread
    rw [measure_of_none hunread.sample]
  · intro hunread
    exact measure_of_none hunread.sample

/-- Two candidates in the tangled graph. -/
def crossings : List Path := [⟨[⟨1⟩, ⟨2⟩, ⟨4⟩]⟩, ⟨[⟨1⟩, ⟨4⟩]⟩]

/-- The largest reading there is. -/
def flood : Reading := ⟨0xffffffffffffffff, 0xffffffffffffffff⟩

/-- A recorder that follows the two candidates; the first has the largest reading, and the second
one of less than a kilobit. -/
def flooded : Recorder where
  telemetry := ⟨[(⟨⟨2⟩, ⟨3⟩⟩, flood), (⟨⟨1⟩, ⟨2⟩⟩, ⟨0, 999⟩)]⟩
  table := ⟨3, [7, 9]⟩
  log := some []

theorem measure_exact_flooded :
    flooded.telemetry.Reads Graph.tangle crossings 0 flood ∧
    (flooded.measure Graph.tangle 3 crossings 0).2 = some 4294967295 ∧
    (flooded.measure Graph.tangle 3 crossings 0).1.table.get? 1 = some 9 ∧
    flooded.telemetry.Reads Graph.tangle crossings 1 ⟨0, 999⟩ ∧
    (flooded.measure Graph.tangle 3 crossings 1).2 = some 9 ∧
    (flooded.measure Graph.tangle 3 crossings 1).1.log = some [⟨1, 9⟩] ∧
    flooded.telemetry.Unread Graph.tangle crossings 2 ∧
    flooded.measure Graph.tangle 3 crossings 2 = (flooded, none) := by
  obtain ⟨_, _, _, hfirst⟩ := measure_exact flooded Graph.tangle 3 crossings 0
  obtain ⟨_, _, _, hsecond⟩ := measure_exact flooded Graph.tangle 3 crossings 1
  obtain ⟨_, hmissing, _, _⟩ := measure_exact flooded Graph.tangle 3 crossings 2
  have hflood : flooded.telemetry.Reads Graph.tangle crossings 0 flood :=
    .mk rfl ⟨[⟨1⟩], rfl⟩ rfl rfl
  have htrickle : flooded.telemetry.Reads Graph.tangle crossings 1 ⟨0, 999⟩ :=
    .mk rfl ⟨[], rfl⟩ rfl rfl
  have hunread : flooded.telemetry.Unread Graph.tangle crossings 2 := .missing (Nat.le_refl 2)
  obtain ⟨most, hmost, hfull⟩ := hfirst flood hflood
  obtain ⟨kept, hkept, hstill⟩ := hsecond _ htrickle
  obtain rfl : most = 4294967295 := UInt32.toNat_inj.mp hfull.recorded
  obtain rfl : kept = 9 := UInt32.toNat_inj.mp hstill.recorded
  exact ⟨hflood, hmost, hfull.others 1 (by decide), htrickle, hkept, hstill.log, hunread,
    hmissing hunread⟩

end Recorder

end TrafficSteering
