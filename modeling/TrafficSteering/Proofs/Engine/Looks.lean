import TrafficSteering.Proofs.Engine.Clock
import TrafficSteering.Proofs.Selector.Listeners
import TrafficSteering.Proofs.Throughput.Measuring
set_option autoImplicit false

/-!
# Looks at the active path

The monitor looks at the active path when there is a session and nobody holds the permit.  What it
finds is what the slot of the path holds after the reading: the sample or, in place of a zero, what
the slot held before.  A switch run begins exactly if this lies inside the congestion band.

Others may interject something just before the reading (`met`).  The look itself changes nothing but
the table and the log, and the permit and the run if one begins.
-/

namespace TrafficSteering

/-- The congestion band of a valid configuration is not empty. -/
theorem Settings.band_of_validate {settings : Settings} (h : settings.validate = .ok ()) :
    settings.congestion.lower < settings.congestion.upper := by
  unfold validate at h
  split at h
  · cases h
  · split at h
    · cases h
    · rename_i hband
      exact UInt32.not_le.mp hband

/-! ## One measurement -/

/-- Where a path has a sample, there is a port to read. -/
theorem Telemetry.exists_port {telemetry : Telemetry} {graph : Graph} {path : Path} {kbps : UInt32}
    (h : telemetry.sample? graph path = some kbps) :
    ∃ port, graph.measuredAt? path = some port := by
  obtain ⟨port, hport, -⟩ := Option.bind_eq_some_iff.mp h
  exact ⟨port, hport⟩

namespace Engine

open Moment

variable {engine : Engine} {index : Nat} {kbps : UInt32}

/-! ## What a look finds -/

/-- There is a session, and nobody holds the permit. -/
def Looks (engine : Engine) : Prop :=
  engine.selector.session = true ∧ engine.guard.busy = false

instance (engine : Engine) : Decidable engine.Looks := inferInstanceAs (Decidable (_ ∧ _))

/-- The last hop of the active path, which has this place, has this sample. -/
def Samples (engine : Engine) (index : Nat) (sample : UInt32) : Prop :=
  ∃ path routing, engine.selector.candidates.activePath? = some (index, path) ∧
    engine.selector.routing = some routing ∧
    engine.recorder.telemetry.sample? routing.graph path = some sample

/-- What the slot of the active path holds after a look: the sample or, in place of a zero, what it
held before. -/
def Finds (engine : Engine) (index : Nat) (kbps : UInt32) : Prop :=
  ∃ sample old, engine.Samples index sample ∧ engine.slotsBefore[index]? = some old ∧
    kbps = if sample = 0 then old else sample

/-- The port at which the active path is read, if it has one. -/
def port? (engine : Engine) : Option Interface := do
  let (_, path) ← engine.selector.candidates.activePath?
  let routing ← engine.selector.routing
  routing.graph.measuredAt? path

/-- The engine that a look comes upon: if it comes to a reading, others may have interjected
something before. -/
def met (engine : Engine) : Engine :=
  if engine.Looks ∧ engine.port?.isSome then engine.atReading else engine

/-- No interjection but a grab leaves the permit with somebody else. -/
theorem interject_guard (offer : Offer) (engine : Engine) {interjection : Interjection}
    (h : interjection ≠ .grab) : (engine.interject offer interjection).guard = engine.guard := by
  cases interjection with
  | grab => exact absurd rfl h
  | disable | update | select => rfl
  | reroute =>
    cases hbusy : engine.guard.busy with
    | true => simp only [interject, rerouteWith_of_busy hbusy]
    | false =>
      simp only [interject, rerouteWith, Guard.tryBegin?_of_free hbusy, Guard.release]
      rw [← hbusy]

theorem atReading_guard (h : engine.beforeReading ≠ some .grab) :
    engine.atReading.guard = engine.guard := by
  unfold atReading
  split
  · rfl
  · rename_i interjection hbefore
    refine interject_guard offer _ fun hgrab => h ?_
    rw [hbefore, hgrab]

theorem met_spares (engine : Engine) : engine.Spared engine.met.toMoment := by
  unfold met
  split
  · exact atReading_spares engine
  · exact .refl _

theorem met_guard (h : engine.beforeReading ≠ some .grab) : engine.met.guard = engine.guard := by
  unfold met
  split
  · exact atReading_guard h
  · rfl

theorem met_of_peaceful (h : engine.beforeReading = none) : engine.met = engine := by
  simp only [met, atReading, h, ite_self]

/-! ## What is recorded -/

/-- The recorder after a look that finds a value at a place. -/
def recorded (engine : Engine) (index : Nat) (kbps : UInt32) : Recorder where
  telemetry := engine.recorder.telemetry
  table := ⟨engine.selector.candidates.generation, engine.slotsBefore.set index kbps⟩
  log := engine.recorder.log.map (· ++ [⟨index, kbps⟩])

/-- The engine after a look that finds a value at a place, with what it has written down. -/
def taken (engine : Engine) (index : Nat) (kbps : UInt32) (history : List Entry) : Engine :=
  { engine.met with recorder := engine.recorded index kbps, history }

/-- There is a slot for the active path. -/
theorem exists_slot {path : Path}
    (hactive : engine.selector.candidates.activePath? = some (index, path)) :
    ∃ old, engine.slotsBefore[index]? = some old := by
  obtain ⟨-, hplace⟩ := Candidates.activePath?_eq_some_iff.mp hactive
  have hlt : index < engine.slotsBefore.length := by
    rw [length_slotsBefore]
    exact (List.getElem?_eq_some_iff.mp hplace).1
  exact ⟨_, List.getElem?_eq_getElem hlt⟩

theorem Samples.finds {sample : UInt32} (h : engine.Samples index sample) :
    ∃ kbps, engine.Finds index kbps := by
  have ⟨path, routing, hactive, _⟩ := h
  obtain ⟨old, hold⟩ := exists_slot hactive
  exact ⟨_, sample, old, h, hold, rfl⟩

theorem Finds.active (h : engine.Finds index kbps) :
    engine.selector.candidates.active = some index := by
  obtain ⟨_, _, ⟨path, _, hactive, -⟩, -⟩ := h
  exact (Candidates.activePath?_eq_some_iff.mp hactive).1

/-- The slot that was read holds what was found. -/
theorem Finds.slot (h : engine.Finds index kbps) :
    (engine.recorded index kbps).table.get? index = some kbps := by
  obtain ⟨_, old, -, hold, -⟩ := h
  have hlt := (List.getElem?_eq_some_iff.mp hold).1
  exact List.getElem?_set_self hlt

/-- What a look finds is recorded by the engine that it comes upon. -/
theorem Finds.measure (h : engine.Finds index kbps) (hlooks : engine.Looks) {path : Path}
    {routing : Routing} (hactive : engine.selector.candidates.activePath? = some (index, path))
    (hrouting : engine.selector.routing = some routing) :
    ∃ history, engine.measure routing.graph engine.selector.candidates.generation
        engine.selector.candidates.paths index = (engine.taken index kbps history, some kbps) := by
  obtain ⟨sample, old, ⟨path', routing', hactive', hrouting', hsample⟩, hold, rfl⟩ := h
  obtain ⟨-, rfl⟩ := Prod.mk.inj (Option.some.inj (hactive.symm.trans hactive'))
  obtain rfl := Option.some.inj (hrouting.symm.trans hrouting')
  obtain ⟨-, hplace⟩ := Candidates.activePath?_eq_some_iff.mp hactive
  obtain ⟨port, hport⟩ := Telemetry.exists_port hsample
  have hmet : engine.met = engine.atReading := by
    simp [met, hlooks, port?, hactive, hrouting, hport]
  have hread : engine.selector.candidates.paths[index]?.bind
      (engine.recorder.telemetry.sample? routing.graph) = some sample := by
    rw [hplace, Option.bind_some, hsample]
  have hmeasured := Recorder.measure_of_some hread engine.align_eq_slotsBefore hold
  rw [measure_of_port (by rw [hplace, Option.bind_some]; exact hport), ← hmet]
  simp only [record, (met_spares engine).recorder, hmeasured, Recorder.kept]
  exact ⟨_, rfl⟩

/-- Without a sample nothing is recorded. -/
theorem measure_of_unsampled (hlooks : engine.Looks) {path : Path} {routing : Routing}
    (hactive : engine.selector.candidates.activePath? = some (index, path))
    (hrouting : engine.selector.routing = some routing)
    (hnone : ∀ sample, ¬ engine.Samples index sample) :
    ∃ history, engine.measure routing.graph engine.selector.candidates.generation
        engine.selector.candidates.paths index = ({ engine.met with history }, none) := by
  obtain ⟨-, hplace⟩ := Candidates.activePath?_eq_some_iff.mp hactive
  have hsample : engine.recorder.telemetry.sample? routing.graph path = none :=
    Option.eq_none_iff_forall_ne_some.mpr fun sample hsample =>
      hnone sample ⟨path, routing, hactive, hrouting, hsample⟩
  cases hport : routing.graph.measuredAt? path with
  | none =>
    have hmet : engine.met = engine := by simp [met, port?, hactive, hrouting, hport]
    rw [measure_of_no_port (by rw [hplace, Option.bind_some]; exact hport), hmet]
    exact ⟨engine.history, rfl⟩
  | some port =>
    have hmet : engine.met = engine.atReading := by
      simp [met, hlooks, port?, hactive, hrouting, hport]
    rw [measure_of_port (by rw [hplace, Option.bind_some]; exact hport), ← hmet]
    simp only [record, (met_spares engine).recorder, Recorder.measure_of_none
      (show engine.selector.candidates.paths[index]?.bind _ = none by rw [hplace]; exact hsample)]
    exact ⟨_, by rw [← (met_spares engine).recorder]; rfl⟩

/-! ## What a look comes to -/

theorem tick_of_inactive (hsession : engine.selector.session = false) :
    engine.tick = (engine, .inactive) := by
  simp [tick, hsession]

theorem tick_of_noActivePath (hlooks : engine.Looks)
    (hnone : engine.selector.candidates.activePath? = none) :
    engine.tick = (engine, .noActivePath) := by
  simp [tick, hlooks.1, hlooks.2, hnone]

/-- Where there is an active path, a look comes to a measurement. -/
theorem tick_of_active (hlooks : engine.Looks) (hconsistent : engine.selector.Consistent)
    {path : Path} {routing : Routing}
    (hactive : engine.selector.candidates.activePath? = some (index, path))
    (hrouting : engine.selector.routing = some routing) :
    engine.tick = match engine.measure routing.graph engine.selector.candidates.generation
        engine.selector.candidates.paths index with
      | (engine, some kbps) => engine.judge index kbps
      | (engine, none) => (engine, .noData) := by
  have hgeneration := (hconsistent.generation_eq hrouting).symm
  rcases hmeasured : engine.measure routing.graph engine.selector.candidates.generation
    engine.selector.candidates.paths index with ⟨after, _ | kbps⟩ <;>
    simp [tick, hlooks.1, hlooks.2, hactive, hrouting, hgeneration, hmeasured]

/-- The active path belongs to the installed graph. -/
theorem routing_of_active (hconsistent : engine.selector.Consistent) {path : Path}
    (hactive : engine.selector.candidates.activePath? = some (index, path)) :
    ∃ routing, engine.selector.routing = some routing := by
  obtain ⟨routing, _, _, hrouting, -⟩ := hconsistent.sound.steered index path hactive
  exact ⟨routing, hrouting⟩

theorem tick_of_noData (hlooks : engine.Looks) (hconsistent : engine.selector.Consistent)
    (hactive : engine.selector.candidates.activePath?.isSome)
    (hnone : ∀ index kbps, ¬ engine.Finds index kbps) :
    ∃ history, engine.tick = ({ engine.met with history }, .noData) := by
  obtain ⟨⟨index, path⟩, hactive⟩ := Option.isSome_iff_exists.mp hactive
  obtain ⟨routing, hrouting⟩ := routing_of_active hconsistent hactive
  have hunsampled : ∀ sample, ¬ engine.Samples index sample := by
    intro sample hsample
    obtain ⟨kbps, hfinds⟩ := hsample.finds
    exact hnone index kbps hfinds
  obtain ⟨history, hmeasured⟩ := measure_of_unsampled hlooks hactive hrouting hunsampled
  rw [tick_of_active hlooks hconsistent hactive hrouting, hmeasured]
  exact ⟨history, rfl⟩

/-- Where something is found, it is recorded and then judged. -/
theorem tick_of_finds (hlooks : engine.Looks) (hconsistent : engine.selector.Consistent)
    (hfinds : engine.Finds index kbps) :
    ∃ history, engine.tick = (engine.taken index kbps history).judge index kbps := by
  have ⟨_, _, ⟨path, routing, hactive, hrouting, _⟩, _⟩ := hfinds
  obtain ⟨history, hmeasured⟩ := hfinds.measure hlooks hactive hrouting
  rw [tick_of_active hlooks hconsistent hactive hrouting, hmeasured]
  exact ⟨history, rfl⟩

/-- The value lies strictly inside the congestion band. -/
def Inside (engine : Engine) (kbps : UInt32) : Prop :=
  engine.settings.congestion.lower < kbps ∧ kbps < engine.settings.congestion.upper

instance (engine : Engine) (kbps : UInt32) : Decidable (engine.Inside kbps) :=
  inferInstanceAs (Decidable (_ ∧ _))

theorem taken_settings (history : List Entry) :
    (engine.taken index kbps history).settings = engine.settings :=
  (met_spares engine).settings

theorem Inside.taken (h : engine.Inside kbps) (history : List Entry) :
    (engine.taken index kbps history).Inside kbps := by
  rwa [Inside, taken_settings]

theorem judge_of_idle (hle : kbps ≤ engine.settings.congestion.lower) :
    engine.judge index kbps = (engine, .idle index kbps) := by
  simp [judge, CongestionBand.isCongested, hle, UInt32.not_lt.mpr hle]

theorem judge_of_healthy
    (hband : engine.settings.congestion.lower < engine.settings.congestion.upper)
    (hge : engine.settings.congestion.upper ≤ kbps) :
    engine.judge index kbps = (engine, .healthy index kbps) := by
  have hlower : ¬ kbps ≤ engine.settings.congestion.lower :=
    UInt32.not_le.mpr (UInt32.lt_of_lt_of_le hband hge)
  simp [judge, CongestionBand.isCongested, hlower, UInt32.not_lt.mpr hge]

theorem judge_of_busy (hinside : engine.Inside kbps) (hbusy : engine.guard.busy = true) :
    engine.judge index kbps = (engine, .busy) := by
  simp [judge, CongestionBand.isCongested, hinside.1, hinside.2, trigger_of_busy hbusy]

/-- The permit is taken, and a run begins. -/
def begun (engine : Engine) : Engine :=
  { engine with
    guard := ⟨true⟩
    run := some ⟨engine.runsStarted, .spawned, engine.now⟩
    runsStarted := engine.runsStarted + 1 }

theorem judge_of_free (hinside : engine.Inside kbps) (hfree : engine.guard.busy = false) :
    engine.judge index kbps = (engine.begun, .scheduled index kbps) := by
  simp [judge, CongestionBand.isCongested, hinside.1, hinside.2, trigger,
    Guard.tryBegin?_of_free hfree, begun]

/-! ## Which look comes to what -/

/-- When a look comes to an outcome. -/
def Warrants (engine : Engine) : MonitorOutcome → Prop
  | .inactive => engine.selector.session = false
  | .busy => engine.selector.session = true ∧ (engine.guard.busy = true ∨
      -- Somebody has taken the permit just before the reading.
      engine.met.guard.busy = true ∧ ∃ index kbps, engine.Finds index kbps ∧ engine.Inside kbps)
  | .noActivePath => engine.Looks ∧ engine.selector.candidates.activePath? = none
  | .noData => engine.Looks ∧ engine.selector.candidates.activePath?.isSome ∧
      ∀ index kbps, ¬ engine.Finds index kbps
  | .idle index kbps => engine.Looks ∧ engine.Finds index kbps ∧
      kbps ≤ engine.settings.congestion.lower
  | .healthy index kbps => engine.Looks ∧ engine.Finds index kbps ∧
      engine.settings.congestion.upper ≤ kbps
  | .scheduled index kbps => engine.Looks ∧ engine.Finds index kbps ∧ engine.Inside kbps ∧
      engine.met.guard.busy = false

/-- What a look comes to, and the engine that it leaves behind. -/
inductive Look (engine : Engine) : Engine × MonitorOutcome → Prop where
  /-- Nothing is read. -/
  | unread {outcome : MonitorOutcome} (hlooks : ¬ engine.Looks ∨
        engine.selector.candidates.activePath? = none) (h : engine.Warrants outcome) :
      Look engine (engine, outcome)
  | noData (h : engine.Warrants .noData) (history : List Entry) :
      Look engine ({ engine.met with history }, .noData)
  /-- A value is recorded, and no run begins. -/
  | recorded {outcome : MonitorOutcome} {index : Nat} {kbps : UInt32} (hlooks : engine.Looks)
      (hfinds : engine.Finds index kbps) (h : engine.Warrants outcome)
      (hunscheduled : ∀ index kbps, outcome ≠ .scheduled index kbps) (history : List Entry) :
      Look engine (engine.taken index kbps history, outcome)
  | scheduled {index : Nat} {kbps : UInt32} (h : engine.Warrants (.scheduled index kbps))
      (history : List Entry) :
      Look engine ((engine.taken index kbps history).begun, .scheduled index kbps)

/-- A value that is found is judged by where it lies. -/
theorem look_of_finds (hconsistent : engine.selector.Consistent)
    (hband : engine.settings.congestion.lower < engine.settings.congestion.upper)
    (hlooks : engine.Looks) (hfinds : engine.Finds index kbps) : Look engine engine.tick := by
  obtain ⟨history, htick⟩ := tick_of_finds hlooks hconsistent hfinds
  rw [htick]
  by_cases hle : kbps ≤ engine.settings.congestion.lower
  · have hidle : engine.Warrants (.idle index kbps) := ⟨hlooks, hfinds, hle⟩
    rw [judge_of_idle (by rwa [taken_settings])]
    exact .recorded hlooks hfinds hidle nofun history
  by_cases hge : engine.settings.congestion.upper ≤ kbps
  · have hhealthy : engine.Warrants (.healthy index kbps) := ⟨hlooks, hfinds, hge⟩
    rw [judge_of_healthy (by rwa [taken_settings]) (by rwa [taken_settings])]
    exact .recorded hlooks hfinds hhealthy nofun history
  have hinside : engine.Inside kbps := ⟨UInt32.not_le.mp hle, UInt32.not_le.mp hge⟩
  have htaken : (engine.taken index kbps history).Inside kbps := hinside.taken history
  cases hguard : engine.met.guard.busy with
  | true =>
    have hbusy : engine.Warrants .busy :=
      ⟨hlooks.1, .inr ⟨hguard, index, kbps, hfinds, hinside⟩⟩
    rw [judge_of_busy htaken hguard]
    exact .recorded hlooks hfinds hbusy nofun history
  | false =>
    have hscheduled : engine.Warrants (.scheduled index kbps) := ⟨hlooks, hfinds, hinside, hguard⟩
    rw [judge_of_free htaken hguard]
    exact .scheduled hscheduled history

theorem tick_look (hconsistent : engine.selector.Consistent)
    (hband : engine.settings.congestion.lower < engine.settings.congestion.upper) :
    Look engine engine.tick := by
  cases hsession : engine.selector.session with
  | false =>
    rw [tick_of_inactive hsession]
    have hinactive : engine.Warrants .inactive := hsession
    exact .unread (.inl fun hlooks => by simp [hlooks.1] at hsession) hinactive
  | true =>
    cases hbusy : engine.guard.busy with
    | true =>
      have hheld : engine.Warrants .busy := ⟨hsession, .inl hbusy⟩
      rw [tick_of_busy hbusy, if_pos hsession]
      exact .unread (.inl fun hlooks => by simp [hlooks.2] at hbusy) hheld
    | false =>
      have hlooks : engine.Looks := ⟨hsession, hbusy⟩
      cases hactive : engine.selector.candidates.activePath? with
      | none =>
        have hunsteered : engine.Warrants .noActivePath := ⟨hlooks, hactive⟩
        rw [tick_of_noActivePath hlooks hactive]
        exact .unread (.inr hactive) hunsteered
      | some active =>
        by_cases hfinds : ∃ index kbps, engine.Finds index kbps
        · obtain ⟨index, kbps, hfinds⟩ := hfinds
          exact look_of_finds hconsistent hband hlooks hfinds
        · have hnone : ∀ index kbps, ¬ engine.Finds index kbps :=
            fun index kbps h => hfinds ⟨index, kbps, h⟩
          have hsome : engine.selector.candidates.activePath?.isSome := by rw [hactive]; rfl
          obtain ⟨history, htick⟩ := tick_of_noData hlooks hconsistent hsome hnone
          rw [htick]
          exact .noData ⟨hlooks, hsome, hnone⟩ history

/-- A look comes to what is warranted, and nothing else is. -/
theorem tick_eq_iff (hconsistent : engine.selector.Consistent)
    (hband : engine.settings.congestion.lower < engine.settings.congestion.upper)
    (outcome : MonitorOutcome) : engine.tick.2 = outcome ↔ engine.Warrants outcome := by
  constructor
  · rintro rfl
    have hlook := tick_look hconsistent hband
    generalize engine.tick = looked at hlook
    cases hlook with
    | unread _ h => exact h
    | noData h => exact h
    | recorded _ _ h => exact h
    | scheduled h => exact h
  · intro h
    cases outcome with
    | inactive => rw [tick_of_inactive h]
    | noActivePath => rw [tick_of_noActivePath h.1 h.2]
    | noData =>
      obtain ⟨history, htick⟩ := tick_of_noData h.1 hconsistent h.2.1 h.2.2
      rw [htick]
    | idle index kbps =>
      obtain ⟨hlooks, hfinds, hle⟩ := h
      obtain ⟨history, htick⟩ := tick_of_finds hlooks hconsistent hfinds
      rw [htick, judge_of_idle (by rwa [taken_settings])]
    | healthy index kbps =>
      obtain ⟨hlooks, hfinds, hge⟩ := h
      obtain ⟨history, htick⟩ := tick_of_finds hlooks hconsistent hfinds
      rw [htick, judge_of_healthy (by rwa [taken_settings]) (by rwa [taken_settings])]
    | scheduled index kbps =>
      obtain ⟨hlooks, hfinds, hinside, hfree⟩ := h
      obtain ⟨history, htick⟩ := tick_of_finds hlooks hconsistent hfinds
      rw [htick, judge_of_free (hinside.taken history) hfree]
    | busy =>
      obtain ⟨hsession, hbusy | ⟨hguard, index, kbps, hfinds, hinside⟩⟩ := h
      · rw [tick_of_busy hbusy, if_pos hsession]
      · cases hbusy : engine.guard.busy with
        | true => rw [tick_of_busy hbusy, if_pos hsession]
        | false =>
          obtain ⟨history, htick⟩ := tick_of_finds ⟨hsession, hbusy⟩ hconsistent hfinds
          rw [htick, judge_of_busy (hinside.taken history) hguard]

/-- At most one value is found. -/
theorem Finds.unique {other : Nat} {value : UInt32} (h : engine.Finds index kbps)
    (hother : engine.Finds other value) : other = index ∧ value = kbps := by
  obtain ⟨sample, old, ⟨path, routing, hactive, hrouting, hsample⟩, hold, rfl⟩ := h
  obtain ⟨sample', old', ⟨path', routing', hactive', hrouting', hsample'⟩, hold', rfl⟩ := hother
  obtain ⟨rfl, rfl⟩ := Prod.mk.inj (Option.some.inj (hactive.symm.trans hactive'))
  obtain rfl := Option.some.inj (hrouting.symm.trans hrouting')
  obtain rfl := Option.some.inj (hsample.symm.trans hsample')
  obtain rfl := Option.some.inj (hold.symm.trans hold')
  exact ⟨rfl, rfl⟩

/-- What a look at the active path comes to, and what it leaves behind. -/
structure Judges (engine : Engine) : Prop where
  outcome_iff : ∀ outcome, engine.tick.2 = outcome ↔ engine.Warrants outcome
  /-- A run begins with the outcome that says so, and has the permit. -/
  scheduled : ∀ index kbps, engine.tick.2 = .scheduled index kbps →
    engine.tick.1.guard = ⟨true⟩ ∧
      engine.tick.1.run = some ⟨engine.runsStarted, .spawned, engine.now⟩ ∧
      engine.tick.1.runsStarted = engine.runsStarted + 1
  unscheduled : (∀ index kbps, engine.tick.2 ≠ .scheduled index kbps) →
    engine.tick.1.guard = engine.met.guard ∧ engine.tick.1.run = engine.run ∧
      engine.tick.1.runsStarted = engine.runsStarted
  /-- What is said of the active path is what its slot holds afterwards. -/
  said : ∀ index kbps, (engine.tick.2 = .idle index kbps ∨ engine.tick.2 = .healthy index kbps ∨
      engine.tick.2 = .scheduled index kbps) →
    engine.selector.candidates.active = some index ∧
      engine.tick.1.recorder.table.get? index = some kbps
  recorded : engine.Looks → ∀ index kbps, engine.Finds index kbps →
    engine.tick.1.recorder = engine.recorded index kbps
  unrecorded : ¬ engine.Looks ∨ (∀ index sample, ¬ engine.Samples index sample) →
    engine.tick.1.recorder = engine.recorder
  /-- Everything else is as the look has come upon it. -/
  rest : engine.tick.1 = { engine.met with
    recorder := engine.tick.1.recorder, guard := engine.tick.1.guard, run := engine.tick.1.run
    runsStarted := engine.tick.1.runsStarted, history := engine.tick.1.history }
  /-- The look comes upon the engine as it is, unless others interject something. -/
  peaceful : engine.beforeReading = none → engine.met = engine
  /-- Nobody but a grab takes the permit away from it. -/
  ungrabbed : engine.beforeReading ≠ some .grab → engine.met.guard = engine.guard

/-- A look that does not come to a reading comes upon the engine as it is. -/
theorem met_of_unread (h : ¬ engine.Looks ∨ engine.selector.candidates.activePath? = none) :
    engine.met = engine := by
  unfold met
  refine if_neg fun hport => ?_
  rcases h with hlooks | hnone
  · exact hlooks hport.1
  · simp [port?, hnone] at hport

theorem not_finds_of_unread (h : ¬ engine.Looks ∨ engine.selector.candidates.activePath? = none)
    (hlooks : engine.Looks) : ¬ engine.Finds index kbps := by
  rcases h with hnot | hnone
  · exact absurd hlooks hnot
  · intro hfinds
    obtain ⟨_, _, ⟨_, _, hsome, -⟩, -⟩ := hfinds
    simp [hnone] at hsome

section

variable {looked : Engine × MonitorOutcome}

theorem Look.begins (h : Look engine looked) (hscheduled : looked.2 = .scheduled index kbps) :
    looked.1.guard = ⟨true⟩ ∧ looked.1.run = some ⟨engine.runsStarted, .spawned, engine.now⟩ ∧
      looked.1.runsStarted = engine.runsStarted + 1 := by
  have hspared := met_spares engine
  cases h with
  | unread hunread h =>
    obtain rfl : _ = MonitorOutcome.scheduled index kbps := hscheduled
    exact absurd h.2.1 (not_finds_of_unread hunread h.1)
  | noData => cases hscheduled
  | recorded _ _ _ hunscheduled => exact absurd hscheduled (hunscheduled index kbps)
  | scheduled =>
    rw [← hspared.runsStarted, ← hspared.now]
    exact ⟨rfl, rfl, rfl⟩

theorem Look.begins_nothing (h : Look engine looked)
    (hunscheduled : ∀ index kbps, looked.2 ≠ .scheduled index kbps) :
    looked.1.guard = engine.met.guard ∧ looked.1.run = engine.run ∧
      looked.1.runsStarted = engine.runsStarted := by
  have hspared := met_spares engine
  cases h with
  | unread hunread =>
    rw [met_of_unread hunread]
    exact ⟨rfl, rfl, rfl⟩
  | noData => exact ⟨rfl, hspared.run, hspared.runsStarted⟩
  | recorded => exact ⟨rfl, hspared.run, hspared.runsStarted⟩
  | scheduled => exact absurd rfl (hunscheduled _ _)

theorem Look.recorder_of_finds (h : Look engine looked) (hlooks : engine.Looks)
    (hfinds : engine.Finds index kbps) : looked.1.recorder = engine.recorded index kbps := by
  cases h with
  | unread hunread => exact absurd hfinds (not_finds_of_unread hunread hlooks)
  | noData h => exact absurd hfinds (h.2.2 index kbps)
  | recorded _ hfound =>
    obtain ⟨rfl, rfl⟩ := hfinds.unique hfound
    rfl
  | scheduled h =>
    obtain ⟨rfl, rfl⟩ := hfinds.unique h.2.1
    rfl

theorem Look.recorder_of_not_finds (h : Look engine looked)
    (hnone : engine.Looks → ∀ index kbps, ¬ engine.Finds index kbps) :
    looked.1.recorder = engine.recorder := by
  cases h with
  | unread => rfl
  | noData => exact (met_spares engine).recorder
  | recorded hlooks hfinds => exact absurd hfinds (hnone hlooks _ _)
  | scheduled h => exact absurd h.2.1 (hnone h.1 _ _)

theorem Look.rest (h : Look engine looked) : looked.1 = { engine.met with
    recorder := looked.1.recorder, guard := looked.1.guard, run := looked.1.run
    runsStarted := looked.1.runsStarted, history := looked.1.history } := by
  cases h with
  | unread hunread => rw [met_of_unread hunread]
  | noData | recorded | scheduled => rfl

end

theorem judges (hconsistent : engine.selector.Consistent)
    (hband : engine.settings.congestion.lower < engine.settings.congestion.upper) :
    engine.Judges := by
  have houtcome := tick_eq_iff hconsistent hband
  have hlook := tick_look hconsistent hband
  exact {
    outcome_iff := houtcome
    scheduled := fun _ _ => hlook.begins
    unscheduled := hlook.begins_nothing
    said := by
      intro index kbps hsaid
      have hfound : engine.Looks ∧ engine.Finds index kbps := by
        rcases hsaid with h | h | h
        all_goals
          have hwarrants := (houtcome _).mp h
          exact ⟨hwarrants.1, hwarrants.2.1⟩
      refine ⟨hfound.2.active, ?_⟩
      rw [hlook.recorder_of_finds hfound.1 hfound.2]
      exact hfound.2.slot
    recorded := fun hlooks _ _ => hlook.recorder_of_finds hlooks
    unrecorded := by
      intro hunread
      refine hlook.recorder_of_not_finds fun hlooks index kbps hfinds => ?_
      obtain ⟨sample, _, hsample, -⟩ := hfinds
      rcases hunread with hnot | hnone
      · exact hnot hlooks
      · exact hnone index sample hsample
    rest := hlook.rest
    peaceful := met_of_peaceful
    ungrabbed := met_guard }

/-- Whatever has been done to an engine: a look at the active path starts a switch run exactly if
there is a session, nobody holds the permit, the active path has a sample, and what its slot holds
after the reading lies inside the congestion band. -/
theorem Reachable.tick_judges {storage : Storage} {settings : Settings}
    (h : Reachable storage settings engine) :
    engine.settings = settings ∧ settings.congestion.lower < settings.congestion.upper ∧
      engine.Judges := by
  have hsettings : engine.settings = settings := h.turns.settings
  have hband := Settings.band_of_validate h.validated
  exact ⟨hsettings, hband, judges h.steady.consistent (by rwa [hsettings])⟩

/-- An engine that has found two megabits per second on its active path, from the first switch to
the fourth by the second, and then no traffic at all. -/
def watched : Engine :=
  tangled.play [.packet (packetBetween 1 4), .start,
    .telemetry ⟨⟨2⟩, ⟨3⟩⟩ (some ⟨1500000, 500000⟩), .tick, .telemetry ⟨⟨2⟩, ⟨3⟩⟩ (some ⟨0, 0⟩)]

/-- The same with half a megabit per second instead. -/
def congested : Engine := watched.play [.telemetry ⟨⟨2⟩, ⟨3⟩⟩ (some ⟨200000, 300000⟩)]

/-- Without traffic the path is healthy still, by what its slot has held; with half a megabit a run
begins; and if somebody takes the permit just before the reading, none does. -/
theorem tick_judges_watched :
    Reachable ⟨[], []⟩ tangledSettings watched ∧ watched.tick.2 = .healthy 1 2000 ∧
    Reachable ⟨[], []⟩ tangledSettings congested ∧ congested.tick.2 = .scheduled 1 500 ∧
      congested.tick.1.run = some ⟨0, .spawned, 0⟩ ∧
    (congested.play [.beforeReading .grab]).tick.2 = .busy := by
  have hwatched : Reachable ⟨[], []⟩ tangledSettings watched := tangled_reachable.play _
  have hcongested : Reachable ⟨[], []⟩ tangledSettings congested := hwatched.play _
  have hactive : ∀ {engine : Engine}, engine.selector = watched.selector →
      engine.selector.candidates.activePath? = some (1, ⟨[⟨1⟩, ⟨2⟩, ⟨4⟩]⟩) ∧
        engine.selector.routing = some ⟨1, Graph.tangle⟩ := by
    rintro engine hsame
    rw [hsame]
    decide
  obtain ⟨-, -, hhealthy⟩ := hwatched.tick_judges
  obtain ⟨-, -, hstarted⟩ := hcongested.tick_judges
  obtain ⟨-, -, hgrabbed⟩ := (hcongested.play [.beforeReading .grab]).tick_judges
  have hzero : watched.Finds 1 2000 :=
    ⟨0, 2000, ⟨_, _, (hactive rfl).1, (hactive rfl).2, by decide⟩, by decide, rfl⟩
  have hhalf : congested.Finds 1 500 :=
    ⟨500, 2000, ⟨_, _, (hactive rfl).1, (hactive rfl).2, by decide⟩, by decide, rfl⟩
  have hscheduled := (hstarted.outcome_iff (.scheduled 1 500)).mpr
    ⟨by decide, hhalf, by decide, by decide⟩
  refine ⟨hwatched, (hhealthy.outcome_iff _).mpr ⟨by decide, hzero, by decide⟩, hcongested,
    hscheduled, ?_, (hgrabbed.outcome_iff .busy).mpr ⟨by decide, .inr ⟨by decide, 1, 500, ?_⟩⟩⟩
  · exact (hstarted.scheduled 1 500 hscheduled).2.1.trans (by decide)
  · exact ⟨⟨500, 2000, ⟨_, _, (hactive rfl).1, (hactive rfl).2, by decide⟩, by decide, rfl⟩,
      by decide⟩

end Engine

end TrafficSteering
