import TrafficSteering.Proofs.Engine.Interlude
import TrafficSteering.Proofs.Graph.Walk
import TrafficSteering.Proofs.Selector.Reachable
set_option autoImplicit false

/-!
# Turns

Whatever is done to an engine, it is done in turns: small changes that nothing interrupts.  Others
may act between any two turns, and what they do is turns again.  `Turn` lists them all, with what is
known where each of them is taken.

What every turn keeps holds at every moment of every run, and also at the moments that are written
down in the history (`Turns.past`).  The first such thing is that an engine stays steady: its
selector is consistent, a switch run works on the simple paths of its graph, and permit, run and
phase belong together.
-/

namespace TrafficSteering

/-- Whether rules are computed for a switch run. -/
def Purpose.isRun : Purpose → Bool
  | .candidate _ _ | .winner _ _ => true
  | .packet _ | .reroute => false

theorem Purpose.run?_eq_none_iff {purpose : Purpose} :
    purpose.run? = none ↔ purpose.isRun = false := by
  cases purpose <;> simp [run?, isRun]

/-- The candidates of a run are of the generation of its graph, and they are all its simple paths
between two switches. -/
structure Probe.Sound (probe : Probe) : Prop where
  generation : probe.routing.generation = probe.generation
  paths : ∃ src dst, probe.paths = probe.routing.graph.simplePaths src dst

/-- Where the path and the graph of a computation come from. -/
structure Computation.Founded (computation : Computation) (selector : Selector) : Prop where
  /-- A run takes its ports from the graph that its candidates were found on. -/
  ofRun : computation.purpose.isRun = true → computation.routing.generation = computation.found
  /-- All others take them from the graph that is installed now. -/
  installed : computation.purpose.isRun = false → selector.routing = some computation.routing
  /-- On the graph that the path was found on, it is a simple path. -/
  simple : computation.routing.generation = computation.found →
    ∃ src dst, computation.routing.graph.IsSimplePath src dst computation.path

/-- What a run computes rules for is one of its candidates, on the graph of the run. -/
def Computation.OfRun (computation : Computation) (moment : Moment) : Prop :=
  ∀ number, computation.purpose.run? = some number → ∃ probe place due,
    moment.run = some ⟨number, .settling probe place, due⟩ ∧
    computation.routing = probe.routing ∧ computation.found = probe.generation ∧
    computation.path ∈ probe.paths

/-- What is known where something is written down. -/
def Occurrence.Fits (engine : Engine) : Occurrence → Prop
  | .computed computation =>
    computation.Founded engine.selector ∧ computation.OfRun engine.toMoment
  | .offered rule => ∃ made computation since, engine.Owed rule made computation since
  | .tookUp _ probe => probe.Sound ∧ engine.selector.routing = some probe.routing
  | .measured measurement =>
    (∃ src dst, measurement.paths = measurement.graph.simplePaths src dst) ∧
    measurement.answer = (engine.recorder.measure measurement.graph measurement.generation
      measurement.paths measurement.index).2
  | _ => True

namespace Engine

/-- The run has taken up these candidates. -/
def WorksOn (engine : Engine) (run : Run) (probe : Probe) : Prop :=
  (∃ place, run.stage = .settling probe place) ∨
    ∃ entry ∈ engine.history, entry.occurrence = .tookUp run.number probe

/-- The changes that nothing interrupts. -/
inductive Turn (engine : Engine) : Engine → Prop where
  /-- The selector serves requests, or its listeners come and go. -/
  | asked {forum : SelectorForum} (requests : List Selector.Request)
      (h : forum.state = engine.selector.serveAll requests) : Turn engine { engine with forum }
  /-- Something else than the selector, the table, the permit and the run is changed. -/
  | arranged (telemetry : Telemetry) (verdict : Nat → Rule → Option Refusal) (room : Option Nat)
      (awaitable : List Nat) (monitor : Monitor) (beforeReading beforeRule : Option Interjection)
      (now : Nat) :
      Turn engine { engine with
        recorder := { engine.recorder with telemetry }
        plane := { engine.plane with verdict, room }
        awaitable, monitor, beforeReading, beforeRule, now }
  | interjected (interjection : Interjection) :
      Turn engine (engine.note (.interjected interjection))
  | computed {computation : Computation} (h : computation.Founded engine.selector)
      (hrun : computation.OfRun engine.toMoment) :
      Turn engine (engine.note (.computed computation))
  | offered {rule : Rule} {made : Engine} {computation : Computation} {since : List Entry}
      (h : engine.Owed rule made computation since) : Turn engine (engine.offerAtOnce rule).1
  | tookUp (number : Nat) {probe : Probe} (h : probe.Sound)
      (hinstalled : engine.selector.routing = some probe.routing) :
      Turn engine (engine.takeUp number probe)
  | measured {graph : Graph} {paths : List Path} (generation index : Nat)
      (h : ∃ src dst, paths = graph.simplePaths src dst) :
      Turn engine (engine.record graph generation paths index).1
  | called (call : ThroughputTable.Call) :
      Turn engine { engine.note (.called call) with
        recorder := { engine.recorder with table := (engine.recorder.table.perform call).1 } }
  /-- A caller takes the permit and keeps it. -/
  | grabbed (hfree : engine.guard.busy = false) :
      Turn engine { engine with guard := ⟨true⟩, kept := engine.kept + 1 }
  /-- A caller gives back the permit that it kept. -/
  | released (hkept : engine.kept ≠ 0) :
      Turn engine { engine with guard := engine.guard.release, kept := engine.kept - 1 }
  /-- A forced choice takes the permit. -/
  | forced (hfree : engine.guard.busy = false) :
      Turn engine { engine with guard := ⟨true⟩, forcing := engine.forcing + 1 }
  /-- A forced choice is over. -/
  | unforced (hforcing : engine.forcing ≠ 0) :
      Turn engine { engine with guard := engine.guard.release, forcing := engine.forcing - 1 }
  | triggered (hfree : engine.guard.busy = false) :
      Turn engine { engine with
        guard := ⟨true⟩
        run := some ⟨engine.runsStarted, .spawned, engine.now⟩
        runsStarted := engine.runsStarted + 1 }
  /-- The run turns to the candidate at a place.  It has taken up its candidates just now, or it has
  been at another one of them. -/
  | tried {run : Run} (hrun : engine.run = some run) {probe : Probe} (hprobe : probe.Sound)
      (hsource : engine.WorksOn run probe) {index : Nat} (hindex : index < probe.paths.length)
      (due : Nat) :
      Turn engine { engine with
        phase := .probing index, run := some ⟨run.number, .settling probe index, due⟩ }
  /-- The run waits. -/
  | waited {run : Run} (hrun : engine.run = some run) (due : Nat) :
      Turn engine { engine with run := some { run with due } }
  /-- The run has tried its candidates. -/
  | decided {number due index : Nat} {probe : Probe}
      (hrun : engine.run = some ⟨number, .settling probe index, due⟩) :
      Turn engine { engine with phase := .installing }
  /-- The run is over. -/
  | finished {run : Run} (hrun : engine.run = some run) (report : Report) :
      Turn engine ({ engine with phase := .idle }.finishRun run.number report)

/-- Turns one after another. -/
abbrev Turns : Engine → Engine → Prop := Relation.ReflTransGen Turn

end Engine

/-! ## Permit, run and phase -/

namespace Moment

/-- How many permits there are: those that callers keep, those of forced choices, and that of the
switch run. -/
def permits (moment : Moment) : Nat :=
  moment.kept + moment.forcing + if moment.run.isSome then 1 else 0

/-- A switch run with this number has been started and has not come to a report. -/
def Unfinished (moment : Moment) (number : Nat) : Prop :=
  number < moment.runsStarted ∧ ∀ report, (number, report) ∉ moment.reports

/-- Permit, run and phase belong together. -/
structure Exclusive (moment : Moment) : Prop where
  /-- The guard is busy exactly if there is a permit. -/
  busy_iff : moment.guard.busy = true ↔ moment.permits = 1
  /-- There is never more than one. -/
  permits_le : moment.permits ≤ 1
  /-- No switch run is unfinished but the one that goes on. -/
  unfinished_iff : ∀ number,
    moment.Unfinished number ↔ ∃ run, moment.run = some run ∧ run.number = number
  /-- There is no phase other than idle but that of a run which is at its candidates. -/
  active : moment.phase ≠ .idle → ∃ run probe index,
    moment.run = some run ∧ run.stage = .settling probe index
  /-- The candidate that is tried is one of those of the run. -/
  probing : ∀ index, moment.phase = .probing index → ∃ run probe,
    moment.run = some run ∧ run.stage = .settling probe index ∧ index < probe.paths.length

/-- Nobody holds a permit. -/
structure AtRest (moment : Moment) : Prop where
  free : moment.guard.busy = false
  permits : moment.permits = 0
  run : moment.run = none
  phase : moment.phase = .idle

/-- Permits, runs and phase are as they were. -/
structure Undisturbed (before after : Moment) : Prop where
  guard : after.guard = before.guard := by rfl
  kept : after.kept = before.kept := by rfl
  forcing : after.forcing = before.forcing := by rfl
  run : after.run = before.run := by rfl
  runsStarted : after.runsStarted = before.runsStarted := by rfl
  reports : after.reports = before.reports := by rfl
  phase : after.phase = before.phase := by rfl

theorem Undisturbed.trans {a b c : Moment} (hab : Undisturbed a b) (hbc : Undisturbed b c) :
    Undisturbed a c :=
  ⟨hbc.guard.trans hab.guard, hbc.kept.trans hab.kept, hbc.forcing.trans hab.forcing,
    hbc.run.trans hab.run, hbc.runsStarted.trans hab.runsStarted, hbc.reports.trans hab.reports,
    hbc.phase.trans hab.phase⟩

/-- What holds of the selector, of the run and of its permit at every moment. -/
structure Steady (moment : Moment) : Prop where
  exclusive : moment.Exclusive
  consistent : moment.selector.Consistent
  probe : ∀ run probe index, moment.run = some run → run.stage = .settling probe index →
    probe.Sound
  /-- Only runs that were started have come to a report. -/
  filed : ∀ number report, (number, report) ∈ moment.reports → number < moment.runsStarted

variable {moment after : Moment}

/-- While the guard is free nobody holds a permit. -/
theorem Exclusive.of_free (h : moment.Exclusive) (hfree : moment.guard.busy = false) :
    moment.kept = 0 ∧ moment.forcing = 0 ∧ moment.run = none := by
  have hle := h.permits_le
  have hne : moment.permits ≠ 1 := fun hone => by simp [h.busy_iff.mpr hone] at hfree
  unfold permits at hle hne
  cases hrun : moment.run with
  | none =>
    simp only [hrun, Option.isSome_none, Bool.false_eq_true, if_false] at hle hne
    exact ⟨by omega, by omega, rfl⟩
  | some run =>
    simp only [hrun, Option.isSome_some, if_true] at hle hne
    omega

theorem Exclusive.idle_of_run_none (h : moment.Exclusive) (hrun : moment.run = none) :
    moment.phase = .idle := by
  by_contra hphase
  obtain ⟨run, _, _, hsome, _⟩ := h.active hphase
  simp [hrun] at hsome

/-- Once the permit is given back, nothing is left of the run that had it. -/
theorem Exclusive.atRest (h : moment.Exclusive) (hfree : moment.guard.busy = false) :
    moment.AtRest := by
  obtain ⟨hkept, hforcing, hrun⟩ := h.of_free hfree
  exact ⟨hfree, by simp [permits, hkept, hforcing, hrun], hrun, h.idle_of_run_none hrun⟩

/-- A run that has not looked at its candidates yet has no phase. -/
theorem Exclusive.idle_of_spawned (h : moment.Exclusive) {run : Run} (hrun : moment.run = some run)
    (hstage : run.stage = .spawned) : moment.phase = .idle := by
  by_contra hphase
  obtain ⟨_, _, _, hsome, hsettling⟩ := h.active hphase
  obtain rfl := Option.some.inj (hrun.symm.trans hsome)
  rw [hstage] at hsettling
  exact Stage.noConfusion hsettling

/-- A run holds the only permit. -/
theorem Exclusive.of_run (h : moment.Exclusive) {run : Run} (hrun : moment.run = some run) :
    moment.guard.busy = true ∧ moment.kept = 0 ∧ moment.forcing = 0 := by
  have hle := h.permits_le
  rw [h.busy_iff]
  unfold permits at *
  simp only [hrun, Option.isSome_some, if_true] at *
  omega

/-- Where runs and phase stay, the number of permits decides. -/
theorem Steady.of_permits (h : moment.Steady) (hconsistent : after.selector.Consistent)
    (hrun : after.run = moment.run) (hstarted : after.runsStarted = moment.runsStarted)
    (hreports : after.reports = moment.reports) (hphase : after.phase = moment.phase)
    (hle : after.permits ≤ 1) (hbusy : after.guard.busy = true ↔ after.permits = 1) :
    after.Steady := by
  refine ⟨⟨hbusy, hle, ?_, ?_, ?_⟩, hconsistent, ?_, ?_⟩
  · simp only [Unfinished, hrun, hstarted, hreports]
    exact h.exclusive.unfinished_iff
  · simp only [hrun, hphase]
    exact h.exclusive.active
  · simp only [hrun, hphase]
    exact h.exclusive.probing
  · simp only [hrun]
    exact h.probe
  · simp only [hstarted, hreports]
    exact h.filed

/-- Where permits stay too, a consistent selector is all that is needed. -/
theorem Steady.of_undisturbed (h : moment.Steady) (hconsistent : after.selector.Consistent)
    (hsame : moment.Undisturbed after) : after.Steady := by
  have hpermits : after.permits = moment.permits := by
    simp only [permits, hsame.kept, hsame.forcing, hsame.run]
  refine h.of_permits hconsistent hsame.run hsame.runsStarted hsame.reports hsame.phase ?_ ?_
  · rw [hpermits]
    exact h.exclusive.permits_le
  · rw [hsame.guard, hpermits]
    exact h.exclusive.busy_iff

end Moment

namespace Engine

variable {engine after : Engine}

/-! ## What turns keep -/

open Moment

theorem steady_triggered (h : engine.Steady) (hfree : engine.guard.busy = false) :
    Steady { engine.toMoment with
      guard := ⟨true⟩
      run := some ⟨engine.runsStarted, .spawned, engine.now⟩
      runsStarted := engine.runsStarted + 1 } := by
  obtain ⟨hkept, hforcing, hrun⟩ := h.exclusive.of_free hfree
  have hidle := h.exclusive.idle_of_run_none hrun
  have hbefore := h.exclusive.unfinished_iff
  refine ⟨⟨?_, ?_, ?_, ?_, ?_⟩, h.consistent, ?_, ?_⟩
  · simp [permits, hkept, hforcing]
  · simp [permits, hkept, hforcing]
  · intro number
    -- No other run is unfinished, and the new one has no report yet.
    have hnone : ¬ engine.Unfinished number := by
      rw [hbefore, hrun]
      simp
    have hnew : ∀ report, (engine.runsStarted, report) ∉ engine.reports :=
      fun report hmem => Nat.lt_irrefl _ (h.filed _ report hmem)
    simp only [Unfinished, Option.some.injEq, exists_eq_left'] at hnone ⊢
    constructor
    · rintro ⟨hlt, hreports⟩
      by_contra hne
      exact hnone ⟨by omega, hreports⟩
    · rintro rfl
      exact ⟨Nat.lt_succ_self _, hnew⟩
  · exact fun hphase => absurd hidle hphase
  · intro index hphase
    rw [hidle] at hphase
    exact Phase.noConfusion hphase
  · intro run probe index hsome hstage
    obtain rfl := Option.some.inj hsome
    exact Stage.noConfusion hstage
  · intro number report hmem
    exact Nat.lt_succ_of_lt (h.filed number report hmem)

/-- The run changes its stage or its phase, but not its number. -/
theorem steady_run (h : engine.Steady) {run : Run} (hrun : engine.run = some run) (next : Run)
    (hnumber : next.number = run.number) (phase : Phase)
    (hprobe : ∀ probe index, next.stage = .settling probe index → probe.Sound)
    (hactive : phase ≠ .idle → ∃ probe index, next.stage = .settling probe index)
    (hprobing : ∀ index, phase = .probing index →
      ∃ probe, next.stage = .settling probe index ∧ index < probe.paths.length) :
    Steady { engine.toMoment with phase, run := some next } := by
  obtain ⟨hbusy, hkept, hforcing⟩ := h.exclusive.of_run hrun
  refine ⟨⟨?_, ?_, ?_, ?_, ?_⟩, h.consistent, ?_, h.filed⟩
  · simp [permits, hkept, hforcing, hbusy]
  · simp [permits, hkept, hforcing]
  · intro number
    have hbefore := h.exclusive.unfinished_iff number
    simp only [hrun, Option.some.injEq, exists_eq_left'] at hbefore
    simp only [Option.some.injEq, exists_eq_left', hnumber]
    exact hbefore
  · intro hphase
    obtain ⟨probe, index, hstage⟩ := hactive hphase
    exact ⟨next, probe, index, rfl, hstage⟩
  · intro index hphase
    obtain ⟨probe, hstage, hlt⟩ := hprobing index hphase
    exact ⟨next, probe, rfl, hstage, hlt⟩
  · intro run' probe index hsome hstage
    obtain rfl := Option.some.inj hsome
    exact hprobe probe index hstage

theorem steady_finished (h : engine.Steady) {run : Run} (hrun : engine.run = some run)
    (report : Report) : ({ engine with phase := .idle }.finishRun run.number report).Steady := by
  obtain ⟨_, hkept, hforcing⟩ := h.exclusive.of_run hrun
  refine ⟨⟨?_, ?_, ?_, ?_, ?_⟩, h.consistent, ?_, ?_⟩
  · simp [finishRun, Guard.release, permits, hkept, hforcing]
  · simp [finishRun, permits, hkept, hforcing]
  · intro number
    have hbefore := h.exclusive.unfinished_iff number
    simp only [hrun, Option.some.injEq, exists_eq_left'] at hbefore
    simp only [Unfinished, finishRun, List.mem_append, List.mem_singleton, reduceCtorEq,
      false_and, exists_false, iff_false, not_and, not_forall, not_not] at hbefore ⊢
    intro hlt
    by_contra hnone
    -- An unfinished run is the present one, and that has just got its report.
    have hunfinished : ∀ other, (number, other) ∉ engine.reports :=
      fun other hmem => hnone ⟨other, .inl hmem⟩
    obtain rfl := hbefore.mp ⟨hlt, hunfinished⟩
    exact hnone ⟨report, .inr rfl⟩
  · exact fun hphase => absurd rfl hphase
  · exact fun index hphase => Phase.noConfusion hphase
  · intro other probe index hsome
    simp [finishRun] at hsome
  · intro number other hmem
    simp only [finishRun, List.mem_append, List.mem_singleton, Prod.mk.injEq] at hmem
    rcases hmem with hbefore | ⟨rfl, rfl⟩
    · exact h.filed number other hbefore
    · exact ((h.exclusive.unfinished_iff run.number).mpr ⟨run, hrun, rfl⟩).1

theorem Turn.steady (hturn : Turn engine after) (h : engine.Steady) : after.Steady := by
  cases hturn with
  | @asked forum requests hforum =>
    have hconsistent : Selector.Consistent forum.state := by
      rw [hforum]
      exact Selector.serveAll_induction h.consistent (fun hbefore hchange =>
        hchange.consistent hbefore) requests
    exact h.of_undisturbed hconsistent {}
  | arranged | interjected | computed | offered | tookUp | measured | called =>
    exact h.of_undisturbed h.consistent {}
  | grabbed hfree | forced hfree =>
    obtain ⟨hkept, hforcing, hrun⟩ := h.exclusive.of_free hfree
    exact h.of_permits h.consistent rfl rfl rfl rfl (by simp [permits, hkept, hforcing, hrun])
      (by simp [permits, hkept, hforcing, hrun])
  | released hheld | unforced hheld =>
    have hle := h.exclusive.permits_le
    simp only [permits] at hle
    exact h.of_permits h.consistent rfl rfl rfl rfl (by simp only [permits]; omega)
      (by simp only [permits, Guard.release, Bool.false_eq_true, false_iff]; omega)
  | triggered hfree => exact steady_triggered h hfree
  | @tried run hrun probe hprobe _ index hindex due =>
    refine steady_run h hrun ⟨run.number, .settling probe index, due⟩ rfl (.probing index) ?_ ?_ ?_
    · intro other place hstage
      cases hstage
      exact hprobe
    · exact fun _ => ⟨probe, index, rfl⟩
    · intro place hphase
      cases hphase
      exact ⟨probe, rfl, hindex⟩
  | @waited run hrun due =>
    refine steady_run h hrun { run with due } rfl engine.phase ?_ ?_ ?_
    · exact fun probe index hstage => h.probe run probe index hrun hstage
    · intro hphase
      obtain ⟨other, probe, index, hsome, hstage⟩ := h.exclusive.active hphase
      obtain rfl := Option.some.inj (hrun.symm.trans hsome)
      exact ⟨probe, index, hstage⟩
    · intro index hphase
      obtain ⟨other, probe, hsome, hstage, hlt⟩ := h.exclusive.probing index hphase
      obtain rfl := Option.some.inj (hrun.symm.trans hsome)
      exact ⟨probe, hstage, hlt⟩
  | @decided number due index probe hrun =>
    have hdecided := steady_run h hrun ⟨number, .settling probe index, due⟩ rfl .installing
      (fun other place hstage => h.probe _ other place hrun hstage)
      (fun _ => ⟨probe, index, rfl⟩) (fun _ hphase => Phase.noConfusion hphase)
    rw [← hrun] at hdecided
    exact hdecided
  | finished hrun report => exact steady_finished h hrun report

theorem Turns.steady (hturns : Turns engine after) (h : engine.Steady) : after.Steady := by
  induction hturns with
  | refl => exact h
  | tail _ hturn ih => exact hturn.steady ih

/-- A turn writes down at most one thing, with the moment before it. -/
theorem Turn.history (hturn : Turn engine after) :
    after.history = engine.history ∨ ∃ occurrence : Occurrence,
      after.history = ⟨engine.toMoment, occurrence⟩ :: engine.history ∧
      occurrence.Fits engine := by
  cases hturn with
  | interjected interjection => exact .inr ⟨.interjected interjection, rfl, trivial⟩
  | @computed computation hfounded hrun =>
    exact .inr ⟨.computed computation, rfl, hfounded, hrun⟩
  | @offered rule _ _ _ howed => exact .inr ⟨.offered rule, rfl, _, _, _, howed⟩
  | @tookUp number probe hprobe hinstalled =>
    exact .inr ⟨.tookUp number probe, rfl, hprobe, hinstalled⟩
  | measured generation index hpaths => exact .inr ⟨.measured _, rfl, hpaths, rfl⟩
  | called call => exact .inr ⟨.called call, rfl, trivial⟩
  | asked | arranged | grabbed | released | forced | unforced | triggered | tried | waited
  | decided | finished => exact .inl rfl

/-- Everything that is written down was found at a moment which the turns led to. -/
theorem Turns.past {start : Engine} (hturns : Turns start engine) (hstart : start.history = [])
    {later earlier : List Entry} {entry : Entry}
    (hhistory : engine.history = later ++ entry :: earlier) :
    Turns start ⟨entry.found, earlier⟩ ∧ entry.occurrence.Fits ⟨entry.found, earlier⟩ := by
  induction hturns generalizing later with
  | refl => simp [hstart] at hhistory
  | @tail before after hbefore hturn ih =>
    rcases hturn.history with hsame | ⟨occurrence, hnoted, hfits⟩
    · exact ih (hsame ▸ hhistory)
    · rw [hnoted] at hhistory
      cases later with
      | nil =>
        obtain ⟨rfl, rfl⟩ := List.cons.inj hhistory
        exact ⟨hbefore, hfits⟩
      | cons first rest => exact ih (List.cons.inj hhistory).2

/-- From that moment the turns have led on. -/
theorem Turns.since {start : Engine} (hturns : Turns start engine) (hstart : start.history = [])
    {later earlier : List Entry} {entry : Entry}
    (hhistory : engine.history = later ++ entry :: earlier) :
    Turns ⟨entry.found, earlier⟩ engine := by
  induction hturns generalizing later with
  | refl => simp [hstart] at hhistory
  | @tail before after hbefore hturn ih =>
    rcases hturn.history with hsame | ⟨occurrence, hnoted, _⟩
    · exact (ih (hsame ▸ hhistory)).tail hturn
    · rw [hnoted] at hhistory
      cases later with
      | nil =>
        obtain ⟨rfl, rfl⟩ := List.cons.inj hhistory
        exact .single hturn
      | cons first rest => exact (ih (List.cons.inj hhistory).2).tail hturn

end Engine

end TrafficSteering
