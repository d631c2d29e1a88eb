import TrafficSteering.Proofs.Engine.Reachable
import TrafficSteering.Proofs.Engine.Work
import TrafficSteering.Proofs.Forum.Quiet
import TrafficSteering.Proofs.Throughput.Table
set_option autoImplicit false

/-!
# Undisturbed switch runs

A switch run of which nothing but time is in the way.  The switches may refuse any rules, the
readings may change from one poll to the next, and the monitor may go on looking; but nobody
interjects anything.  Such a run comes to a report, and `Conditions` says to which one: every
candidate is tried once, in its turn, on the data plane that the candidates before it have left.

`Elapses` lets the next task of the engine happen.  The induction that follows a run to its end,
`tryFrom_passes`, is on the candidates that are left.
-/

namespace TrafficSteering

/-! ## What a run comes to -/

/-- One candidate of a run is tried. -/
structure Trial where
  path : Path
  /-- The data plane to which its rules are offered. -/
  plane : DataPlane
  /-- When they are offered. -/
  time : Nat

/-- What a run depends on besides its candidates and the state in which it finds everything. -/
structure Conditions where
  installer : Installer
  graph : Graph
  /-- How long a candidate settles. -/
  wait : Nat
  /-- What the last poll up to a time has read. -/
  polls : Nat → Telemetry

namespace Conditions

variable (conditions : Conditions)

/-- Whether a path can be installed. -/
def Installs (plane : DataPlane) (path : Path) : Prop :=
  conditions.installer.Succeeds conditions.graph plane path

instance (plane : DataPlane) (path : Path) : Decidable (conditions.Installs plane path) :=
  inferInstanceAs (Decidable (conditions.installer.Succeeds conditions.graph plane path))

/-- The data plane after a path has been offered. -/
def planeAfter (plane : DataPlane) (path : Path) : DataPlane :=
  (conditions.installer.attempt conditions.graph plane path).1

/-- The time after a candidate has been tried.  One that cannot be installed takes no time. -/
def timeAfter (plane : DataPlane) (time : Nat) (path : Path) : Nat :=
  if conditions.Installs plane path then time + conditions.wait else time

/-- The trials of some candidates one after another. -/
def trials (plane : DataPlane) (time : Nat) : List Path → List Trial
  | [] => []
  | path :: rest =>
    ⟨path, plane, time⟩ ::
      trials (conditions.planeAfter plane path) (conditions.timeAfter plane time path) rest

/-- The throughput of a candidate that has settled, if its last hop has a reading then. -/
def sample? (trial : Trial) : Option UInt32 :=
  if conditions.Installs trial.plane trial.path then
    (conditions.polls (trial.time + conditions.wait)).sample? conditions.graph trial.path
  else none

/-- The slot of a candidate after its trial. -/
def slot (trial : Trial) (old : UInt32) : UInt32 := Recorder.kept old (conditions.sample? trial)

/-- The rules of a candidate that the switches take. -/
def taken (trial : Trial) : List Rule :=
  conditions.installer.acceptedFor conditions.graph trial.plane trial.path

/-- The data plane after all candidates. -/
def lastPlane (plane : DataPlane) (paths : List Path) : DataPlane :=
  paths.foldl conditions.planeAfter plane

/-- The rules on the data plane are those before and those taken of each candidate. -/
theorem lastPlane_rules (plane : DataPlane) (time : Nat) (paths : List Path) :
    (conditions.lastPlane plane paths).rules =
      plane.rules ++ (conditions.trials plane time paths).flatMap conditions.taken := by
  induction paths generalizing plane time with
  | nil => simp [lastPlane, trials]
  | cons path rest ih =>
    have hrest := ih (conditions.planeAfter plane path) (conditions.timeAfter plane time path)
    rw [lastPlane] at hrest
    rw [lastPlane, List.foldl_cons, hrest, trials, List.flatMap_cons, ← List.append_assoc]
    exact congrArg (· ++ _) (conditions.installer.attempt_rules conditions.graph plane path)

/-- The candidates are tried in their order. -/
theorem map_path_trials (plane : DataPlane) (time : Nat) (paths : List Path) :
    (conditions.trials plane time paths).map Trial.path = paths := by
  induction paths generalizing plane time with
  | nil => rfl
  | cons path rest ih => rw [trials, List.map_cons, ih]

end Conditions

/-- For what rules have been computed according to a history, the first time first. -/
def computationsIn (history : List Entry) : List Computation :=
  history.reverse.filterMap Entry.computation?

theorem computationsIn_cons (entry : Entry) (history : List Entry) :
    computationsIn (entry :: history) =
      computationsIn history ++ entry.computation?.toList := by
  rw [computationsIn, List.reverse_cons, List.filterMap_append, computationsIn]
  cases h : entry.computation? <;> simp [h]

namespace Engine

variable {engine : Engine}

/-! ## Installing and measuring in peace -/

theorem computationsIn_note (engine : Engine) {occurrence : Occurrence}
    (h : Entry.computation? ⟨engine.toMoment, occurrence⟩ = none) :
    computationsIn (engine.note occurrence).history = computationsIn engine.history := by
  rw [note, computationsIn_cons, h, Option.toList_none, List.append_nil]

theorem offerAll_of_peaceful (engine : Engine) (h : engine.beforeRule = none) (rules : List Rule) :
    ∃ history, Installer.offerAll offer engine rules =
        ({ engine with
            plane := (Installer.offerAll DataPlane.install engine.plane rules).1, history },
          (Installer.offerAll DataPlane.install engine.plane rules).2) ∧
      computationsIn history = computationsIn engine.history := by
  induction rules generalizing engine with
  | nil => exact ⟨engine.history, rfl, rfl⟩
  | cons rule rest ih =>
    have hoffer : offer engine rule =
        ({ engine.note (.offered rule) with plane := (engine.plane.install rule).1 },
          (engine.plane.install rule).2) := by
      simp only [offer, h, offerAtOnce]
    simp only [Installer.offerAll, hoffer]
    rcases engine.plane.install rule with ⟨plane, fault | ⟨⟩⟩
    · exact ⟨_, rfl, computationsIn_note engine rfl⟩
    · obtain ⟨history, hrest, hcomputations⟩ := ih { engine.note (.offered rule) with plane } h
      exact ⟨history, hrest, hcomputations.trans (computationsIn_note engine rfl)⟩

/-- An installation that nothing interrupts changes the data plane only. -/
theorem installPath_of_peaceful (h : engine.beforeRule = none) (computation : Computation) :
    ∃ history, engine.installPath computation =
        ({ engine with
            plane := (engine.installer.attempt computation.routing.graph engine.plane
              computation.path).1
            history },
          (engine.installer.attempt computation.routing.graph engine.plane computation.path).2) ∧
      computationsIn history = computationsIn engine.history ++ [computation] := by
  have hnoted : computationsIn (engine.note (.computed computation)).history =
      computationsIn engine.history ++ [computation] := computationsIn_cons _ _
  unfold installPath installWith Installer.installPath Installer.attempt Installer.installPath
  cases engine.installer.rulesForPath computation.routing.graph computation.path with
  | error fault => exact ⟨_, rfl, hnoted⟩
  | ok rules =>
    obtain ⟨history, hoffers, hcomputations⟩ :=
      offerAll_of_peaceful (engine.note (.computed computation)) h rules
    refine ⟨history, ?_, hcomputations.trans hnoted⟩
    have hplane : (engine.note (.computed computation)).plane = engine.plane := rfl
    simp only [hoffers, hplane]
    rcases Installer.offerAll DataPlane.install engine.plane rules with ⟨plane, fault | ⟨⟩⟩ <;> rfl

theorem measure_eq_record (h : engine.beforeReading = none) {graph : Graph} {paths : List Path}
    {index : Nat} {port : Interface} (hport : paths[index]?.bind graph.measuredAt? = some port)
    (generation : Nat) :
    engine.measure graph generation paths index = engine.record graph generation paths index := by
  simp only [measure, hport, h]

/-- A measurement that nothing interrupts changes what the recorder keeps. -/
theorem measure_of_peaceful (h : engine.beforeReading = none) (graph : Graph) (generation : Nat)
    (paths : List Path) (index : Nat) :
    ∃ history, (engine.measure graph generation paths index).1 =
        { engine with
          recorder := (engine.recorder.measure graph generation paths index).1, history } ∧
      computationsIn history = computationsIn engine.history := by
  cases hport : paths[index]?.bind graph.measuredAt? with
  | none =>
    have hsample : paths[index]?.bind (engine.recorder.telemetry.sample? graph) = none := by
      cases hpath : paths[index]? with
      | none => rfl
      | some path =>
        rw [hpath, Option.bind_some] at hport
        simp [Telemetry.sample?, hport]
    exact ⟨engine.history, by simp [measure, hport, Recorder.measure, hsample], rfl⟩
  | some port =>
    rw [measure_eq_record h hport]
    exact ⟨_, rfl, computationsIn_note engine rfl⟩

/-! ## Time in peace -/

/-- The engine with the readings of a poll. -/
def polled (engine : Engine) (telemetry : Telemetry) : Engine :=
  { engine with recorder := { engine.recorder with telemetry } }

/-- While a switch run goes on, the task that is due first happens, with the readings that have been
polled up to its time. -/
inductive Elapses (polls : Nat → Telemetry) (engine : Engine) : Engine → Prop where
  | happened {run : Run} (hrun : engine.run = some run) {task : Task}
      (htask : engine.nextTask? = some task) :
      Elapses polls engine ((engine.polled (polls (max engine.now task.due))).happen task)

/-- Nothing but time passes. -/
abbrev Passes (polls : Nat → Telemetry) : Engine → Engine → Prop :=
  Relation.ReflTransGen (Elapses polls)

/-- Nothing but time passes, until no switch run goes on. -/
def Ends (polls : Nat → Telemetry) (engine after : Engine) : Prop :=
  Passes polls engine after ∧ after.run = none

variable {polls : Nat → Telemetry}

theorem Elapses.unique {first second : Engine} (hfirst : Elapses polls engine first)
    (hsecond : Elapses polls engine second) : first = second := by
  obtain ⟨-, htask⟩ := hfirst
  obtain ⟨-, hother⟩ := hsecond
  obtain rfl := Option.some.inj (htask.symm.trans hother)
  rfl

/-- There is only one end. -/
theorem Ends.unique {first second : Engine} (hfirst : Ends polls engine first)
    (hsecond : Ends polls engine second) : first = second := by
  -- nothing happens to an engine without a run
  have hstays : ∀ {last next : Engine}, last.run = none → Passes polls last next → next = last := by
    intro last next hnone hpasses
    rcases Relation.ReflTransGen.cases_head hpasses with rfl | ⟨_, ⟨hrun, _⟩, _⟩
    · rfl
    · rw [hnone] at hrun
      cases hrun
  rcases Relation.ReflTransGen.total_of_right_unique
    (fun _ _ _ hone hother => hone.unique hother) hfirst.1 hsecond.1 with hforth | hback
  · exact (hstays hfirst.2 hforth).symm
  · exact hstays hsecond.2 hback

/-- While somebody holds the permit, the monitor looks and does nothing. -/
theorem tick_of_busy (hbusy : engine.guard.busy = true) :
    engine.tick = (engine, if engine.selector.session then .busy else .inactive) := by
  cases hsession : engine.selector.session <;> simp [tick, hbusy, hsession]

theorem resumeMonitor_of_busy (hbusy : engine.guard.busy = true) :
    engine.resumeMonitor =
      { engine with monitor := .waiting (engine.after engine.settings.monitorPeriod) } := by
  simp only [resumeMonitor, tick_of_busy hbusy]

/-- The run goes on next, or the monitor looks before. -/
theorem nextTask?_of_run {run : Run} (hrun : engine.run = some run) :
    engine.nextTask? = some (.goOn run) ∨
      ∃ due, engine.monitor = .waiting due ∧ due < run.due ∧
        engine.nextTask? = some (.look due) := by
  unfold nextTask? monitorTask?
  rw [hrun]
  cases hmonitor : engine.monitor with
  | off | ended => exact .inl rfl
  | waiting due =>
    by_cases hdue : run.due ≤ due
    · exact .inl (if_pos hdue)
    · exact .inr ⟨due, rfl, Nat.lt_of_not_le hdue, if_neg hdue⟩

theorem passes_goOn {run : Run} (hrun : engine.run = some run) (hnow : engine.now ≤ run.due)
    (htask : engine.nextTask? = some (.goOn run)) :
    Passes polls engine
      ((({ engine with now := run.due } : Engine).polled (polls run.due)).resumeRun run) := by
  have hhappened : Elapses polls engine _ := .happened hrun htask
  have hmax : max engine.now run.due = run.due := Nat.max_eq_right hnow
  simp only [Task.due, happen, polled, hmax] at hhappened
  exact .single hhappened

/-- The engine after the monitor has looked and done nothing. -/
def looked (engine : Engine) (telemetry : Telemetry) (due : Nat) : Engine :=
  ({ engine with
      monitor := .waiting (max engine.now due + min engine.settings.monitorPeriod longestWait)
      now := max engine.now due } : Engine).polled telemetry

theorem passes_look (hbusy : engine.guard.busy = true) {run : Run} (hrun : engine.run = some run)
    {due : Nat} (htask : engine.nextTask? = some (.look due)) :
    Passes polls engine (engine.looked (polls (max engine.now due)) due) := by
  have hhappened : Elapses polls engine
      ((engine.polled (polls (max engine.now due))).happen (.look due)) := .happened hrun htask
  have hlooked : (engine.polled (polls (max engine.now due))).happen (.look due) = _ :=
    resumeMonitor_of_busy hbusy
  rw [hlooked] at hhappened
  exact .single hhappened

/-- The monitor may look before a run goes on, but the run goes on when it is due. -/
theorem passes_to_due (hperiod : 0 < engine.settings.monitorPeriod)
    (hbusy : engine.guard.busy = true) {run : Run} (hrun : engine.run = some run)
    (hnow : engine.now ≤ run.due) :
    ∃ monitor, Passes polls engine
      ((({ engine with monitor, now := run.due } : Engine).polled (polls run.due)).resumeRun
        run) := by
  -- by induction on the time between the next look and the run
  have hlooks : ∀ left, (∀ due, engine.monitor = .waiting due → run.due ≤ due + left) →
      ∃ monitor, Passes polls engine
        ((({ engine with monitor, now := run.due } : Engine).polled (polls run.due)).resumeRun
          run) := by
    intro left
    induction left generalizing engine with
    | zero =>
      intro hleft
      rcases nextTask?_of_run hrun with htask | ⟨due, hmonitor, hdue, _⟩
      · exact ⟨engine.monitor, passes_goOn hrun hnow htask⟩
      · exact absurd hdue (Nat.not_lt_of_le (hleft due hmonitor))
    | succ left ih =>
      intro hleft
      rcases nextTask?_of_run hrun with htask | ⟨due, hmonitor, hdue, htask⟩
      · exact ⟨engine.monitor, passes_goOn hrun hnow htask⟩
      · have hlooked : Passes polls engine _ := passes_look hbusy hrun htask
        have hlater : ∀ next, (engine.looked (polls (max engine.now due)) due).monitor =
            .waiting next → run.due ≤ next + left := by
          intro next hnext
          obtain rfl := Monitor.waiting.inj hnext
          have hwait : 0 < min engine.settings.monitorPeriod longestWait :=
            Nat.lt_min.mpr ⟨hperiod, by decide⟩
          have hbefore := hleft due hmonitor
          omega
        obtain ⟨monitor, hrest⟩ := @ih (engine.looked (polls (max engine.now due)) due) hperiod
          hbusy hrun (Nat.max_le.mpr ⟨hnow, Nat.le_of_lt hdue⟩) hlater
        exact ⟨monitor, hlooked.trans hrest⟩
  exact hlooks run.due fun due _ => Nat.le_add_left _ _

/-! ## Candidate by candidate -/

/-- The conditions of a run on a graph. -/
def conditions (engine : Engine) (graph : Graph) (polls : Nat → Telemetry) : Conditions :=
  ⟨engine.installer, graph, min engine.settings.settlePeriod longestWait, polls⟩

/-- The engine after a run has offered the candidate at a place to the data plane, until it goes
on. -/
def tried (engine : Engine) (number : Nat) (probe : Probe) (index : Nat) (plane : DataPlane)
    (history : List Entry) (due : Nat) : Engine :=
  { engine with
    phase := .probing index
    plane
    history
    run := some ⟨number, .settling probe index, due⟩ }

/-- A candidate is offered to the data plane.  If it has been installed, it is given time, and
otherwise it is passed over. -/
theorem tryFrom_cons_of_peaceful (h : engine.beforeRule = none) (number : Nat) (probe : Probe)
    (index : Nat) (path : Path) (rest : List Path) (polls : Nat → Telemetry) :
    ∃ history, computationsIn history = computationsIn engine.history ++
        [⟨.candidate number index, path, probe.generation, probe.routing⟩] ∧
      ∀ conditions, conditions = engine.conditions probe.routing.graph polls →
        engine.tryFrom number probe index (path :: rest) =
          if conditions.Installs engine.plane path then
            engine.tried number probe index (conditions.planeAfter engine.plane path) history
              (engine.now + conditions.wait)
          else
            (engine.tried number probe index (conditions.planeAfter engine.plane path) history
              engine.now).tryFrom number probe (index + 1) rest := by
  obtain ⟨history, hinstall, hcomputations⟩ := @installPath_of_peaceful
    (engine.tried number probe index engine.plane engine.history engine.now) h
    ⟨.candidate number index, path, probe.generation, probe.routing⟩
  refine ⟨history, hcomputations, ?_⟩
  rintro conditions rfl
  simp only [tried] at hinstall ⊢
  simp only [tryFrom, hinstall]
  rcases engine.installer.attempt_cases probe.routing.graph engine.plane path with
    ⟨hsucceeds, count, hanswer⟩ | ⟨hfails, fault, hanswer⟩
  · have hinstalls : (engine.conditions probe.routing.graph polls).Installs engine.plane path :=
      hsucceeds
    simp only [Moment.installer] at hanswer ⊢
    rw [if_pos hinstalls, hanswer]
    rfl
  · have hfails : ¬ (engine.conditions probe.routing.graph polls).Installs engine.plane path :=
      hfails
    simp only [Moment.installer] at hanswer ⊢
    rw [if_neg hfails, hanswer]
    rfl

/-- The slots after the first of the candidates that are left has been tried, and then the
others. -/
theorem slots_step {samples : List UInt32} {index : Nat} {old : UInt32}
    (hold : samples[index]? = some old) (slot : Trial → UInt32 → UInt32) (first : Trial)
    (others : List Trial) :
    (samples.set index (slot first old)).take (index + 1) ++
        List.zipWith slot others ((samples.set index (slot first old)).drop (index + 1)) =
      samples.take index ++ List.zipWith slot (first :: others) (samples.drop index) := by
  obtain ⟨hindex, rfl⟩ := List.getElem?_eq_some_iff.mp hold
  rw [List.drop_eq_getElem_cons hindex, List.zipWith_cons_cons, List.drop_set_of_lt (by omega),
    List.take_add_one, List.take_set, List.set_eq_of_length_le (List.length_take_le ..)]
  simp [hindex]

/-- A run works on its candidates, and nothing but time is in its way. -/
structure Alone (engine : Engine) (probe : Probe) : Prop where
  busy : engine.guard.busy = true
  beforeRule : engine.beforeRule = none
  beforeReading : engine.beforeReading = none
  period : 0 < engine.settings.monitorPeriod
  follows : engine.recorder.table.follows = (probe.generation, probe.paths.length)

/-- All that is no work of a run is as before. -/
structure Aside (before after : Engine) : Prop where
  settings : after.settings = before.settings := by rfl
  forum : after.forum = before.forum := by rfl
  guard : after.guard = before.guard := by rfl
  runsStarted : after.runsStarted = before.runsStarted := by rfl
  reports : after.reports = before.reports := by rfl
  beforeRule : after.beforeRule = before.beforeRule := by rfl
  beforeReading : after.beforeReading = before.beforeReading := by rfl

theorem Aside.trans {first second third : Engine} (h : Aside first second)
    (hnext : Aside second third) : Aside first third :=
  ⟨hnext.settings.trans h.settings, hnext.forum.trans h.forum, hnext.guard.trans h.guard,
    hnext.runsStarted.trans h.runsStarted, hnext.reports.trans h.reports,
    hnext.beforeRule.trans h.beforeRule, hnext.beforeReading.trans h.beforeReading⟩

theorem Aside.conditions {after : Engine} (h : Aside engine after) (graph : Graph)
    (polls : Nat → Telemetry) : after.conditions graph polls = engine.conditions graph polls := by
  simp only [Engine.conditions, Moment.installer, h.settings]

variable {probe : Probe} {index : Nat} {path : Path} {number : Nat}

/-- A run that nothing disturbs tries the next candidate, and turns to the one behind it. -/
theorem tryFrom_step (h : engine.Alone probe) (hpath : probe.paths[index]? = some path)
    {old : UInt32} (hold : engine.recorder.table.samples[index]? = some old)
    {conditions : Conditions}
    (hconditions : conditions = engine.conditions probe.routing.graph polls) :
    ∃ next, Passes polls
        (engine.tryFrom number probe index (path :: probe.paths.drop (index + 1)))
        (next.tryFrom number probe (index + 1) (probe.paths.drop (index + 1))) ∧
      engine.Aside next ∧
      next.plane = conditions.planeAfter engine.plane path ∧
      next.now = conditions.timeAfter engine.plane engine.now path ∧
      next.recorder.table = ⟨probe.generation, engine.recorder.table.samples.set index
        (conditions.slot ⟨path, engine.plane, engine.now⟩ old)⟩ ∧
      computationsIn next.history = computationsIn engine.history ++
        [⟨.candidate number index, path, probe.generation, probe.routing⟩] := by
  obtain ⟨history, hcomputations, htried⟩ := tryFrom_cons_of_peaceful h.beforeRule number probe
    index path (probe.paths.drop (index + 1)) polls
  rw [htried conditions hconditions]
  by_cases hinstalls : conditions.Installs engine.plane path
  · rw [if_pos hinstalls]
    let due := engine.now + conditions.wait
    let settling := engine.tried number probe index (conditions.planeAfter engine.plane path)
      history due
    obtain ⟨monitor, hpasses⟩ := @passes_to_due settling polls h.period h.busy
      ⟨number, .settling probe index, due⟩ rfl (Nat.le_add_right _ _)
    let settled := ({ settling with monitor, now := due } : Engine).polled (polls due)
    obtain ⟨measured, hmeasure, hsame⟩ := @measure_of_peaceful settled h.beforeReading
      probe.routing.graph probe.generation probe.paths index
    have hresume : settled.resumeRun ⟨number, .settling probe index, due⟩ =
        (settled.measure probe.routing.graph probe.generation probe.paths index).1.tryFrom number
          probe (index + 1) (probe.paths.drop (index + 1)) := rfl
    obtain ⟨htable, -⟩ := @Recorder.measure_slot settled.recorder probe.paths probe.generation index
      h.follows path hpath old hold probe.routing.graph
    have hsample : conditions.sample? ⟨path, engine.plane, engine.now⟩ =
        settled.recorder.telemetry.sample? probe.routing.graph path := by
      rw [Conditions.sample?, if_pos hinstalls]
      subst hconditions
      rfl
    have hturned : Passes polls settling (settled.resumeRun ⟨number, .settling probe index, due⟩) :=
      hpasses
    rw [hresume, hmeasure] at hturned
    refine ⟨_, hturned, {}, rfl, (if_pos hinstalls).symm, ?_, hsame.trans hcomputations⟩
    rw [Conditions.slot, hsample]
    exact htable
  · rw [if_neg hinstalls]
    refine ⟨_, .refl, {}, rfl, (if_neg hinstalls).symm, ?_, hcomputations⟩
    -- without a sample the slot is left alone
    obtain ⟨hindex, rfl⟩ := List.getElem?_eq_some_iff.mp hold
    rw [Conditions.slot, Conditions.sample?, if_neg hinstalls, Recorder.kept, List.set_getElem_self,
      ← (Prod.mk.inj h.follows).1]
    rfl

/-- A run that nothing disturbs tries the candidates that are left, from a place on, and then
concludes. -/
theorem tryFrom_passes (h : engine.Alone probe) {rest : List Path}
    (hrest : rest = probe.paths.drop index) (hindex : index ≤ probe.paths.length)
    {conditions : Conditions}
    (hconditions : conditions = engine.conditions probe.routing.graph polls) :
    ∃ last, Passes polls (engine.tryFrom number probe index rest) (last.conclude number probe) ∧
      engine.Aside last ∧
      last.plane = conditions.lastPlane engine.plane rest ∧
      last.recorder.table = ⟨probe.generation, engine.recorder.table.samples.take index ++
        List.zipWith conditions.slot (conditions.trials engine.plane engine.now rest)
          (engine.recorder.table.samples.drop index)⟩ ∧
      computationsIn last.history = computationsIn engine.history ++ rest.mapIdx fun offset path =>
        ⟨.candidate number (index + offset), path, probe.generation, probe.routing⟩ := by
  obtain ⟨hgeneration, hlength⟩ := Prod.mk.inj h.follows
  induction rest generalizing engine index with
  | nil =>
    have hend : probe.paths.length ≤ index := List.drop_eq_nil_iff.mp hrest.symm
    refine ⟨engine, .refl, {}, rfl, ?_, (List.append_nil _).symm⟩
    rw [List.take_of_length_le (by omega), List.drop_of_length_le (by omega), ← hgeneration]
    simp
  | cons path rest ih =>
    obtain ⟨hpath, hnext⟩ := Probe.first_left hrest
    have hlt := (List.getElem?_eq_some_iff.mp hpath).1
    have hold := List.getElem?_eq_getElem (show index < engine.recorder.table.samples.length by
      omega)
    obtain ⟨next, hstep, haside, hplane, hnow, htable, hcomputations⟩ :=
      @tryFrom_step engine polls probe index path number h hpath _ hold conditions hconditions
    have hfollows : next.recorder.table.follows = (probe.generation, probe.paths.length) := by
      rw [htable]
      simp [ThroughputTable.follows, hlength]
    have halone : next.Alone probe :=
      ⟨haside.guard ▸ h.busy, haside.beforeRule.trans h.beforeRule,
        haside.beforeReading.trans h.beforeReading, haside.settings ▸ h.period, hfollows⟩
    obtain ⟨last, hpasses, hlast, hlastPlane, hlastTable, hlastComputations⟩ :=
      ih halone hnext hlt (hconditions.trans (haside.conditions _ _).symm)
        (Prod.mk.inj hfollows).1 (Prod.mk.inj hfollows).2
    subst hnext
    refine ⟨last, hstep.trans hpasses, haside.trans hlast, ?_, ?_, ?_⟩
    · rw [hlastPlane, hplane]
      rfl
    · rw [hlastTable, htable, hplane, hnow]
      congr 1
      exact slots_step hold conditions.slot _ _
    · rw [hlastComputations, hcomputations, List.mapIdx_cons, List.append_assoc]
      simp [Nat.add_assoc, Nat.add_comm 1]

/-! ## The end of the run -/

/-- What it comes to that a candidate is made active. -/
def commitment (engine : Engine) (index : Nat) (path : Path) : Outcome Selector Unit :=
  ⟨{ engine.selector with
      candidates := { engine.selector.candidates with active := some index } },
    if engine.selector.candidates.active = some index then []
      else [.pathChanged ⟨index, path, .switched⟩], ()⟩

theorem commit_of_path (hgeneration : engine.selector.candidates.generation = probe.generation)
    (hpath : engine.selector.candidates.paths[index]? = some path) :
    engine.perform (fun selector => selector.commit probe.generation index) =
      ({ engine with
          forum := (engine.forum.settle Selector.serve (engine.commitment index path)).1 },
        true) := by
  have hcommit : engine.selector.commit probe.generation index =
      ⟨(engine.commitment index path).state, (engine.commitment index path).events, true⟩ := by
    simp only [Selector.commit, hgeneration, if_true, hpath, commitment]
  have hstate : engine.forum.state = engine.selector := rfl
  simp only [perform, SelectorForum.perform, hstate, hcommit]
  rfl

/-- The winner is made active if it can be installed. -/
theorem installWinner_of_peaceful (hrule : engine.beforeRule = none)
    (hgeneration : engine.selector.candidates.generation = probe.generation)
    (hpaths : engine.selector.candidates.paths = probe.paths)
    (hpath : probe.paths[index]? = some path) (number : Nat) {conditions : Conditions}
    (hconditions : conditions = engine.conditions probe.routing.graph polls) :
    ∃ history, computationsIn history = computationsIn engine.history ++
        [⟨.winner number index, path, probe.generation, probe.routing⟩] ∧
      engine.installWinner number probe (some index) =
        ({ engine with
            plane := conditions.planeAfter engine.plane path
            history
            forum := if conditions.Installs engine.plane path then
                (engine.forum.settle Selector.serve (engine.commitment index path)).1
              else engine.forum },
          decide (conditions.Installs engine.plane path)) := by
  subst hconditions
  obtain ⟨history, hinstall, hcomputations⟩ := @installPath_of_peaceful engine hrule
    ⟨.winner number index, path, probe.generation, probe.routing⟩
  refine ⟨history, hcomputations, ?_⟩
  simp only [installWinner, hpath, hinstall]
  rcases engine.installer.attempt_cases probe.routing.graph engine.plane path with
    ⟨hsucceeds, count, hanswer⟩ | ⟨hfails, fault, hanswer⟩
  · have hinstalls : (engine.conditions probe.routing.graph polls).Installs engine.plane path :=
      hsucceeds
    rw [hanswer, if_pos hinstalls, decide_eq_true hinstalls]
    exact @commit_of_path { engine with
      plane := (engine.conditions probe.routing.graph polls).planeAfter engine.plane path, history }
      probe index path hgeneration (hpaths ▸ hpath)
  · have hinstalls : ¬ (engine.conditions probe.routing.graph polls).Installs engine.plane path :=
      hfails
    rw [hanswer, if_neg hinstalls, decide_eq_false hinstalls]
    rfl

theorem conclude_of_peaceful (hrule : engine.beforeRule = none)
    (hgeneration : engine.selector.candidates.generation = probe.generation)
    (hpaths : engine.selector.candidates.paths = probe.paths) {kbps : UInt32}
    (hbest : engine.recorder.table.best? = some (index, kbps))
    (hpath : probe.paths[index]? = some path) (number : Nat) {conditions : Conditions}
    (hconditions : conditions = engine.conditions probe.routing.graph polls) :
    ∃ history, computationsIn history = computationsIn engine.history ++
        [⟨.winner number index, path, probe.generation, probe.routing⟩] ∧
      engine.conclude number probe = ({ engine with
        phase := .idle
        plane := conditions.planeAfter engine.plane path
        history
        forum := if conditions.Installs engine.plane path then
            (engine.forum.settle Selector.serve (engine.commitment index path)).1
          else engine.forum } : Engine).finishRun number
        { generation := probe.generation
          throughputs := engine.recorder.table.samples
          selected := some index
          committed := decide (conditions.Installs engine.plane path)
          elapsed := engine.now - probe.started } := by
  obtain ⟨history, hcomputations, hwinner⟩ := @installWinner_of_peaceful
    { engine with phase := .installing } polls probe index path hrule hgeneration hpaths hpath
    number conditions hconditions
  refine ⟨history, hcomputations, ?_⟩
  simp only [conclude, hbest, Option.map_some]
  rw [hwinner]
  rfl

/-- The slots that a run begins with: those of the table if it follows the candidates already, and
zeros otherwise. -/
def slotsBefore (engine : Engine) : List UInt32 :=
  if engine.recorder.table.follows =
      (engine.selector.candidates.generation, engine.selector.candidates.paths.length) then
    engine.recorder.table.samples
  else List.replicate engine.selector.candidates.paths.length 0

theorem align_eq_slotsBefore (engine : Engine) :
    engine.recorder.table.align engine.selector.candidates.generation
        engine.selector.candidates.paths.length =
      ⟨engine.selector.candidates.generation, engine.slotsBefore⟩ := by
  unfold slotsBefore
  split
  · rename_i hfollows
    rw [ThroughputTable.align_eq_self hfollows, ← (Prod.mk.inj hfollows).1]
  · rename_i hother
    exact ThroughputTable.align_eq_zeros hother

theorem length_slotsBefore (engine : Engine) :
    engine.slotsBefore.length = engine.selector.candidates.paths.length := by
  unfold slotsBefore
  split
  · rename_i hfollows
    exact (Prod.mk.inj hfollows).2
  · exact List.length_replicate

/-- What a run works on that is triggered now. -/
def probeNow (engine : Engine) (routing : Routing) : Probe :=
  ⟨engine.now, engine.selector.candidates.generation, routing, engine.selector.candidates.paths⟩

/-- A run that is triggered takes up the candidates. -/
theorem trigger_passes (hperiod : 0 < engine.settings.monitorPeriod)
    (hfree : engine.guard.busy = false) {routing : Routing}
    (hrouting : engine.selector.routing = some routing)
    (hgeneration : routing.generation = engine.selector.candidates.generation)
    (hpaths : engine.selector.candidates.paths ≠ []) (hrule : engine.beforeRule = none)
    (hreading : engine.beforeReading = none) :
    ∃ taken : Engine, Passes polls engine.trigger.1 (taken.tryFrom engine.runsStarted
        (engine.probeNow routing) 0 engine.selector.candidates.paths) ∧
      taken.Alone (engine.probeNow routing) ∧
      taken.recorder.table = ⟨engine.selector.candidates.generation, engine.slotsBefore⟩ ∧
      taken.settings = engine.settings ∧ taken.forum = engine.forum ∧
      taken.plane = engine.plane ∧ taken.now = engine.now ∧ taken.reports = engine.reports ∧
      computationsIn taken.history = computationsIn engine.history := by
  let run : Run := ⟨engine.runsStarted, .spawned, engine.now⟩
  let triggered : Engine :=
    { engine with guard := ⟨true⟩, run := some run, runsStarted := engine.runsStarted + 1 }
  have htrigger : engine.trigger.1 = triggered := by
    rw [trigger, Guard.tryBegin?_of_free hfree]
  obtain ⟨monitor, hspawned⟩ := @passes_to_due triggered polls hperiod rfl run rfl (Nat.le_refl _)
  let begun : Engine := ({ triggered with monitor } : Engine).polled (polls engine.now)
  let taken := begun.takeUp engine.runsStarted (engine.probeNow routing)
  have hbegin : begun.resumeRun run = taken.tryFrom engine.runsStarted (engine.probeNow routing) 0
      engine.selector.candidates.paths := by
    have hbegun : begun.selector.routing = some routing := hrouting
    have hsame : routing.generation = begun.selector.candidates.generation ∧
        begun.selector.candidates.paths ≠ [] := ⟨hgeneration, hpaths⟩
    simp only [resumeRun, run, beginRun, hbegun]
    rw [if_pos hsame]
    rfl
  have hpassed : Passes polls triggered (begun.resumeRun run) := hspawned
  rw [hbegin] at hpassed
  refine ⟨taken, htrigger ▸ hpassed, ?_, engine.align_eq_slotsBefore, rfl, rfl, rfl, rfl, rfl,
    computationsIn_note begun rfl⟩
  exact ⟨rfl, hrule, hreading, hperiod, ThroughputTable.follows_align _ _ _⟩

/-- A run that is triggered tries all candidates and then concludes. -/
theorem trigger_tries (hperiod : 0 < engine.settings.monitorPeriod)
    (hfree : engine.guard.busy = false) {routing : Routing}
    (hrouting : engine.selector.routing = some routing)
    (hgeneration : routing.generation = engine.selector.candidates.generation)
    (hpaths : engine.selector.candidates.paths ≠ []) (hrule : engine.beforeRule = none)
    (hreading : engine.beforeReading = none) {conditions : Conditions}
    (hconditions : conditions = engine.conditions routing.graph polls) :
    ∃ last : Engine, Passes polls engine.trigger.1
        (last.conclude engine.runsStarted (engine.probeNow routing)) ∧
      last.beforeRule = none ∧ conditions = last.conditions routing.graph polls ∧
      last.forum = engine.forum ∧ last.reports = engine.reports ∧
      last.plane = conditions.lastPlane engine.plane engine.selector.candidates.paths ∧
      last.recorder.table.samples = List.zipWith conditions.slot
        (conditions.trials engine.plane engine.now engine.selector.candidates.paths)
        engine.slotsBefore ∧
      computationsIn last.history = computationsIn engine.history ++
        engine.selector.candidates.paths.mapIdx fun place path =>
          ⟨.candidate engine.runsStarted place, path, routing.generation, routing⟩ := by
  obtain ⟨taken, htaken, halone, htable, hsettings, hforum, hplane, hnow, hreports, hnothing⟩ :=
    @trigger_passes engine polls hperiod hfree routing hrouting hgeneration hpaths hrule hreading
  have hsame : conditions = taken.conditions routing.graph polls := by
    rw [hconditions]
    simp only [Engine.conditions, Moment.installer, hsettings]
  obtain ⟨last, hlast, haside, hlastPlane, hslots, hcomputations⟩ := @tryFrom_passes taken polls
    (engine.probeNow routing) 0 engine.runsStarted halone engine.selector.candidates.paths rfl
    (Nat.zero_le _) conditions hsame
  refine ⟨last, htaken.trans hlast, haside.beforeRule.trans halone.beforeRule,
    hsame.trans (haside.conditions _ _).symm, haside.forum.trans hforum,
    haside.reports.trans hreports, hplane ▸ hlastPlane, ?_, ?_⟩
  · rw [hslots, htable, hplane, hnow, List.take_zero, List.drop_zero, List.nil_append]
  · simp only [hcomputations, hnothing, Nat.zero_add, probeNow, hgeneration]

/-- What a run that nothing disturbs has come to: its report and the engine after it, with the place
and the path of the winner. -/
structure Fulfilled (conditions : Conditions) (routing : Routing) (before after : Engine)
    (report : Report) (index : Nat) (path : Path) : Prop where
  /-- The candidates are installed in their order, and then the winner. -/
  installed : computationsIn after.history = computationsIn before.history ++
    (before.selector.candidates.paths.mapIdx fun place path =>
      ⟨.candidate before.runsStarted place, path, routing.generation, routing⟩) ++
    [⟨.winner before.runsStarted index, path, routing.generation, routing⟩]
  generation : report.generation = before.selector.candidates.generation
  count : report.throughputs.length = before.selector.candidates.paths.length
  /-- The throughput of each candidate is what its trial has made of the slot before. -/
  throughputs : report.throughputs = List.zipWith conditions.slot
    (conditions.trials before.plane before.now before.selector.candidates.paths) before.slotsBefore
  selected : report.selected = some index
  winner : before.selector.candidates.paths[index]? = some path
  best : ∃ kbps, ThroughputTable.IsBest report.throughputs index kbps
  committed : report.committed = true ↔
    conditions.Installs (conditions.lastPlane before.plane before.selector.candidates.paths) path
  /-- The rules that the switches take are those of each candidate and then those of the winner. -/
  rules : after.plane.rules = before.plane.rules ++
    (conditions.trials before.plane before.now before.selector.candidates.paths).flatMap
      conditions.taken ++
    conditions.installer.acceptedFor conditions.graph
      (conditions.lastPlane before.plane before.selector.candidates.paths) path
  /-- The winner is made active and announced if it has been installed, and nothing else happens to
  the selector and its listeners. -/
  forum : after.forum = if report.committed then
      (before.forum.settle Selector.serve (before.commitment index path)).1
    else before.forum
  /-- Unless a listener calls back, the winner is active then, -/
  active : before.forum.audience.Quiet → after.selector.candidates.active =
    if report.committed then some index else before.selector.candidates.active
  /-- and every listener has been told of it once if another path was active before. -/
  told : before.forum.audience.Quiet → after.forum.calls = before.forum.calls ++
    if report.committed = true ∧ before.selector.candidates.active ≠ some index then
      before.forum.audience.members.map fun member =>
        ⟨member, .pathChanged ⟨index, path, .switched⟩, after.selector⟩
    else []
  filed : after.reports = before.reports ++ [(before.runsStarted, report)]
  free : after.guard.busy = false
  phase : after.phase = .idle

/-- What listeners that do not call back leave of a commitment. -/
theorem settle_commitment (hquiet : engine.forum.audience.Quiet) (index : Nat) (path : Path) :
    let forum := (engine.forum.settle Selector.serve (engine.commitment index path)).1
    forum.state.candidates.active = some index ∧
      forum.calls = engine.forum.calls ++
        if engine.selector.candidates.active ≠ some index then
          engine.forum.audience.members.map fun member =>
            ⟨member, .pathChanged ⟨index, path, .switched⟩, forum.state⟩
        else [] := by
  rw [Forum.settle_of_quiet Selector.serve hquiet]
  refine ⟨rfl, ?_⟩
  simp only [commitment, ne_eq, ite_not]
  split <;> simp [Forum.callsFor]

/-- A switch run that is triggered where nothing but time is in its way comes to an end, and to only
one: each candidate is tried once, in its turn, and the best is made active if it can be
installed. -/
theorem trigger_fulfilled (h : engine.Steady) (hperiod : 0 < engine.settings.monitorPeriod)
    (hfree : engine.guard.busy = false) {routing : Routing}
    (hrouting : engine.selector.routing = some routing)
    (hpaths : engine.selector.candidates.paths ≠ []) (hrule : engine.beforeRule = none)
    (hreading : engine.beforeReading = none) (polls : Nat → Telemetry) :
    ∃ after report index path,
      (∀ other, Ends polls engine.trigger.1 other ↔ other = after) ∧
      Fulfilled (engine.conditions routing.graph polls) routing engine after report index path := by
  have hgeneration := (h.consistent.generation_eq hrouting).symm
  generalize hconditions : engine.conditions routing.graph polls = conditions
  obtain ⟨last, hlast, hlastRule, hsame, hforum, hreports, hplane, hslots, hcomputations⟩ :=
    trigger_tries hperiod hfree hrouting hgeneration hpaths hrule hreading hconditions.symm
  have hlength :
      last.recorder.table.samples.length = engine.selector.candidates.paths.length := by
    have htrials := congrArg List.length (conditions.map_path_trials engine.plane engine.now
      engine.selector.candidates.paths)
    rw [List.length_map] at htrials
    rw [hslots, List.length_zipWith, htrials, length_slotsBefore, Nat.min_self]
  have hsome : last.recorder.table.samples ≠ [] := fun hnil =>
    hpaths (List.eq_nil_of_length_eq_zero (hlength ▸ congrArg List.length hnil))
  obtain ⟨index, kbps, hbest, his⟩ := ThroughputTable.best?_isBest hsome
  obtain ⟨path, hpath⟩ : ∃ path, engine.selector.candidates.paths[index]? = some path :=
    ⟨_, List.getElem?_eq_getElem (hlength ▸ (List.getElem?_eq_some_iff.mp his.slot).1)⟩
  have hselector : last.selector = engine.selector := congrArg Forum.state hforum
  obtain ⟨history, hwinner, hconclude⟩ := @conclude_of_peaceful last polls
    (engine.probeNow routing) index path hlastRule (by rw [hselector]; rfl) (by rw [hselector]; rfl)
    kbps hbest hpath engine.runsStarted conditions hsame
  have hends : Ends polls engine.trigger.1 (last.conclude engine.runsStarted
      (engine.probeNow routing)) := ⟨hlast, by rw [hconclude]; rfl⟩
  have hfulfilled : Fulfilled conditions routing engine
      (last.conclude engine.runsStarted (engine.probeNow routing))
      { generation := engine.selector.candidates.generation
        throughputs := last.recorder.table.samples
        selected := some index
        committed := decide (conditions.Installs last.plane path)
        elapsed := last.now - engine.now } index path := by
    have hcommitted : last.forum.settle Selector.serve (last.commitment index path) =
        engine.forum.settle Selector.serve (engine.commitment index path) := by
      simp only [commitment, hselector, hforum]
    rw [hconclude, hcommitted, hforum]
    exact {
      installed := by simp only [finishRun, hwinner, hcomputations, probeNow, hgeneration]
      generation := rfl
      count := hlength
      throughputs := hslots
      selected := rfl
      winner := hpath
      best := ⟨kbps, his⟩
      committed := by rw [decide_eq_true_iff, hplane]
      rules := by
        rw [← conditions.lastPlane_rules, ← hplane]
        exact conditions.installer.attempt_rules conditions.graph last.plane path
      forum := by simp only [finishRun, decide_eq_true_eq]
      active := by
        intro hquiet
        obtain ⟨hactive, -⟩ := settle_commitment hquiet index path
        by_cases hinstalls : conditions.Installs last.plane path
        · simp only [hinstalls, if_true, decide_true]
          exact hactive
        · simp only [hinstalls, if_false, decide_false, Bool.false_eq_true]
          rfl
      told := by
        intro hquiet
        obtain ⟨-, hcalls⟩ := settle_commitment hquiet index path
        by_cases hinstalls : conditions.Installs last.plane path
        · simp only [hinstalls, if_true, decide_true, true_and]
          exact hcalls
        · simp only [hinstalls, if_false, decide_false, Bool.false_eq_true, false_and,
            List.append_nil]
          rfl
      filed := by simp only [finishRun, hreports, probeNow]
      free := rfl
      phase := rfl }
  exact ⟨_, _, index, path, fun other =>
    ⟨fun hother => hother.unique hends, fun heq => heq ▸ hends⟩, hfulfilled⟩

/-- An engine whose last flow has three candidates.  Only the last of them has edges both ways. -/
def branching : Engine := tangled.play [.packet (packetBetween 1 4)]

theorem branching_reachable : Reachable ⟨[], []⟩ tangledSettings branching :=
  tangled_reachable.play _

/-- Readings of the port by which the last candidate leaves its first switch. -/
def steadyPolls (_ : Nat) : Telemetry := ⟨[(⟨⟨1⟩, ⟨2⟩⟩, ⟨700000, 100000⟩)]⟩

/-- An engine in a switch run, which waits for that candidate to settle. -/
def settling : Engine :=
  branching.play [.telemetry ⟨⟨1⟩, ⟨2⟩⟩ (some ⟨700000, 100000⟩), .trigger]

theorem settling_reachable : Reachable ⟨[], []⟩ tangledSettings settling :=
  branching_reachable.play _

/-- The last candidate is selected and made active. -/
theorem trigger_fulfilled_branching :
    ∃ after report,
      (∀ other, Ends steadyPolls branching.trigger.1 other ↔ other = after) ∧
      Fulfilled (branching.conditions Graph.tangle steadyPolls) ⟨1, Graph.tangle⟩ branching after
        report 2 ⟨[⟨1⟩, ⟨4⟩]⟩ ∧
      report.throughputs = [0, 0, 800] ∧ report.committed = true := by
  obtain ⟨after, report, index, path, hends, hfulfilled⟩ :=
    trigger_fulfilled branching_reachable.steady (by decide) rfl
      (show branching.selector.routing = some ⟨1, Graph.tangle⟩ from rfl) (by decide) rfl rfl
      steadyPolls
  have hthroughputs : report.throughputs = [0, 0, 800] :=
    hfulfilled.throughputs.trans (by decide)
  obtain ⟨kbps, hbest⟩ := hfulfilled.best
  rw [hthroughputs] at hbest
  -- a place before the last one holds a zero, which the last one exceeds
  obtain rfl : index = 2 := by
    have hmost := hbest.most 2 800 rfl
    match index, hbest.slot with
    | 0, hslot | 1, hslot =>
      obtain rfl := Option.some.inj hslot
      exact absurd hmost (by decide)
    | 2, _ => rfl
  obtain rfl : path = ⟨[⟨1⟩, ⟨4⟩]⟩ := Option.some.inj (hfulfilled.winner.symm.trans rfl)
  exact ⟨after, report, hends, hfulfilled, hthroughputs, hfulfilled.committed.mpr (by decide)⟩

end Engine

end TrafficSteering
