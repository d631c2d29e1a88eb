import TrafficSteering.Proofs.Engine.Busy
import TrafficSteering.Proofs.Engine.Spared
set_option autoImplicit false

/-!
# Keeping time

The clock moves only where time is let pass.  All else that an engine does, it does at one time
(`Simultaneous`), and so do the run and the monitor when they are due: the run waits afterwards for
one settle period, the monitor for one monitor period.  Both are positive, so whatever happens takes
off from what can still happen up to a given time.  `pressure` counts this, and it is never more
than the number of tasks that are allowed: when time has passed, all that was due has happened.
-/

namespace TrafficSteering

/-- Nothing has moved the clock between two moments, nor set the monitor or the settings. -/
structure Moment.Simultaneous (before after : Moment) : Prop where
  settings : after.settings = before.settings
  monitor : after.monitor = before.monitor
  now : after.now = before.now

theorem Moment.Simultaneous.refl (moment : Moment) : moment.Simultaneous moment := ⟨rfl, rfl, rfl⟩

theorem Moment.Simultaneous.trans {first second third : Moment} (h : first.Simultaneous second)
    (hnext : second.Simultaneous third) : first.Simultaneous third :=
  ⟨hnext.settings.trans h.settings, hnext.monitor.trans h.monitor, hnext.now.trans h.now⟩

theorem Moment.Spared.simultaneous {before after : Moment} (h : before.Spared after) :
    before.Simultaneous after := ⟨h.settings, h.monitor, h.now⟩

/-- The candidates of a run: those of the selector until the run takes them up, and then its own. -/
def Moment.roster (moment : Moment) (run : Run) : List Path :=
  match run.stage with
  | .spawned => moment.selector.candidates.paths
  | .settling probe _ => probe.paths

namespace Engine

open Moment

variable {engine after : Engine}

/-! ## Operations take no time -/

theorem installPath_instant (engine : Engine) (computation : Computation) :
    engine.Simultaneous (engine.installPath computation).1.toMoment :=
  (installWith_spares offer_spares engine computation).simultaneous

theorem measure_instant (engine : Engine) (graph : Graph) (generation : Nat) (paths : List Path)
    (index : Nat) :
    engine.Simultaneous (engine.measure graph generation paths index).1.toMoment := by
  cases hport : paths[index]?.bind graph.measuredAt? with
  | none =>
    rw [measure_of_no_port hport]
    exact .refl _
  | some port =>
    rw [measure_of_port hport]
    exact (atReading_spares engine).simultaneous.trans ⟨rfl, rfl, rfl⟩

theorem measureNow_instant (engine : Engine) (index : Nat) :
    engine.Simultaneous (engine.measureNow index).1.toMoment := by
  unfold measureNow
  split
  · exact .refl _
  · exact measure_instant _ _ _ _ _

theorem installForPacket_instant (engine : Engine) (graph : Graph) (path : Path) (packet : Packet) :
    engine.Simultaneous
      (engine.installer.installForPacket offer graph path packet engine).1.toMoment := by
  unfold Installer.installForPacket
  split
  · exact .refl _
  · exact .refl _
  · rename_i rule _
    have hone := (offer_spares engine rule).simultaneous
    rcases hanswer : offer engine rule with ⟨next, fault | ⟨⟩⟩
    · rw [hanswer] at hone
      exact hone
    · rw [hanswer] at hone
      exact hone

theorem answerPacket_instant (engine : Engine) (packet : Packet)
    (answer : Except Fault (Option Selection)) :
    engine.Simultaneous (engine.answerPacket packet answer).1.toMoment := by
  unfold answerPacket
  split
  · exact .refl _
  · exact .refl _
  · rename_i selection
    split
    · exact .refl _
    · rename_i routing _
      have hnoted : engine.Simultaneous (engine.note (.computed ⟨.packet packet, selection.path,
        selection.generation, routing⟩)).toMoment := .refl _
      exact hnoted.trans (installForPacket_instant (engine.note _) routing.graph selection.path
        packet)

theorem handlePacket_instant (engine : Engine) (packet : Packet) :
    engine.Simultaneous (engine.handlePacket packet).1.toMoment := by
  unfold handlePacket
  split
  · exact .refl _
  · split
    · exact .refl _
    · exact .refl _
    · rename_i src dst _ _
      have hselect : engine.Simultaneous (engine.perform fun selector =>
        selector.select src.switch dst.switch).1.toMoment := ⟨rfl, rfl, rfl⟩
      exact hselect.trans (answerPacket_instant _ packet _)

theorem trigger_instant (engine : Engine) : engine.Simultaneous engine.trigger.1.toMoment := by
  unfold trigger
  split <;> exact ⟨rfl, rfl, rfl⟩

theorem tick_instant (engine : Engine) : engine.Simultaneous engine.tick.1.toMoment := by
  unfold tick
  split
  · exact .refl _
  · split
    · exact .refl _
    · simp only
      split
      · rename_i index path routing _ _
        split
        · have hmeasured := measure_instant engine routing.graph
            engine.selector.candidates.generation engine.selector.candidates.paths index
          split
          · rename_i next kbps hanswer
            rw [hanswer] at hmeasured
            refine hmeasured.trans ?_
            have htriggered := trigger_instant next
            unfold judge
            split
            · split
              · rename_i htrigger
                rw [htrigger] at htriggered
                exact htriggered
              · rename_i htrigger
                rw [htrigger] at htriggered
                exact htriggered
            · split <;> exact .refl _
          · rename_i hanswer
            rw [hanswer] at hmeasured
            exact hmeasured
        · exact .refl _
      · exact .refl _

theorem obeyAll_now (engine : Engine) (commands : List Command) :
    (commands.foldl obey engine).now = engine.now := by
  induction commands generalizing engine with
  | nil => rfl
  | cons command rest ih =>
    have hfirst : (engine.obey command).now = engine.now := by
      cases command with
      | start | stop => rfl
      | reroute => exact (rerouteWith_spares offer_spares engine).now
    exact (ih _).trans hfirst

/-- Nothing that is done from outside moves the clock, unless time is let pass. -/
theorem act_now (engine : Engine) {action : Action} (hnow : ¬ action.Lasting) :
    (engine.act action).1.now = engine.now := by
  cases action with
  | packet packet => exact (handlePacket_instant engine packet).now
  | reroute => exact (rerouteWith_spares offer_spares engine).now
  | control stream => exact obeyAll_now engine (Session.serve stream).1
  | tick => exact (tick_instant engine).now
  | measure index => exact (measureNow_instant engine index).now
  | trigger =>
    have htriggered := (trigger_instant engine).now
    simp only [act]
    split
    · rename_i hanswer
      rw [hanswer] at htriggered
      exact htriggered
    · rename_i hanswer
      rw [hanswer] at htriggered
      exact htriggered
  | grab =>
    simp only [act, grab]
    split <;> rfl
  | release =>
    simp only [act, release]
    split <;> rfl
  | signal value =>
    simp only [act, signal]
    split <;> rfl
  | sleep | await => exact absurd trivial hnow
  | _ => rfl

theorem obeyAll_run (hbusy : engine.guard.busy = true) (commands : List Command) :
    (commands.foldl obey engine).run = engine.run := by
  induction commands generalizing engine with
  | nil => rfl
  | cons command rest ih =>
    cases command with
    | start | stop => exact ih hbusy
    | reroute =>
      have hnothing : engine.obey .reroute = engine := congrArg Prod.fst (rerouteWith_of_busy hbusy)
      rw [List.foldl_cons, hnothing]
      exact ih hbusy

/-- While a run goes on, nothing that is done from outside touches it, unless time is let pass. -/
theorem act_run (h : engine.Steady) {run : Run} (hrun : engine.run = some run) {action : Action}
    (hnow : ¬ action.Lasting) : (engine.act action).1.run = some run := by
  obtain ⟨hbusy, hkept, -⟩ := h.exclusive.of_run hrun
  rw [← hrun]
  cases action with
  | packet packet => exact ((handlePacket_course h packet).undisturbed hbusy).run
  | reroute => rw [act_of_gated hbusy (show Action.reroute.Gated from trivial)]
  | control stream => exact obeyAll_run hbusy (Session.serve stream).1
  | tick => rw [act_of_gated hbusy (show Action.tick.Gated from trivial)]
  | measure index => exact ((measureNow_course h index).undisturbed hbusy).run
  | trigger => rw [act_of_gated hbusy (show Action.trigger.Gated from trivial)]
  | grab => exact ((grab_course engine).undisturbed hbusy).run
  | release => simp only [act, release, hkept, if_true]
  | signal value =>
    simp only [act, signal]
    split <;> rfl
  | sleep | await => exact absurd trivial hnow
  | _ => rfl

/-! ## Runs and monitors wait -/

theorem installWinner_instant (engine : Engine) (number : Nat) (probe : Probe)
    (winner : Option Nat) :
    engine.Simultaneous (engine.installWinner number probe winner).1.toMoment := by
  unfold installWinner
  split
  · exact .refl _
  · rename_i index
    split
    · exact .refl _
    · rename_i path _
      have hinstall := installPath_instant engine
        ⟨.winner number index, path, probe.generation, probe.routing⟩
      split
      · rename_i next _ hanswer
        rw [hanswer] at hinstall
        exact hinstall.trans ⟨rfl, rfl, rfl⟩
      · rename_i hanswer
        rw [hanswer] at hinstall
        exact hinstall

theorem conclude_instant (engine : Engine) (number : Nat) (probe : Probe) :
    engine.Simultaneous (engine.conclude number probe).toMoment := by
  have hdeciding : engine.Simultaneous
    ({ engine with phase := .installing } : Engine).toMoment := ⟨rfl, rfl, rfl⟩
  exact (hdeciding.trans (installWinner_instant _ number probe _)).trans ⟨rfl, rfl, rfl⟩

/-- The run tries candidates at one time, and waits for the one that it has installed. -/
theorem tryFrom_instant (engine : Engine) (number : Nat) (probe : Probe) (index : Nat)
    (rest : List Path) :
    engine.Simultaneous (engine.tryFrom number probe index rest).toMoment ∧
    ∀ next, (engine.tryFrom number probe index rest).run = some next → ∃ place,
      next = ⟨number, .settling probe place, engine.after engine.settings.settlePeriod⟩ := by
  induction rest generalizing engine index with
  | nil =>
    refine ⟨conclude_instant engine number probe, fun next hnext => ?_⟩
    simp [tryFrom, conclude, finishRun] at hnext
  | cons path rest ih =>
    let tried : Engine := { engine with
      phase := .probing index, run := some ⟨number, .settling probe index, engine.now⟩ }
    have htried : engine.Simultaneous tried.toMoment := ⟨rfl, rfl, rfl⟩
    have hinstall := htried.trans (installPath_instant tried
      ⟨.candidate number index, path, probe.generation, probe.routing⟩)
    simp only [tryFrom]
    rcases hanswer : tried.installPath
        ⟨.candidate number index, path, probe.generation, probe.routing⟩ with ⟨next, fault | count⟩
    · rw [hanswer] at hinstall
      obtain ⟨hrest, hruns⟩ := ih next (index + 1)
      refine ⟨hinstall.trans hrest, fun last hlast => ?_⟩
      obtain ⟨place, rfl⟩ := hruns last hlast
      exact ⟨place, by rw [after, after, hinstall.now, hinstall.settings]⟩
    · rw [hanswer] at hinstall
      refine ⟨hinstall.trans ⟨rfl, rfl, rfl⟩, fun last hlast => ?_⟩
      obtain rfl := Option.some.inj hlast
      exact ⟨index, by rw [after, after, hinstall.now, hinstall.settings]⟩

/-- A run that goes on does so at one time.  Afterwards it is over, or it waits for one of its
candidates to settle. -/
theorem resumeRun_instant (engine : Engine) (run : Run) :
    engine.Simultaneous (engine.resumeRun run).toMoment ∧
    ∀ next, (engine.resumeRun run).run = some next → ∃ probe place,
      next = ⟨run.number, .settling probe place, engine.after engine.settings.settlePeriod⟩ ∧
      probe.paths = engine.roster run := by
  cases hstage : run.stage with
  | spawned =>
    simp only [resumeRun, hstage, beginRun]
    split
    · rename_i routing _
      split
      · obtain ⟨hrest, hruns⟩ := tryFrom_instant (engine.takeUp run.number ⟨engine.now,
          engine.selector.candidates.generation, routing, engine.selector.candidates.paths⟩)
          run.number ⟨engine.now, engine.selector.candidates.generation, routing,
            engine.selector.candidates.paths⟩ 0 engine.selector.candidates.paths
        refine ⟨⟨hrest.settings, hrest.monitor, hrest.now⟩, fun next hnext => ?_⟩
        obtain ⟨place, rfl⟩ := hruns next hnext
        exact ⟨_, place, rfl, by rw [roster, hstage]⟩
      · exact ⟨⟨rfl, rfl, rfl⟩, fun next hnext => by simp [finishRun] at hnext⟩
    · exact ⟨⟨rfl, rfl, rfl⟩, fun next hnext => by simp [finishRun] at hnext⟩
  | settling probe index =>
    have hmeasured := measure_instant engine probe.routing.graph probe.generation probe.paths index
    obtain ⟨hrest, hruns⟩ := tryFrom_instant (engine.measure probe.routing.graph probe.generation
      probe.paths index).1 run.number probe (index + 1) (probe.paths.drop (index + 1))
    simp only [resumeRun, hstage]
    refine ⟨hmeasured.trans hrest, fun next hnext => ?_⟩
    obtain ⟨place, rfl⟩ := hruns next hnext
    exact ⟨probe, place, by rw [after, after, hmeasured.now, hmeasured.settings],
      by rw [roster, hstage]⟩

/-! ## What is due happens -/

/-- The monitor and the candidates of a run wait for a positive time. -/
structure Paced (engine : Engine) : Prop where
  monitor : 0 < min engine.settings.monitorPeriod longestWait
  settle : 0 < min engine.settings.settlePeriod longestWait

theorem Turns.settings (hturns : Turns engine after) : after.settings = engine.settings := by
  induction hturns with
  | refl => rfl
  | tail _ hturn ih =>
    refine Eq.trans ?_ ih
    cases hturn <;> rfl

theorem Paced.turns (h : engine.Paced) (hturns : Turns engine after) : after.Paced := by
  obtain ⟨hmonitor, hsettle⟩ := h
  rw [← hturns.settings] at hmonitor hsettle
  exact ⟨hmonitor, hsettle⟩

theorem idle_paced {settings : Settings} (h : settings.validate = .ok ()) :
    (idle settings).Paced := by
  have hperiods : ¬ (settings.monitorPeriod = 0 ∨ settings.settlePeriod = 0) := by
    intro hzero
    simp [Settings.validate, hzero] at h
  have hlongest : 0 < longestWait := by decide
  exact ⟨Nat.lt_min.mpr ⟨by simp only [idle]; omega, hlongest⟩,
    Nat.lt_min.mpr ⟨by simp only [idle]; omega, hlongest⟩⟩

theorem validate_of_build {storage : Storage} {settings : Settings}
    (h : build storage settings = .ok engine) : settings.validate = .ok () := by
  unfold build at h
  split at h
  · simp at h
  · assumption

theorem Reachable.validated {storage : Storage} {settings : Settings}
    (h : Reachable storage settings engine) : settings.validate = .ok () := by
  induction h with
  | built hbuild => exact validate_of_build hbuild
  | acted _ _ ih => exact ih
  | happened _ _ ih => exact ih

/-- The conditions on the configuration make the periods positive, and nothing changes them. -/
theorem Reachable.paced {storage : Storage} {settings : Settings}
    (h : Reachable storage settings engine) : engine.Paced :=
  Paced.turns (idle_paced h.validated) h.turns

/-- The task that is due first is due no later than any other. -/
theorem Task.Pending.first {other : Task} (h : other.Pending engine) :
    ∃ task, engine.nextTask? = some task ∧ task.due ≤ other.due := by
  cases other with
  | goOn run =>
    rcases nextTask?_of_run h with hgoOn | ⟨due, -, hdue, hlook⟩
    · exact ⟨_, hgoOn, Nat.le_refl _⟩
    · exact ⟨_, hlook, Nat.le_of_lt hdue⟩
  | look due =>
    have hmonitor : engine.monitorTask? = some (.look due) := by
      have hwaiting : engine.monitor = .waiting due := h
      rw [monitorTask?, hwaiting]
    cases hrun : engine.run with
    | none => exact ⟨.look due, by simp only [nextTask?, hrun, hmonitor], Nat.le_refl _⟩
    | some run =>
      simp only [nextTask?, hrun, hmonitor]
      split
      · rename_i hfirst
        exact ⟨_, rfl, hfirst⟩
      · exact ⟨_, rfl, Nat.le_refl _⟩

theorem nextTask?_le_run {task : Task} (h : engine.nextTask? = some task) {run : Run}
    (hrun : engine.run = some run) : task.due ≤ run.due := by
  obtain ⟨first, hfirst, hle⟩ := (show (Task.goOn run).Pending engine from hrun).first
  obtain rfl := Option.some.inj (h.symm.trans hfirst)
  exact hle

/-- A look that is due counts twice, as it may start a run that is due at once. -/
def lookUrgency (now : Nat) : Monitor → Nat
  | .waiting due => if due ≤ now then 2 else 0
  | .off | .ended => 0

def runUrgency (now : Nat) : Option Run → Nat
  | some run => if run.due ≤ now then 1 else 0
  | none => 0

/-- How much can still happen up to a time. -/
def pressure (engine : Engine) (limit : Nat) : Nat :=
  3 * (limit - engine.now) + lookUrgency engine.now engine.monitor +
    runUrgency engine.now engine.run

theorem lookUrgency_le (now : Nat) (monitor : Monitor) : lookUrgency now monitor ≤ 2 := by
  unfold lookUrgency
  grind

theorem runUrgency_le (now : Nat) (run : Option Run) : runUrgency now run ≤ 1 := by
  unfold runUrgency
  grind

/-- A task happens at its time, or now if that is over, and takes off from what can still happen. -/
theorem happen_pressure (h : engine.Paced) {task : Task} (htask : engine.nextTask? = some task)
    {limit : Nat} (hdue : task.due ≤ limit) (hnow : engine.now ≤ limit) :
    (engine.happen task).now = max engine.now task.due ∧
      (engine.happen task).pressure limit < engine.pressure limit := by
  obtain ⟨hmonitorPeriod, hsettlePeriod⟩ := h
  cases task with
  | goOn run =>
    have hrun : engine.run = some run := nextTask?_pending htask
    obtain ⟨hsame, hnext⟩ := resumeRun_instant { engine with now := max engine.now run.due } run
    have hlater : (engine.happen (.goOn run)).now = max engine.now run.due := hsame.now
    have hmonitor : (engine.happen (.goOn run)).monitor = engine.monitor := hsame.monitor
    -- afterwards the run waits, if it is not over
    have hwaits : runUrgency (max engine.now run.due) (engine.happen (.goOn run)).run = 0 := by
      cases hlast : (engine.happen (.goOn run)).run with
      | none => rfl
      | some next =>
        obtain ⟨probe, place, rfl, -⟩ := hnext next hlast
        exact if_neg (by simp only [Engine.after]; omega)
    refine ⟨hlater, ?_⟩
    simp only [Task.due] at hdue
    simp only [pressure, hlater, hmonitor, hwaits]
    by_cases hlate : run.due ≤ engine.now
    · have hurgent : runUrgency engine.now engine.run = 1 := by
        rw [hrun]
        exact if_pos hlate
      rw [Nat.max_eq_left hlate, hurgent]
      omega
    · have hle := lookUrgency_le (max engine.now run.due) engine.monitor
      omega
  | look due =>
    have hmonitor : engine.monitor = .waiting due := nextTask?_pending htask
    have hsame := tick_instant { engine with now := max engine.now due }
    have hlater : (engine.happen (.look due)).now = max engine.now due := hsame.now
    have hwaits : (engine.happen (.look due)).monitor =
        .waiting (max engine.now due + min engine.settings.monitorPeriod longestWait) := by
      simp only [happen, resumeMonitor, Engine.after, Task.due, hsame.settings, hsame.now]
    -- afterwards the monitor waits, but it may have started a run
    have hlooked : lookUrgency (max engine.now due) (engine.happen (.look due)).monitor = 0 := by
      rw [hwaits]
      exact if_neg (by omega)
    have hstarted := runUrgency_le (max engine.now due) (engine.happen (.look due)).run
    refine ⟨hlater, ?_⟩
    simp only [Task.due] at hdue
    simp only [pressure, hlater, hlooked]
    by_cases hlate : due ≤ engine.now
    · have hurgent : lookUrgency engine.now engine.monitor = 2 := by
        rw [hmonitor]
        exact if_pos hlate
      rw [Nat.max_eq_left hlate] at hstarted ⊢
      omega
    · omega

/-- Given as many tasks as can still happen, all that is due up to a time happens. -/
theorem happenUntil_spends {limit steps : Nat} (hsteady : engine.Steady) (h : engine.Paced)
    (hnow : engine.now ≤ limit) (hsteps : engine.pressure limit ≤ steps) {task : Task}
    (htask : (happenUntil limit steps engine).nextTask? = some task) : limit < task.due := by
  induction steps generalizing engine with
  | zero =>
    refine Nat.lt_of_not_le fun hdue => ?_
    have hless := (happen_pressure h htask hdue hnow).2
    omega
  | succ steps ih =>
    unfold happenUntil at htask
    cases hfirst : engine.nextTask? with
    | none =>
      simp only [hfirst] at htask
      cases htask
    | some first =>
      simp only [hfirst] at htask
      by_cases hdue : first.due ≤ limit
      · obtain ⟨hlater, hless⟩ := happen_pressure h hfirst hdue hnow
        have hturns := happen_turns hsteady (nextTask?_pending hfirst)
        rw [if_pos hdue] at htask
        exact ih (hturns.steady hsteady) (h.turns hturns)
          (hlater ▸ Nat.max_le.mpr ⟨hnow, hdue⟩) (by omega) htask
      · rw [if_neg hdue] at htask
        obtain rfl := Option.some.inj (hfirst.symm.trans htask)
        exact Nat.lt_of_not_le hdue

/-- As many tasks are allowed as can still happen.  So when time has passed up to a limit, all that
was due has happened. -/
theorem passUntil_spends (hsteady : engine.Steady) (h : engine.Paced) {limit : Nat}
    (hnow : engine.now ≤ limit) {task : Task} (htask : task.Pending (engine.passUntil limit)) :
    limit < task.due := by
  have hsteps : engine.pressure limit ≤ 3 * (limit + 1 - engine.now) := by
    have hlook := lookUrgency_le engine.now engine.monitor
    have hrun := runUrgency_le engine.now engine.run
    unfold pressure
    omega
  have hpending : task.Pending (happenUntil limit (3 * (limit + 1 - engine.now)) engine) := by
    cases task <;> exact htask
  obtain ⟨first, hfirst, hdue⟩ := hpending.first
  exact Nat.lt_of_lt_of_le (happenUntil_spends hsteady h hnow hsteps hfirst) hdue

end Engine

end TrafficSteering
