import TrafficSteering.Proofs.Engine.Schedule
set_option autoImplicit false

/-!
# The timeline of a switch run

While a run goes on, anything may be done to the engine: topologies and switches change, readings
come and go, rules are refused, the monitor looks, time is let pass in any portions.  `Chronicle`
follows the engine through all this and collects what the run does with its candidates meanwhile.
Nothing can be done that is not a chronicle (`Chronicle.act`), as time never passes a task that is
due.

However a chronicle goes on, the run is where its schedule has it, and in the end it is over.
-/

namespace TrafficSteering.Engine

open Moment

variable {engine start : Engine} {number : Nat} {deeds : List Deed}

/-! ## Chronicles -/

/-- What the run with this number does with its candidates while a task happens. -/
def deedsOf (engine : Engine) (number : Nat) : Task → List Deed
  | .goOn run =>
    if run.number = number then
      ({ engine with now := max engine.now run.due }.resumeRunTold run).2
    else []
  | .look _ => []

/-- What can happen from one moment on, and what the run with this number does with its candidates
meanwhile. -/
inductive Chronicle (number : Nat) (start : Engine) : Engine → List Deed → Prop where
  | refl : Chronicle number start start []
  /-- Something is done that takes no time. -/
  | acted {engine : Engine} {deeds : List Deed} (h : Chronicle number start engine deeds)
      {action : Action} (hnow : ¬ action.Lasting) :
      Chronicle number start (engine.act action).1 deeds
  /-- Somebody begins to wait for a report. -/
  | asked {engine : Engine} {deeds : List Deed} (h : Chronicle number start engine deeds)
      (awaitable : List Nat) : Chronicle number start { engine with awaitable } deeds
  /-- Time passes, but not beyond what is due. -/
  | passed {engine : Engine} {deeds : List Deed} (h : Chronicle number start engine deeds)
      {limit : Nat} (hlimit : ∀ task, engine.nextTask? = some task → limit ≤ task.due) :
      Chronicle number start { engine with now := max engine.now limit } deeds
  /-- What is due first happens. -/
  | happened {engine : Engine} {deeds : List Deed} (h : Chronicle number start engine deeds)
      {task : Task} (htask : engine.nextTask? = some task) :
      Chronicle number start (engine.happen task) (deeds ++ engine.deedsOf number task)

namespace Chronicle

theorem turns (h : Chronicle number start engine deeds) (hsteady : start.Steady) :
    Turns start engine := by
  induction h with
  | refl => exact .refl
  | acted _ _ ih => exact ih.trans (act_turns (ih.steady hsteady) _)
  | asked _ awaitable ih => exact ih.tail (waited_turn _ awaitable _ _)
  | passed _ _ ih => exact ih.tail (waited_turn _ _ _ _)
  | happened _ htask ih =>
    exact ih.trans (happen_turns (ih.steady hsteady) (nextTask?_pending htask))

theorem steady (h : Chronicle number start engine deeds) (hsteady : start.Steady) :
    engine.Steady :=
  (h.turns hsteady).steady hsteady

theorem paced (h : Chronicle number start engine deeds) (hsteady : start.Steady)
    (hpaced : start.Paced) : engine.Paced :=
  hpaced.turns (h.turns hsteady)

section

variable (hsteady : start.Steady) (hpaced : start.Paced)
include hsteady hpaced

/-- Time that passes up to a limit passes nothing that is due. -/
theorem passUntil (h : Chronicle number start engine deeds) (limit : Nat) :
    ∃ more, Chronicle number start (engine.passUntil limit) (deeds ++ more) := by
  rcases Nat.lt_or_ge limit engine.now with hlt | hge
  · have hstill : engine.passUntil limit = engine := by
      rw [Engine.passUntil, Nat.sub_eq_zero_of_le hlt]
      simp only [happenUntil, Nat.max_eq_left (Nat.le_of_lt hlt)]
    exact ⟨[], by rwa [hstill, List.append_nil]⟩
  · obtain ⟨more, hlater⟩ : ∃ more, Chronicle number start
        (happenUntil limit (3 * (limit + 1 - engine.now)) engine) (deeds ++ more) := by
      refine happenUntil_induction
        (motive := fun later => ∃ more, Chronicle number start later (deeds ++ more)) ?_
        ⟨[], by rwa [List.append_nil]⟩ limit _
      rintro later task ⟨more, hlater⟩ htask
      exact ⟨_, by rw [← List.append_assoc]; exact hlater.happened htask⟩
    refine ⟨more, hlater.passed fun task htask => Nat.le_of_lt ?_⟩
    refine passUntil_spends (h.steady hsteady) (h.paced hsteady hpaced) hge ?_
    have hpending := nextTask?_pending htask
    cases task <;> exact hpending

theorem passUntilOver (h : Chronicle number start engine deeds) (awaited waits : Nat) :
    ∃ more, Chronicle number start (passUntilOver awaited waits engine) (deeds ++ more) := by
  induction waits generalizing engine deeds with
  | zero => exact ⟨[], by rwa [List.append_nil]⟩
  | succ waits ih =>
    unfold Engine.passUntilOver
    split
    · obtain ⟨more, hlater⟩ := h.passUntil hsteady hpaced _
      obtain ⟨others, hlast⟩ := ih hlater
      exact ⟨more ++ others, by rwa [← List.append_assoc]⟩
    · exact ⟨[], by rwa [List.append_nil]⟩

/-- Whatever is done, be it in time or at once, is a chronicle. -/
theorem act (h : Chronicle number start engine deeds) (action : Action) :
    ∃ more, Chronicle number start (engine.act action).1 (deeds ++ more) := by
  by_cases hlasting : action.Lasting
  · cases action with
    | sleep span => exact h.passUntil hsteady hpaced _
    | await =>
      simp only [Engine.act, await]
      split
      · exact ⟨[], by rwa [List.append_nil]⟩
      · exact (h.asked _).passUntilOver hsteady hpaced _ _
    | _ => exact hlasting.elim
  · exact ⟨[], by rw [List.append_nil]; exact h.acted hlasting⟩

end

end Chronicle

/-! ## Where a run stands -/

theorem Turns.reports_subset {after : Engine} (hturns : Turns engine after) :
    engine.reports ⊆ after.reports := by
  induction hturns with
  | refl => exact List.Subset.refl _
  | tail _ hturn ih =>
    refine List.Subset.trans ih ?_
    cases hturn with
    | finished _ report => exact List.subset_append_left _ _
    | _ => exact List.Subset.refl _

/-- A run has been started at a time and has not begun its work. -/
structure Spawned (engine : Engine) (number time : Nat) : Prop where
  run : engine.run = some ⟨number, .spawned, time⟩
  now : engine.now = time

/-- There are candidates on the graph that is installed. -/
structure Current (engine : Engine) (routing : Routing) : Prop where
  installed : engine.selector.routing = some routing
  generation : routing.generation = engine.selector.candidates.generation
  candidates : engine.selector.candidates.paths ≠ []

/-- The run that is started has just been due, and has found these candidates. -/
structure Begins (number : Nat) (start begun : Engine) (probe : Probe) : Prop where
  since : Chronicle number start begun []
  spawned : begun.Spawned number start.now
  found : ∃ routing, begun.Current routing ∧ probe = begun.probeNow routing

theorem Begins.started {begun : Engine} {probe : Probe} (h : Begins number start begun probe) :
    probe.started = start.now := by
  obtain ⟨routing, -, rfl⟩ := h.found
  exact h.spawned.now

/-- What the run of an engine goes by. -/
def schedule (start : Engine) (probe : Probe) : Schedule :=
  ⟨probe.paths, start.now, min start.settings.settlePeriod longestWait⟩

/-- The run is not over. -/
inductive Going (number : Nat) (start engine : Engine) (deeds : List Deed) : Prop where
  | spawned (h : engine.Spawned number start.now) (hnothing : deeds = [])
  | waits {begun : Engine} {probe : Probe} {outcomes : List Bool}
      (hbegun : Begins number start begun probe)
      (h : engine.Waits number probe (start.schedule probe) outcomes deeds)

/-- The run has just come to its end. -/
inductive Gone (number : Nat) (start engine : Engine) (deeds : List Deed) : Prop where
  | concluded {begun : Engine} {probe : Probe} {outcomes : List Bool} {report : Report}
      (hbegun : Begins number start begun probe)
      (h : engine.Concluded number (start.schedule probe) outcomes deeds report)
  /-- It has found no candidates, and all that happens is that it ends. -/
  | nothing {begun : Engine} (hbegun : Chronicle number start begun [])
      (hspawned : begun.Spawned number start.now) (hnone : ∀ routing, ¬ begun.Current routing)
      (h : engine = begun.finishRun number
        ⟨begun.selector.candidates.generation, [], none, false, 0⟩)
      (hnothing : deeds = [])

/-- A run was over at a moment between, and has done nothing since. -/
structure Ended (number : Nat) (start engine : Engine) (deeds : List Deed) (ending : Engine) :
    Prop where
  since : Chronicle number start ending deeds
  gone : Gone number start ending deeds
  /-- The phase is idle again, and the permit is free. -/
  rest : ending.AtRest
  after : Chronicle number ending engine []

/-! ## The run goes on -/

/-- The run holds the permit, so nothing comes of a look of the monitor. -/
theorem happen_look_of_run (hsteady : engine.Steady) {run : Run} (hrun : engine.run = some run)
    (due : Nat) :
    engine.happen (.look due) = { engine with
      monitor := .waiting (max engine.now due + min engine.settings.monitorPeriod longestWait)
      now := max engine.now due } :=
  @resumeMonitor_of_busy { engine with now := max engine.now due }
    (hsteady.exclusive.of_run hrun).1

namespace Going

theorem run (h : Going number start engine deeds) :
    ∃ run, engine.run = some run ∧ run.number = number := by
  cases h with
  | spawned hspawned => exact ⟨_, hspawned.run, rfl⟩
  | waits _ hwaits => exact ⟨_, hwaits.run, rfl⟩

theorem now_le (h : Going number start engine deeds) {run : Run} (hrun : engine.run = some run) :
    engine.now ≤ run.due := by
  cases h with
  | spawned hspawned =>
    obtain rfl := Option.some.inj (hrun.symm.trans hspawned.run)
    exact Nat.le_of_eq hspawned.now
  | waits _ hwaits =>
    obtain rfl := Option.some.inj (hrun.symm.trans hwaits.run)
    exact hwaits.now

/-- Nothing happens to a run before it is due. -/
theorem still (h : Going number start engine deeds) {after : Engine}
    (hrun : after.run = engine.run) (hnow : engine.now ≤ after.now)
    (hdue : ∀ run, engine.run = some run → engine.now ≤ run.due → after.now ≤ run.due) :
    Going number start after deeds := by
  cases h with
  | spawned hspawned hnothing =>
    have htime := hdue _ hspawned.run (Nat.le_of_eq hspawned.now)
    exact .spawned ⟨hrun.trans hspawned.run, Nat.le_antisymm htime (hspawned.now ▸ hnow)⟩ hnothing
  | waits hbegun hwaits =>
    exact .waits hbegun ⟨hrun.trans hwaits.run, hdue _ hwaits.run hwaits.now, hwaits.tried⟩

end Going

theorem OnSchedule.stands {begun : Engine} {probe : Probe}
    (hbegun : Begins number start begun probe)
    (h : engine.OnSchedule number probe (start.schedule probe) deeds) :
    Going number start engine deeds ∨ Gone number start engine deeds := by
  cases h with
  | waits hwaits => exact .inl (.waits hbegun hwaits)
  | concluded hconcluded => exact .inr (.concluded hbegun hconcluded)

/-- A run that has been started finds candidates and turns to them, or it is over. -/
theorem Spawned.beginRunTold (h : engine.Spawned number start.now)
    (hsince : Chronicle number start engine []) (hsettings : engine.settings = start.settings) :
    Going number start (engine.beginRunTold number).1 (engine.beginRunTold number).2 ∨
      Gone number start (engine.beginRunTold number).1 (engine.beginRunTold number).2 := by
  unfold Engine.beginRunTold
  simp only
  split
  · rename_i routing hrouting
    split
    · rename_i hcandidates
      have hbegun : Begins number start engine (engine.probeNow routing) :=
        ⟨hsince, h, routing, ⟨hrouting, hcandidates.1, hcandidates.2⟩, rfl⟩
      have hkept := @tryFromTold_kept (engine.takeUp number (engine.probeNow routing))
        (engine.probeNow routing) number (start.schedule (engine.probeNow routing)) h.now rfl
        (congrArg (min ·.settlePeriod longestWait) hsettings)
      exact (hkept Schedule.kept_nil h.now rfl (Nat.zero_le _) rfl).stands hbegun
    · rename_i hnone
      refine .inr (.nothing hsince h (fun other hcurrent => hnone ?_) rfl rfl)
      obtain rfl := Option.some.inj (hrouting.symm.trans hcurrent.installed)
      exact ⟨hcurrent.generation, hcurrent.candidates⟩
  · rename_i hnone
    refine .inr (.nothing hsince h (fun other hcurrent => ?_) rfl rfl)
    have hinstalled := hnone.symm.trans hcurrent.installed
    cases hinstalled

/-- A step of a run is one that tells what it does. -/
theorem happen_goOn (engine : Engine) (run : Run) :
    engine.happen (.goOn run) =
      (({ engine with now := max engine.now run.due } : Engine).resumeRunTold run).1 :=
  (resumeRunTold_fst _ run).symm

/-- A step of the run keeps to its schedule. -/
theorem Going.goOn (h : Going number start engine deeds)
    (hsince : Chronicle number start engine deeds) (hsettings : engine.settings = start.settings)
    {run : Run} (hrun : engine.run = some run) :
    Going number start (engine.happen (.goOn run))
        (deeds ++ engine.deedsOf number (.goOn run)) ∨
      Gone number start (engine.happen (.goOn run))
        (deeds ++ engine.deedsOf number (.goOn run)) := by
  rw [happen_goOn, deedsOf]
  cases h with
  | spawned hspawned hnothing =>
    obtain rfl := Option.some.inj (hrun.symm.trans hspawned.run)
    subst hnothing
    rw [if_pos rfl, List.nil_append, Nat.max_eq_left (Nat.le_of_eq hspawned.now.symm)]
    exact hspawned.beginRunTold hsince hsettings
  | @waits begun probe outcomes hbegun hwaits =>
    obtain rfl := Option.some.inj (hrun.symm.trans hwaits.run)
    rw [if_pos rfl, Nat.max_eq_right hwaits.now]
    let due := (start.schedule probe).time outcomes + (start.schedule probe).wait
    have hdue : ({ engine with now := due } : Engine).Waits number probe (start.schedule probe)
      outcomes deeds := ⟨hwaits.run, Nat.le_refl due, hwaits.tried⟩
    exact (hdue.resumeRunTold hbegun.started rfl
      (congrArg (min ·.settlePeriod longestWait) hsettings) rfl hwaits.run).stands hbegun

/-- Once the report of a run is filed, the run does not go on. -/
theorem number_ne_of_filed (hsteady : engine.Steady) {report : Report}
    (hfiled : (number, report) ∈ engine.reports) {run : Run} (hrun : engine.run = some run) :
    run.number ≠ number := by
  rintro rfl
  exact ((hsteady.exclusive.unfinished_iff _).mpr ⟨run, hrun, rfl⟩).2 report hfiled

theorem deedsOf_of_filed (hsteady : engine.Steady) {report : Report}
    (hfiled : (number, report) ∈ engine.reports) {task : Task} (htask : task.Pending engine) :
    engine.deedsOf number task = [] := by
  cases task with
  | look due => rfl
  | goOn run => exact if_neg (number_ne_of_filed hsteady hfiled htask)

theorem Gone.filed (h : Gone number start engine deeds) :
    ∃ report, (number, report) ∈ engine.reports := by
  cases h with
  | concluded _ hconcluded => exact ⟨_, hconcluded.filed⟩
  | nothing _ _ _ hending =>
    subst hending
    exact ⟨_, List.mem_append_right _ List.mem_cons_self⟩

theorem Gone.free (h : Gone number start engine deeds) : engine.guard.busy = false := by
  cases h with
  | concluded _ hconcluded => exact hconcluded.free
  | nothing _ _ _ hending =>
    subst hending
    rfl

theorem Ended.filed {ending : Engine} (h : Ended number start engine deeds ending)
    (hsteady : start.Steady) : ∃ report, (number, report) ∈ engine.reports := by
  obtain ⟨report, hfiled⟩ := h.gone.filed
  exact ⟨report, (h.after.turns (h.since.steady hsteady)).reports_subset hfiled⟩

/-- Wherever a chronicle leads, the run is where its schedule has it, or it was over before. -/
theorem Chronicle.stands (h : Chronicle number start engine deeds) (hsteady : start.Steady)
    (hspawned : start.Spawned number start.now) :
    Going number start engine deeds ∨ ∃ ending, Ended number start engine deeds ending := by
  induction h with
  | refl => exact .inl (.spawned hspawned rfl)
  | @acted engine deeds hbefore action hnow ih =>
    rcases ih with hgoing | ⟨ending, hended⟩
    · obtain ⟨run, hrun, -⟩ := hgoing.run
      have hsame := act_run (hbefore.steady hsteady) hrun hnow
      have htime := act_now engine hnow
      exact .inl (hgoing.still (hsame.trans hrun.symm) (Nat.le_of_eq htime.symm)
        fun _ _ hdue => htime ▸ hdue)
    · exact .inr ⟨ending, { hended with after := hended.after.acted hnow }⟩
  | asked hbefore awaitable ih =>
    rcases ih with hgoing | ⟨ending, hended⟩
    · exact .inl (hgoing.still rfl (Nat.le_refl _) fun _ _ hdue => hdue)
    · exact .inr ⟨ending, { hended with after := hended.after.asked awaitable }⟩
  | passed hbefore hlimit ih =>
    rcases ih with hgoing | ⟨ending, hended⟩
    · refine .inl (hgoing.still rfl (Nat.le_max_left _ _) fun run hrun hdue => ?_)
      have hpending : (Task.goOn run).Pending _ := hrun
      obtain ⟨task, htask, hfirst⟩ := hpending.first
      exact Nat.max_le.mpr ⟨hdue, Nat.le_trans (hlimit task htask) hfirst⟩
    · exact .inr ⟨ending, { hended with after := hended.after.passed hlimit }⟩
  | @happened engine deeds hbefore task htask ih =>
    have hnow := hbefore.steady hsteady
    have hpending := nextTask?_pending htask
    rcases ih with hgoing | ⟨ending, hended⟩
    · cases task with
      | goOn run =>
        have hlater := hbefore.happened htask
        rcases hgoing.goOn hbefore (hbefore.turns hsteady).settings hpending with hstill | hgone
        · exact .inl hstill
        · exact .inr ⟨_, hlater, hgone, (hlater.steady hsteady).exclusive.atRest hgone.free, .refl⟩
      | look due =>
        obtain ⟨run, hrun, -⟩ := hgoing.run
        rw [happen_look_of_run hnow hrun, deedsOf, List.append_nil]
        exact .inl (hgoing.still rfl (Nat.le_max_left _ _) fun other hother hdue =>
          Nat.max_le.mpr ⟨hdue, nextTask?_le_run htask hother⟩)
    · obtain ⟨report, hfiled⟩ := hended.filed hsteady
      have hlater := hended.after.happened htask
      rw [deedsOf_of_filed hnow hfiled hpending, List.append_nil] at hlater ⊢
      exact .inr ⟨ending, { hended with after := hlater }⟩

/-! ## The run comes to an end -/

/-- The time by which a run is over that has these candidates. -/
def latest (start : Engine) (paths : List Path) : Nat :=
  start.now + min start.settings.settlePeriod longestWait * paths.length

/-- A run that goes on is due in time. -/
theorem Going.due_le (h : Going number start engine deeds) {run : Run}
    (hrun : engine.run = some run) : run.due ≤ start.latest (engine.roster run) := by
  cases h with
  | spawned hspawned =>
    obtain rfl := Option.some.inj (hrun.symm.trans hspawned.run)
    exact Nat.le_add_right _ _
  | @waits begun probe outcomes _ hwaits =>
    obtain rfl := Option.some.inj (hrun.symm.trans hwaits.run)
    obtain ⟨path, _, hpath, -⟩ := hwaits.tried
    have hlt : outcomes.length < probe.paths.length := (List.getElem?_eq_some_iff.mp hpath).1
    have hcount : outcomes.count true + 1 ≤ probe.paths.length :=
      Nat.le_trans (Nat.succ_le_succ List.count_le_length) hlt
    have hspan := Nat.mul_le_mul_left (min start.settings.settlePeriod longestWait) hcount
    simp only [schedule, Schedule.time, latest, roster]
    rw [Nat.mul_add, Nat.mul_one] at hspan
    omega

/-- A run with its candidates, or its report once it is over. -/
def Held (engine : Engine) (number : Nat) (paths : List Path) : Prop :=
  (∃ report, (number, report) ∈ engine.reports) ∨
    ∃ run, engine.run = some run ∧ run.number = number ∧ engine.roster run = paths

/-- Whatever is due leaves a run its candidates. -/
theorem Held.happen {paths : List Path} (h : engine.Held number paths) (hsteady : engine.Steady)
    {task : Task} (htask : task.Pending engine) : (engine.happen task).Held number paths := by
  rcases h with ⟨report, hfiled⟩ | ⟨run, hrun, rfl, rfl⟩
  · exact .inl ⟨report, (happen_turns hsteady htask).reports_subset hfiled⟩
  · cases task with
    | goOn other =>
      obtain rfl := Option.some.inj (hrun.symm.trans htask)
      let later : Engine := { engine with now := max engine.now run.due }
      have hlater : later.Steady := (waited_turn engine engine.awaitable engine.monitor _).steady
        hsteady
      obtain ⟨-, hover⟩ := @resumeRun_settles_or_over later hlater run hrun
      rcases hover with ⟨probe, hsettles⟩ | hover
      · obtain ⟨index, due, hnext, -⟩ := hsettles.run
        obtain ⟨other, place, hsame, hpaths⟩ := (resumeRun_instant later run).2 _ hnext
        refine .inr ⟨_, hnext, rfl, ?_⟩
        cases hsame
        exact hpaths
      · exact .inl hover.report
    | look due =>
      rw [happen_look_of_run hsteady hrun]
      exact .inr ⟨run, hrun, rfl, rfl⟩

theorem Held.passUntil {paths : List Path} (h : engine.Held number paths) (hsteady : engine.Steady)
    (limit : Nat) : (engine.passUntil limit).Held number paths := by
  refine (passUntil_induction (motive := fun later => later.Steady ∧ later.Held number paths)
    ?_ ?_ ⟨hsteady, h⟩ limit).2
  · rintro later task ⟨hlater, hheld⟩ htask
    have hpending := nextTask?_pending htask
    exact ⟨(happen_turns hlater hpending).steady hlater, hheld.happen hlater hpending⟩
  · rintro later bound ⟨hlater, hheld⟩
    exact ⟨(waited_turn later later.awaitable later.monitor _).steady hlater, hheld⟩

/-- When time passes, a run that goes on comes to its end. -/
theorem Chronicle.ends (h : Chronicle number start engine deeds) (hsteady : start.Steady)
    (hpaced : start.Paced) (hspawned : start.Spawned number start.now) {run : Run}
    (hrun : engine.run = some run) (hnumber : run.number = number) :
    engine.now ≤ start.latest (engine.roster run) ∧
      ∀ limit, start.latest (engine.roster run) ≤ limit → ∃ more ending,
        Ended number start (engine.passUntil limit) (deeds ++ more) ending := by
  have hnow := h.steady hsteady
  have hgoing : Going number start engine deeds := by
    rcases h.stands hsteady hspawned with hgoing | ⟨ending, hended⟩
    · exact hgoing
    · obtain ⟨report, hfiled⟩ := hended.filed hsteady
      exact absurd hnumber (number_ne_of_filed hnow hfiled hrun)
  have htime : engine.now ≤ start.latest (engine.roster run) :=
    Nat.le_trans (hgoing.now_le hrun) (hgoing.due_le hrun)
  refine ⟨htime, fun limit hlimit => ?_⟩
  obtain ⟨more, hlater⟩ := h.passUntil hsteady hpaced limit
  rcases hlater.stands hsteady hspawned with hstill | ⟨ending, hended⟩
  · -- otherwise the run would be due although all that was due has happened
    exfalso
    obtain ⟨next, hnext, hsame⟩ := hstill.run
    have hheld : engine.Held number (engine.roster run) := .inr ⟨run, hrun, hnumber, rfl⟩
    rcases hheld.passUntil hnow limit with ⟨report, hfiled⟩ | ⟨other, hother, -, hroster⟩
    · exact number_ne_of_filed (hlater.steady hsteady) hfiled hnext hsame
    · obtain rfl := Option.some.inj (hnext.symm.trans hother)
      have hdue := hstill.due_le hnext
      have hspent := passUntil_spends hnow (h.paced hsteady hpaced) (Nat.le_trans htime hlimit)
        (show (Task.goOn next).Pending _ from hnext)
      rw [hroster] at hdue
      exact Nat.lt_irrefl _ (Nat.lt_of_lt_of_le hspent (Nat.le_trans hdue hlimit))
  · exact ⟨more, ending, hended⟩

/-- What a run does with its candidates in a step is what the step writes down.  Only where the
candidate that it begins with has no port to read, nothing is written down of the sample. -/
theorem goOn_writes (hsteady : engine.Steady) {run : Run} (hrun : engine.run = some run) :
    Writes engine (engine.happen (.goOn run))
      (if run.hasPort then engine.deedsOf run.number (.goOn run)
        else (engine.deedsOf run.number (.goOn run)).tail) := by
  have hbusy := (hsteady.exclusive.of_run hrun).1
  rw [happen_goOn, deedsOf, if_pos rfl]
  exact ⟨(@resumeRunTold_writes { engine with now := max engine.now run.due } hbusy run).written⟩

/-- A switch run that has been started at some time keeps to its schedule, whatever is done to the
engine from then on and whichever rules the switches refuse.  Each candidate is tried once, at the
time that those before it leave: one that has been installed takes the time in which it settles, and
is sampled at the end of it, before any later one is tried; one that could not be installed takes no
time and is not sampled.  The run comes to its report when the last candidate is done with, and the
report says how long that took.  It does so whenever time passes, at the latest after as many waits
as there are candidates; then the phase is idle and the permit is free.  If the run finds no
candidates, nothing is done and it ends at once.

What the run tells of its candidates is what its steps do and write down. -/
theorem Reachable.run_on_schedule {storage : Storage} {settings : Settings}
    (h : Reachable storage settings start)
    (hrun : start.run = some ⟨number, .spawned, start.now⟩)
    (hsince : Chronicle number start engine deeds) :
    (∀ action, ∃ more, Chronicle number start (engine.act action).1 (deeds ++ more)) ∧
    (∀ limit, ∃ more, Chronicle number start (engine.passUntil limit) (deeds ++ more)) ∧
    (∀ run, engine.run = some run → run.number = number →
      engine.happen (.goOn run) =
        (({ engine with now := max engine.now run.due } : Engine).resumeRunTold run).1 ∧
      Writes engine (engine.happen (.goOn run))
        (if run.hasPort then engine.deedsOf number (.goOn run)
          else (engine.deedsOf number (.goOn run)).tail)) ∧
    (Going number start engine deeds ∨ ∃ ending, Ended number start engine deeds ending) ∧
    ∀ run, engine.run = some run → run.number = number →
      engine.now ≤ start.latest (engine.roster run) ∧
      ∀ limit, start.latest (engine.roster run) ≤ limit → ∃ more ending,
        Ended number start (engine.passUntil limit) (deeds ++ more) ending := by
  have hspawned : start.Spawned number start.now := ⟨hrun, rfl⟩
  refine ⟨hsince.act h.steady h.paced, hsince.passUntil h.steady h.paced, ?_,
    hsince.stands h.steady hspawned, fun run => hsince.ends h.steady h.paced hspawned⟩
  rintro run hgoing rfl
  exact ⟨happen_goOn engine run, goOn_writes (hsince.steady h.steady) hgoing⟩

/-- An engine with three candidates, of which the last can be installed: the first two are refused
by different switches.  A run has just been started. -/
def starting : Engine := ((obstructed.play [.sleep 500]).act .trigger).1

/-- The run waits for the last candidate.  Meanwhile the graph is withdrawn, and no switch takes any
rule from then on. -/
def startingWithdrawn : Engine :=
  (((starting.happen (.goOn ⟨0, .spawned, 500⟩)).act .disable).1.act
    (.verdict fun _ rule => some (.rejected rule))).1

/-- What the run waits for. -/
def startingRun : Run := startingWithdrawn.run.get (by decide)

/-- The deeds of a run that is started at a time and can install the last of three candidates, when
candidates settle for a span. -/
def deedsForLast (first second third : Path) (time span : Nat) : List Deed :=
  [.tried 0 first time false, .tried 1 second time false, .tried 2 third time true,
    .sampled 2 (time + span)]

/-- Nothing is shifted by that. -/
theorem run_on_schedule_starting : ∃ engine ending report,
    Ended 0 starting engine
      (deedsForLast ⟨[⟨1⟩, ⟨2⟩, ⟨4⟩]⟩ ⟨[⟨1⟩, ⟨3⟩, ⟨4⟩]⟩ ⟨[⟨1⟩, ⟨4⟩]⟩ 500 2000) ending ∧
    engine.report? 0 = some report ∧ report.elapsed = 2000 ∧ engine.now = 2500 ∧
    ∃ more last, Ended 0 starting (starting.passUntil 6500) more last := by
  have hreach : Reachable ⟨[], []⟩ kiteSettings starting :=
    (obstructed_reachable.play _).acted .trigger
  have hrun : starting.run = some ⟨0, .spawned, starting.now⟩ := by decide
  have hbegun : Chronicle 0 starting (starting.happen (.goOn ⟨0, .spawned, 500⟩)) _ :=
    Chronicle.refl.happened (by decide +kernel)
  have hwithdrawn : Chronicle 0 starting startingWithdrawn _ := (hbegun.acted id).acted id
  have hlast : Chronicle 0 starting (startingWithdrawn.happen (.goOn startingRun)) _ :=
    hwithdrawn.happened (by decide +kernel)
  have hdeeds : [] ++ starting.deedsOf 0 (.goOn ⟨0, .spawned, 500⟩) ++
      startingWithdrawn.deedsOf 0 (.goOn startingRun) =
        deedsForLast ⟨[⟨1⟩, ⟨2⟩, ⟨4⟩]⟩ ⟨[⟨1⟩, ⟨3⟩, ⟨4⟩]⟩ ⟨[⟨1⟩, ⟨4⟩]⟩ 500 2000 := by
    decide +kernel
  rw [hdeeds] at hlast
  obtain ⟨-, -, -, hstands, -⟩ := hreach.run_on_schedule hrun hlast
  obtain ⟨-, -, -, -, hends⟩ := hreach.run_on_schedule hrun .refl
  obtain ⟨-, htime⟩ := hends _ hrun rfl
  obtain ⟨more, last, hpassed⟩ := htime 6500 (by decide +kernel)
  rcases hstands with hgoing | ⟨ending, hended⟩
  · obtain ⟨run, hstill, -⟩ := hgoing.run
    have hover : (startingWithdrawn.happen (.goOn startingRun)).run = none := by decide +kernel
    cases hover.symm.trans hstill
  · exact ⟨_, ending, ⟨1, [0, 0, 800], some 2, false, 2000⟩, hended, by decide +kernel, rfl,
      by decide +kernel, [] ++ more, last, hpassed⟩

/-- Settings by which a candidate settles for longer than anything waits. -/
def enduringSettings : Settings := { tangledSettings with settlePeriod := longestWait + 1 }

/-- The engine that is built from these settings, when a run has just been started. -/
def enduring : Engine :=
  ((((idle enduringSettings).update Snapshot.tangle).1.play [.packet (packetBetween 1 4)]).act
    .trigger).1

/-- What its run works on. -/
def enduringProbe : Probe := ⟨0, 1, ⟨1, Graph.tangle⟩, branching.selector.candidates.paths⟩

/-- Even if the settle period is longer, a candidate does not settle for longer than anything waits.
The only one that is installed is sampled before one settle period is over, and the run ends
then. -/
theorem settles_no_longer : ∃ engine report,
    Reachable ⟨[], []⟩ enduringSettings enduring ∧
    enduring.run = some ⟨0, .spawned, enduring.now⟩ ∧
    Chronicle 0 enduring engine
      (deedsForLast ⟨[⟨1⟩, ⟨2⟩, ⟨3⟩, ⟨4⟩]⟩ ⟨[⟨1⟩, ⟨2⟩, ⟨4⟩]⟩ ⟨[⟨1⟩, ⟨4⟩]⟩ enduring.now
        longestWait) ∧
    engine.report? 0 = some report ∧ engine.run = none ∧
    longestWait ≠ enduringSettings.settlePeriod ∧
    report.elapsed ≠ enduringSettings.settlePeriod * 1 ∧
    engine.now ≠ enduring.now + enduringSettings.settlePeriod * 1 := by
  have hbuilt : Reachable ⟨[], []⟩ enduringSettings
    ((idle enduringSettings).update Snapshot.tangle).1 := .built rfl
  have hreach : Reachable ⟨[], []⟩ enduringSettings enduring :=
    (hbuilt.play [.packet (packetBetween 1 4)]).acted .trigger
  have hrun : enduring.run = some ⟨0, .spawned, enduring.now⟩ := by decide
  have hbegun : Chronicle 0 enduring (enduring.happen (.goOn ⟨0, .spawned, 0⟩)) _ :=
    Chronicle.refl.happened (by decide +kernel)
  have hlast : Chronicle 0 enduring ((enduring.happen (.goOn ⟨0, .spawned, 0⟩)).happen
      (.goOn ⟨0, .settling enduringProbe 2, longestWait⟩)) _ :=
    hbegun.happened (by decide +kernel)
  have hdeeds : [] ++ enduring.deedsOf 0 (.goOn ⟨0, .spawned, 0⟩) ++
      (enduring.happen (.goOn ⟨0, .spawned, 0⟩)).deedsOf 0
        (.goOn ⟨0, .settling enduringProbe 2, longestWait⟩) =
        deedsForLast ⟨[⟨1⟩, ⟨2⟩, ⟨3⟩, ⟨4⟩]⟩ ⟨[⟨1⟩, ⟨2⟩, ⟨4⟩]⟩ ⟨[⟨1⟩, ⟨4⟩]⟩ enduring.now
          longestWait := by decide +kernel
  rw [hdeeds] at hlast
  exact ⟨_, ⟨1, [0, 0, 0], some 0, false, longestWait⟩, hreach, hrun, hlast, by decide +kernel,
    by decide +kernel, by decide, by decide, by decide +kernel⟩

end TrafficSteering.Engine
