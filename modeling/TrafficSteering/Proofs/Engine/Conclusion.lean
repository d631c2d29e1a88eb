import TrafficSteering.Proofs.Engine.Offers
import TrafficSteering.Proofs.Selector.Announcements
set_option autoImplicit false

/-!
# Conclusions of switch runs

A run that goes on tries candidates, and in the end it installs its winner and makes it active.
Until then it leaves the selector and its listeners alone: what happens to them meanwhile is what
others interject.  The winner becomes active exactly if all rules of its path have been computed and
taken, and the candidates are still those of the generation of the run.

`Advance` is what one step of a run comes to, from one wait to the next or to the end.  Every report
of an engine has been filed by such a step (`Traced`), so what a report says can be told from the
step.
-/

namespace TrafficSteering

/-- A commit is possible while the candidates are of its generation and have its place, and
otherwise nothing comes of it. -/
theorem SelectorForum.perform_commit (forum : SelectorForum) (generation index : Nat) :
    ((forum.perform fun selector => selector.commit generation index).2 = true ↔
      forum.state.candidates.generation = generation ∧
        index < forum.state.candidates.paths.length) ∧
    ((forum.perform fun selector => selector.commit generation index).2 = false →
      (forum.perform fun selector => selector.commit generation index).1 = forum) := by
  refine ⟨Selector.commit_answer_iff, fun hrefused => ?_⟩
  have hanswer : (forum.state.commit generation index).answer ≠ true := by
    intro haccepted
    exact Bool.noConfusion (hrefused.symm.trans haccepted)
  simp only [perform, Selector.commit_of_refused hanswer]
  rfl

namespace Engine

variable {settings : Settings} {engine after : Engine} {probe : Probe} {number index : Nat}
  {path : Path}

/-- No rules are computed for the winner of a run. -/
def NoWinner (new : List Entry) : Prop :=
  ∀ entry ∈ new, ∀ computation, entry.computation? = some computation →
    ∀ number index, computation.purpose ≠ .winner number index

theorem NoWinner.append {later earlier : List Entry} (hlater : NoWinner later)
    (hearlier : NoWinner earlier) : NoWinner (later ++ earlier) := by
  intro entry hentry
  rcases List.mem_append.mp hentry with hmem | hmem
  · exact hlater entry hmem
  · exact hearlier entry hmem

theorem NoWinner.of_none {new : List Entry} (h : ∀ entry ∈ new, entry.computation? = none) :
    NoWinner new := by
  intro entry hentry computation hcomputed
  rw [h entry hentry] at hcomputed
  exact absurd hcomputed (Option.some_ne_none computation).symm

/-- Where rules are only offered, none are computed. -/
theorem Offers.computation?_eq_none {new : List Entry} {rules : List Rule} (h : Offers new rules) :
    ∀ entry ∈ new, entry.computation? = none := by
  intro entry hentry
  have honly := h.only entry hentry
  unfold Entry.rule? Entry.interjection? at honly
  unfold Entry.computation?
  split
  · rename_i hcomputed
    simp [hcomputed] at honly
  · rfl

/-- The last installation of a run: that of its winner.  `last` are the selector and its listeners
when it is done. -/
structure FinalInstallation (after : Engine) (number : Nat) (report : Report) (new : List Entry)
    (last : SelectorForum) (probe : Probe) (index : Nat) (path : Path) (found : Moment)
    (offers rest : List Entry) : Prop where
  tookUp : ∃ entry ∈ after.history, entry.occurrence = .tookUp number probe
  selected : report.selected = some index
  candidate : probe.paths[index]? = some path
  /-- The rules are computed on the graph of the run, -/
  computed : new = offers ++
    ⟨found, .computed ⟨.winner number index, path, probe.generation, probe.routing⟩⟩ :: rest
  /-- and they and no others are offered from then on. -/
  offers : Offers offers (found.installer.offeredFor probe.routing.graph found.plane path)
  plane : after.plane = (found.installer.attempt probe.routing.graph found.plane path).1
  committed : report.committed = true ↔
    found.installer.Succeeds probe.routing.graph found.plane path ∧
      last.state.candidates.generation = probe.generation ∧
      index < last.state.candidates.paths.length
  forum : after.forum = if report.committed then
      (last.perform fun selector => selector.commit probe.generation index).1
    else last

/-- Where the winner has been made active, the rules offered last are exactly those of its path, and
all of them have been taken. -/
theorem FinalInstallation.rules {report : Report} {new offers rest : List Entry}
    {last : SelectorForum} {found : Moment}
    (h : FinalInstallation after number report new last probe index path found offers rest)
    (hcommitted : report.committed = true) :
    ∃ rules, found.installer.rulesForPath probe.routing.graph path = .ok rules ∧
      offersIn offers = rules ∧ after.plane.rules = found.plane.rules ++ rules := by
  obtain ⟨⟨rules, hrules, hall⟩, -⟩ := h.committed.mp hcommitted
  have hplane := found.installer.attempt_rules probe.routing.graph found.plane path
  refine ⟨rules, hrules, ?_, ?_⟩
  · rw [h.offers.rules, Installer.offeredFor, hrules]
    exact List.take_of_length_le (by rw [hall]; exact Nat.le_succ _)
  · rw [h.plane, hplane, Installer.acceptedFor, hrules]
    exact congrArg (found.plane.rules ++ ·) hall

/-- What a step of a run comes to. -/
structure Advance (before after : Engine) (number : Nat) (new : List Entry) : Prop where
  history : after.history = new ++ before.history
  peaceful : before.Peaceful → interjectionsIn new = []
  /-- The run waits, or it is over without a winner to install, or with one. -/
  outcome :
    (after.reports = before.reports ∧ after.forum = before.disturbed new ∧ NoWinner new) ∨
    ∃ report, after.reports = before.reports ++ [(number, report)] ∧
      ((report.committed = false ∧ after.forum = before.disturbed new ∧ NoWinner new) ∨
        ∃ probe index path found offers rest, FinalInstallation after number report new
          (before.disturbed new) probe index path found offers rest)

/-- Where nobody interjects anything, the selector and its listeners are as they were. -/
theorem Advance.undisturbed {new : List Entry} (h : Advance engine after number new)
    (hpeace : engine.Peaceful) : engine.disturbed new = engine.forum := by
  rw [disturbed, h.peaceful hpeace]
  rfl

/-- A run is over without a winner to install. -/
theorem Advance.of_nothing {report : Report} (hhistory : after.history = engine.history)
    (hforum : after.forum = engine.forum)
    (hfiled : after.reports = engine.reports ++ [(number, report)])
    (hreport : report.committed = false) : Advance engine after number [] where
  history := hhistory
  peaceful := fun _ => rfl
  outcome := .inr ⟨report, hfiled, .inl ⟨hreport, hforum, .of_none (by simp)⟩⟩

/-- The step began with some work under the permit. -/
theorem Advance.of_work {first second : Engine} {earlier later : List Entry}
    (hwork : UnderPermit first second earlier) (hearlier : NoWinner earlier)
    (h : Advance second after number later) : Advance first after number (later ++ earlier) where
  history := by rw [h.history, hwork.history, List.append_assoc]
  peaceful := by
    intro hpeace
    obtain ⟨hnone, hstill⟩ := hwork.peaceful hpeace
    rw [interjectionsIn_append, hnone, h.peaceful hstill]
    rfl
  outcome := by
    rw [disturbed_append hwork.forum, ← hwork.undisturbed.reports]
    rcases h.outcome with ⟨hsame, hkept, hnone⟩ | ⟨report, hfiled, hover⟩
    · exact .inl ⟨hsame, hkept, hnone.append hearlier⟩
    · refine .inr ⟨report, hfiled, ?_⟩
      rcases hover with ⟨hrefused, hkept, hnone⟩ | ⟨probe, index, path, found, offers, rest, hfinal⟩
      · exact .inl ⟨hrefused, hkept, hnone.append hearlier⟩
      · exact .inr ⟨probe, index, path, found, offers, rest ++ earlier, { hfinal with
          computed := by rw [hfinal.computed, List.append_assoc, List.cons_append] }⟩

/-! ## Steps of a run -/

/-- Where a condition holds, a commit is tried. -/
theorem commit_if (installed : Engine) (generation index : Nat) (condition : Prop)
    [Decidable condition] :
    ∃ forum committed,
      (if condition then installed.perform fun selector => selector.commit generation index
        else (installed, false)) = ({ installed with forum }, committed) ∧
      (committed = true ↔ condition ∧ installed.selector.candidates.generation = generation ∧
        index < installed.selector.candidates.paths.length) ∧
      forum = if committed then
          (installed.forum.perform fun selector => selector.commit generation index).1
        else installed.forum := by
  by_cases hcondition : condition
  · obtain ⟨hiff, hrefused⟩ := installed.forum.perform_commit generation index
    rw [if_pos hcondition]
    refine ⟨_, _, rfl, hiff.trans ⟨fun hcurrent => ⟨hcondition, hcurrent⟩, And.right⟩, ?_⟩
    split
    · rfl
    · rename_i hno
      exact hrefused (Bool.eq_false_iff.mpr hno)
  · rw [if_neg hcondition]
    exact ⟨installed.forum, false, rfl, by simp [hcondition], rfl⟩

/-- The winner is installed, and if that has succeeded, its commit is tried. -/
theorem installWinner_of_candidate (hbusy : engine.guard.busy = true)
    (hpath : probe.paths[index]? = some path) (number : Nat) :
    ∃ installed offers,
      UnderPermit engine installed (offers ++ [⟨engine.toMoment,
        .computed ⟨.winner number index, path, probe.generation, probe.routing⟩⟩]) ∧
      Offers offers (engine.installer.offeredFor probe.routing.graph engine.plane path) ∧
      installed.plane = (engine.installer.attempt probe.routing.graph engine.plane path).1 ∧
      engine.installWinner number probe (some index) =
        if engine.installer.Succeeds probe.routing.graph engine.plane path then
          installed.perform fun selector => selector.commit probe.generation index
        else (installed, false) := by
  obtain ⟨offers, hwork, hoffers, hplane, hanswer⟩ := installPath_of_busy hbusy
    ⟨.winner number index, path, probe.generation, probe.routing⟩
  have hnoted : UnderPermit engine (engine.note
      (.computed ⟨.winner number index, path, probe.generation, probe.routing⟩)) [_] := {}
  refine ⟨_, offers, hnoted.trans hwork, hoffers, hplane, ?_⟩
  simp only [installWinner, hpath]
  rcases hinstalled : engine.installPath
      ⟨.winner number index, path, probe.generation, probe.routing⟩ with ⟨next, answer⟩
  rw [hinstalled] at hanswer
  rcases engine.installer.attempt_cases probe.routing.graph engine.plane path with
    ⟨hsucceeds, count, hcount⟩ | ⟨hfails, fault, hfault⟩
  · obtain rfl : answer = .ok count := hanswer.trans hcount
    rw [if_pos hsucceeds]
  · obtain rfl : answer = .error fault := hanswer.trans hfault
    rw [if_neg hfails]

/-- With a winner to install, a run is over after its installation. -/
theorem conclude_of_candidate (hbusy : engine.guard.busy = true)
    (htook : ∃ entry ∈ engine.history, entry.occurrence = .tookUp number probe)
    (hselected : engine.recorder.table.best?.map Prod.fst = some index)
    (hpath : probe.paths[index]? = some path) :
    ∃ new, Advance engine (engine.conclude number probe) number new := by
  let deciding : Engine := { engine with phase := .installing }
  have hdeciding : deciding.guard.busy = true := hbusy
  obtain ⟨installed, offers, hwork, hoffers, hplane, hwinner⟩ :=
    installWinner_of_candidate hdeciding hpath number
  obtain ⟨forum, committed, hcommit, hiff, hforum⟩ := commit_if installed probe.generation index
    (deciding.installer.Succeeds probe.routing.graph deciding.plane path)
  obtain ⟨taken, hmem, htaken⟩ := htook
  have hlast : installed.forum = engine.disturbed _ := hwork.forum
  refine ⟨offers ++ [⟨deciding.toMoment,
    .computed ⟨.winner number index, path, probe.generation, probe.routing⟩⟩], ?_⟩
  simp only [conclude, hselected]
  rw [hwinner, hcommit]
  exact {
    history := hwork.history
    peaceful := fun hpeace => (hwork.peaceful hpeace).1
    outcome := .inr ⟨_, congrArg (· ++ _) hwork.undisturbed.reports, .inr
      ⟨probe, index, path, deciding.toMoment, offers, [], {
        tookUp := ⟨taken, hwork.history ▸ List.mem_append_right _ hmem, htaken⟩
        selected := rfl
        candidate := hpath
        computed := rfl
        offers := hoffers
        plane := hplane
        committed := hlast ▸ hiff
        forum := hlast ▸ hforum }⟩⟩ }

theorem conclude_advance (hbusy : engine.guard.busy = true)
    (htook : ∃ entry ∈ engine.history, entry.occurrence = .tookUp number probe) :
    ∃ new, Advance engine (engine.conclude number probe) number new := by
  cases hselected : engine.recorder.table.best?.map Prod.fst with
  | none =>
    simp only [conclude, hselected]
    exact ⟨[], .of_nothing rfl rfl rfl rfl⟩
  | some index =>
    cases hpath : probe.paths[index]? with
    | none =>
      simp only [conclude, hselected, installWinner, hpath]
      exact ⟨[], .of_nothing rfl rfl rfl rfl⟩
    | some path => exact conclude_of_candidate hbusy htook hselected hpath

/-- A candidate is computed and offered.  It is not the winner yet. -/
theorem installPath_of_candidate (hbusy : engine.guard.busy = true) (computation : Computation)
    (hcandidate : ∀ number index, computation.purpose ≠ .winner number index) :
    ∃ new, UnderPermit engine (engine.installPath computation).1 new ∧ NoWinner new := by
  obtain ⟨offers, hwork, hoffers, -⟩ := installPath_of_busy hbusy computation
  have hnoted : UnderPermit engine (engine.note (.computed computation))
    [⟨engine.toMoment, .computed computation⟩] := {}
  refine ⟨_, hnoted.trans hwork, (NoWinner.of_none hoffers.computation?_eq_none).append ?_⟩
  intro entry hentry other hother
  obtain rfl := List.mem_singleton.mp hentry
  obtain rfl := Option.some.inj hother
  exact hcandidate

/-- The induction is on the candidates that are left. -/
theorem tryFrom_advance (hbusy : engine.guard.busy = true)
    (htook : ∃ entry ∈ engine.history, entry.occurrence = .tookUp number probe) (index : Nat)
    (rest : List Path) :
    ∃ new, Advance engine (engine.tryFrom number probe index rest) number new := by
  induction rest generalizing engine index with
  | nil => exact conclude_advance hbusy htook
  | cons path rest ih =>
    let tried : Engine := { engine with
      phase := .probing index, run := some ⟨number, .settling probe index, engine.now⟩ }
    have htried : tried.guard.busy = true := hbusy
    obtain ⟨earlier, hwork, hnone⟩ := installPath_of_candidate htried
      ⟨.candidate number index, path, probe.generation, probe.routing⟩
      (fun _ _ hwinner => Purpose.noConfusion hwinner)
    simp only [tryFrom]
    rcases hanswer : tried.installPath
        ⟨.candidate number index, path, probe.generation, probe.routing⟩ with ⟨next, fault | count⟩
    · rw [hanswer] at hwork
      obtain ⟨taken, hmem, htaken⟩ := htook
      obtain ⟨later, hlater⟩ := ih (hwork.busy hbusy)
        ⟨taken, hwork.history ▸ List.mem_append_right earlier hmem, htaken⟩ (index + 1)
      have hstep := hlater.of_work hwork hnone
      exact ⟨_, { hstep with }⟩
    · rw [hanswer] at hwork
      exact ⟨earlier, hwork.history, fun hpeace => (hwork.peaceful hpeace).1,
        .inl ⟨hwork.undisturbed.reports, hwork.forum, hnone⟩⟩

theorem beginRun_advance (hbusy : engine.guard.busy = true) (number : Nat) :
    ∃ new, Advance engine (engine.beginRun number) number new := by
  unfold beginRun
  simp only
  split
  · rename_i routing _
    split
    · let probe : Probe := ⟨engine.now, engine.selector.candidates.generation, routing,
        engine.selector.candidates.paths⟩
      have htaken : (engine.takeUp number probe).guard.busy = true := hbusy
      have hwork : UnderPermit engine (engine.takeUp number probe)
        [⟨engine.toMoment, .tookUp number probe⟩] := {}
      obtain ⟨later, hlater⟩ := tryFrom_advance htaken
        ⟨_, List.mem_cons_self, rfl⟩ 0 engine.selector.candidates.paths
      exact ⟨_, hlater.of_work hwork (.of_none (by simp [Entry.computation?]))⟩
    · exact ⟨[], .of_nothing rfl rfl rfl rfl⟩
  · exact ⟨[], .of_nothing rfl rfl rfl rfl⟩

theorem resumeRun_advance (hbusy : engine.guard.busy = true) (htaken : engine.TakenUp) {run : Run}
    (hrun : engine.run = some run) :
    ∃ new, Advance engine (engine.resumeRun run) run.number new := by
  cases hstage : run.stage with
  | spawned =>
    simp only [resumeRun, hstage]
    exact beginRun_advance hbusy run.number
  | settling probe index =>
    obtain ⟨earlier, hwork, hnone⟩ :=
      measure_of_busy hbusy probe.routing.graph probe.generation probe.paths index
    obtain ⟨taken, hmem, htook⟩ := htaken run probe index hrun hstage
    obtain ⟨later, hlater⟩ := tryFrom_advance (hwork.busy hbusy)
      ⟨taken, hwork.history ▸ List.mem_append_right earlier hmem, htook⟩ (index + 1)
      (probe.paths.drop (index + 1))
    simp only [resumeRun, hstage]
    exact ⟨_, hlater.of_work hwork (.of_none hnone)⟩

theorem goOn_advance (h : Turns (idle settings) engine) {run : Run} (hrun : engine.run = some run) :
    ∃ new, Advance engine (engine.happen (.goOn run)) run.number new := by
  have hbusy := ((h.steady (idle_steady settings)).exclusive.of_run hrun).1
  obtain ⟨new, hstep⟩ := @resumeRun_advance { engine with now := max engine.now run.due } hbusy
    h.takenUp run hrun
  exact ⟨new, { hstep with }⟩

/-! ## Reports -/

/-- A report has been filed by a step of its run, some time before now. -/
structure Filed (settings : Settings) (engine : Engine) (number : Nat) (report : Report)
    (before : Engine) (run : Run) : Prop where
  past : Turns (idle settings) before
  going : before.run = some run
  numbered : run.number = number
  filed : (before.happen (.goOn run)).reports = before.reports ++ [(number, report)]
  since : Turns (before.happen (.goOn run)) engine

/-- Turns have led to the engine, and all its reports have been filed by steps of their runs. -/
structure Traced (settings : Settings) (engine : Engine) : Prop where
  turns : Turns (idle settings) engine
  filed : ∀ number report, (number, report) ∈ engine.reports →
    ∃ before run, Filed settings engine number report before run

namespace Traced

theorem steady (h : Traced settings engine) : engine.Steady := h.turns.steady (idle_steady settings)

theorem of_turns (h : Traced settings engine) (hturns : Turns engine after)
    (hreports : after.reports = engine.reports) : Traced settings after where
  turns := h.turns.trans hturns
  filed := by
    intro number report hmem
    obtain ⟨before, run, hfiled⟩ := h.filed number report (hreports ▸ hmem)
    exact ⟨before, run, { hfiled with since := hfiled.since.trans hturns }⟩

/-- A step of a run files its report or none. -/
theorem goOn (h : Traced settings engine) {run : Run} (hrun : engine.run = some run) :
    Traced settings (engine.happen (.goOn run)) := by
  have hturns : Turns engine (engine.happen (.goOn run)) := happen_turns h.steady hrun
  obtain ⟨_, hadvance⟩ := goOn_advance h.turns hrun
  rcases hadvance.outcome with ⟨hsame, -⟩ | ⟨last, hlast, -⟩
  · exact h.of_turns hturns hsame
  · refine ⟨h.turns.trans hturns, fun number report hmem => ?_⟩
    rw [hlast, List.mem_append, List.mem_singleton] at hmem
    rcases hmem with hearlier | hnew
    · obtain ⟨before, other, hfiled⟩ := h.filed number report hearlier
      exact ⟨before, other, { hfiled with since := hfiled.since.trans hturns }⟩
    · obtain ⟨rfl, rfl⟩ := Prod.mk.inj hnew
      exact ⟨engine, run, h.turns, hrun, rfl, hlast, .refl⟩

theorem happen (h : Traced settings engine) {task : Task} (htask : task.Pending engine) :
    Traced settings (engine.happen task) := by
  cases task with
  | goOn run => exact h.goOn htask
  | look due =>
    have hlater := (waited_turn engine engine.awaitable engine.monitor
      (max engine.now due)).steady h.steady
    exact h.of_turns (happen_turns h.steady htask) (tick_course hlater).reports

theorem act (h : Traced settings engine) (action : Action) :
    Traced settings (engine.act action).1 := by
  by_cases hlasting : action.Lasting
  · refine lasting_induction ?_ ?_ ?_ h hlasting
    · exact fun htraced htask => htraced.happen (nextTask?_pending htask)
    · exact fun limit htraced => htraced.of_turns (.single (waited_turn _ _ _ _)) rfl
    · exact fun awaitable htraced => htraced.of_turns (.single (waited_turn _ _ _ _)) rfl
  · exact h.of_turns (act_turns h.steady action) (act_reports h.steady hlasting)

end Traced

theorem Reachable.traced {storage : Storage} (h : Reachable storage settings engine) :
    Traced settings engine := by
  induction h with
  | @built engine hbuild =>
    have hbuilt := build_course hbuild
    have hnone : engine.reports = [] := hbuilt.reports
    exact ⟨hbuilt.turns, by simp [hnone]⟩
  | acted _ action ih => exact ih.act action
  | happened _ htask ih => exact ih.happen htask

/-- An engine in a switch run.  Two candidates have been refused, by different switches, and the run
waits for the last one. -/
def waiting : Engine := obstructed.play [.trigger]

end Engine

end TrafficSteering
