import TrafficSteering.Proofs.Engine.Clock
import TrafficSteering.Proofs.Engine.Conclusion
set_option autoImplicit false

/-!
# Schedules of switch runs

A switch run tries its candidates in their order.  One that cannot be installed takes no time; one
that can is sampled when it has settled, and only then the run turns to the next.  So the time at
which a candidate is tried depends on nothing but the number of those before it that have been
installed.

The functions whose names end in `Told` are the work of a run together with what it does with its
candidates, and `Schedule.Kept` is what its deeds keep to.  A step of a run takes up its schedule
where the step before has left it: afterwards the run waits for a candidate, or it has concluded.
-/

namespace TrafficSteering

/-- What a switch run does with a candidate, and when. -/
inductive Deed where
  /-- It tries to install the candidate, and succeeds or not. -/
  | tried (index : Nat) (path : Path) (time : Nat) (installed : Bool)
  | sampled (index time : Nat)
  deriving DecidableEq, Repr

/-- The place of the candidate. -/
def Deed.index : Deed → Nat
  | .tried index _ _ _ | .sampled index _ => index

/-- Whether there is a port at which the candidate that a run waits for can be read. -/
def Run.hasPort (run : Run) : Bool :=
  match run.stage with
  | .spawned => true
  | .settling probe index => (probe.paths[index]?.bind probe.routing.graph.measuredAt?).isSome

/-! ## Schedules -/

/-- What a run goes by: its candidates, when it begins, and how long a candidate settles. -/
structure Schedule where
  paths : List Path
  start : Nat
  wait : Nat

namespace Schedule

variable (schedule : Schedule)

/-- When the run has done with its first candidates, of which some have been installed and others
have not. -/
def time (outcomes : List Bool) : Nat := schedule.start + schedule.wait * outcomes.count true

/-- What is done with a candidate: it is tried, and sampled when it has settled. -/
def visit (index : Nat) (path : Path) (time : Nat) (installed : Bool) : List Deed :=
  .tried index path time installed ::
    if installed then [.sampled index (time + schedule.wait)] else []

/-- What has been done with the first candidates is as scheduled.  Each of them has been visited at
the time that the candidates before it leave, and nothing else has been done with it; the deeds of
others lie before and after its own. -/
structure Kept (outcomes : List Bool) (deeds : List Deed) : Prop where
  visited : ∀ index installed, outcomes[index]? = some installed → ∃ path before after,
    schedule.paths[index]? = some path ∧
    deeds = before ++
      schedule.visit index path (schedule.time (outcomes.take index)) installed ++ after ∧
    (∀ deed ∈ before, deed.index < index) ∧ ∀ deed ∈ after, index < deed.index
  only : ∀ deed ∈ deeds, deed.index < outcomes.length

variable {schedule : Schedule} {outcomes : List Bool} {deeds : List Deed} {path : Path}

theorem time_append (outcomes : List Bool) (installed : Bool) :
    schedule.time (outcomes ++ [installed]) =
      schedule.time outcomes + if installed then schedule.wait else 0 := by
  cases installed <;> simp [time, Nat.mul_add, Nat.add_assoc]

theorem index_of_mem_visit {index time : Nat} {installed : Bool} {deed : Deed}
    (h : deed ∈ schedule.visit index path time installed) : deed.index = index := by
  cases installed
  · obtain rfl := List.mem_singleton.mp h
    rfl
  · rcases List.mem_cons.mp h with rfl | h
    · rfl
    · obtain rfl := List.mem_singleton.mp h
      rfl

theorem kept_nil : schedule.Kept [] [] := ⟨by simp, by simp⟩

/-- One more candidate is visited when those before it are done with. -/
theorem Kept.append (h : schedule.Kept outcomes deeds)
    (hpath : schedule.paths[outcomes.length]? = some path) (installed : Bool) :
    schedule.Kept (outcomes ++ [installed])
      (deeds ++ schedule.visit outcomes.length path (schedule.time outcomes) installed) := by
  constructor
  · intro index other hother
    rcases Nat.lt_or_ge index outcomes.length with hlt | hge
    · rw [List.getElem?_append_left hlt] at hother
      obtain ⟨found, before, after, hfound, hdeeds, hbefore, hafter⟩ := h.visited index other hother
      refine ⟨found, before,
        after ++ schedule.visit outcomes.length path (schedule.time outcomes) installed, hfound, ?_,
        hbefore, ?_⟩
      · rw [List.take_append_of_le_length (Nat.le_of_lt hlt), hdeeds, List.append_assoc]
      · intro deed hdeed
        rcases List.mem_append.mp hdeed with hold | hnew
        · exact hafter deed hold
        · rw [index_of_mem_visit hnew]
          exact hlt
    · obtain rfl : index = outcomes.length := by
        have hlt := (List.getElem?_eq_some_iff.mp hother).1
        rw [List.length_append, List.length_singleton] at hlt
        omega
      obtain rfl : installed = other := by simpa using hother
      refine ⟨path, deeds, [], hpath, ?_, h.only, by simp⟩
      rw [List.append_nil, List.take_left]
  · intro deed hdeed
    rw [List.length_append, List.length_singleton]
    rcases List.mem_append.mp hdeed with hold | hnew
    · exact Nat.lt_succ_of_lt (h.only deed hold)
    · rw [index_of_mem_visit hnew]
      exact Nat.lt_succ_self _

end Schedule

namespace Engine

open Moment

variable {engine : Engine} {probe : Probe} {number : Nat}

/-! ## Runs that tell what they do -/

/-- Tries candidates from a place on, as `tryFrom` does, and tells of each. -/
def tryFromTold (engine : Engine) (number : Nat) (probe : Probe) (index : Nat) :
    List Path → Engine × List Deed
  | [] => (engine.conclude number probe, [])
  | path :: rest =>
    let engine : Engine :=
      { engine with
        phase := .probing index
        run := some { number, stage := .settling probe index, due := engine.now } }
    match engine.installPath ⟨.candidate number index, path, probe.generation, probe.routing⟩ with
    | (next, .error _) =>
      let (last, deeds) := next.tryFromTold number probe (index + 1) rest
      (last, .tried index path engine.now false :: deeds)
    | (next, .ok _) =>
      ({ next with
        run := some { number, stage := .settling probe index
                      due := next.after next.settings.settlePeriod } },
        [.tried index path engine.now true])

/-- Begins the work of a run. -/
def beginRunTold (engine : Engine) (number : Nat) : Engine × List Deed :=
  let candidates := engine.selector.candidates
  match engine.selector.routing with
  | some routing =>
    if routing.generation = candidates.generation ∧ candidates.paths ≠ [] then
      let probe : Probe := ⟨engine.now, candidates.generation, routing, candidates.paths⟩
      (engine.takeUp number probe).tryFromTold number probe 0 probe.paths
    else (engine.finishRun number { generation := candidates.generation }, [])
  | none => (engine.finishRun number { generation := candidates.generation }, [])

/-- Takes a run that is due to its next wait or to its end. -/
def resumeRunTold (engine : Engine) (run : Run) : Engine × List Deed :=
  match run.stage with
  | .spawned => engine.beginRunTold run.number
  | .settling probe index =>
    let (next, _) := engine.measure probe.routing.graph probe.generation probe.paths index
    let (last, deeds) :=
      next.tryFromTold run.number probe (index + 1) (probe.paths.drop (index + 1))
    (last, .sampled index engine.now :: deeds)

theorem tryFromTold_fst (engine : Engine) (number : Nat) (probe : Probe) (index : Nat)
    (rest : List Path) :
    (engine.tryFromTold number probe index rest).1 = engine.tryFrom number probe index rest := by
  induction rest generalizing engine index with
  | nil => rfl
  | cons path rest ih =>
    let tried : Engine := { engine with
      phase := .probing index, run := some ⟨number, .settling probe index, engine.now⟩ }
    simp only [tryFromTold, tryFrom]
    rcases hanswer : tried.installPath
        ⟨.candidate number index, path, probe.generation, probe.routing⟩ with ⟨next, fault | count⟩
    · exact ih next (index + 1)
    · rfl

/-- A run that tells what it does is that run. -/
theorem resumeRunTold_fst (engine : Engine) (run : Run) :
    (engine.resumeRunTold run).1 = engine.resumeRun run := by
  cases hstage : run.stage with
  | spawned =>
    simp only [resumeRunTold, resumeRun, hstage, beginRunTold, beginRun]
    cases engine.selector.routing with
    | none => rfl
    | some routing =>
      simp only
      split
      · exact tryFromTold_fst _ _ _ _ _
      · rfl
  | settling probe index =>
    simp only [resumeRunTold, resumeRun, hstage]
    exact tryFromTold_fst _ _ _ _ _

/-! ## Steps keep to the schedule -/

/-- The run has installed the candidate after its first ones and waits for it to settle. -/
structure Waits (engine : Engine) (number : Nat) (probe : Probe) (schedule : Schedule)
    (outcomes : List Bool) (deeds : List Deed) : Prop where
  run : engine.run =
    some ⟨number, .settling probe outcomes.length, schedule.time outcomes + schedule.wait⟩
  now : engine.now ≤ schedule.time outcomes + schedule.wait
  tried : ∃ path done, schedule.paths[outcomes.length]? = some path ∧ schedule.Kept outcomes done ∧
    deeds = done ++ [.tried outcomes.length path (schedule.time outcomes) true]

/-- The run has visited all its candidates and come to its report. -/
structure Concluded (engine : Engine) (number : Nat) (schedule : Schedule) (outcomes : List Bool)
    (deeds : List Deed) (report : Report) : Prop where
  all : outcomes.length = schedule.paths.length
  kept : schedule.Kept outcomes deeds
  filed : (number, report) ∈ engine.reports
  now : engine.now = schedule.time outcomes
  elapsed : report.elapsed = schedule.wait * outcomes.count true
  within : report.elapsed ≤ schedule.wait * schedule.paths.length
  free : engine.guard.busy = false

/-- Where a step leaves a run that has done these deeds. -/
inductive OnSchedule (engine : Engine) (number : Nat) (probe : Probe) (schedule : Schedule)
    (deeds : List Deed) : Prop where
  | waits {outcomes : List Bool} (h : Waits engine number probe schedule outcomes deeds)
  | concluded {outcomes : List Bool} {report : Report}
      (h : Concluded engine number schedule outcomes deeds report)

theorem conclude_filed (engine : Engine) (number : Nat) (probe : Probe) :
    ∃ report, (number, report) ∈ (engine.conclude number probe).reports ∧
      report.elapsed = engine.now - probe.started := by
  have hsame := installWinner_instant { engine with phase := .installing } number probe
    (engine.recorder.table.best?.map Prod.fst)
  exact ⟨_, List.mem_append_right _ List.mem_cons_self, congrArg (· - probe.started) hsame.now⟩

/-- The induction is on the candidates that are left. -/
theorem tryFromTold_kept (number : Nat) {schedule : Schedule}
    (hstarted : probe.started = schedule.start) (hpaths : probe.paths = schedule.paths)
    (hwait : min engine.settings.settlePeriod longestWait = schedule.wait)
    {outcomes : List Bool} {done : List Deed} (hkept : schedule.Kept outcomes done)
    (hnow : engine.now = schedule.time outcomes) {index : Nat} (hindex : outcomes.length = index)
    (hle : index ≤ probe.paths.length) {rest : List Path} (hrest : rest = probe.paths.drop index) :
    (engine.tryFromTold number probe index rest).1.OnSchedule number probe schedule
      (done ++ (engine.tryFromTold number probe index rest).2) := by
  induction rest generalizing engine outcomes done index with
  | nil =>
    obtain ⟨report, hfiled, helapsed⟩ := conclude_filed engine number probe
    have hend : probe.paths.length ≤ index := List.drop_eq_nil_iff.mp hrest.symm
    have hall : outcomes.length = schedule.paths.length := by
      rw [hindex, ← hpaths]
      omega
    have hspan : report.elapsed = schedule.wait * outcomes.count true := by
      rw [helapsed, hnow, hstarted, Schedule.time]
      omega
    exact .concluded {
      all := hall
      kept := by simpa only [tryFromTold, List.append_nil] using hkept
      filed := hfiled
      now := (conclude_instant engine number probe).now.trans hnow
      elapsed := hspan
      within := by
        rw [hspan, ← hall]
        exact Nat.mul_le_mul_left _ List.count_le_length
      free := rfl }
  | cons path rest ih =>
    obtain ⟨hpath, hnext⟩ := Probe.first_left hrest
    have hlt := (List.getElem?_eq_some_iff.mp hpath).1
    rw [hpaths, ← hindex] at hpath
    let tried : Engine := { engine with
      phase := .probing index, run := some ⟨number, .settling probe index, engine.now⟩ }
    obtain ⟨hsettings, -, hlater⟩ := installPath_instant tried
      ⟨.candidate number index, path, probe.generation, probe.routing⟩
    simp only [tryFromTold]
    rcases hanswer : tried.installPath
        ⟨.candidate number index, path, probe.generation, probe.routing⟩ with ⟨next, fault | count⟩
    · rw [hanswer] at hsettings hlater
      have hvisited := hkept.append hpath false
      rw [hindex, ← hnow] at hvisited
      have hrest := ih (by rw [hsettings]; exact hwait) hvisited
        (by rw [hlater, Schedule.time_append]; exact hnow) (by simp [hindex]) hlt hnext
      rw [List.append_assoc] at hrest
      exact hrest
    · rw [hanswer] at hsettings hlater
      have hdue :
          next.after next.settings.settlePeriod = schedule.time outcomes + schedule.wait := by
        rw [Engine.after, hlater, hsettings, ← hnow, ← hwait]
      exact .waits {
        run := by simp only [hdue, hindex]
        now := Nat.le_trans (Nat.le_of_eq (hlater.trans hnow)) (Nat.le_add_right _ _)
        tried := ⟨path, done, hpath, hkept, by rw [hindex, ← hnow]⟩ }

/-- A run that waits for a candidate goes on when it has settled: it is sampled, and the others are
tried. -/
theorem Waits.resumeRunTold {schedule : Schedule} {outcomes : List Bool} {deeds : List Deed}
    (h : Waits engine number probe schedule outcomes deeds)
    (hstarted : probe.started = schedule.start) (hpaths : probe.paths = schedule.paths)
    (hwait : min engine.settings.settlePeriod longestWait = schedule.wait)
    (hnow : engine.now = schedule.time outcomes + schedule.wait) {run : Run}
    (hrun : engine.run = some run) :
    (engine.resumeRunTold run).1.OnSchedule number probe schedule
      (deeds ++ (engine.resumeRunTold run).2) := by
  obtain rfl := Option.some.inj (hrun.symm.trans h.run)
  obtain ⟨path, done, hpath, hkept, rfl⟩ := h.tried
  obtain ⟨hsettings, -, hlater⟩ := measure_instant engine probe.routing.graph probe.generation
    probe.paths outcomes.length
  have hlt := (List.getElem?_eq_some_iff.mp hpath).1
  have hrest := tryFromTold_kept number hstarted hpaths (hsettings ▸ hwait)
    (hkept.append hpath true) (by rw [hlater, hnow, Schedule.time_append]; rfl)
    (show (outcomes ++ [true]).length = outcomes.length + 1 from List.length_append)
    (hpaths ▸ hlt) rfl
  rw [Schedule.visit, ← hnow] at hrest
  simpa only [Engine.resumeRunTold, List.append_assoc, List.cons_append, List.nil_append, if_true]
    using hrest

/-! ## What is told is written down -/

/-- What an entry of a history says that a run has done with a candidate, if it does. -/
def deed? (entry : Entry) : Option Deed :=
  match entry.occurrence with
  | .computed ⟨.candidate _ index, path, _, routing⟩ =>
    some (.tried index path entry.found.now
      (decide (entry.found.installer.Succeeds routing.graph entry.found.plane path)))
  | .measured measurement => some (.sampled measurement.index entry.found.now)
  | _ => none

/-- What has been done with candidates according to a history, the first thing first. -/
def deedsIn (history : List Entry) : List Deed := history.reverse.filterMap deed?

/-- What is done in between leaves entries that say these deeds. -/
structure Writes (before after : Engine) (deeds : List Deed) : Prop where
  written : ∃ new, after.history = new ++ before.history ∧ deedsIn new = deeds

theorem Writes.refl (engine : Engine) : Writes engine engine [] := ⟨[], rfl, rfl⟩

theorem Writes.trans {first second third : Engine} {earlier later : List Deed}
    (h : Writes first second earlier) (hnext : Writes second third later) :
    Writes first third (earlier ++ later) := by
  obtain ⟨new, hnew, rfl⟩ := h
  obtain ⟨more, hmore, rfl⟩ := hnext
  refine ⟨more ++ new, by rw [hmore, hnew, List.append_assoc], ?_⟩
  rw [deedsIn, List.reverse_append, List.filterMap_append]
  rfl

theorem writes_note (engine : Engine) (occurrence : Occurrence) :
    Writes engine (engine.note occurrence) (deed? ⟨engine.toMoment, occurrence⟩).toList := by
  refine ⟨[⟨engine.toMoment, occurrence⟩], rfl, ?_⟩
  cases h : deed? ⟨engine.toMoment, occurrence⟩ <;> simp [deedsIn, h]

theorem Offers.deedsIn_eq_nil {new : List Entry} {rules : List Rule} (h : Offers new rules) :
    deedsIn new = [] := by
  rw [deedsIn, List.filterMap_eq_nil_iff]
  intro entry hentry
  have honly := h.only entry (List.mem_reverse.mp hentry)
  unfold Entry.rule? Entry.interjection? at honly
  unfold deed?
  cases hoccurrence : entry.occurrence <;> simp_all

/-- Of a path that is installed, its computation is written down, and then offers. -/
theorem installPath_writes (hbusy : engine.guard.busy = true) (computation : Computation) :
    Writes engine (engine.installPath computation).1
      (deed? ⟨engine.toMoment, .computed computation⟩).toList := by
  obtain ⟨offers, hwork, hoffers, -⟩ := installPath_of_busy hbusy computation
  have hrest : Writes (engine.note (.computed computation)) (engine.installPath computation).1 [] :=
    ⟨offers, hwork.history, hoffers.deedsIn_eq_nil⟩
  simpa only [List.append_nil] using (writes_note engine (.computed computation)).trans hrest

theorem installWinner_writes (hbusy : engine.guard.busy = true) (number : Nat) (probe : Probe)
    (winner : Option Nat) : Writes engine (engine.installWinner number probe winner).1 [] := by
  unfold installWinner
  split
  · exact .refl engine
  · rename_i index
    split
    · exact .refl engine
    · rename_i path _
      have hinstall : Writes engine _ [] := installPath_writes hbusy
        ⟨.winner number index, path, probe.generation, probe.routing⟩
      split
      · rename_i hanswer
        rw [hanswer] at hinstall
        exact ⟨hinstall.written⟩
      · rename_i hanswer
        rw [hanswer] at hinstall
        exact hinstall

theorem installPath_ok_iff (hbusy : engine.guard.busy = true) (computation : Computation) :
    (∃ count, (engine.installPath computation).2 = .ok count) ↔
      engine.installer.Succeeds computation.routing.graph engine.plane computation.path := by
  obtain ⟨_, -, -, -, hattempt⟩ := installPath_of_busy hbusy computation
  rw [hattempt]
  rcases engine.installer.attempt_cases computation.routing.graph engine.plane computation.path with
    ⟨hsucceeds, count, hanswer⟩ | ⟨hfails, fault, hanswer⟩
  · simp [hanswer, hsucceeds]
  · simp [hanswer, hfails]

/-- The induction is on the candidates that are left. -/
theorem tryFromTold_writes (hbusy : engine.guard.busy = true) (number : Nat) (probe : Probe)
    (index : Nat) (rest : List Path) :
    Writes engine (engine.tryFromTold number probe index rest).1
      (engine.tryFromTold number probe index rest).2 := by
  induction rest generalizing engine index with
  | nil =>
    have hdeciding : ({ engine with phase := .installing } : Engine).guard.busy = true := hbusy
    exact ⟨(installWinner_writes hdeciding number probe
      (engine.recorder.table.best?.map Prod.fst)).written⟩
  | cons path rest ih =>
    let tried : Engine := { engine with
      phase := .probing index, run := some ⟨number, .settling probe index, engine.now⟩ }
    let computation : Computation :=
      ⟨.candidate number index, path, probe.generation, probe.routing⟩
    have htried : tried.guard.busy = true := hbusy
    obtain ⟨_, hwork, -⟩ := installPath_of_busy htried computation
    have hiff := installPath_ok_iff htried computation
    have hinstall := installPath_writes htried computation
    have hdeed : deed? ⟨tried.toMoment, .computed computation⟩ = some (.tried index path engine.now
      (decide (tried.installer.Succeeds probe.routing.graph tried.plane path))) := rfl
    simp only [tryFromTold]
    rcases hanswer : tried.installPath computation with ⟨next, fault | count⟩
    · have hfails : ¬ tried.installer.Succeeds probe.routing.graph tried.plane path :=
        fun hsucceeds => by simpa [hanswer] using hiff.mpr hsucceeds
      rw [hanswer] at hwork hinstall
      rw [hdeed, decide_eq_false hfails] at hinstall
      have hfirst : Writes engine next [.tried index path engine.now false] := ⟨hinstall.written⟩
      exact hfirst.trans (ih (hwork.busy hbusy) (index + 1))
    · have hsucceeds : tried.installer.Succeeds probe.routing.graph tried.plane path :=
        hiff.mp ⟨count, by rw [hanswer]⟩
      rw [hanswer, hdeed, decide_eq_true hsucceeds] at hinstall
      exact ⟨hinstall.written⟩

/-- Of a sample, the reading is written down, if there is a port to read. -/
theorem measure_writes (hbusy : engine.guard.busy = true) (graph : Graph) (generation : Nat)
    (paths : List Path) (index : Nat) :
    Writes engine (engine.measure graph generation paths index).1
      (if (paths[index]?.bind graph.measuredAt?).isSome then [.sampled index engine.now]
        else []) := by
  unfold measure
  cases paths[index]?.bind graph.measuredAt? with
  | none => exact .refl engine
  | some port =>
    cases hbefore : engine.beforeReading with
    | none => exact ⟨[_], rfl, rfl⟩
    | some interjection =>
      simp only [interjected_of_busy hbusy]
      exact ⟨[_, ⟨engine.toMoment, .interjected interjection⟩], rfl, rfl⟩

/-- The deeds of a step are written down, but for a sample without a port to read. -/
theorem resumeRunTold_writes (hbusy : engine.guard.busy = true) (run : Run) :
    Writes engine (engine.resumeRunTold run).1
      (if run.hasPort then (engine.resumeRunTold run).2
        else (engine.resumeRunTold run).2.tail) := by
  cases hstage : run.stage with
  | spawned =>
    simp only [resumeRunTold, hstage, Run.hasPort, beginRunTold, if_true]
    cases engine.selector.routing with
    | none => exact ⟨(Writes.refl engine).written⟩
    | some routing =>
      simp only
      split
      · let probe : Probe := ⟨engine.now, engine.selector.candidates.generation, routing,
          engine.selector.candidates.paths⟩
        have htook : Writes engine (engine.takeUp run.number probe) [] :=
          ⟨(writes_note engine (.tookUp run.number probe)).written⟩
        have htaken : (engine.takeUp run.number probe).guard.busy = true := hbusy
        exact htook.trans (tryFromTold_writes htaken run.number probe 0 _)
      · exact ⟨(Writes.refl engine).written⟩
  | settling probe index =>
    have hmeasured := measure_writes hbusy probe.routing.graph probe.generation probe.paths index
    obtain ⟨_, hwork, -⟩ :=
      measure_of_busy hbusy probe.routing.graph probe.generation probe.paths index
    have hrest := hmeasured.trans (tryFromTold_writes (hwork.busy hbusy) run.number probe
      (index + 1) (probe.paths.drop (index + 1)))
    simp only [resumeRunTold, hstage, Run.hasPort]
    split
    · rename_i hport
      rw [if_pos hport] at hrest
      exact hrest
    · rename_i hport
      rw [if_neg hport] at hrest
      exact hrest

end Engine

end TrafficSteering
