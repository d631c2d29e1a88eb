import TrafficSteering.Proofs.Engine.Course
set_option autoImplicit false

/-!
# Switch runs as turns

A run that goes on either comes to its report or waits for the next candidate.  It installs and
measures under its own permit, so whatever others interject leaves the run as it is; and every way
out of it, early or late, gives the permit back.
-/

namespace TrafficSteering

variable {engine : Engine} {probe : Probe} {number : Nat}

/-- The path of a candidate, with the graph of the run. -/
theorem Probe.Sound.founded (h : probe.Sound) {path : Path} (hmem : path ∈ probe.paths)
    (selector : Selector) (purpose : Purpose) (hpurpose : purpose.isRun = true) :
    (⟨purpose, path, probe.generation, probe.routing⟩ : Computation).Founded selector where
  ofRun := fun _ => h.generation
  installed := fun hother => by simp [hpurpose] at hother
  simple := by
    intro _
    obtain ⟨src, dst, hpaths⟩ := h.paths
    rw [hpaths] at hmem
    exact ⟨src, dst, (Graph.mem_simplePaths_iff.mp hmem).2⟩

/-- A run that is at one of its candidates computes rules for any of them on its own graph. -/
theorem Probe.ofRun {moment : Moment} {place due : Nat}
    (hrun : moment.run = some ⟨number, .settling probe place, due⟩) {path : Path}
    (hmem : path ∈ probe.paths) {purpose : Purpose} (hpurpose : purpose.run? = some number) :
    (⟨purpose, path, probe.generation, probe.routing⟩ : Computation).OfRun moment := by
  intro other hother
  obtain rfl := Option.some.inj (hpurpose.symm.trans hother)
  exact ⟨probe, place, due, hrun, rfl, rfl, hmem⟩

/-- The first of the candidates that are left from a place on, and those behind it. -/
theorem Probe.first_left {path : Path} {rest : List Path} {index : Nat}
    (h : path :: rest = probe.paths.drop index) :
    probe.paths[index]? = some path ∧ rest = probe.paths.drop (index + 1) := by
  rw [← List.head?_drop, ← List.tail_drop, ← h]
  exact ⟨rfl, rfl⟩

namespace Engine

/-- The run with this number is over. -/
structure Over (engine : Engine) (number : Nat) : Prop where
  /-- It has come to a report. -/
  report : ∃ report, (number, report) ∈ engine.reports
  /-- It has given the permit back, and its phase is over. -/
  rest : engine.AtRest

/-- The run with this number waits for a candidate to settle. -/
structure Settles (engine : Engine) (number : Nat) (probe : Probe) : Prop where
  permit : engine.guard.busy = true
  /-- It waits for the candidate that it is trying. -/
  run : ∃ index due, engine.run = some ⟨number, .settling probe index, due⟩ ∧
    index < probe.paths.length ∧ engine.phase = .probing index

/-- A report is filed for a run that has not turned to its candidates or has concluded. -/
theorem finishRun_over (h : engine.Steady) {run : Run} (hrun : engine.run = some run)
    (report : Report) :
    Turns engine ({ engine with phase := .idle }.finishRun run.number report) ∧
    ({ engine with phase := .idle }.finishRun run.number report).Over run.number := by
  have hfinished := Turn.finished hrun report
  refine ⟨.single hfinished, ⟨report, ?_⟩, (hfinished.steady h).exclusive.atRest rfl⟩
  simp [finishRun]

theorem installWinner_course (h : engine.Steady) {place due : Nat}
    (hrun : engine.run = some ⟨number, .settling probe place, due⟩) (winner : Option Nat) :
    Course engine (engine.installWinner number probe winner).1 := by
  cases winner with
  | none => exact .refl engine
  | some index =>
    cases hpath : probe.paths[index]? with
    | none =>
      simp only [installWinner, hpath]
      exact .refl engine
    | some path =>
      have hmem := List.mem_of_getElem? hpath
      have hfounded := (h.probe _ probe place hrun rfl).founded hmem engine.selector
        (.winner number index) rfl
      have hinstall := (installWith_nested offer_orderly h hfounded (Probe.ofRun hrun hmem rfl)
        (fun _ hpacket => Purpose.noConfusion hpacket)).course
      simp only [installWinner, hpath, installPath]
      split
      · rename_i next _ hanswer
        rw [hanswer] at hinstall
        have hcommit := perform_course (.commit (some probe.generation) index) (fun _ => rfl) next
        exact hinstall.trans hcommit
      · rename_i hanswer
        rw [hanswer] at hinstall
        exact hinstall

theorem conclude_over (h : engine.Steady) {index due : Nat}
    (hrun : engine.run = some ⟨number, .settling probe index, due⟩) :
    Turns engine (engine.conclude number probe) ∧ (engine.conclude number probe).Over number := by
  have hdecided := Turn.decided hrun
  have hwinner := installWinner_course (hdecided.steady h) hrun
    (engine.recorder.table.best?.map Prod.fst)
  -- The run is still there when the winner has been installed.
  have hkept := (hwinner.undisturbed (h.exclusive.of_run hrun).1).run.trans hrun
  unfold conclude
  cases hanswer : { engine with phase := .installing }.installWinner number probe
      (engine.recorder.table.best?.map Prod.fst) with
  | mk next committed =>
    rw [hanswer] at hwinner hkept
    simp only [hanswer]
    obtain ⟨hfinished, hover⟩ := finishRun_over (hwinner.steady (hdecided.steady h)) hkept
      { generation := probe.generation, throughputs := engine.recorder.table.samples
        selected := engine.recorder.table.best?.map Prod.fst, committed
        elapsed := next.now - probe.started }
    exact ⟨((Relation.ReflTransGen.single hdecided).trans hwinner.turns).trans hfinished, hover⟩

/-- The induction is on the candidates that are left.  After one that could not be installed the run
is at that candidate, so it can conclude once none is left. -/
theorem tryFrom_settles_or_over (h : engine.Steady) (hsound : probe.Sound) (index : Nat)
    {rest : List Path} (hrest : rest = probe.paths.drop index) {run : Run}
    (hrun : engine.run = some run) (hnumber : run.number = number)
    (hsource : engine.WorksOn run probe)
    (hstage : rest = [] → ∃ place, run.stage = .settling probe place) :
    Turns engine (engine.tryFrom number probe index rest) ∧
    ((engine.tryFrom number probe index rest).Settles number probe ∨
      (engine.tryFrom number probe index rest).Over number) := by
  subst hnumber
  induction rest generalizing engine run index with
  | nil =>
    obtain ⟨place, hplace⟩ := hstage rfl
    obtain ⟨number, stage, due⟩ := run
    obtain rfl : stage = .settling probe place := hplace
    have hconclude := conclude_over h hrun
    exact ⟨hconclude.1, .inr hconclude.2⟩
  | cons path rest ih =>
    obtain ⟨hpath, hnext⟩ := Probe.first_left hrest
    have hindex := (List.getElem?_eq_some_iff.mp hpath).1
    have hmem := List.mem_of_getElem? hpath
    have htried := Turn.tried hrun hsound hsource hindex engine.now
    have hfounded := hsound.founded hmem engine.selector (.candidate run.number index) rfl
    have hinstall := (installWith_nested offer_orderly (htried.steady h) hfounded
      (Probe.ofRun rfl hmem rfl) (fun _ hpacket => Purpose.noConfusion hpacket)).course
    have hbusy := (h.exclusive.of_run hrun).1
    have hkept := hinstall.undisturbed hbusy
    simp only [tryFrom, installPath]
    split
    · rename_i next fault hanswer
      rw [hanswer] at hinstall hkept
      have hlater := ih (hinstall.steady (htried.steady h)) (index + 1) hnext hkept.run
        (.inl ⟨index, rfl⟩) (fun _ => ⟨index, rfl⟩)
      exact ⟨((Relation.ReflTransGen.single htried).trans hinstall.turns).trans hlater.1, hlater.2⟩
    · rename_i next count hanswer
      rw [hanswer] at hinstall hkept
      have hwaited := Turn.waited hkept.run (next.after next.settings.settlePeriod)
      refine ⟨((Relation.ReflTransGen.single htried).trans hinstall.turns).tail hwaited, .inl ?_⟩
      exact ⟨(congrArg Guard.busy hkept.guard).trans hbusy, index, _, rfl, hindex, hkept.phase⟩

theorem beginRun_settles_or_over (h : engine.Steady) {run : Run} (hrun : engine.run = some run)
    (hstage : run.stage = .spawned) :
    Turns engine (engine.beginRun run.number) ∧
    ((∃ probe, (engine.beginRun run.number).Settles run.number probe) ∨
      (engine.beginRun run.number).Over run.number) := by
  have hidle := h.exclusive.idle_of_spawned hrun hstage
  have hnothing : ∀ report, Turns engine (engine.finishRun run.number report) ∧
      (engine.finishRun run.number report).Over run.number := by
    intro report
    have hover := finishRun_over h hrun report
    rw [← hidle] at hover
    exact hover
  cases hrouting : engine.selector.routing with
  | none =>
    simp only [beginRun, hrouting]
    exact ⟨(hnothing _).1, .inr (hnothing _).2⟩
  | some routing =>
    simp only [beginRun, hrouting]
    split
    · rename_i hcandidates
      obtain ⟨hgeneration, hne⟩ := hcandidates
      have hsound : Probe.Sound ⟨engine.now, engine.selector.candidates.generation, routing,
          engine.selector.candidates.paths⟩ := ⟨hgeneration, candidates_simple h hrouting hne⟩
      have htaken : Turn engine _ := .tookUp run.number hsound hrouting
      have htried := tryFrom_settles_or_over (htaken.steady h) hsound 0 List.drop_zero.symm hrun rfl
        (.inr ⟨_, List.mem_cons_self, rfl⟩) (fun hnil => absurd hnil hne)
      exact ⟨(Relation.ReflTransGen.single htaken).trans htried.1,
        htried.2.imp_left fun hsettles => ⟨_, hsettles⟩⟩
    · exact ⟨(hnothing _).1, .inr (hnothing _).2⟩

/-- A run that goes on comes to its next wait or to its end. -/
theorem resumeRun_settles_or_over (h : engine.Steady) {run : Run} (hrun : engine.run = some run) :
    Turns engine (engine.resumeRun run) ∧
    ((∃ probe, (engine.resumeRun run).Settles run.number probe) ∨
      (engine.resumeRun run).Over run.number) := by
  cases hstage : run.stage with
  | spawned =>
    simp only [resumeRun, hstage]
    exact beginRun_settles_or_over h hrun hstage
  | settling probe index =>
    have hsound := h.probe run probe index hrun hstage
    have hmeasured := measure_course h (fun _ => hsound.paths) probe.generation index
    have hkept := (hmeasured.undisturbed (h.exclusive.of_run hrun).1).run.trans hrun
    have htried := tryFrom_settles_or_over (hmeasured.steady h) hsound (index + 1) rfl hkept rfl
      (.inl ⟨index, hstage⟩) (fun _ => ⟨index, hstage⟩)
    simp only [resumeRun, hstage]
    exact ⟨hmeasured.turns.trans htried.1, htried.2.imp_left fun hsettles => ⟨probe, hsettles⟩⟩

end Engine

end TrafficSteering
