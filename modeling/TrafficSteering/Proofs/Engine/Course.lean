import TrafficSteering.Proofs.Engine.Turn
import TrafficSteering.Proofs.Graph.Agreement
set_option autoImplicit false

/-!
# Operations as turns

Every operation is turns one after another, whatever it is asked for and whatever others interject
while it waits for the data plane or for a reading.  While somebody holds the permit, no operation
but the run itself touches permits, runs or phase: all that needs the permit is refused.
-/

namespace TrafficSteering

namespace Selector

variable {selector : Selector}

/-- A selection is found on the installed graph, and its path is a simple path there. -/
theorem selectFor_found {reason : ChangeReason} {src dst : SwitchId} {selection : Selection}
    (h : (selector.selectFor reason src dst).answer = .ok (some selection)) :
    ∃ routing, selector.routing = some routing ∧ selection.generation = routing.generation ∧
      routing.graph.IsSimplePath src dst selection.path := by
  cases hrouting : selector.routing with
  | none => simp [selectFor, requireRouting, hrouting] at h
  | some routing =>
    refine ⟨routing, rfl, ?_⟩
    -- The answer is the same whether or not the candidates belong to the graph.
    have hanswer : (selector.selectFor reason src dst).answer =
        .ok ((compute routing src dst).2.map fun found =>
          ⟨routing.generation, (compute routing src dst).1, found.2, found.1⟩) := by
      by_cases hgeneration : selector.candidates.generation = routing.generation
      · exact (selectFor_of_routing reason src dst hrouting hgeneration).2
      · simp only [selectFor, requireRouting, hrouting, if_neg hgeneration]
    rw [hanswer, Except.ok.injEq, Option.map_eq_some_iff] at h
    obtain ⟨⟨path, index⟩, hfound, rfl⟩ := h
    obtain ⟨shortest, hshortest, heq⟩ := Option.map_eq_some_iff.mp hfound
    obtain ⟨rfl, rfl⟩ := Prod.mk.inj heq
    exact ⟨rfl, Graph.path?_isSimplePath hshortest⟩

theorem reroute_found {selection : Selection}
    (h : selector.reroute.answer = .ok (some selection)) :
    ∃ routing src dst, selector.routing = some routing ∧
      selection.generation = routing.generation ∧
      routing.graph.IsSimplePath src dst selection.path := by
  unfold reroute at h
  cases hendpoints : selector.endpoints with
  | none => simp [hendpoints] at h
  | some ends =>
    obtain ⟨src, dst⟩ := ends
    rw [hendpoints] at h
    obtain ⟨routing, hfound⟩ := selectFor_found h
    exact ⟨routing, src, dst, hfound⟩

end Selector

/-- If the installed graph is still the one that a selection was found on, the selected path is a
simple path of it. -/
def Selection.Tied (selection : Selection) (selector : Selector) : Prop :=
  ∀ routing, selector.routing = some routing → routing.generation = selection.generation →
    ∃ src dst, routing.graph.IsSimplePath src dst selection.path

/-- The path of a selection, with the graph that is installed now. -/
theorem Selection.Tied.founded {selection : Selection} {selector : Selector}
    (h : selection.Tied selector) {routing : Routing} (hrouting : selector.routing = some routing)
    (purpose : Purpose) (hpurpose : purpose.isRun = false) :
    (⟨purpose, selection.path, selection.generation, routing⟩ : Computation).Founded selector where
  ofRun := fun hrun => by simp [hpurpose] at hrun
  installed := fun _ => hrouting
  simple := h routing hrouting

/-- What is not computed for a run says nothing about one. -/
theorem Computation.ofRun_of_other {computation : Computation} {moment : Moment}
    (h : computation.purpose.run? = none) : computation.OfRun moment :=
  fun number hrun => by simp [h] at hrun

namespace Guard

theorem tryBegin?_of_free {guard : Guard} (h : guard.busy = false) :
    guard.tryBegin? = some ⟨true⟩ := by
  simp [tryBegin?, h]

theorem tryBegin?_of_busy {guard : Guard} (h : guard.busy = true) : guard.tryBegin? = none := by
  simp [tryBegin?, h]

end Guard

namespace Engine

open Moment

variable {engine after : Engine}

/-- An operation that others start: it is turns one after another, it files no report, and while
somebody holds the permit it leaves permits, runs and phase alone. -/
structure Course (engine after : Engine) : Prop where
  turns : Turns engine after
  reports : after.reports = engine.reports
  undisturbed : engine.guard.busy = true → engine.Undisturbed after.toMoment

namespace Course

theorem refl (engine : Engine) : Course engine engine :=
  ⟨.refl, rfl, fun _ => {}⟩

theorem of_turn (hturn : Turn engine after) (h : engine.Undisturbed after.toMoment) :
    Course engine after :=
  ⟨.single hturn, h.reports, fun _ => h⟩

theorem trans {first second third : Engine} (h : Course first second)
    (hnext : Course second third) : Course first third := by
  refine ⟨h.turns.trans hnext.turns, hnext.reports.trans h.reports, fun hbusy => ?_⟩
  have hsame := h.undisturbed hbusy
  exact hsame.trans (hnext.undisturbed (hsame.guard ▸ hbusy))

theorem steady (h : Course engine after) (hsteady : engine.Steady) : after.Steady :=
  h.turns.steady hsteady

/-- An operation that needs the permit is only turns if the permit is free. -/
theorem of_free (hfree : engine.guard.busy = false) (hturns : Turns engine after)
    (hreports : after.reports = engine.reports) : Course engine after :=
  ⟨hturns, hreports, fun hbusy => by simp [hfree] at hbusy⟩

end Course

/-- An operation that others start, where all that is computed is computed within forced choices, at
least `depth` of them. -/
structure Nested (depth : Nat) (before after : Engine) : Prop where
  course : Course before after
  enclosed : ∃ since, Enclosed depth before after since

theorem Nested.refl {depth : Nat} (engine : Engine) : Nested depth engine engine :=
  ⟨.refl engine, _, .of_silent rfl rfl rfl⟩

theorem Nested.trans {depth : Nat} {first second third : Engine} (h : Nested depth first second)
    (hnext : Nested depth second third) : Nested depth first third := by
  obtain ⟨hcourse, since, henclosed⟩ := h
  obtain ⟨hmore, others, hothers⟩ := hnext
  exact ⟨hcourse.trans hmore, _, henclosed.trans hothers⟩

/-! ## The selector -/

/-- An operation of the selector that does the same as a request. -/
def Answers {α : Type} (operation : Selector → Outcome Selector α) (request : Selector.Request) :
    Prop :=
  ∀ selector, Selector.unanswered (operation selector) = Selector.serve request selector

theorem perform_serves {α : Type} {operation : Selector → Outcome Selector α}
    {request : Selector.Request} (hserve : Answers operation request) (engine : Engine) :
    ∃ requests, (engine.perform operation).1.selector = engine.selector.serveAll requests := by
  have hforum : (engine.forum.perform operation).1 =
      (engine.forum.perform (Selector.serve request)).1 := by
    unfold SelectorForum.perform
    rw [← hserve]
    rfl
  obtain ⟨requests, hstate⟩ := Selector.perform_serveAll engine.forum request
  exact ⟨requests, (congrArg Forum.state hforum).trans hstate⟩

theorem perform_course {α : Type} {operation : Selector → Outcome Selector α}
    (request : Selector.Request) (hserve : Answers operation request) (engine : Engine) :
    Course engine (engine.perform operation).1 := by
  obtain ⟨requests, hstate⟩ := perform_serves hserve engine
  exact .of_turn (.asked requests hstate) {}

/-- After a selection with all its callbacks, the selection is tied to the selector: if the
generation is the same, so is the graph. -/
theorem perform_tied {α : Type} {operation : Selector → Outcome Selector α}
    {request : Selector.Request} (hserve : Answers operation request) (h : engine.Steady)
    {selection : Selection} {routing : Routing} {src dst : SwitchId}
    (hrouting : engine.selector.routing = some routing)
    (hgeneration : selection.generation = routing.generation)
    (hsimple : routing.graph.IsSimplePath src dst selection.path) :
    selection.Tied (engine.perform operation).1.selector := by
  intro later hlater hsame
  obtain ⟨requests, hstate⟩ := perform_serves hserve engine
  have hconsistent := ((perform_course _ hserve engine).steady h).consistent
  have hlast : (engine.selector.serveAll requests).lastGeneration =
      engine.selector.lastGeneration := by
    rw [← hstate, ← hconsistent.installed later hlater, hsame, hgeneration,
      h.consistent.installed routing hrouting]
  have hkept := Selector.serveAll_routing engine.selector requests hlast
  rw [← hstate, hlater, hrouting] at hkept
  obtain rfl := Option.some.inj hkept
  exact ⟨src, dst, hsimple⟩

theorem update_course (engine : Engine) (report : Snapshot) :
    Course engine (engine.update report).1 :=
  .of_turn (.asked [.update report] rfl) {}

theorem disable_course (engine : Engine) : Course engine engine.disable :=
  .of_turn (.asked [.disable] rfl) {}

/-! ## Permits of callers -/

theorem grab_course (engine : Engine) : Course engine engine.grab.1 := by
  unfold grab
  cases hbusy : engine.guard.busy with
  | true =>
    rw [Guard.tryBegin?_of_busy hbusy]
    exact .refl engine
  | false =>
    rw [Guard.tryBegin?_of_free hbusy]
    exact .of_free hbusy (.single (.grabbed hbusy)) rfl

theorem release_turns (engine : Engine) : Turns engine engine.release.1 := by
  unfold release
  split
  · exact .refl
  · rename_i hkept
    exact .single (.released hkept)

/-! ## Rules -/

/-- A way to offer rules that is an operation like all others, and after which the rules that are
left still belong to their computation. -/
def Offer.Orderly (offer : Offer) : Prop :=
  ∀ {engine made : Engine} {rule : Rule} {computation : Computation} {since : List Entry},
    engine.Steady → engine.Owed rule made computation since →
      Course engine (offer engine rule).1 ∧ ∃ more, Interlude engine (offer engine rule).1 more

theorem offerAtOnce_orderly : offerAtOnce.Orderly := fun _ howed =>
  ⟨.of_turn (.offered howed) {}, _, .offerAtOnce _ _⟩

section

variable {offer : Offer} (hoffer : offer.Orderly)
include hoffer

theorem offerAll_course (h : engine.Steady) {made : Engine} {computation : Computation}
    {since : List Entry} (rules : List Rule)
    (howed : ∀ rule ∈ rules, engine.Owed rule made computation since) :
    Course engine (Installer.offerAll offer engine rules).1 ∧
      ∃ more, Interlude engine (Installer.offerAll offer engine rules).1 more := by
  induction rules generalizing engine since with
  | nil => exact ⟨.refl engine, _, .refl engine⟩
  | cons rule rest ih =>
    obtain ⟨hfirst, more, hinterlude⟩ := hoffer h (howed rule List.mem_cons_self)
    unfold Installer.offerAll
    cases hanswer : offer engine rule with
    | mk next answer =>
      rw [hanswer] at hfirst hinterlude
      cases answer with
      | error fault => exact ⟨hfirst, more, hinterlude⟩
      | ok done =>
        obtain rfl : done = () := rfl
        obtain ⟨hrest, others, hothers⟩ := ih (hfirst.steady h) fun other hother =>
          (howed other (List.mem_cons_of_mem rule hother)).still hinterlude
        exact ⟨hfirst.trans hrest, _, hinterlude.trans hothers⟩

theorem installWith_nested (h : engine.Steady) {computation : Computation}
    (hfounded : computation.Founded engine.selector)
    (hrun : computation.OfRun engine.toMoment)
    (hpath : ∀ packet, computation.purpose ≠ .packet packet) :
    Nested engine.forcing engine (engine.installWith offer computation).1 := by
  have hcomputed : Nested engine.forcing engine (engine.note (.computed computation)) :=
    ⟨.of_turn (.computed hfounded hrun) {}, [⟨engine.toMoment, .computed computation⟩],
      { depth := by simp }⟩
  unfold installWith Installer.installPath
  cases hrules : engine.installer.rulesForPath computation.routing.graph computation.path with
  | error fault => exact hcomputed
  | ok rules =>
    have howed : ∀ rule ∈ rules,
        (engine.note (.computed computation)).Owed rule engine computation [] := fun rule hmem =>
      owed_of_rules engine ((computation.rules_of_path engine.installer hpath).trans hrules) hmem
    obtain ⟨hall, more, hinterlude⟩ :=
      offerAll_course hoffer (hcomputed.course.steady h) rules howed
    have hdone := hcomputed.trans
      ⟨hall, more, hinterlude.toEnclosed.mono (Nat.le_succ engine.forcing)⟩
    rcases hanswer : Installer.offerAll offer (engine.note (.computed computation)) rules with
      ⟨next, fault | done⟩
    · rw [hanswer] at hdone
      simpa only [hanswer] using hdone
    · rw [hanswer] at hdone
      simpa only [hanswer] using hdone

theorem installChoice_nested (h : engine.Steady) {answer : Except Fault (Option Selection)}
    (htied : ∀ selection, answer = .ok (some selection) → selection.Tied engine.selector) :
    Nested engine.forcing engine (engine.installChoice offer answer).1 := by
  match answer with
  | .error fault => exact .refl engine
  | .ok none => exact .refl engine
  | .ok (some selection) =>
    cases hrouting : engine.selector.routing with
    | none =>
      simp only [installChoice, hrouting]
      exact .refl engine
    | some routing =>
      have hfounded := (htied selection rfl).founded hrouting .reroute rfl
      have hinstall := installWith_nested hoffer h hfounded (Computation.ofRun_of_other rfl)
        (fun _ hpacket => Purpose.noConfusion hpacket)
      simp only [installChoice, hrouting]
      split
      · rename_i hanswer
        rw [hanswer] at hinstall
        exact hinstall
      · rename_i hanswer
        rw [hanswer] at hinstall
        exact hinstall

theorem chooseWith_nested (h : engine.Steady) :
    Nested engine.forcing engine (engine.chooseWith offer).1 := by
  have hserve : Answers Selector.reroute .reroute := fun _ => rfl
  have hchoice := perform_course _ hserve engine
  refine Nested.trans ⟨hchoice, _, .of_silent rfl rfl rfl⟩
    (installChoice_nested hoffer (hchoice.steady h) ?_)
  intro selection hanswer
  obtain ⟨routing, src, dst, hrouting, hgeneration, hsimple⟩ := Selector.reroute_found hanswer
  exact perform_tied hserve h hrouting hgeneration hsimple

/-- A forced choice while the permit is free: it takes the permit, and gives it back whatever comes
of the choice and of its installation. -/
theorem rerouteWith_of_free (h : engine.Steady) (hfree : engine.guard.busy = false) :
    Turns engine (engine.rerouteWith offer).1 ∧ (engine.rerouteWith offer).1.AtRest := by
  have hforced := Turn.forced hfree
  have hheld := (chooseWith_nested hoffer (hforced.steady h)).course
  have hsteady := hheld.steady (hforced.steady h)
  -- The permit is still held when the choice has been installed.
  have hforcing := (hheld.undisturbed rfl).forcing
  have hunforced := Turn.unforced (by rw [hforcing]; exact Nat.succ_ne_zero engine.forcing)
  simp only [rerouteWith, Guard.tryBegin?_of_free hfree]
  exact ⟨((Relation.ReflTransGen.single hforced).trans hheld.turns).tail hunforced,
    (hunforced.steady hsteady).exclusive.atRest rfl⟩

omit hoffer in
/-- While somebody holds the permit, a forced choice does nothing. -/
theorem rerouteWith_of_busy (hbusy : engine.guard.busy = true) :
    engine.rerouteWith offer = (engine, .ok none) := by
  simp only [rerouteWith, Guard.tryBegin?_of_busy hbusy]

/-- What a forced choice computes is computed while there is one more of them. -/
theorem rerouteWith_nested (h : engine.Steady) :
    Nested (engine.forcing + 1) engine (engine.rerouteWith offer).1 := by
  cases hbusy : engine.guard.busy with
  | true =>
    rw [rerouteWith_of_busy hbusy]
    exact .refl engine
  | false =>
    obtain ⟨hturns, -⟩ := rerouteWith_of_free hoffer h hbusy
    have hforced := Turn.forced hbusy
    obtain ⟨hcourse, since, hchoice⟩ := chooseWith_nested hoffer (hforced.steady h)
    simp only [rerouteWith, Guard.tryBegin?_of_free hbusy] at hturns ⊢
    exact ⟨.of_free hbusy hturns hcourse.reports, since, hchoice.history, hchoice.settings,
      (congrArg (· - 1) hchoice.forcing).trans (Nat.add_sub_cancel engine.forcing 1),
      hchoice.depth⟩

theorem interject_nested (h : engine.Steady) (interjection : Interjection) :
    Nested (engine.forcing + 1) engine (engine.interject offer interjection) := by
  cases interjection with
  | grab =>
    have hgrab : Enclosed (engine.forcing + 1) engine engine.grab.1 [] := by
      unfold grab
      split <;> exact .of_silent rfl rfl rfl
    exact ⟨grab_course engine, _, hgrab⟩
  | disable => exact ⟨disable_course engine, _, .of_silent rfl rfl rfl⟩
  | reroute => exact rerouteWith_nested hoffer h
  | update report => exact ⟨update_course engine report, _, .of_silent rfl rfl rfl⟩
  | select src dst =>
    exact ⟨perform_course (.select src dst) (fun _ => rfl) engine, _, .of_silent rfl rfl rfl⟩

end

/-! ## Interjections -/

/-- An interjection is written down and used up, and then it happens. -/
theorem interjected_course {offer : Offer} (hoffer : offer.Orderly) (h : engine.Steady)
    (interjection : Interjection) (beforeReading beforeRule : Option Interjection) :
    Course engine ({ engine.note (.interjected interjection) with
      beforeReading, beforeRule }.interject offer interjection) ∧
    ∃ more, Interlude engine ({ engine.note (.interjected interjection) with
      beforeReading, beforeRule }.interject offer interjection) more := by
  have hnoted : Course engine (engine.note (.interjected interjection)) :=
    .of_turn (.interjected interjection) {}
  have hused : Course (engine.note (.interjected interjection))
      { engine.note (.interjected interjection) with beforeReading, beforeRule } :=
    .of_turn (.arranged engine.recorder.telemetry engine.plane.verdict engine.plane.room
      engine.awaitable engine.monitor beforeReading beforeRule engine.now)
      {}
  have hready := hnoted.trans hused
  obtain ⟨hdone, more, henclosed⟩ := interject_nested hoffer (hready.steady h) interjection
  have hnote : Enclosed (engine.forcing + 1) engine
      { engine.note (.interjected interjection) with beforeReading, beforeRule }
      [⟨engine.toMoment, .interjected interjection⟩] := { depth := by simp }
  refine ⟨hready.trans hdone, _, hnote.trans henclosed, ?_⟩
  intro hnone
  exact absurd rfl (hnone ⟨engine.toMoment, .interjected interjection⟩
    (List.mem_append_right more List.mem_cons_self) interjection)

theorem offer_orderly : Offer.Orderly offer := by
  intro engine made rule computation since h howed
  unfold offer
  cases hbefore : engine.beforeRule with
  | none => exact offerAtOnce_orderly h howed
  | some interjection =>
    obtain ⟨hdone, more, hinterlude⟩ :=
      interjected_course offerAtOnce_orderly h interjection engine.beforeReading none
    obtain ⟨hoffered, others, hothers⟩ :=
      offerAtOnce_orderly (hdone.steady h) (howed.still hinterlude)
    exact ⟨hdone.trans hoffered, _, hinterlude.trans hothers⟩

theorem reroute_course (h : engine.Steady) : Course engine engine.reroute.1 :=
  (rerouteWith_nested offer_orderly h).course

/-! ## Readings -/

theorem record_course {graph : Graph} {paths : List Path}
    (hpaths : ∃ src dst, paths = graph.simplePaths src dst) (engine : Engine)
    (generation index : Nat) :
    Course engine (engine.record graph generation paths index).1 :=
  .of_turn (.measured generation index hpaths) {}

theorem measure_course (h : engine.Steady) {graph : Graph} {paths : List Path}
    (hpaths : paths ≠ [] → ∃ src dst, paths = graph.simplePaths src dst)
    (generation index : Nat) :
    Course engine (engine.measure graph generation paths index).1 := by
  unfold measure
  cases hport : paths[index]?.bind graph.measuredAt? with
  | none => exact .refl engine
  | some port =>
    -- Where there is a port to read, there are paths.
    obtain ⟨path, hpath, _⟩ := Option.bind_eq_some_iff.mp hport
    have hsimple := hpaths (List.ne_nil_of_mem (List.mem_of_getElem? hpath))
    cases hbefore : engine.beforeReading with
    | none => exact record_course hsimple engine generation index
    | some interjection =>
      obtain ⟨hdone, -⟩ :=
        interjected_course offer_orderly h interjection none engine.beforeRule
      exact hdone.trans (record_course hsimple _ generation index)

/-- The candidates of a consistent selector, if there are any, are the simple paths of its graph. -/
theorem candidates_simple (h : engine.Steady) {routing : Routing}
    (hrouting : engine.selector.routing = some routing)
    (hne : engine.selector.candidates.paths ≠ []) :
    ∃ src dst, engine.selector.candidates.paths = routing.graph.simplePaths src dst := by
  obtain ⟨other, src, dst, hother, _, hpaths⟩ := h.consistent.complete hne
  obtain rfl := Option.some.inj (hrouting.symm.trans hother)
  exact ⟨src, dst, hpaths⟩

theorem measureNow_course (h : engine.Steady) (index : Nat) :
    Course engine (engine.measureNow index).1 := by
  unfold measureNow
  cases hrouting : engine.selector.routing with
  | none =>
    simp only [Selector.requireRouting, hrouting]
    exact .refl engine
  | some routing =>
    simp only [Selector.requireRouting, hrouting]
    exact measure_course h (candidates_simple h hrouting) _ index

/-! ## Packets -/

/-- The rule for a packet is computed and offered. -/
theorem installForPacket_course (h : engine.Steady) {computation : Computation} {packet : Packet}
    (hfounded : computation.Founded engine.selector)
    (hpacket : computation.purpose = .packet packet) :
    Course engine (engine.installer.installForPacket offer computation.routing.graph
      computation.path packet (engine.note (.computed computation))).1 := by
  have hcomputed : Course engine (engine.note (.computed computation)) :=
    .of_turn (.computed hfounded (Computation.ofRun_of_other (by rw [hpacket]; rfl))) {}
  unfold Installer.installForPacket
  cases hrule : engine.installer.ruleForPacket computation.routing.graph computation.path
      packet with
  | error fault => exact hcomputed
  | ok rule =>
    cases rule with
    | none => exact hcomputed
    | some rule =>
      have hrules : computation.rules engine.installer = .ok [rule] := by
        simp only [Computation.rules, hpacket, hrule]
        rfl
      obtain ⟨hone, -⟩ := offer_orderly (hcomputed.steady h)
        (owed_of_rules engine hrules (List.mem_singleton_self rule))
      rcases hanswer : offer (engine.note (.computed computation)) rule with ⟨next, fault | done⟩
      · rw [hanswer] at hone
        simpa only [hanswer] using hcomputed.trans hone
      · rw [hanswer] at hone
        simpa only [hanswer] using hcomputed.trans hone

theorem answerPacket_course (h : engine.Steady) (packet : Packet)
    {answer : Except Fault (Option Selection)}
    (htied : ∀ selection, answer = .ok (some selection) → selection.Tied engine.selector) :
    Course engine (engine.answerPacket packet answer).1 := by
  match answer with
  | .error fault => exact .refl engine
  | .ok none => exact .refl engine
  | .ok (some selection) =>
    cases hrouting : engine.selector.routing with
    | none =>
      simp only [answerPacket, hrouting]
      exact .refl engine
    | some routing =>
      have hfounded := (htied selection rfl).founded hrouting (.packet packet) rfl
      simp only [answerPacket, hrouting]
      exact installForPacket_course h hfounded rfl

theorem handlePacket_course (h : engine.Steady) (packet : Packet) :
    Course engine (engine.handlePacket packet).1 := by
  unfold handlePacket
  split
  · exact .refl engine
  · split
    · exact .refl engine
    · exact .refl engine
    · rename_i src dst _ _
      have hserve : Answers (fun selector => selector.select src.switch dst.switch)
          (.select src.switch dst.switch) := fun _ => rfl
      have hselect := perform_course _ hserve engine
      refine hselect.trans (answerPacket_course (hselect.steady h) packet ?_)
      intro selection hanswer
      obtain ⟨routing, hrouting, hgeneration, hsimple⟩ := Selector.selectFor_found hanswer
      exact perform_tied hserve h hrouting hgeneration hsimple

end Engine

end TrafficSteering
