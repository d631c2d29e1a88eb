import TrafficSteering.Proofs.Graph.Construction
import TrafficSteering.Proofs.Selector.Expected
import TrafficSteering.Proofs.Selector.Listeners
set_option autoImplicit false

/-!
# Topology reports

A report that does not make a graph of the expected size leaves no graph behind, neither its own nor
the one before, and no candidates.  A report that does leaves its own graph, and from then on it is
as if it had been the first: what was installed or chosen before it can no longer be told, except
that the generations have been counted on.
-/

namespace TrafficSteering

/-- A report has the expected size. -/
def Snapshot.HasSize (report : Snapshot) (expected : ExpectedSize) : Prop :=
  report.switches.length = expected.switches ∧ report.links.length = expected.links

instance (report : Snapshot) (expected : ExpectedSize) : Decidable (report.HasSize expected) :=
  inferInstanceAs (Decidable (_ ∧ _))

theorem ExpectedSize.accepts_iff {expected : ExpectedSize} {report : Snapshot} :
    expected.accepts report = true ↔ report.HasSize expected := by
  simp only [accepts, isMet, Bool.and_eq_true, beq_iff_eq, Snapshot.HasSize]
  exact and_congr eq_comm eq_comm

/-- What a selection has found, without the generation of the graph. -/
def Selection.found (selection : Selection) : List Path × Option Nat × Path :=
  (selection.paths, selection.index, selection.path)

namespace Selector

variable {selector : Selector} {report : Snapshot}

/-! ## What a report comes to -/

/-- The three ways in which a report is taken in, by its size and its links. -/
inductive Verdict (selector : Selector) (report : Snapshot) :
    Selector × Except Fault Bool → Prop where
  | miscounted (hsize : ¬ report.HasSize selector.expected) :
      Verdict selector report (selector.disable, .ok false)
  /-- A link ends at a switch that is not listed. -/
  | malformed {stranger : SwitchId} (hsize : report.HasSize selector.expected)
      (hstranger : FirstStranger report.switches report.links stranger) :
      Verdict selector report (selector.disable, .error (.unknownSwitch stranger))
  | wellFormed {graph : Graph} (hsize : report.HasSize selector.expected)
      (hgraph : Graph.ofSnapshot report = .ok graph) :
      Verdict selector report (selector.install graph, .ok true)

theorem update_verdict (selector : Selector) (report : Snapshot) :
    Verdict selector report (selector.update report) := by
  unfold update
  split
  · rename_i haccepted
    have hsize := ExpectedSize.accepts_iff.mp haccepted
    split
    · rename_i graph hgraph
      exact .wellFormed hsize hgraph
    · rename_i fault hfault
      obtain ⟨stranger, hstranger, rfl⟩ := Graph.build_eq_error_iff.mp hfault
      exact .malformed hsize hstranger
  · rename_i hrefused
    exact .miscounted (mt ExpectedSize.accepts_iff.mpr hrefused)

/-- No report both makes a graph and ends at a switch that is not listed. -/
theorem not_within_of_stranger {stranger : SwitchId}
    (h : FirstStranger report.switches report.links stranger) :
    ¬ ∀ link ∈ report.links, link.Within report.switches := by
  intro hwithin
  obtain ⟨graph, hgraph⟩ := Graph.exists_build_iff.mpr hwithin
  have hfault := Graph.build_eq_error_iff.mpr ⟨stranger, h, rfl⟩
  rw [hgraph] at hfault
  cases hfault

theorem within_of_ofSnapshot {graph : Graph} (h : Graph.ofSnapshot report = .ok graph) :
    ∀ link ∈ report.links, link.Within report.switches :=
  Graph.exists_build_iff.mp ⟨graph, h⟩

section

variable {taken : Selector × Except Fault Bool}

theorem Verdict.answer_false_iff (h : Verdict selector report taken) :
    taken.2 = .ok false ↔ ¬ report.HasSize selector.expected := by
  cases h with
  | miscounted hsize => simp [hsize]
  | malformed hsize _ => simp [hsize]
  | wellFormed hsize _ => simp [hsize]

theorem Verdict.answer_error_iff (h : Verdict selector report taken) (fault : Fault) :
    taken.2 = .error fault ↔ report.HasSize selector.expected ∧
      ∃ stranger, FirstStranger report.switches report.links stranger ∧
        fault = .unknownSwitch stranger := by
  cases h with
  | miscounted hsize => simp [hsize]
  | @malformed stranger hsize hstranger =>
    have hfault := Graph.build_eq_error_iff.mpr ⟨stranger, hstranger, rfl⟩
    rw [← Graph.build_eq_error_iff, hfault]
    simp [hsize]
  | wellFormed hsize hgraph =>
    have hnone : ¬ ∃ stranger, FirstStranger report.switches report.links stranger ∧
        fault = .unknownSwitch stranger :=
      fun ⟨_, hstranger, _⟩ => not_within_of_stranger hstranger (within_of_ofSnapshot hgraph)
    simp [hnone]

theorem Verdict.answer_true_iff (h : Verdict selector report taken) :
    taken.2 = .ok true ↔ report.HasSize selector.expected ∧
      ∀ link ∈ report.links, link.Within report.switches := by
  cases h with
  | miscounted hsize => simp [hsize]
  | malformed hsize hstranger =>
    have hnot := not_within_of_stranger hstranger
    refine iff_of_false (by simp) fun hboth => hnot hboth.2
  | wellFormed hsize hgraph =>
    exact iff_of_true rfl ⟨hsize, within_of_ofSnapshot hgraph⟩

end

/-! ## What a report leaves behind -/

/-- A withdrawal leaves neither a graph nor candidates, and is counted if there was a graph. -/
theorem Consistent.disable (h : Consistent selector) :
    selector.disable.routing = none ∧
    selector.disable.candidates = ⟨selector.disable.lastGeneration, [], none⟩ ∧
    selector.disable.lastGeneration =
      if selector.routing = none then selector.lastGeneration else selector.lastGeneration + 1 := by
  cases hrouting : selector.routing with
  | some routing => simp [Selector.disable, hrouting, replaceGraph]
  | none =>
    have hkept : selector.disable = selector := by simp [Selector.disable, hrouting]
    obtain ⟨hpaths, hactive⟩ := h.sound.withdrawn hrouting
    rw [hkept]
    refine ⟨hrouting, ?_, rfl⟩
    rw [← h.current, ← hpaths, ← hactive]

/-- Everything but graph, generation and candidates. -/
theorem disable_rest (selector : Selector) :
    selector.disable.expected = selector.expected ∧
      selector.disable.endpoints = selector.endpoints ∧
      selector.disable.session = selector.session := by
  unfold Selector.disable
  split
  · exact ⟨rfl, rfl, rfl⟩
  · exact ⟨rfl, rfl, rfl⟩

/-- What is left of the state after a report. -/
structure Closed (before after : Selector) : Prop where
  candidates : after.candidates = ⟨after.lastGeneration, [], none⟩
  lastGeneration : after.lastGeneration =
    if before.routing = none ∧ after.routing = none then before.lastGeneration
    else before.lastGeneration + 1
  expected : after.expected = before.expected
  endpoints : after.endpoints = before.endpoints
  session : after.session = before.session

theorem Consistent.disable_closed (h : Consistent selector) : Closed selector selector.disable := by
  obtain ⟨hrouting, hcandidates, hgeneration⟩ := h.disable
  obtain ⟨hexpected, hends, hsession⟩ := disable_rest selector
  refine ⟨hcandidates, ?_, hexpected, hends, hsession⟩
  simp only [hgeneration, hrouting, and_true]

theorem install_closed (selector : Selector) (graph : Graph) :
    Closed selector (selector.install graph) where
  candidates := rfl
  lastGeneration := by simp [install, replaceGraph]
  expected := rfl
  endpoints := rfl
  session := rfl

theorem Consistent.update_closed (h : Consistent selector) (report : Snapshot) :
    Closed selector (selector.update report).1 := by
  have hverdict := selector.update_verdict report
  generalize selector.update report = taken at hverdict
  cases hverdict with
  | miscounted _ => exact h.disable_closed
  | malformed _ _ => exact h.disable_closed
  | wellFormed _ _ => exact selector.install_closed _

/-! ## Selections after a report -/

/-- Two selectors choose alike for a flow, up to the generation of their graphs: they answer with
the same, announce the same, and are in the same state when they announce it. -/
structure ChooseAlike (selector other : Selector) (src dst : SwitchId) : Prop where
  answer : (selector.select src dst).answer.map (Option.map Selection.found) =
    (other.select src dst).answer.map (Option.map Selection.found)
  events : (selector.select src dst).events = (other.select src dst).events
  paths : (selector.select src dst).state.candidates.paths =
    (other.select src dst).state.candidates.paths
  active : (selector.select src dst).state.candidates.active =
    (other.select src dst).state.candidates.active
  endpoints : (selector.select src dst).state.endpoints = (other.select src dst).state.endpoints
  graph? : (selector.select src dst).state.graph? = (other.select src dst).state.graph?

/-- A first choice on a graph. -/
theorem select_of_closed {generation : Nat} {graph : Graph}
    (hrouting : selector.routing = some ⟨generation, graph⟩)
    (hcandidates : selector.candidates = ⟨generation, [], none⟩) (src dst : SwitchId) :
    selector.select src dst =
      ⟨selector.chosen ⟨generation, graph⟩ src dst,
        ({} : Selector).changeOf .selected (compute ⟨generation, graph⟩ src dst).2,
        .ok ((compute ⟨generation, graph⟩ src dst).2.map fun found =>
          ⟨generation, (compute ⟨generation, graph⟩ src dst).1, found.2, found.1⟩)⟩ := by
  simp [select, selectFor, requireRouting, hrouting, hcandidates, chosen, changeOf,
    Candidates.activePath?]

theorem chooseAlike_of_closed {other : Selector} {generation otherGeneration : Nat} {graph : Graph}
    (hrouting : selector.routing = some ⟨generation, graph⟩)
    (hcandidates : selector.candidates = ⟨generation, [], none⟩)
    (hotherRouting : other.routing = some ⟨otherGeneration, graph⟩)
    (hotherCandidates : other.candidates = ⟨otherGeneration, [], none⟩) (src dst : SwitchId) :
    ChooseAlike selector other src dst := by
  -- What is computed depends on the graph only.
  have hcompute : compute ⟨otherGeneration, graph⟩ src dst = compute ⟨generation, graph⟩ src dst :=
    rfl
  have hfirst := select_of_closed hrouting hcandidates src dst
  have hsecond := select_of_closed hotherRouting hotherCandidates src dst
  rw [hcompute] at hsecond
  exact {
    answer := by
      rw [hfirst, hsecond]
      cases (compute ⟨generation, graph⟩ src dst).2 <;> rfl
    events := by rw [hfirst, hsecond]
    paths := by rw [hfirst, hsecond]; rfl
    active := by rw [hfirst, hsecond]; rfl
    endpoints := by rw [hfirst, hsecond]; rfl
    graph? := by rw [hfirst, hsecond]; simp [graph?, chosen, hrouting, hotherRouting] }

end Selector

namespace SelectorForum

variable {expected : ExpectedSize} {forum : SelectorForum}

/-- How a report is taken in: routing is enabled afterwards exactly if the report makes a graph of
the expected size. -/
structure FailsClosed (expected : ExpectedSize) (forum : SelectorForum) (report : Snapshot) :
    Prop where
  miscounted : (forum.update report).2 = .ok false ↔ ¬ report.HasSize expected
  malformed : ∀ fault, (forum.update report).2 = .error fault ↔
    report.HasSize expected ∧ ∃ stranger,
      FirstStranger report.switches report.links stranger ∧ fault = .unknownSwitch stranger
  wellFormed : (forum.update report).2 = .ok true ↔
    report.HasSize expected ∧ ∀ link ∈ report.links, link.Within report.switches
  installed : (forum.update report).2 = .ok true → ∃ graph, Graph.ofSnapshot report = .ok graph ∧
    (forum.update report).1.state.routing = some ⟨forum.state.lastGeneration + 1, graph⟩
  withdrawn : (forum.update report).2 ≠ .ok true → (forum.update report).1.state.routing = none
  closed : Selector.Closed forum.state (forum.update report).1.state
  audience : (forum.update report).1.audience = forum.audience
  /-- Nobody is called. -/
  silent : (forum.update report).1.calls = forum.calls
  /-- It is the same if a listener passes the report on. -/
  served : forum.perform (Selector.serve (.update report)) = ((forum.update report).1, ())

theorem failsClosed (hreach : Selector.Reachable expected forum.state) (report : Snapshot) :
    FailsClosed expected forum report := by
  have hexpected : forum.state.expected = expected := hreach.expected
  have hverdict := forum.state.update_verdict report
  have hdisabled := hreach.consistent.disable.1
  exact {
    miscounted := hexpected ▸ hverdict.answer_false_iff
    malformed := hexpected ▸ hverdict.answer_error_iff
    wellFormed := hexpected ▸ hverdict.answer_true_iff
    installed := by
      unfold update
      generalize forum.state.update report = taken at hverdict
      intro hanswer
      cases hverdict with
      | miscounted _ => cases hanswer
      | malformed _ _ => cases hanswer
      | wellFormed _ hgraph => exact ⟨_, hgraph, rfl⟩
    withdrawn := by
      unfold update
      generalize forum.state.update report = taken at hverdict
      intro hanswer
      cases hverdict with
      | miscounted _ => exact hdisabled
      | malformed _ _ => exact hdisabled
      | wellFormed _ _ => exact absurd rfl hanswer
    closed := hreach.consistent.update_closed report
    audience := rfl
    silent := rfl
    served := rfl }

/-- Whatever was asked of a selector before, a report leaves its own graph behind if it makes one of
the expected size, and no graph if not.  What is found after a report that enables routing is the
same after any other history in which it does, up to the generation of the graph. -/
theorem update_failsClosed (hreach : Selector.Reachable expected forum.state) (report : Snapshot) :
    FailsClosed expected forum report ∧
    ((forum.update report).2 = .ok true →
      ∀ {otherExpected : ExpectedSize} {other : SelectorForum},
        Selector.Reachable otherExpected other.state → (other.update report).2 = .ok true →
        ∀ src dst, Selector.ChooseAlike (forum.update report).1.state
          (other.update report).1.state src dst) := by
  have hforum := failsClosed hreach report
  refine ⟨hforum, ?_⟩
  intro hanswer otherExpected other hother hotherAnswer src dst
  have hotherForum := failsClosed hother report
  obtain ⟨graph, hgraph, hrouting⟩ := hforum.installed hanswer
  obtain ⟨same, hsame, hotherRouting⟩ := hotherForum.installed hotherAnswer
  obtain rfl : graph = same := Except.ok.inj (hgraph.symm.trans hsame)
  refine Selector.chooseAlike_of_closed hrouting ?_ hotherRouting ?_ src dst
  · rw [hforum.closed.candidates, hforum.closed.lastGeneration, hrouting]
    simp
  · rw [hotherForum.closed.candidates, hotherForum.closed.lastGeneration, hotherRouting]
    simp

/-- The selector that has chosen paths in the tangled graph, and one listener. -/
def attended : SelectorForum where
  state := Selector.tangled
  audience := Audience.enlist {} {}

/-- As many switches and links as in the tangled report, but two of the links end at switches that
are not listed. -/
def frayed : Snapshot where
  switches := Snapshot.tangle.switches
  links := Snapshot.strand 2 4 7 1 :: Snapshot.strand 6 1 1 1 :: Snapshot.tangle.links.drop 2

/-- A report with the right counts and links to the seventh and from the sixth switch names the
seventh and leaves nothing; the tangled report itself comes back under the next generation, and then
the lightest path is found as at the first time. -/
theorem update_failsClosed_tangled :
    Selector.Reachable ⟨5, 9⟩ attended.state ∧
    (attended.update frayed).2 = .error (.unknownSwitch ⟨7⟩) ∧
    (attended.update frayed).1.state.routing = none ∧
    (attended.update Snapshot.tangle).2 = .ok true ∧
    (attended.update Snapshot.tangle).1.state.routing = some ⟨2, Graph.tangle⟩ ∧
    ((attended.update Snapshot.tangle).1.state.select ⟨1⟩ ⟨4⟩).events =
      [.pathChanged ⟨1, ⟨[⟨1⟩, ⟨2⟩, ⟨4⟩]⟩, .selected⟩] := by
  have hreach : Selector.Reachable ⟨5, 9⟩ attended.state := Selector.tangled_reachable
  let fresh : SelectorForum := { state := { expected := ⟨5, 9⟩ } }
  have hfirst : Selector.Reachable ⟨5, 9⟩ fresh.state := .initial
  have hstranger : FirstStranger frayed.switches frayed.links ⟨7⟩ :=
    ⟨by decide, [], Snapshot.strand 2 4 7 1, _, rfl, by simp, .inr (by decide)⟩
  obtain ⟨hfrayed, -⟩ := update_failsClosed hreach frayed
  obtain ⟨hagain, halike⟩ := update_failsClosed hreach Snapshot.tangle
  have hfault := (hfrayed.malformed _).mpr ⟨by decide, _, hstranger, rfl⟩
  have htaken := hagain.wellFormed.mpr (by decide)
  obtain ⟨graph, hgraph, hrouting⟩ := hagain.installed htaken
  refine ⟨hreach, hfault, hfrayed.withdrawn (by simp [hfault]), htaken, ?_, ?_⟩
  · obtain rfl : Graph.tangle = graph := Except.ok.inj (.trans (by decide) hgraph)
    exact hrouting.trans (by decide)
  · rw [(halike htaken hfirst (by decide) ⟨1⟩ ⟨4⟩).events]
    decide

end SelectorForum

end TrafficSteering
