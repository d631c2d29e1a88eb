import Mathlib.Data.Finset.Card
import TrafficSteering.Proofs.Graph.Construction
import TrafficSteering.Proofs.Selector.Generations
set_option autoImplicit false

/-!
# Expected sizes

Unless a graph is installed directly, routing is enabled by reports only, and only by those that
have as many switches and links as expected.  But a report is counted as it comes, while its graph
holds each switch once.  So the installed graph has the expected number of links, and it has the
expected number of switches exactly if its report does not repeat one.
-/

namespace TrafficSteering

/-! ## How many switches a graph has -/

theorem nodup_eraseDups {α : Type} [BEq α] [LawfulBEq α] (items : List α) :
    items.eraseDups.Nodup := by
  induction hlength : items.length using Nat.strong_induction_on generalizing items with
  | _ length ih =>
    cases items with
    | nil => simp
    | cons first rest =>
      obtain rfl := hlength
      have hshorter : (rest.filter fun item => !item == first).length < (first :: rest).length :=
        Nat.lt_succ_of_le (List.length_filter_le _ _)
      rw [List.eraseDups_cons]
      exact List.nodup_cons.mpr ⟨by simp, ih _ hshorter _ rfl⟩

namespace Graph

variable {graph : Graph} {report : Snapshot}

/-- Every link of a report is counted, -/
theorem linkCount_ofSnapshot (h : ofSnapshot report = .ok graph) :
    graph.linkCount = report.links.length :=
  congrArg List.length (build_eq_ok h).2

/-- but every switch only once. -/
theorem switchCount_ofSnapshot (h : ofSnapshot report = .ok graph) :
    graph.switchCount = report.switches.toFinset.card := by
  have hsame : report.switches.toFinset = report.switches.eraseDups.toFinset := by
    ext switch
    simp
  rw [switchCount, (build_eq_ok h).1, hsame]
  exact (List.toFinset_card_of_nodup (nodup_eraseDups _)).symm

end Graph

namespace Selector

variable {selector : Selector} {graph : Graph}

/-! ## Where graphs come from -/

/-- The graph is that of a report which has as many switches and links as expected. -/
structure Accepted (expected : ExpectedSize) (report : Snapshot) (graph : Graph) : Prop where
  switches : report.switches.length = expected.switches
  links : report.links.length = expected.links
  built : Graph.ofSnapshot report = .ok graph

theorem Accepted.of_accepts {expected : ExpectedSize} {report : Snapshot}
    (h : expected.accepts report = true) (hbuilt : Graph.ofSnapshot report = .ok graph) :
    Accepted expected report graph := by
  simp only [ExpectedSize.accepts, ExpectedSize.isMet, Bool.and_eq_true, beq_iff_eq] at h
  exact ⟨h.1.symm, h.2.symm, hbuilt⟩

theorem disable_graph? (selector : Selector) : selector.disable.graph? = none := by
  unfold disable graph?
  split
  · rfl
  · rename_i hnone
    rw [Option.not_isSome_iff_eq_none.mp hnone]
    rfl

/-- A report leads to its own graph or to none. -/
theorem update_graph? {report : Snapshot} (h : (selector.update report).1.graph? = some graph) :
    Accepted selector.expected report graph := by
  unfold update at h
  split at h
  · rename_i haccepted
    split at h
    · rename_i built hbuilt
      obtain rfl : built = graph := Option.some.inj h
      exact .of_accepts haccepted hbuilt
    · rw [disable_graph?] at h
      cases h
  · rw [disable_graph?] at h
    cases h

theorem Change.expected {after : Selector} (h : Change selector after) :
    after.expected = selector.expected := by
  cases h <;> rfl

theorem Reachable.expected {expected : ExpectedSize} (h : Reachable expected selector) :
    selector.expected = expected := by
  induction h with
  | initial => rfl
  | serve _ request ih => exact (serve_change request _).expected.trans ih

theorem serveAll_expected (selector : Selector) (requests : List Request) :
    (selector.serveAll requests).expected = selector.expected :=
  serveAll_induction (motive := fun later => later.expected = selector.expected) rfl
    (fun hbefore hchange => hchange.expected.trans hbefore) requests

theorem Replacement.routing_eq {after : Selector} (h : Replacement selector after false) :
    after.routing = selector.routing := by
  cases h with
  | kept hrouting _ => exact hrouting

/-- After a request other than a direct installation, the graph is the one before or that of an
accepted report. -/
theorem serve_graph? {request : Request} (hdirect : ∀ other, request ≠ .install other)
    (h : (serve request selector).state.graph? = some graph) :
    selector.graph? = some graph ∨
      ∃ report, request = .update report ∧ Accepted selector.expected report graph := by
  have hreplacement := serve_replacement request selector
  cases request with
  | install other => exact absurd rfl (hdirect other)
  | update report => exact .inr ⟨report, rfl, update_graph? h⟩
  | disable =>
    rw [serve, disable_graph?] at h
    cases h
  | select | reroute | commit | start | stop =>
    rw [graph?, hreplacement.routing_eq] at h
    exact .inl h

/-- The induction is on the requests, from the last one on. -/
theorem serveAll_graph? {requests : List Request} (hdirect : ∀ other, .install other ∉ requests)
    (hnone : selector.graph? = none)
    (h : (selector.serveAll requests).graph? = some graph) :
    ∃ report, .update report ∈ requests ∧ Accepted selector.expected report graph := by
  induction requests using List.reverseRecOn with
  | nil =>
    rw [serveAll, List.foldl_nil, hnone] at h
    cases h
  | append_singleton earlier request ih =>
    have hearlier : ∀ other, .install other ∉ earlier :=
      fun other hmem => hdirect other (List.mem_append_left _ hmem)
    rw [serveAll_concat] at h
    rcases serve_graph? (fun other hinstall => hdirect other (by simp [hinstall])) h with
      hbefore | ⟨report, rfl, haccepted⟩
    · obtain ⟨report, hmem, haccepted⟩ := ih hearlier hbefore
      exact ⟨report, List.mem_append_left _ hmem, haccepted⟩
    · rw [serveAll_expected] at haccepted
      exact ⟨report, by simp, haccepted⟩

/-! ## Sizes of installed graphs -/

/-- How the size of a graph follows from its report. -/
theorem Accepted.counts {expected : ExpectedSize} {report : Snapshot}
    (h : Accepted expected report graph) :
    graph.linkCount = expected.links ∧ graph.switchCount = report.switches.toFinset.card ∧
      graph.switchCount ≤ expected.switches ∧
      (graph.switchCount = expected.switches ↔ report.switches.Nodup) := by
  rw [Graph.linkCount_ofSnapshot h.built, Graph.switchCount_ofSnapshot h.built, ← h.switches]
  refine ⟨h.links, rfl, report.switches.toFinset_card_le, ?_⟩
  exact Multiset.toFinset_card_eq_card_iff_nodup

/-- Whatever a selector is asked for other than to install a graph directly: an installed graph is
that of an accepted report.  It has the expected number of links, and at most the expected number of
switches; it has as many as expected exactly if its report does not repeat one. -/
theorem installed_sized {expected : ExpectedSize} {requests : List Request}
    (hdirect : ∀ other, .install other ∉ requests)
    (hgraph : (serveAll requests { expected := expected }).graph? = some graph) :
    ∃ report, .update report ∈ requests ∧ Accepted expected report graph ∧
      graph.linkCount = expected.links ∧ graph.switchCount = report.switches.toFinset.card ∧
      graph.switchCount ≤ expected.switches ∧
      (graph.switchCount = expected.switches ↔ report.switches.Nodup) := by
  obtain ⟨report, hmem, haccepted⟩ := serveAll_graph? hdirect rfl hgraph
  exact ⟨report, hmem, haccepted, haccepted.counts⟩

/-- The graph of the tangled report is withdrawn by a report of one switch, and comes back. -/
def recovery : List Request :=
  [.update Snapshot.tangle, .select ⟨1⟩ ⟨4⟩, .update ⟨[⟨1⟩], []⟩, .disable,
    .update Snapshot.tangle, .reroute, .start]

theorem installed_sized_recovery :
    (∀ other, .install other ∉ recovery) ∧
      (serveAll recovery { expected := ⟨5, 9⟩ }).graph? = some Graph.tangle ∧
      Graph.tangle.linkCount = 9 ∧ Graph.tangle.switchCount = 5 := by
  have hdirect : ∀ other, .install other ∉ recovery := by simp [recovery]
  have hgraph : (serveAll recovery { expected := ⟨5, 9⟩ }).graph? = some Graph.tangle := by decide
  obtain ⟨report, hmem, haccepted, hlinks, -, -, hiff⟩ := installed_sized hdirect hgraph
  have hreport : report = Snapshot.tangle := by
    simp only [recovery, List.mem_cons, Request.update.injEq, reduceCtorEq, List.not_mem_nil,
      or_false, false_or] at hmem
    rcases hmem with rfl | rfl | rfl
    · rfl
    · exact absurd haccepted.switches (by decide)
    · rfl
  exact ⟨hdirect, hgraph, hlinks, hiff.mpr (hreport ▸ by decide)⟩

/-- The tangled report, with the fourth switch once more in place of the fifth. -/
def miscounted : Snapshot := { Snapshot.tangle with switches := [⟨1⟩, ⟨2⟩, ⟨3⟩, ⟨4⟩, ⟨4⟩] }

/-- Such a report enables routing, on a graph with a switch less than expected. -/
theorem installed_undersized :
    (serveAll [.update miscounted] { expected := ⟨5, 9⟩ }).graph?.map Graph.switchCount = some 4 ∧
    ¬ ∀ graph, (serveAll [.update miscounted] { expected := ⟨5, 9⟩ }).graph? = some graph →
      graph.switchCount = 5 := by
  have hcount : (serveAll [.update miscounted] { expected := ⟨5, 9⟩ }).graph?.map
      Graph.switchCount = some 4 := by decide
  refine ⟨hcount, fun hall => ?_⟩
  obtain ⟨graph, hgraph, hfour⟩ := Option.map_eq_some_iff.mp hcount
  exact absurd (hfour.symm.trans (hall graph hgraph)) (by decide)

end Selector

end TrafficSteering
