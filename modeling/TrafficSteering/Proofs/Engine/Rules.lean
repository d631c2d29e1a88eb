import TrafficSteering.Proofs.Engine.Reachable
import TrafficSteering.Proofs.Installer
set_option autoImplicit false

/-!
# Paths and graphs of rules

Rules are computed from a path and a graph.  Switch runs keep the graph on which their candidates
were found.  Packets and forced choices read the installed graph after the selection, and listeners
that are told of the selection may have replaced it by then; so for these, path and graph belong
together exactly if the generation is still that of the selection.
-/

namespace TrafficSteering

namespace Computation

/-- Path and graph belong together. -/
structure Matched (computation : Computation) (installer : Installer) : Prop where
  /-- The path was found on the graph. -/
  generation : computation.routing.generation = computation.found
  simple : ∃ src dst, computation.routing.graph.IsSimplePath src dst computation.path
  /-- Every rule leaves by the port of an edge of the graph that joins neighbours on the path, or by
  the port of a host. -/
  leave : ∀ rules, computation.rules installer = .ok rules → ∀ rule ∈ rules,
    rule.LeavesTowardsNeighbor computation.routing.graph computation.path ∨
      rule.LeavesTowardsHost installer
  /-- No edge of the path is missing. -/
  forward : ∀ hop ∈ computation.path.hops,
    computation.rules installer ≠ .error (.missingEdge hop.1 hop.2)

variable {computation : Computation} {installer : Installer}

theorem rules_leave {rules : List Rule} (h : computation.rules installer = .ok rules) :
    ∀ rule ∈ rules,
      rule.LeavesTowardsNeighbor computation.routing.graph computation.path ∨
        rule.LeavesTowardsHost installer := by
  unfold Computation.rules at h
  split at h
  · obtain ⟨rule?, hrule, rfl⟩ := map_eq_ok_iff.mp h
    intro rule hmem
    obtain rfl := Option.mem_toList.mp hmem
    exact Installer.ruleForPacket_leave hrule
  · exact Installer.rulesForPath_leave h

theorem rules_missingEdge {src dst : SwitchId}
    (h : computation.rules installer = .error (.missingEdge src dst)) :
    computation.routing.graph.edge? src dst = none := by
  unfold Computation.rules at h
  split at h
  · exact Installer.ruleForPacket_missingEdge (map_eq_error_iff.mp h)
  · exact Installer.rulesForPath_missingEdge h

/-- All follows from the generation. -/
theorem Founded.matched {selector : Selector} (h : computation.Founded selector)
    (hgeneration : computation.routing.generation = computation.found) (installer : Installer) :
    computation.Matched installer where
  generation := hgeneration
  simple := h.simple hgeneration
  leave := fun _ hrules => rules_leave hrules
  forward := by
    intro hop hmem hmissing
    obtain ⟨src, dst, hsimple⟩ := h.simple hgeneration
    obtain ⟨edge, hedge⟩ := Graph.exists_edge_iff.mpr (hsimple.joined hop hmem)
    rw [rules_missingEdge hmissing] at hedge
    simp at hedge

end Computation

/-- The tangled report with every link the other way round. -/
def Snapshot.untangle : Snapshot :=
  { Snapshot.tangle with
    links := Snapshot.tangle.links.map fun link => { link with src := link.dst, dst := link.src } }

/-- The graph of the turned report. -/
def Graph.untangle : Graph where
  switches := Snapshot.untangle.switches
  links := Snapshot.untangle.links
  edges := firstReports Snapshot.untangle.links
  edges_eq := rfl
  closed := by decide

namespace Engine

variable {engine : Engine}

/-! ## Calls that fail -/

/-- The last thing that an engine did was to compute rules, and an edge was missing. -/
structure FailedToCompute (before after : Engine) (purpose : Purpose) (src dst : SwitchId)
    (found : Moment) (computation : Computation) : Prop where
  history : after.history = ⟨found, .computed computation⟩ :: before.history
  purpose : computation.purpose = purpose
  rules : computation.rules found.installer = .error (.missingEdge src dst)

/-- A selection fails only while routing is disabled. -/
theorem selectFor_ne_missingEdge (selector : Selector) (reason : ChangeReason)
    (first last src dst : SwitchId) :
    (selector.selectFor reason first last).answer ≠ .error (.missingEdge src dst) := by
  cases hrouting : selector.routing with
  | none => simp [Selector.selectFor, Selector.requireRouting, hrouting]
  | some routing =>
    simp only [Selector.selectFor, Selector.requireRouting, hrouting]
    split <;> simp

theorem reroute_ne_missingEdge (selector : Selector) (src dst : SwitchId) :
    selector.reroute.answer ≠ .error (.missingEdge src dst) := by
  unfold Selector.reroute
  split
  · exact selectFor_ne_missingEdge selector _ _ _ src dst
  · simp

/-- The data plane refuses rules for other reasons than a missing edge. -/
theorem offer_ne_missingEdge (engine : Engine) (rule : Rule) (src dst : SwitchId) :
    (engine.offer rule).2 ≠ .error (.missingEdge src dst) := by
  have hinstall : ∀ plane : DataPlane,
      (plane.install rule).2 ≠ .error (.missingEdge src dst) := by
    intro plane
    unfold DataPlane.install
    split <;> simp
  unfold offer
  split
  · exact hinstall _
  · exact hinstall _

theorem offerAll_ne_missingEdge (engine : Engine) (rules : List Rule) (src dst : SwitchId) :
    (Installer.offerAll offer engine rules).2 ≠ .error (.missingEdge src dst) := by
  induction rules generalizing engine with
  | nil => simp [Installer.offerAll]
  | cons rule rest ih =>
    have hfirst := offer_ne_missingEdge engine rule src dst
    unfold Installer.offerAll
    split
    · exact ih _
    · rename_i hanswer
      rw [hanswer] at hfirst
      exact hfirst

/-- Where the installation of a path fails for a missing edge, nothing was offered. -/
theorem installPath_missingEdge {installer : Installer} {graph : Graph} {path : Path}
    {src dst : SwitchId}
    (h : (installer.installPath offer graph path engine).2 = .error (.missingEdge src dst)) :
    installer.rulesForPath graph path = .error (.missingEdge src dst) ∧
      (installer.installPath offer graph path engine).1 = engine := by
  unfold Installer.installPath at *
  cases hrules : installer.rulesForPath graph path with
  | error fault =>
    simp only [hrules, Except.error.injEq] at h
    exact ⟨congrArg Except.error h, rfl⟩
  | ok rules =>
    have hall := offerAll_ne_missingEdge engine rules src dst
    simp only [hrules] at h
    split at h
    · simp at h
    · rename_i hanswer
      rw [hanswer] at hall
      exact absurd (congrArg Except.error (Except.error.inj h)) hall

theorem installForPacket_missingEdge {installer : Installer} {graph : Graph} {path : Path}
    {packet : Packet} {src dst : SwitchId}
    (h : (installer.installForPacket offer graph path packet engine).2 =
      .error (.missingEdge src dst)) :
    installer.ruleForPacket graph path packet = .error (.missingEdge src dst) ∧
      (installer.installForPacket offer graph path packet engine).1 = engine := by
  unfold Installer.installForPacket at *
  cases hrule : installer.ruleForPacket graph path packet with
  | error fault =>
    simp only [hrule, Except.error.injEq] at h
    exact ⟨congrArg Except.error h, rfl⟩
  | ok rule =>
    cases rule with
    | none => simp [hrule] at h
    | some rule =>
      have hone := offer_ne_missingEdge engine rule src dst
      simp only [hrule] at h
      split at h
      · simp at h
      · rename_i hanswer
        rw [hanswer] at hone
        exact absurd (congrArg Except.error (Except.error.inj h)) hone

theorem answerPacket_missingEdge {packet : Packet} {answer : Except Fault (Option Selection)}
    {src dst : SwitchId} (hanswer : answer ≠ .error (.missingEdge src dst))
    (h : (engine.answerPacket packet answer).2 = .error (.missingEdge src dst)) :
    ∃ found computation, FailedToCompute engine (engine.answerPacket packet answer).1
      (.packet packet) src dst found computation := by
  match answer with
  | .error fault => exact absurd (congrArg Except.error (Except.error.inj h)) hanswer
  | .ok none => simp [answerPacket] at h
  | .ok (some selection) =>
    cases hrouting : engine.selector.routing with
    | none => simp [answerPacket, hrouting] at h
    | some routing =>
      simp only [answerPacket, hrouting] at h ⊢
      obtain ⟨hrule, hengine⟩ := installForPacket_missingEdge h
      exact ⟨_, _, congrArg Engine.history hengine, rfl, map_eq_error_iff.mpr hrule⟩

/-- A packet for which an edge is missing: its rule could not be computed. -/
theorem handlePacket_missingEdge {packet : Packet} {src dst : SwitchId}
    (h : (engine.handlePacket packet).2 = .error (.missingEdge src dst)) :
    ∃ found computation, FailedToCompute engine (engine.handlePacket packet).1
      (.packet packet) src dst found computation := by
  unfold handlePacket at *
  split at h
  · simp at h
  · rename_i hrouted
    simp only [if_neg hrouted]
    split at h
    · rename_i hhost
      obtain rfl := Except.error.inj h
      exact absurd hhost Installer.host_ne_missingEdge
    · rename_i hhost _
      obtain rfl := Except.error.inj h
      exact absurd hhost Installer.host_ne_missingEdge
    · rename_i sender receiver _ _
      have hselect := selectFor_ne_missingEdge engine.selector .selected sender.switch
        receiver.switch src dst
      obtain ⟨found, computation, hhistory, hpurpose, hrules⟩ := answerPacket_missingEdge hselect h
      exact ⟨found, computation, hhistory, hpurpose, hrules⟩

/-- A forced choice for which an edge is missing: its rules could not be computed. -/
theorem installChoice_missingEdge {answer : Except Fault (Option Selection)} {src dst : SwitchId}
    (hanswer : answer ≠ .error (.missingEdge src dst))
    (h : (engine.installChoice offer answer).2 = .error (.missingEdge src dst)) :
    ∃ found computation, FailedToCompute engine (engine.installChoice offer answer).1
      .reroute src dst found computation := by
  match answer with
  | .error fault => exact absurd (congrArg Except.error (Except.error.inj h)) hanswer
  | .ok none => simp [installChoice] at h
  | .ok (some selection) =>
    cases hrouting : engine.selector.routing with
    | none => simp [installChoice, hrouting] at h
    | some routing =>
      simp only [installChoice, hrouting] at h ⊢
      split at h
      · simp at h
      · rename_i next fault hinstall
        obtain rfl := Except.error.inj h
        obtain ⟨hrules, hengine⟩ := installPath_missingEdge (congrArg Prod.snd hinstall)
        have hnext := (congrArg Prod.fst hinstall).symm.trans hengine
        exact ⟨_, _, congrArg Engine.history hnext, rfl, hrules⟩

theorem reroute_missingEdge {src dst : SwitchId}
    (h : engine.reroute.2 = .error (.missingEdge src dst)) :
    ∃ found computation,
      FailedToCompute engine engine.reroute.1 .reroute src dst found computation := by
  unfold reroute rerouteWith at *
  split at h
  · simp at h
  · obtain ⟨found, computation, hhistory, hpurpose, hrules⟩ :=
      installChoice_missingEdge (reroute_ne_missingEdge engine.selector src dst) h
    exact ⟨found, computation, hhistory, hpurpose, hrules⟩

/-! ## Paths and graphs -/

namespace Reachable

variable {storage : Storage} {settings : Settings}

theorem computed_matched_iff (h : Reachable storage settings engine) {entry : Entry}
    (hentry : entry ∈ engine.history) {computation : Computation}
    (hcomputed : entry.occurrence = .computed computation) :
    computation.Matched entry.found.installer ↔
      computation.purpose.isRun = true ∨
        entry.found.selector.lastGeneration = computation.found := by
  obtain ⟨later, earlier, hhistory⟩ := List.append_of_mem hentry
  obtain ⟨_, hsteady, hfits⟩ := h.past hhistory
  rw [hcomputed] at hfits
  have hfounded : computation.Founded entry.found.selector := hfits.1
  -- Outside of runs, the graph is the one of the last generation.
  have hlast : computation.purpose.isRun = false →
      computation.routing.generation = entry.found.selector.lastGeneration :=
    fun hother => hsteady.consistent.installed _ (hfounded.installed hother)
  constructor
  · intro hmatched
    cases hpurpose : computation.purpose.isRun with
    | true => exact .inl rfl
    | false => exact .inr ((hlast hpurpose).symm.trans hmatched.generation)
  · intro hcondition
    apply hfounded.matched
    cases hpurpose : computation.purpose.isRun with
    | true => exact hfounded.ofRun hpurpose
    | false =>
      rcases hcondition with hrun | hsame
      · simp [hpurpose] at hrun
      · exact (hlast hpurpose).trans hsame

/-- If the missing edge is a hop of the path, another graph has been installed since the path was
found. -/
theorem replaced_of_failed {after : Engine} (h : Reachable storage settings after)
    {purpose : Purpose} {src dst : SwitchId} {found : Moment} {computation : Computation}
    (hfailed : FailedToCompute engine after purpose src dst found computation)
    (hhop : (src, dst) ∈ computation.path.hops) :
    found.selector.lastGeneration ≠ computation.found := by
  intro hsame
  have hentry : (⟨found, .computed computation⟩ : Entry) ∈ after.history := by
    rw [hfailed.history]
    exact List.mem_cons_self
  have hmatched := (h.computed_matched_iff hentry rfl).mpr (.inr hsame)
  exact hmatched.forward (src, dst) hhop hfailed.rules

/-- Wherever rules are computed, path and graph belong together exactly if the rules are those of a
switch run or the generation of the path is still the last one.  A packet or a forced choice fails
for the want of an edge of its own path only if it is not. -/
theorem matched_iff (h : Reachable storage settings engine) :
    (∀ entry ∈ engine.history, ∀ computation, entry.occurrence = .computed computation →
      (computation.Matched entry.found.installer ↔
        computation.purpose.isRun = true ∨
          entry.found.selector.lastGeneration = computation.found)) ∧
    (∀ packet src dst, (engine.handlePacket packet).2 = .error (.missingEdge src dst) →
      ∃ found computation, FailedToCompute engine (engine.handlePacket packet).1
          (.packet packet) src dst found computation ∧
        ((src, dst) ∈ computation.path.hops →
          found.selector.lastGeneration ≠ computation.found)) ∧
    (∀ src dst, engine.reroute.2 = .error (.missingEdge src dst) →
      ∃ found computation, FailedToCompute engine engine.reroute.1
          .reroute src dst found computation ∧
        ((src, dst) ∈ computation.path.hops →
          found.selector.lastGeneration ≠ computation.found)) := by
  refine ⟨fun entry hentry computation => h.computed_matched_iff hentry, ?_, ?_⟩
  · intro packet src dst hanswer
    obtain ⟨found, computation, hfailed⟩ := handlePacket_missingEdge hanswer
    exact ⟨found, computation, hfailed, (h.acted (.packet packet)).replaced_of_failed hfailed⟩
  · intro src dst hanswer
    obtain ⟨found, computation, hfailed⟩ := reroute_missingEdge hanswer
    exact ⟨found, computation, hfailed, (h.acted .reroute).replaced_of_failed hfailed⟩

end Reachable

/-- A listener that has the turned report taken in as soon as another path becomes active. -/
def turner : Listener Selector.Request where
  attention := .pathChanges
  reactions := [⟨.ask (.update Snapshot.untangle), 0⟩]

/-- An engine that has answered a packet and has such a listener now. -/
def turning : Engine := tangled.play [.packet (packetBetween 1 4), .listen turner]

/-- The rule for the packet belongs to its path. -/
theorem matched_iff_turning : ∃ entry ∈ turning.history, ∃ computation,
    entry.occurrence = .computed computation ∧
    computation.purpose = .packet (packetBetween 1 4) ∧
    computation.Matched entry.found.installer := by
  have hreach : Reachable ⟨[], []⟩ tangledSettings turning := tangled_reachable.play _
  have hentry := List.get_mem turning.history ⟨1, by decide⟩
  have hmatched := hreach.matched_iff.1 _ hentry
    ⟨.packet (packetBetween 1 4), ⟨[⟨1⟩, ⟨2⟩, ⟨4⟩]⟩, 1, ⟨1, Graph.tangle⟩⟩ (by decide)
  exact ⟨_, hentry, _, by decide, rfl, hmatched.mpr (.inr (by decide))⟩

/-- For the next packet, the rule is computed from a path of the old graph and the ports of the new
one, where the edge of its only hop is missing. -/
theorem turned_not_matched :
    Reachable ⟨[], []⟩ tangledSettings turning ∧
    (turning.handlePacket (packetBetween 2 4)).2 = .error (.missingEdge ⟨2⟩ ⟨4⟩) ∧
    ∃ computation, (turning.handlePacket (packetBetween 2 4)).1.history.head?.map
        Entry.occurrence = some (.computed computation) ∧
      computation.path = ⟨[⟨2⟩, ⟨4⟩]⟩ ∧
      computation.rules turning.installer = .error (.missingEdge ⟨2⟩ ⟨4⟩) ∧
      ¬ computation.Matched turning.installer := by
  refine ⟨tangled_reachable.play _, by decide,
    ⟨.packet (packetBetween 2 4), ⟨[⟨2⟩, ⟨4⟩]⟩, 1, ⟨2, Graph.untangle⟩⟩,
    by decide, rfl, by decide, ?_⟩
  intro hmatched
  exact absurd hmatched.generation (by decide)

end Engine

end TrafficSteering
