import TrafficSteering.Proofs.Engine.Undisturbed
set_option autoImplicit false

/-!
# Graphs of offered rules

Every rule that is offered to the data plane belongs to one computation, which takes its ports from
one graph.  Packets and forced choices compute their rules on the graph that is installed just then.
A switch run goes on with the graph on which it has taken up its candidates; only its commit asks
whether they are still current.  So the graph of a rule may have been replaced or withdrawn by the
time the rule is offered, and that is the case exactly if the generation is another one.
-/

namespace TrafficSteering

theorem Selector.Follows.trans {first second third : Selector}
    (h : Selector.Follows first second) (hnext : Selector.Follows second third) :
    Selector.Follows first third := by
  rcases h with hgrown | ⟨hlast, hrouting⟩
  · rcases hnext with hmore | ⟨hsame, -⟩
    · exact .inl (Nat.lt_trans hgrown hmore)
    · exact .inl (hsame ▸ hgrown)
  · rcases hnext with hmore | ⟨hsame, hstill⟩
    · exact .inl (hlast ▸ hmore)
    · exact .inr ⟨hsame.trans hlast, hstill.trans hrouting⟩

namespace Engine

open Moment

variable {engine after : Engine}

/-! ## Generations and runs -/

theorem Turn.follows (hturn : Turn engine after) :
    Selector.Follows engine.selector after.selector := by
  cases hturn with
  | asked requests hforum =>
    have hfollows := Selector.serveAll_follows engine.selector requests
    rw [← hforum] at hfollows
    exact hfollows
  | _ => exact .inr ⟨rfl, rfl⟩

theorem Turns.follows (hturns : Turns engine after) :
    Selector.Follows engine.selector after.selector := by
  induction hturns with
  | refl => exact .inr ⟨rfl, rfl⟩
  | tail _ hturn ih => exact ih.trans hturn.follows

/-- While the generation is that of a graph which was installed, this graph is installed. -/
theorem Turns.installed_iff (hturns : Turns engine after) (hbefore : engine.Steady)
    (hafter : after.Steady) {routing : Routing}
    (hrouting : engine.selector.routing = some routing) :
    after.selector.routing = some routing ↔
      after.selector.lastGeneration = routing.generation := by
  constructor
  · intro hstill
    exact (hafter.consistent.installed routing hstill).symm
  · intro hlast
    have hsame : after.selector.lastGeneration = engine.selector.lastGeneration :=
      hlast.trans (hbefore.consistent.installed routing hrouting)
    rcases hturns.follows with hgrown | ⟨-, hkept⟩
    · exact absurd hsame (Nat.ne_of_gt hgrown)
    · exact hkept.trans hrouting

/-- What a run works on is what it has taken up. -/
def TakenUp (engine : Engine) : Prop :=
  ∀ run probe place, engine.run = some run → run.stage = .settling probe place →
    ∃ entry ∈ engine.history, entry.occurrence = .tookUp run.number probe

theorem TakenUp.of_run (h : engine.TakenUp) (hrun : after.run = engine.run)
    (hhistory : ∃ new, after.history = new ++ engine.history) : after.TakenUp := by
  obtain ⟨new, hnew⟩ := hhistory
  intro run probe place hsome hstage
  obtain ⟨entry, hmem, htook⟩ := h run probe place (hrun ▸ hsome) hstage
  exact ⟨entry, hnew ▸ List.mem_append_right new hmem, htook⟩

theorem Turn.takenUp (hturn : Turn engine after) (h : engine.TakenUp) : after.TakenUp := by
  cases hturn with
  | asked | arranged | grabbed | released | forced | unforced => exact h.of_run rfl ⟨[], rfl⟩
  | interjected | computed | offered | tookUp | measured | called => exact h.of_run rfl ⟨[_], rfl⟩
  | decided => exact h.of_run rfl ⟨[], rfl⟩
  | triggered =>
    intro run probe place hsome hstage
    obtain rfl := Option.some.inj hsome
    exact Stage.noConfusion hstage
  | @tried run hrun probe _ hsource index _ due =>
    intro next other place hsome hstage
    obtain rfl := Option.some.inj hsome
    obtain ⟨rfl, rfl⟩ := Stage.settling.inj hstage
    rcases hsource with ⟨before, hbefore⟩ | htook
    · exact h run probe before hrun hbefore
    · exact htook
  | @waited run hrun due =>
    intro next probe place hsome hstage
    obtain rfl := Option.some.inj hsome
    exact h run probe place hrun hstage
  | finished hrun report =>
    intro next probe place hsome
    simp [finishRun] at hsome

theorem Turns.takenUp {settings : Settings} (hturns : Turns (idle settings) engine) :
    engine.TakenUp := by
  induction hturns with
  | refl =>
    intro run probe place hsome
    simp [idle] at hsome
  | tail _ hturn ih => exact hturn.takenUp ih

/-! ## The graph of a rule -/

/-- A computation has been made for a switch run, which took up its candidates and its graph before.
The graph was installed then. -/
structure OfTakenRun (made : Engine) (computation : Computation) (number : Nat) (probe : Probe)
    (taken : Entry) (between before : List Entry) : Prop where
  history : made.history = between ++ taken :: before
  tookUp : taken.occurrence = .tookUp number probe
  installed : taken.found.selector.routing = some probe.routing
  routing : computation.routing = probe.routing
  path : computation.path ∈ probe.paths

variable {storage : Storage} {settings : Settings}

/-- What is computed for a switch run is computed for one that has taken up its candidates. -/
theorem ofTakenRun_of_computed {made : Engine} (hturns : Turns (idle settings) made)
    {computation : Computation} (hofRun : computation.OfRun made.toMoment) {number : Nat}
    (hnumber : computation.purpose.run? = some number) :
    ∃ probe taken between before,
      OfTakenRun made computation number probe taken between before := by
  obtain ⟨probe, place, due, hrun, hrouting, -, hpath⟩ := hofRun number hnumber
  obtain ⟨taken, hmem, htook⟩ := hturns.takenUp _ probe place hrun rfl
  obtain ⟨between, before, hhistory⟩ := List.append_of_mem hmem
  obtain ⟨-, hfits⟩ := hturns.past rfl hhistory
  rw [htook] at hfits
  exact ⟨probe, taken, between, before, hhistory, htook, hfits.2, hrouting, hpath⟩

/-- Every rule that is offered belongs to a computation, and its graph is the installed one exactly
if no other generation has been taken since.  For a packet or a forced choice, it was installed when
the rules were computed, and still is unless something has been interjected.  For a switch run, it
was installed when the run took up its candidates.  So while routing is disabled, rules are offered
only for a switch run or after an interruption. -/
theorem Reachable.offered_on (h : Reachable storage settings engine) {later earlier : List Entry}
    {found : Moment} {rule : Rule}
    (hhistory : engine.history = later ++ ⟨found, .offered rule⟩ :: earlier) :
    ∃ made computation since, Owed ⟨found, earlier⟩ rule made computation since ∧
      (found.selector.routing = some computation.routing ↔
        found.selector.lastGeneration = computation.routing.generation) ∧
      (computation.purpose.run? = none →
        made.selector.routing = some computation.routing ∧
        ((∀ entry ∈ since, ∀ interjection, entry.occurrence ≠ .interjected interjection) →
          found.selector.routing = some computation.routing)) ∧
      (∀ number, computation.purpose.run? = some number → ∃ probe taken between before,
        OfTakenRun made computation number probe taken between before) ∧
      (found.selector.routing = none → computation.purpose.run?.isSome ∨
        ∃ entry ∈ since, ∃ interjection, entry.occurrence = .interjected interjection) := by
  obtain ⟨hfound, hsteady, made, computation, since, howed⟩ := h.past hhistory
  have hsplit : earlier = since ++ ⟨made.toMoment, .computed computation⟩ :: made.history :=
    howed.interlude.history
  obtain ⟨hmade, hfounded, hofRun⟩ := hfound.past rfl hsplit
  have hon : Turns made ⟨found, earlier⟩ := hfound.since rfl hsplit
  have hmadeSteady := hmade.steady (idle_steady settings)
  have hinstalled : computation.purpose.run? = none →
      made.selector.routing = some computation.routing := fun hnone =>
    hfounded.installed (Purpose.run?_eq_none_iff.mp hnone)
  have htaken : ∀ number, computation.purpose.run? = some number → ∃ probe taken between before,
      OfTakenRun made computation number probe taken between before := fun _ =>
    ofTakenRun_of_computed hmade hofRun
  have hkept : computation.purpose.run? = none →
      (∀ entry ∈ since, ∀ interjection, entry.occurrence ≠ .interjected interjection) →
      found.selector.routing = some computation.routing := by
    intro hnone hpeace
    have hforum : found.forum = made.forum := howed.interlude.forum hpeace
    have hselector : found.selector = made.selector := congrArg Forum.state hforum
    rw [hselector, hinstalled hnone]
  refine ⟨made, computation, since, howed, ?_, fun hnone => ⟨hinstalled hnone, hkept hnone⟩, htaken,
    ?_⟩
  · cases hrun : computation.purpose.run? with
    | none => exact hon.installed_iff hmadeSteady hsteady (hinstalled hrun)
    | some number =>
      obtain ⟨probe, taken, between, before, hrunning⟩ := htaken number hrun
      have hback : made.history = between ++ taken :: before := hrunning.history
      have htakenSteady := (hmade.past rfl hback).1.steady (idle_steady settings)
      have hsince : Turns ⟨taken.found, before⟩ ⟨found, earlier⟩ :=
        (hmade.since rfl hback).trans hon
      rw [hrunning.routing]
      exact hsince.installed_iff htakenSteady hsteady hrunning.installed
  · intro hdisabled
    by_contra hneither
    obtain ⟨hother, hpeace⟩ := not_or.mp hneither
    have hnone := Option.not_isSome_iff_eq_none.mp hother
    have hstill := hkept hnone fun entry hentry interjection hinterjected =>
      hpeace ⟨entry, hentry, interjection, hinterjected⟩
    simp [hdisabled] at hstill

/-- An engine whose graph is withdrawn while a switch run waits for the last candidate to settle. -/
def withdrawn : Engine := settling.play [.disable, .sleep 2000]

theorem withdrawn_reachable : Reachable ⟨[], []⟩ tangledSettings withdrawn :=
  settling_reachable.play _

/-- An engine whose graph is withdrawn just before the rule for a packet. -/
def interrupted : Engine := tangled.play [.beforeRule .disable, .packet (packetBetween 1 4)]

/-- The last rule that this run offers is offered while routing is disabled.  Nothing has been
interjected, so it belongs to a run, and to the graph that the run has taken up. -/
theorem offered_on_withdrawn : ∃ found earlier made computation since number probe taken between
    before, withdrawn.history =
        ⟨found, .offered (.permanent ⟨4⟩ ⟨.ipv4, ⟨10, 0, 0, 4⟩, ⟨10, 0, 0, 1⟩⟩ ⟨1⟩)⟩ :: earlier ∧
      found.selector.routing = none ∧ computation.purpose.run? = some number ∧
      Owed ⟨found, earlier⟩ (.permanent ⟨4⟩ ⟨.ipv4, ⟨10, 0, 0, 4⟩, ⟨10, 0, 0, 1⟩⟩ ⟨1⟩) made
        computation since ∧
      OfTakenRun made computation number probe taken between before := by
  have hrule : withdrawn.history.head?.map Entry.occurrence = some (.offered
      (.permanent ⟨4⟩ ⟨.ipv4, ⟨10, 0, 0, 4⟩, ⟨10, 0, 0, 1⟩⟩ ⟨1⟩)) := by decide
  have hdisabled : withdrawn.history.head?.map (fun entry => entry.found.selector.routing) =
      some none := by decide
  have hpeace : ∀ entry ∈ withdrawn.history, entry.interjection? = none := by decide
  rcases hhistory : withdrawn.history with _ | ⟨⟨found, occurrence⟩, earlier⟩
  · simp [hhistory] at hrule
  rw [hhistory] at hrule hdisabled hpeace
  obtain rfl := Option.some.inj hrule
  obtain ⟨made, computation, since, howed, -, -, hruns, hlate⟩ :=
    withdrawn_reachable.offered_on (show withdrawn.history = [] ++ _ from hhistory)
  have hrun : computation.purpose.run?.isSome := by
    rcases hlate (Option.some.inj hdisabled) with hrun | ⟨entry, hentry, interjection, hbetween⟩
    · exact hrun
    · have hsplit : earlier = since ++ _ := howed.interlude.history
      have hmem : entry ∈ earlier := hsplit ▸ List.mem_append_left _ hentry
      have hnone := hpeace entry (List.mem_cons_of_mem _ hmem)
      simp [Entry.interjection?, hbetween] at hnone
  obtain ⟨number, hnumber⟩ := Option.isSome_iff_exists.mp hrun
  obtain ⟨probe, taken, between, before, htaken⟩ := hruns number hnumber
  exact ⟨found, earlier, made, computation, since, number, probe, taken, between, before, rfl,
    Option.some.inj hdisabled, hnumber, howed, htaken⟩

/-- Nobody listens, and yet rules are offered while routing is disabled: those of the winner of a
run, and one for a packet. -/
theorem offered_while_withdrawn :
    (Reachable ⟨[], []⟩ tangledSettings withdrawn ∧ withdrawn.forum.audience.members = [] ∧
      ∃ entry ∈ withdrawn.history, entry.rule?.isSome ∧ entry.found.selector.routing = none) ∧
    (Reachable ⟨[], []⟩ tangledSettings interrupted ∧ interrupted.forum.audience.members = [] ∧
      ∃ entry ∈ interrupted.history, entry.rule?.isSome ∧ entry.found.selector.routing = none) := by
  refine ⟨⟨withdrawn_reachable, by decide, ?_⟩, ⟨tangled_reachable.play _, by decide, ?_⟩⟩
  · exact ⟨_, List.get_mem withdrawn.history ⟨0, by decide⟩, by decide, by decide⟩
  · exact ⟨_, List.get_mem interrupted.history ⟨0, by decide⟩, by decide, by decide⟩

end Engine

end TrafficSteering
