import TrafficSteering.Proofs.Selector.Announcements
set_option autoImplicit false

/-!
# Generations

Whenever a graph is installed, and whenever an installed one is withdrawn, the next generation is
taken, and nothing else takes one.  So the generation counts the graphs that have come and gone, and
one that is gone never comes back: a commit of it is refused from then on.  What is refused leaves
the selector as it was and is not announced.
-/

namespace TrafficSteering

namespace Selector

variable {selector : Selector}

/-! ## What replaces the graph -/

/-- Whether a report makes a graph of the expected size. -/
def takesIn (selector : Selector) (report : Snapshot) : Bool :=
  selector.expected.accepts report && (Graph.ofSnapshot report).isOk

/-- Whether a request installs a graph or withdraws the installed one. -/
def replaces (selector : Selector) : Request → Bool
  | .install _ => true
  | .update report => selector.takesIn report || selector.isEnabled
  | .disable => selector.isEnabled
  | .select _ _ | .reroute | .commit _ _ | .start | .stop => false

/-- What becomes of the graph and its generation, and whether the graph is replaced. -/
inductive Replacement (before : Selector) : Selector → Bool → Prop where
  /-- There is a graph before or after. -/
  | replaced (graph : Option Graph) (h : graph.isSome = true ∨ before.isEnabled = true) :
      Replacement before (before.replaceGraph graph) true
  | kept {after : Selector} (hrouting : after.routing = before.routing)
      (hgeneration : after.lastGeneration = before.lastGeneration) : Replacement before after false

theorem disable_replacement (selector : Selector) :
    Replacement selector selector.disable selector.isEnabled := by
  unfold disable isEnabled
  cases henabled : selector.routing.isSome with
  | false => exact .kept rfl rfl
  | true => exact .replaced none (.inr henabled)

theorem update_replacement (selector : Selector) (report : Snapshot) :
    Replacement selector (selector.update report).1
      (selector.takesIn report || selector.isEnabled) := by
  unfold update takesIn
  cases selector.expected.accepts report with
  | false => exact selector.disable_replacement
  | true =>
    cases Graph.ofSnapshot report with
    | error fault => exact selector.disable_replacement
    | ok graph => exact .replaced (some graph) (.inl rfl)

theorem selectFor_replacement (selector : Selector) (reason : ChangeReason) (src dst : SwitchId) :
    Replacement selector (selector.selectFor reason src dst).state false := by
  cases hrouting : selector.routing with
  | none =>
    rw [selectFor_of_disabled hrouting]
    exact .kept rfl rfl
  | some routing =>
    by_cases hgeneration : selector.candidates.generation = routing.generation
    · rw [(selectFor_of_routing reason src dst hrouting hgeneration).1]
      exact .kept rfl rfl
    · simp only [selectFor, requireRouting, hrouting, if_neg hgeneration]
      exact .kept rfl rfl

theorem serve_replacement (request : Request) (selector : Selector) :
    Replacement selector (serve request selector).state (selector.replaces request) := by
  cases request with
  | update report => exact selector.update_replacement report
  | install graph => exact .replaced (some graph) (.inl rfl)
  | disable => exact selector.disable_replacement
  | select src dst => exact selector.selectFor_replacement .selected src dst
  | reroute =>
    simp only [serve, unanswered, reroute]
    split
    · exact selector.selectFor_replacement .rerouted _ _
    · exact .kept rfl rfl
  | commit generation index =>
    simp only [serve, unanswered, commit]
    split
    · split <;> exact .kept rfl rfl
    · exact .kept rfl rfl
  | start | stop => exact .kept rfl rfl

variable {after : Selector} {replaced : Bool}

/-- The generation counts the replacements. -/
theorem Replacement.lastGeneration (h : Replacement selector after replaced) :
    after.lastGeneration = selector.lastGeneration + replaced.toNat := by
  cases h with
  | replaced graph h => rfl
  | kept _ hgeneration => exact hgeneration

/-- A graph that is installed in place of an equal one is another graph. -/
theorem Replacement.routing_ne_iff (h : Replacement selector after replaced)
    (hconsistent : Consistent selector) :
    replaced = true ↔ after.routing ≠ selector.routing := by
  cases h with
  | kept hrouting _ => simp [hrouting]
  | replaced graph hgraph =>
    refine ⟨fun _ hsame => ?_, fun _ => rfl⟩
    cases hrouting : selector.routing with
    | none =>
      have hnone : graph = none := Option.map_eq_none_iff.mp (hsame.trans hrouting)
      simp [hnone, isEnabled, hrouting] at hgraph
    | some routing =>
      obtain ⟨other, hother, hnew⟩ := Option.map_eq_some_iff.mp (hsame.trans hrouting)
      have hbefore := hconsistent.installed routing hrouting
      rw [← hnew] at hbefore
      exact absurd hbefore (Nat.succ_ne_self _)

/-! ## What is refused -/

/-- A commit of a generation that is not the last one is not possible. -/
theorem Consistent.commit_refused (h : Consistent selector) {generation : Nat}
    (hold : generation < selector.lastGeneration) (index : Nat) :
    selector.commit generation index = ⟨selector, [], false⟩ := by
  refine commit_of_refused fun hdone => ?_
  have hcurrent := (commit_answer_iff.mp hdone).1.symm.trans h.current
  omega

theorem selectFor_disabled_iff (reason : ChangeReason) (src dst : SwitchId) :
    (selector.selectFor reason src dst).answer = .error .routingDisabled ↔
      selector.routing = none := by
  cases hrouting : selector.routing with
  | none => simp [selectFor_of_disabled hrouting]
  | some routing =>
    by_cases hgeneration : selector.candidates.generation = routing.generation
    · simp [(selectFor_of_routing reason src dst hrouting hgeneration).2]
    · simp [selectFor, requireRouting, hrouting, hgeneration]

theorem reroute_disabled_iff :
    selector.reroute.answer = .error .routingDisabled ↔
      selector.routing = none ∧ selector.endpoints ≠ none := by
  unfold reroute
  cases selector.endpoints with
  | none => simp
  | some ends => simp [selectFor_disabled_iff]

end Selector

/-! ## Runs of requests -/

namespace SelectorForum

open Selector (Request)

/-- Where requests lead to while listeners come and go that do not call back, and how many of the
requests have replaced the graph. -/
inductive Proceeds (first : SelectorForum) : SelectorForum → Nat → Prop where
  | begun : Proceeds first first 0
  | served {forum : SelectorForum} {changes : Nat} (h : Proceeds first forum changes)
      (request : Request) : Proceeds first (forum.perform (Selector.serve request)).1
        (changes + (forum.state.replaces request).toNat)
  | joined {forum : SelectorForum} {changes : Nat} (h : Proceeds first forum changes)
      {other : Listener Request} (hother : other.reactions = []) :
      Proceeds first (forum.enlist other) changes
  | left {forum : SelectorForum} {changes : Nat} (h : Proceeds first forum changes)
      (other : Handle) : Proceeds first (forum.dismiss other) changes

variable {first seen now forum : SelectorForum} {changes before since : Nat}

theorem Proceeds.quiet (h : Proceeds first forum changes) (hquiet : first.audience.Quiet) :
    forum.audience.Quiet := by
  induction h with
  | begun => exact hquiet
  | served _ request ih => exact perform_audience ih (Selector.serve request) ▸ ih
  | joined _ hother ih => exact ih.enlist hother
  | left _ other ih => exact ih.dismiss other

theorem Proceeds.consistent (h : Proceeds first forum changes) (hquiet : first.audience.Quiet)
    (hconsistent : first.state.Consistent) : forum.state.Consistent := by
  induction h with
  | begun => exact hconsistent
  | served h request ih =>
    rw [(perform_of_quiet (h.quiet hquiet) (Selector.serve request)).1]
    exact (Selector.serve_change request _).consistent ih
  | joined _ _ ih => exact ih
  | left _ _ ih => exact ih

/-- The generation counts the graphs that have come and gone. -/
theorem Proceeds.lastGeneration (h : Proceeds first forum changes) (hquiet : first.audience.Quiet) :
    forum.state.lastGeneration = first.state.lastGeneration + changes := by
  induction h with
  | begun => rfl
  | @served forum changes h request ih =>
    rw [(perform_of_quiet (h.quiet hquiet) (Selector.serve request)).1,
      (Selector.serve_replacement request forum.state).lastGeneration, ih, Nat.add_assoc]
  | joined _ _ ih => exact ih
  | left _ _ ih => exact ih

/-- The generation of an installed graph, of its candidates and of all that is found on it. -/
structure Counted (forum : SelectorForum) : Prop where
  candidates : forum.state.candidates.generation = forum.state.lastGeneration
  installed : ∀ routing, forum.state.routing = some routing →
    routing.generation = forum.state.lastGeneration
  /-- A request takes a generation exactly if it replaces the graph. -/
  step : ∀ request, (forum.perform (Selector.serve request)).1.state.lastGeneration =
    forum.state.lastGeneration + (forum.state.replaces request).toNat
  replaces : ∀ request, forum.state.replaces request = true ↔
    (forum.perform (Selector.serve request)).1.state.routing ≠ forum.state.routing

/-- What is refused leaves the selector and its listeners as they are, and nobody is called. -/
structure Refuses (forum : SelectorForum) : Prop where
  commit_iff : ∀ generation index,
    (forum.perform fun selector => selector.commit generation index).2 = false ↔
      generation ≠ forum.state.candidates.generation ∨
        forum.state.candidates.paths.length ≤ index
  commit : ∀ generation index,
    (forum.perform fun selector => selector.commit generation index).2 = false →
      (forum.perform fun selector => selector.commit generation index).1 = forum
  select_iff : ∀ src dst,
    (forum.perform fun selector => selector.select src dst).2 = .error .routingDisabled ↔
      forum.state.routing = none
  select : ∀ src dst,
    (forum.perform fun selector => selector.select src dst).2 = .error .routingDisabled →
      (forum.perform fun selector => selector.select src dst).1 = forum
  reroute_iff : (forum.perform Selector.reroute).2 = .error .routingDisabled ↔
    forum.state.routing = none ∧ forum.state.endpoints ≠ none
  reroute : (forum.perform Selector.reroute).2 = .error .routingDisabled →
    (forum.perform Selector.reroute).1 = forum
  /-- Before the first flow there is nothing to choose. -/
  unasked : forum.state.endpoints = none → forum.perform Selector.reroute = (forum, .ok none)
  /-- What only asks for paths changes nothing in any case. -/
  route : ∀ src dst, forum.state.route src dst = .error .routingDisabled ↔
    forum.state.routing = none
  allPaths : ∀ src dst, forum.state.allPaths src dst = .error .routingDisabled ↔
    forum.state.routing = none

/-- What changes nothing and announces nothing leaves the listeners alone, too. -/
theorem perform_of_nothing {α : Type} {operation : Selector → Outcome Selector α} {answer : α}
    (h : operation forum.state = ⟨forum.state, [], answer⟩) :
    forum.perform operation = (forum, answer) := by
  unfold perform
  rw [h]
  rfl

theorem refuses (forum : SelectorForum) : Refuses forum where
  commit_iff := by
    intro generation index
    have hiff := @Selector.commit_answer_iff forum.state generation index
    rw [← Bool.not_eq_true]
    refine (not_congr hiff).trans ?_
    rw [not_and_or, Nat.not_lt, eq_comm]
  commit := by
    intro generation index hrefused
    have hnothing := Selector.commit_of_refused (Bool.eq_false_iff.mp hrefused)
    exact congrArg Prod.fst (perform_of_nothing hnothing)
  select_iff := fun src dst => Selector.selectFor_disabled_iff .selected src dst
  select := by
    intro src dst hrefused
    have hdisabled := (Selector.selectFor_disabled_iff .selected src dst).mp hrefused
    exact congrArg Prod.fst
      (perform_of_nothing (Selector.selectFor_of_disabled hdisabled .selected src dst))
  reroute_iff := Selector.reroute_disabled_iff
  reroute := by
    intro hrefused
    have hdisabled := (Selector.reroute_disabled_iff.mp hrefused).1
    obtain ⟨hstate, hevents⟩ := Selector.reroute_of_nothing (.inl hdisabled)
    rcases hreroute : forum.state.reroute with ⟨state, events, answer⟩
    rw [hreroute] at hstate hevents
    obtain rfl : state = forum.state := hstate
    obtain rfl : events = [] := hevents
    exact congrArg Prod.fst (perform_of_nothing hreroute)
  unasked := by
    intro hnone
    refine perform_of_nothing ?_
    simp only [Selector.reroute, hnone]
  route := by
    intro src dst
    cases hrouting : forum.state.routing with
    | none => simp [Selector.route, Selector.requireRouting, hrouting, bind, Except.bind]
    | some routing => simp [Selector.route_of_routing hrouting]
  allPaths := by
    intro src dst
    cases hrouting : forum.state.routing with
    | none => simp [Selector.allPaths, Selector.requireRouting, hrouting, bind, Except.bind]
    | some routing => simp [Selector.allPaths_of_routing hrouting]

theorem counted (hquiet : forum.audience.Quiet) (h : forum.state.Consistent) : Counted forum where
  candidates := h.current
  installed := h.installed
  step := by
    intro request
    rw [(perform_of_quiet hquiet (Selector.serve request)).1]
    exact (Selector.serve_replacement request forum.state).lastGeneration
  replaces := by
    intro request
    rw [(perform_of_quiet hquiet (Selector.serve request)).1]
    exact (Selector.serve_replacement request forum.state).routing_ne_iff h

/-- From a selector that has taken in nothing yet, the generation counts the graphs that have come
and gone, and as long as these are fewer than a 64-bit number can count, none is ever given twice:
once the graph has been replaced, no commit of a generation that was seen before is possible.  This
and whatever else is refused changes nothing. -/
theorem Proceeds.unrepeated {expected : ExpectedSize}
    (hfresh : first.state = { expected := expected }) (hquiet : first.audience.Quiet)
    (hseen : first.Proceeds seen before) (hnow : seen.Proceeds now since)
    (hfew : before + since < 2 ^ 64) :
    seen.state.lastGeneration = before ∧ now.state.lastGeneration = before + since ∧
      now.state.lastGeneration < 2 ^ 64 ∧
    seen.Counted ∧ now.Counted ∧
    (0 < since → ∀ generation ≤ seen.state.lastGeneration, ∀ index,
      (now.perform fun selector => selector.commit generation index) = (now, false)) ∧
    now.Refuses := by
  have hbegun : first.state.Consistent := hfresh ▸ Selector.initial_consistent expected
  have hseenQuiet := hseen.quiet hquiet
  have hseenConsistent := hseen.consistent hquiet hbegun
  have hnowConsistent := hnow.consistent hseenQuiet hseenConsistent
  have hfirst : first.state.lastGeneration = 0 := by rw [hfresh]
  have hbefore : seen.state.lastGeneration = before := by
    rw [hseen.lastGeneration hquiet, hfirst, Nat.zero_add]
  have hafter : now.state.lastGeneration = before + since := by
    rw [hnow.lastGeneration hseenQuiet, hbefore]
  refine ⟨hbefore, hafter, hafter ▸ hfew, counted hseenQuiet hseenConsistent,
    counted (hnow.quiet hseenQuiet) hnowConsistent, ?_, now.refuses⟩
  intro hchanged generation hshown index
  exact perform_of_nothing (hnowConsistent.commit_refused (by omega) index)

/-- Two listeners, the tangled report and a selection. -/
def routed : SelectorForum :=
  let attended : SelectorForum :=
    { state := { expected := ⟨5, 9⟩ }, audience := (Audience.enlist {} {}).enlist {} }
  let reported := (attended.perform (Selector.serve (.update Snapshot.tangle))).1
  (reported.perform (Selector.serve (.select ⟨1⟩ ⟨4⟩))).1

/-- The graph is withdrawn, once more in vain, and then an equal one is installed. -/
def reinstalled : SelectorForum :=
  let withdrawn := (routed.perform (Selector.serve .disable)).1
  let vain := (withdrawn.perform (Selector.serve .disable)).1
  (vain.perform (Selector.serve (.update Snapshot.tangle))).1

/-- What was selected before is refused, although the graph looks the same. -/
theorem unrepeated_reinstalled :
    reinstalled.state.graph? = routed.state.graph? ∧ routed.state.lastGeneration = 1 ∧
      reinstalled.state.lastGeneration = 3 ∧
      (reinstalled.perform fun selector => selector.commit 1 0) = (reinstalled, false) := by
  have hquiet : ((Audience.enlist {} {}).enlist {} : Audience Request).Quiet := by
    refine Audience.Quiet.enlist (Audience.Quiet.enlist ?_ rfl) rfl
    exact fun _ hmember => absurd hmember List.not_mem_nil
  have hrouted : Proceeds _ routed _ := (Proceeds.begun.served _).served _
  have hagain : routed.Proceeds reinstalled _ := ((Proceeds.begun.served _).served _).served _
  obtain ⟨-, -, -, -, -, hrefused, -⟩ := hrouted.unrepeated rfl hquiet hagain (by decide)
  exact ⟨by decide, by decide, by decide, hrefused (by decide) 1 (by decide) 0⟩

end SelectorForum

end TrafficSteering
