import TrafficSteering.Proofs.Engine.Busy
import TrafficSteering.Proofs.Engine.Spared
import TrafficSteering.Proofs.Except
import TrafficSteering.Proofs.Selector.Announcements
import TrafficSteering.Proofs.Selector.Listeners
set_option autoImplicit false

/-!
# Forced choices

A forced choice takes the permit, chooses the shortest path between the ends of the last flow on the
installed graph, announces it, offers its rules, and gives the permit back, whatever comes of it.
The ends outlast the graph they were chosen on, so the new path may have nothing in common with the
old candidates.  Done once more, a forced choice leaves the selector as it is.
-/

namespace TrafficSteering

namespace Selector

variable {selector : Selector} {routing : Routing} {src dst : SwitchId}

/-! ## The choice -/

/-- What is chosen where this is the shortest path. -/
def choice (routing : Routing) (src dst : SwitchId) (path : Path) : Selection where
  generation := routing.generation
  paths := routing.graph.simplePaths src dst
  index := (routing.graph.simplePaths src dst).idxOf? path
  path := path

/-- The state in which a selection has been made. -/
def holding (selector : Selector) (selection : Selection) : Selector :=
  { selector with candidates := ⟨selection.generation, selection.paths, selection.index⟩ }

theorem chosen_of_some (hends : selector.endpoints = some (src, dst)) {path : Path}
    (hpath : (routing.graph.shortestPaths src).path? dst = some path) :
    selector.chosen routing src dst = selector.holding (choice routing src dst path) := by
  rw [chosen, compute_of_some hpath, ← hends]
  rfl

theorem reroute_of_routing (h : Consistent selector) (hrouting : selector.routing = some routing)
    (hends : selector.endpoints = some (src, dst)) :
    selector.reroute =
      ⟨selector.chosen routing src dst,
        .rerouted :: selector.changeOf .rerouted (compute routing src dst).2,
        .ok ((compute routing src dst).2.map fun found =>
          ⟨routing.generation, (compute routing src dst).1, found.2, found.1⟩)⟩ := by
  simp only [reroute, hends, selectFor, requireRouting, hrouting, h.generation_eq hrouting, if_true,
    beq_self_eq_true, List.singleton_append, chosen]

/-- Where there is a path, a forced choice announces itself and the path. -/
theorem reroute_of_some (h : Consistent selector) (hrouting : selector.routing = some routing)
    (hends : selector.endpoints = some (src, dst)) {path : Path}
    (hpath : (routing.graph.shortestPaths src).path? dst = some path) :
    selector.reroute =
      ⟨selector.holding (choice routing src dst path),
        .rerouted :: announcement .rerouted (choice routing src dst path).placed?,
        .ok (some (choice routing src dst path))⟩ := by
  rw [reroute_of_routing h hrouting hends, changeOf_chosen, chosen_activePath?,
    chosen_of_some hends hpath, compute_of_some hpath]
  simp [choice, Selection.placed?]

/-- Where there is none, it announces itself only, and no candidates are left. -/
theorem reroute_of_none (h : Consistent selector) (hrouting : selector.routing = some routing)
    (hends : selector.endpoints = some (src, dst))
    (hpath : (routing.graph.shortestPaths src).path? dst = none)
    (hpaths : routing.graph.simplePaths src dst = []) :
    selector.reroute =
      ⟨{ selector with candidates := ⟨routing.generation, [], none⟩ }, [.rerouted], .ok none⟩ := by
  rw [reroute_of_routing h hrouting hends, chosen, compute_of_none hpath, hpaths, ← hends]
  rfl

end Selector

namespace SelectorForum

/-- The selector is in another state, and everybody has been told of the events. -/
def settled (forum : SelectorForum) (state : Selector) (events : List Event) : SelectorForum :=
  { forum with
    state
    calls := forum.calls ++ Forum.callsFor forum.audience.members state events }

end SelectorForum

namespace Engine

variable {engine : Engine}

/-! ## The permit of a forced choice -/

/-- A forced choice has taken the permit. -/
def forced (engine : Engine) : Engine :=
  { engine with guard := ⟨true⟩, forcing := engine.forcing + 1 }

/-- A forced choice is over. -/
def unforced (engine : Engine) : Engine :=
  { engine with guard := engine.guard.release, forcing := engine.forcing - 1 }

theorem reroute_of_free (hfree : engine.guard.busy = false) :
    engine.reroute =
      ((engine.forced.chooseWith offer).1.unforced, (engine.forced.chooseWith offer).2) := by
  simp only [reroute, rerouteWith, Guard.tryBegin?_of_free hfree]
  rfl

/-- What is done under the permit is done, and the permit is free again. -/
theorem unforced_of_forced (hfree : engine.guard.busy = false) (forum : SelectorForum)
    (plane : DataPlane) (history : List Entry) :
    ({ engine.forced with forum, plane, history } : Engine).unforced =
      { engine with forum, plane, history } := by
  have hguard : engine.guard = ⟨false⟩ := by rw [← hfree]
  simp only [unforced, forced, Guard.release, Nat.add_sub_cancel, ← hguard]

/-- An operation of the selector, with listeners that do not call back. -/
theorem perform_of_quiet (hquiet : engine.forum.audience.Quiet) {α : Type}
    (operation : Selector → Outcome Selector α) :
    engine.perform operation =
      ({ engine with
          forum := engine.forum.settled (operation engine.selector).state
            (operation engine.selector).events },
        (operation engine.selector).answer) := by
  unfold perform SelectorForum.perform
  rw [Forum.settle_of_quiet Selector.serve hquiet]
  rfl

theorem chooseWith_of_quiet (hquiet : engine.forum.audience.Quiet) {state : Selector}
    {events : List Event} {answer : Except Fault (Option Selection)}
    (h : engine.selector.reroute = ⟨state, events, answer⟩) (offer : Offer) :
    engine.chooseWith offer =
      ({ engine with forum := engine.forum.settled state events } : Engine).installChoice offer
        answer := by
  simp only [chooseWith, perform_of_quiet hquiet, h]

/-- The listeners have been told of a forced choice and of its path. -/
def announced (engine : Engine) (selection : Selection) : SelectorForum :=
  engine.forum.settled (engine.selector.holding selection)
    (.rerouted :: announcement .rerouted selection.placed?)

/-- The engine with a choice that has been announced and is to be installed. -/
def deciding (engine : Engine) (selection : Selection) : Engine :=
  { engine.forced with forum := engine.announced selection }

/-- For a choice, rules are computed on the graph that it was made on. -/
def choosing (routing : Routing) (selection : Selection) : Computation :=
  ⟨.reroute, selection.path, selection.generation, routing⟩

variable {routing : Routing} {src dst : SwitchId}

theorem installChoice_of_routing (hrouting : engine.selector.routing = some routing)
    (selection : Selection) :
    engine.installChoice offer (.ok (some selection)) =
      ((engine.installPath (choosing routing selection)).1,
        (engine.installPath (choosing routing selection)).2.map fun _ => some selection) := by
  simp only [installChoice, hrouting, installPath, choosing]
  rcases engine.installWith offer ⟨.reroute, selection.path, selection.generation, routing⟩ with
    ⟨next, fault | count⟩ <;> rfl

/-- Where there is a path, it is announced and then installed, all under the permit. -/
theorem reroute_of_path (hconsistent : engine.selector.Consistent)
    (hfree : engine.guard.busy = false) (hquiet : engine.forum.audience.Quiet)
    (hrouting : engine.selector.routing = some routing)
    (hends : engine.selector.endpoints = some (src, dst)) {path : Path}
    (hpath : (routing.graph.shortestPaths src).path? dst = some path) {selection : Selection}
    (hselection : selection = Selector.choice routing src dst path) :
    engine.reroute =
      (((engine.deciding selection).installPath (choosing routing selection)).1.unforced,
        ((engine.deciding selection).installPath (choosing routing selection)).2.map
          fun _ => some selection) := by
  have hchoice : engine.forced.selector.reroute = _ :=
    Selector.reroute_of_some hconsistent hrouting hends hpath
  have hinstall := @installChoice_of_routing (engine.deciding selection) routing hrouting selection
  rw [reroute_of_free hfree, @chooseWith_of_quiet engine.forced hquiet _ _ _ hchoice, ← hselection]
  exact congrArg (fun done : Engine × _ => (done.1.unforced, done.2)) hinstall

/-! ## What a forced choice comes to -/

/-- A forced choice has chosen a path, and has offered its rules up to the first that is refused,
and no others.  Between two rules others may interject something. -/
structure Rechosen (engine : Engine) (routing : Routing) (src dst : SwitchId)
    (selection : Selection) (offers : List Entry) : Prop where
  shortest : engine.selector.route src dst = .ok (some selection.path)
  simple : routing.graph.IsSimplePath src dst selection.path
  lightest : ∀ other ∈ routing.graph.simplePaths src dst,
    routing.graph.pathWeight selection.path ≤ routing.graph.pathWeight other
  chosen : selection = Selector.choice routing src dst selection.path
  history : engine.reroute.1.history = offers ++
    ⟨(engine.deciding selection).toMoment, .computed (choosing routing selection)⟩ ::
      engine.history
  offered : Offers offers
    (engine.installer.offeredFor routing.graph engine.plane selection.path)
  plane : engine.reroute.1.plane =
    (engine.installer.attempt routing.graph engine.plane selection.path).1
  /-- The answer is the selection if all rules are accepted, and the fault otherwise. -/
  answer : engine.reroute.2 =
    (engine.installer.attempt routing.graph engine.plane selection.path).2.map fun _ =>
      some selection
  accepted : engine.reroute.2 = .ok (some selection) ↔
    engine.installer.Succeeds routing.graph engine.plane selection.path
  forum : engine.reroute.1.forum =
    (interjectionsIn offers).foldl SelectorForum.disturb (engine.announced selection)
  spared : engine.Spared engine.reroute.1.toMoment
  /-- If nothing is interjected, nothing else has changed. -/
  uninterrupted : engine.beforeRule = none → engine.reroute.1 =
    { engine with
      forum := engine.announced selection
      plane := (engine.installer.attempt routing.graph engine.plane selection.path).1
      history := engine.reroute.1.history }

theorem rechosen_of_path (hconsistent : engine.selector.Consistent)
    (hfree : engine.guard.busy = false) (hquiet : engine.forum.audience.Quiet)
    (hrouting : engine.selector.routing = some routing)
    (hends : engine.selector.endpoints = some (src, dst)) {path : Path}
    (hpath : (routing.graph.shortestPaths src).path? dst = some path) {selection : Selection}
    (hselection : selection = Selector.choice routing src dst path) :
    ∃ offers, Rechosen engine routing src dst selection offers := by
  have hreroute := reroute_of_path hconsistent hfree hquiet hrouting hends hpath hselection
  obtain ⟨offers, hwork, hoffers, hplane, hanswer⟩ :=
    @installPath_of_busy (engine.deciding selection) rfl (choosing routing selection)
  have hspared := installWith_spares offer_spares (engine.deciding selection)
    (choosing routing selection)
  have hresult : engine.reroute.2 =
      (engine.installer.attempt routing.graph engine.plane selection.path).2.map fun _ =>
        some selection := by
    rw [hreroute]
    exact congrArg (Except.map fun _ => some selection) hanswer
  have hsame : selection.path = path := congrArg Selection.path hselection
  have hroute := Selector.route_of_routing hrouting src dst
  rw [hpath, ← hsame] at hroute
  rw [← hsame] at hpath hselection
  exact ⟨offers, {
    shortest := hroute
    simple := Graph.path?_isSimplePath hpath
    lightest := Graph.path?_lightest hpath
    chosen := hselection
    history := by
      rw [hreroute]
      exact hwork.history
    offered := hoffers
    plane := by
      rw [hreroute]
      exact hplane
    answer := hresult
    accepted := by
      rw [hresult]
      rcases engine.installer.attempt_cases routing.graph engine.plane selection.path with
        ⟨hall, count, hcount⟩ | ⟨hnot, fault, hfault⟩
      · rw [hcount]
        exact iff_of_true rfl hall
      · rw [hfault]
        exact iff_of_false nofun hnot
    forum := by
      rw [hreroute]
      exact hwork.forum
    spared := by
      rw [hreroute]
      exact { hspared with }
    uninterrupted := by
      intro hbefore
      obtain ⟨history, hinstall, -⟩ :=
        @installPath_of_peaceful (engine.deciding selection) hbefore (choosing routing selection)
      rw [hreroute, hinstall]
      exact unforced_of_forced hfree (engine.announced selection) _ history }⟩

/-! ## Where there is nothing to install -/

theorem settled_of_nothing (forum : SelectorForum) : forum.settled forum.state [] = forum := by
  simp [SelectorForum.settled, Forum.callsFor]

/-- Where nothing is chosen, nothing is installed. -/
theorem reroute_of_nothing (hfree : engine.guard.busy = false)
    (hquiet : engine.forum.audience.Quiet) {state : Selector} {events : List Event}
    {answer : Except Fault (Option Selection)}
    (h : engine.selector.reroute = ⟨state, events, answer⟩)
    (hnone : ∀ selection, answer ≠ .ok (some selection)) :
    engine.reroute = ({ engine with forum := engine.forum.settled state events }, answer) := by
  have hreroute : engine.forced.selector.reroute = _ := h
  have hdone := unforced_of_forced hfree (engine.forum.settled state events) engine.plane
    engine.history
  rw [reroute_of_free hfree, @chooseWith_of_quiet engine.forced hquiet _ _ _ hreroute]
  match answer with
  | .error fault => exact Prod.ext hdone rfl
  | .ok none => exact Prod.ext hdone rfl
  | .ok (some selection) => exact absurd rfl (hnone selection)

/-- Where the selector does nothing, nothing is done at all. -/
theorem reroute_of_unmoved (hfree : engine.guard.busy = false)
    (hquiet : engine.forum.audience.Quiet) {answer : Except Fault (Option Selection)}
    (h : engine.selector.reroute = ⟨engine.selector, [], answer⟩)
    (hnone : ∀ selection, answer ≠ .ok (some selection)) : engine.reroute = (engine, answer) := by
  have hsettled : engine.forum.settled engine.selector [] = engine.forum :=
    settled_of_nothing engine.forum
  rw [reroute_of_nothing hfree hquiet h hnone, hsettled]

theorem reroute_of_unflowed (hfree : engine.guard.busy = false)
    (hquiet : engine.forum.audience.Quiet) (hends : engine.selector.endpoints = none) :
    engine.reroute = (engine, .ok none) := by
  have hreroute : engine.selector.reroute = ⟨engine.selector, [], .ok none⟩ := by
    simp only [Selector.reroute, hends]
  exact reroute_of_unmoved hfree hquiet hreroute (by simp)

theorem reroute_of_disabled (hfree : engine.guard.busy = false)
    (hquiet : engine.forum.audience.Quiet) (hends : engine.selector.endpoints ≠ none)
    (hdisabled : engine.selector.routing = none) :
    engine.reroute = (engine, .error .routingDisabled) := by
  obtain ⟨ends, hsome⟩ := Option.ne_none_iff_exists'.mp hends
  have hreroute : engine.selector.reroute = ⟨engine.selector, [], .error .routingDisabled⟩ := by
    simp only [Selector.reroute, hsome, Selector.selectFor_of_disabled hdisabled]
  exact reroute_of_unmoved hfree hquiet hreroute (by simp)

/-- The candidates are dropped, and the listeners are told of a forced choice only. -/
def unsteered (engine : Engine) (routing : Routing) : Engine :=
  { engine with
    forum := engine.forum.settled
      { engine.selector with candidates := ⟨routing.generation, [], none⟩ } [.rerouted] }

theorem reroute_of_unconnected (hconsistent : engine.selector.Consistent)
    (hfree : engine.guard.busy = false) (hquiet : engine.forum.audience.Quiet)
    (hrouting : engine.selector.routing = some routing)
    (hends : engine.selector.endpoints = some (src, dst))
    (hapart : (routing.graph.shortestPaths src).path? dst = none) :
    engine.reroute = (engine.unsteered routing, .ok none) := by
  have hne : src ≠ dst := by
    rintro rfl
    rw [Graph.path?_self] at hapart
    cases hapart
  have hpaths := (Graph.path?_eq_none_iff (.inr hne)).mp hapart
  exact reroute_of_nothing hfree hquiet
    (Selector.reroute_of_none hconsistent hrouting hends hapart hpaths) (by simp)

/-! ## All outcomes -/

/-- After a forced choice has succeeded, the same choice is made again, and its rules are offered
again. -/
structure Repeats (engine : Engine) (selection : Selection) (rules : List Rule) : Prop where
  /-- The first time they have been installed. -/
  installed : engine.reroute.1.plane.rules = engine.plane.rules ++ rules
  selector : engine.reroute.1.reroute.1.selector = engine.reroute.1.selector
  again : ∃ routing src dst offers, engine.selector.routing = some routing ∧
    engine.installer.rulesForPath routing.graph selection.path = .ok rules ∧
    Rechosen engine.reroute.1 routing src dst selection offers
  /-- The second time they are installed as far as they are accepted. -/
  reinstalled : engine.reroute.1.reroute.1.plane.rules =
    engine.reroute.1.plane.rules ++ engine.reroute.1.plane.accepted rules
  answer : engine.reroute.1.reroute.2 = .ok (some selection) ↔
    engine.reroute.1.plane.accepted rules = rules

/-- What a forced choice comes to, by the ends of the last flow and the installed graph. -/
structure Rechooses (engine : Engine) : Prop where
  unflowed : engine.selector.endpoints = none → engine.reroute = (engine, .ok none)
  disabled : engine.selector.endpoints ≠ none → engine.selector.routing = none →
    engine.reroute = (engine, .error .routingDisabled)
  unconnected : ∀ {routing src dst}, engine.selector.routing = some routing →
    engine.selector.endpoints = some (src, dst) →
    ¬ Relation.ReflTransGen routing.graph.Adjacent src dst →
    engine.reroute = (engine.unsteered routing, .ok none)
  connected : ∀ {routing src dst}, engine.selector.routing = some routing →
    engine.selector.endpoints = some (src, dst) → routing.graph.contains src = true →
    Relation.ReflTransGen routing.graph.Adjacent src dst →
    ∃ selection offers, Rechosen engine routing src dst selection offers ∧
      ∃ index, selection.placed? = some (index, selection.path) ∧
        (engine.announced selection).state.candidates.activePath? = some (index, selection.path)
  /-- A switch that is not in the graph has a path to itself only, which is no candidate. -/
  outside : ∀ {routing src}, engine.selector.routing = some routing →
    engine.selector.endpoints = some (src, src) → routing.graph.contains src = false →
    ∃ offers, Rechosen engine routing src src ⟨routing.generation, [], none, Path.single src⟩ offers
  atRest : engine.reroute.1.AtRest
  repeats : engine.beforeRule = none → ∀ selection, engine.reroute.2 = .ok (some selection) →
    ∃ rules, Repeats engine selection rules

/-- Which choice has been made, if one has. -/
theorem exists_rechosen (hconsistent : engine.selector.Consistent)
    (hfree : engine.guard.busy = false) (hquiet : engine.forum.audience.Quiet)
    {selection : Selection} (hanswer : engine.reroute.2 = .ok (some selection)) :
    ∃ routing src dst offers, engine.selector.routing = some routing ∧
      engine.selector.endpoints = some (src, dst) ∧
      Rechosen engine routing src dst selection offers := by
  cases hends : engine.selector.endpoints with
  | none =>
    rw [reroute_of_unflowed hfree hquiet hends] at hanswer
    cases hanswer
  | some ends =>
    obtain ⟨src, dst⟩ := ends
    cases hrouting : engine.selector.routing with
    | none =>
      rw [reroute_of_disabled hfree hquiet (by simp [hends]) hrouting] at hanswer
      cases hanswer
    | some routing =>
      cases hpath : (routing.graph.shortestPaths src).path? dst with
      | none =>
        rw [reroute_of_unconnected hconsistent hfree hquiet hrouting hends hpath] at hanswer
        cases hanswer
      | some path =>
        obtain ⟨offers, hchosen⟩ :=
          rechosen_of_path hconsistent hfree hquiet hrouting hends hpath rfl
        have hsame := hchosen.answer.symm.trans hanswer
        obtain ⟨_, _, hselection⟩ := map_eq_ok_iff.mp hsame
        obtain rfl := Option.some.inj hselection
        exact ⟨routing, src, dst, offers, rfl, rfl, hchosen⟩

/-- The rules of a choice that succeeds are computed, and all of them are installed. -/
theorem Rechosen.rules {selection : Selection} {offers : List Entry}
    (h : Rechosen engine routing src dst selection offers)
    (hanswer : engine.reroute.2 = .ok (some selection)) :
    ∃ rules, engine.installer.rulesForPath routing.graph selection.path = .ok rules ∧
      engine.reroute.1.plane.rules = engine.plane.rules ++ rules := by
  obtain ⟨rules, hrules, hall⟩ := h.accepted.mp hanswer
  refine ⟨rules, hrules, ?_⟩
  rw [h.plane, Installer.attempt_rules_of_ok _ _ hrules, hall]

/-- Directly after a forced choice that has succeeded, another one makes the same choice. -/
theorem Rechosen.repeats (hsteady : engine.Steady) (hfree : engine.guard.busy = false)
    (hquiet : engine.forum.audience.Quiet) (hbefore : engine.beforeRule = none)
    (hrouting : engine.selector.routing = some routing)
    (hends : engine.selector.endpoints = some (src, dst)) {selection : Selection}
    {offers : List Entry} (h : Rechosen engine routing src dst selection offers)
    (hanswer : engine.reroute.2 = .ok (some selection)) :
    ∃ rules, Repeats engine selection rules := by
  obtain ⟨hturns, hrest⟩ := rerouteWith_of_free offer_orderly hsteady hfree
  have hconsistent : engine.reroute.1.selector.Consistent := (hturns.steady hsteady).consistent
  have hagain : engine.reroute.1.guard.busy = false := hrest.free
  obtain ⟨rules, hrules, hinstalled⟩ := h.rules hanswer
  have hroute := h.shortest
  rw [Selector.route_of_routing hrouting] at hroute
  have hpath := Except.ok.inj hroute
  have hfirst := h.uninterrupted hbefore
  have hchosen := h.chosen
  -- only the candidates have changed, and they are those of the choice
  have hselector : engine.reroute.1.selector = engine.selector.holding selection := by
    rw [hfirst]
    rfl
  have hstill : engine.reroute.1.forum.audience.Quiet := by
    rw [hfirst]
    exact hquiet
  have hsettings : engine.reroute.1.installer = engine.installer := by
    rw [hfirst]
    rfl
  obtain ⟨more, hmore⟩ := rechosen_of_path hconsistent hagain hstill
    (hselector ▸ hrouting) (hselector ▸ hends) hpath hchosen
  have hlater := hmore.uninterrupted (by rw [hfirst]; exact hbefore)
  refine ⟨rules, hinstalled, ?_, ⟨routing, src, dst, more, hrouting, hrules, hmore⟩, ?_, ?_⟩
  · rw [hlater]
    show (engine.reroute.1.selector.holding selection) = _
    rw [hselector]
    rfl
  · rw [hmore.plane, hsettings, Installer.attempt_rules_of_ok _ _ hrules]
  · rw [hmore.accepted, Installer.Succeeds, hsettings, hrules]
    simp

/-- A forced choice while nobody holds the permit and no listener calls back.  Before the first flow
and without a graph nothing changes.  Otherwise the shortest path between the ends of the last flow
becomes active, whatever was active before, and its rules are offered, and no others; without a path
nothing is offered.  The permit is free again in all cases. -/
theorem Reachable.reroute_rechooses {storage : Storage} {settings : Settings}
    (h : Reachable storage settings engine) (hfree : engine.guard.busy = false)
    (hquiet : engine.forum.audience.Quiet) : Rechooses engine where
  unflowed := reroute_of_unflowed hfree hquiet
  disabled := reroute_of_disabled hfree hquiet
  unconnected := by
    intro routing src dst hrouting hends hapart
    refine reroute_of_unconnected h.steady.consistent hfree hquiet hrouting hends ?_
    rw [← Option.not_isSome_iff_eq_none]
    exact fun hpath => hapart (Graph.distance?_isSome_iff.mp (Graph.path?_isSome_iff.mp hpath))
  connected := by
    intro routing src dst hrouting hends hsrc hconnected
    obtain ⟨path, hpath⟩ := Option.isSome_iff_exists.mp
      (Graph.path?_isSome_iff.mpr (Graph.distance?_isSome_iff.mpr hconnected))
    obtain ⟨offers, hchosen⟩ :=
      rechosen_of_path h.steady.consistent hfree hquiet hrouting hends hpath rfl
    have hmem := Graph.path?_mem_simplePaths (.inl hsrc) hpath
    obtain ⟨index, hindex, hplace⟩ := Selector.exists_idxOf?_of_mem hmem
    refine ⟨_, offers, hchosen, index, ?_, Candidates.activePath?_eq_some_iff.mpr ⟨hindex, hplace⟩⟩
    simp only [Selection.placed?, Selector.choice, hindex, Option.map_some]
  outside := by
    intro routing src hrouting hends houtside
    refine rechosen_of_path h.steady.consistent hfree hquiet hrouting hends
      (routing.graph.path?_self src) ?_
    simp only [Selector.choice, Graph.simplePaths_outside houtside]
    rfl
  atRest := (rerouteWith_of_free offer_orderly h.steady hfree).2
  repeats := by
    intro hbefore selection hanswer
    obtain ⟨routing, src, dst, offers, hrouting, hends, hchosen⟩ :=
      exists_rechosen h.steady.consistent hfree hquiet hanswer
    exact hchosen.repeats h.steady hfree hquiet hbefore hrouting hends hanswer

/-- The tangled report, with a cheaper direct link from the first switch to the fourth. -/
def shortcut : Snapshot :=
  { Snapshot.tangle with
    links := Snapshot.tangle.links.map fun link =>
      if link.src = ⟨1⟩ ∧ link.dst = ⟨4⟩ then { link with weight := 1 } else link }

/-- An engine that has taken in this report after a flow from the first switch to the fourth. -/
def shortened : Engine := tangled.play [.packet (packetBetween 1 4), .update shortcut]

/-- The candidates are gone, but not the ends.  A forced choice now takes the direct link, of which
four rules are installed, and another one changes nothing in the selector. -/
theorem reroute_rechooses_shortened :
    Reachable ⟨[], []⟩ tangledSettings shortened ∧ shortened.selector.candidates.paths = [] ∧
    (∃ routing selection offers, shortened.selector.routing = some routing ∧
      Rechosen shortened routing ⟨1⟩ ⟨4⟩ selection offers ∧ selection.path = ⟨[⟨1⟩, ⟨4⟩]⟩) ∧
    (∃ rules, rules.length = 4 ∧
      shortened.reroute.1.plane.rules = shortened.plane.rules ++ rules) ∧
    shortened.reroute.1.reroute.1.selector = shortened.reroute.1.selector := by
  have hreach : Reachable ⟨[], []⟩ tangledSettings shortened := tangled_reachable.play _
  have hnobody : shortened.forum.audience.members = [] := by decide
  have hquiet : shortened.forum.audience.Quiet := Audience.quiet_of_nobody hnobody
  have hrechooses := hreach.reroute_rechooses (by decide) hquiet
  have hends : shortened.selector.endpoints = some (⟨1⟩, ⟨4⟩) := by decide
  obtain ⟨routing, hrouting⟩ : ∃ routing, shortened.selector.routing = some routing :=
    Option.isSome_iff_exists.mp (by decide)
  have hsrc : shortened.selector.routing.map (fun routing => routing.graph.contains ⟨1⟩) =
      some true := by decide
  have hdistance : shortened.selector.routing.map
      (fun routing => ((routing.graph.shortestPaths ⟨1⟩).distance? ⟨4⟩).isSome) = some true := by
    decide
  rw [hrouting] at hsrc hdistance
  obtain ⟨selection, offers, hchosen, -⟩ := hrechooses.connected hrouting hends
    (Option.some.inj hsrc) (Graph.distance?_isSome_iff.mp (Option.some.inj hdistance))
  have hroute : shortened.selector.route ⟨1⟩ ⟨4⟩ = .ok (some ⟨[⟨1⟩, ⟨4⟩]⟩) := by decide
  have hpath := Option.some.inj (Except.ok.inj (hchosen.shortest.symm.trans hroute))
  have hanswer : shortened.reroute.2.map (Option.map Selection.path) =
      .ok (some ⟨[⟨1⟩, ⟨4⟩]⟩) := by decide
  obtain ⟨answer, hanswer, hsome⟩ := map_eq_ok_iff.mp hanswer
  obtain ⟨again, rfl, -⟩ := Option.map_eq_some_iff.mp hsome
  obtain ⟨rules, hrepeats⟩ := hrechooses.repeats (by decide) again hanswer
  have hcount : shortened.reroute.1.plane.rules.length = shortened.plane.rules.length + 4 := by
    decide
  rw [hrepeats.installed, List.length_append, Nat.add_left_cancel_iff] at hcount
  exact ⟨hreach, by decide, ⟨routing, selection, offers, hrouting, hchosen, hpath⟩,
    ⟨rules, hcount, hrepeats.installed⟩, hrepeats.selector⟩

end Engine

end TrafficSteering
