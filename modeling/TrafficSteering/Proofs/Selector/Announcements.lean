import TrafficSteering.Proofs.Selector.Commit
import TrafficSteering.Proofs.Selector.Listeners
import TrafficSteering.Proofs.Selector.Selection
set_option autoImplicit false

/-!
# What listeners know

Before listeners that do not call back, every listener is told of every event once.  Selections are
silent if the path that they find is active already, and a graph that is replaced takes the active
path away without a word.  Still a listener that has been there from the beginning knows which path
is active whenever there is one: it is the last that it has been told of.  For on one graph a path
belongs to one pair of ends, so the path that was active already has the same candidates around it
and stands in the same place.
-/

namespace TrafficSteering

/-! ## Announcements of paths -/

/-- The change that an event tells of, if it does. -/
def Event.change? : Event → Option PathChange
  | .pathChanged change => some change
  | _ => none

/-- The last change that some events tell of. -/
def lastChange? (events : List Event) : Option PathChange :=
  (events.filterMap Event.change?).getLast?

/-- The event that a path has become active, if there is an active path. -/
def announcement (reason : ChangeReason) : Option (Nat × Path) → List Event
  | some (index, path) => [.pathChanged ⟨index, path, reason⟩]
  | none => []

/-- The path of a selection with its place, if it has one. -/
def Selection.placed? (selection : Selection) : Option (Nat × Path) :=
  selection.index.map fun index => (index, selection.path)

/-! ## What operations announce -/

namespace Selector

variable {selector : Selector} {routing : Routing}

/-- After a choice the active path is the path that was found, if it has a place. -/
theorem chosen_activePath? (selector : Selector) (routing : Routing) (src dst : SwitchId) :
    (selector.chosen routing src dst).candidates.activePath? =
      (compute routing src dst).2.bind fun found => found.2.map fun index => (index, found.1) := by
  cases hpath : (routing.graph.shortestPaths src).path? dst with
  | none =>
    simp only [chosen, compute_of_none hpath]
    rfl
  | some path =>
    simp only [chosen, compute_of_some hpath, Option.bind_some, Candidates.activePath?]
    cases hindex : (routing.graph.simplePaths src dst).idxOf? path with
    | none => rfl
    | some index =>
      obtain ⟨hlt, hplace, _⟩ := List.idxOf?_eq_some_iff.mp hindex
      simp [List.getElem?_eq_getElem hlt, hplace]

/-- What a choice has announced: the path that is active after it, unless an ordinary selection has
found the path that was active before. -/
theorem changeOf_chosen (selector : Selector) (routing : Routing) (reason : ChangeReason)
    (src dst : SwitchId) :
    selector.changeOf reason (compute routing src dst).2 =
      if reason = .selected ∧ selector.candidates.activePath?.map Prod.snd =
          (selector.chosen routing src dst).candidates.activePath?.map Prod.snd then []
      else announcement reason (selector.chosen routing src dst).candidates.activePath? := by
  rw [chosen_activePath?]
  rcases (compute routing src dst).2 with _ | ⟨path, _ | index⟩
  · simp [changeOf, announcement]
  · simp [changeOf, announcement]
  · simp only [changeOf, announcement, Option.bind_some, Option.map_some, Bool.and_eq_true,
      beq_iff_eq]

/-- What a choice on the graph that the candidates belong to announces. -/
theorem selectFor_events (reason : ChangeReason) (src dst : SwitchId)
    (hrouting : selector.routing = some routing)
    (hgeneration : selector.candidates.generation = routing.generation) :
    (selector.selectFor reason src dst).events =
      (if reason = .rerouted then [Event.rerouted] else []) ++
        selector.changeOf reason (compute routing src dst).2 := by
  simp only [selectFor, requireRouting, hrouting, hgeneration, if_true, beq_iff_eq]

theorem selectFor_of_disabled (hdisabled : selector.routing = none) (reason : ChangeReason)
    (src dst : SwitchId) :
    selector.selectFor reason src dst = ⟨selector, [], .error .routingDisabled⟩ := by
  simp only [selectFor, requireRouting, hdisabled]

/-- A selection announces the path that is active after it if another one was active before. -/
theorem select_events (h : Consistent selector) (src dst : SwitchId) :
    (selector.select src dst).events =
      if selector.candidates.activePath?.map Prod.snd =
          (selector.select src dst).state.candidates.activePath?.map Prod.snd then []
      else announcement .selected (selector.select src dst).state.candidates.activePath? := by
  cases hrouting : selector.routing with
  | none => simp [select, selectFor_of_disabled hrouting]
  | some routing =>
    have hgeneration := h.generation_eq hrouting
    rw [select, selectFor_events .selected src dst hrouting hgeneration, changeOf_chosen,
      (selectFor_of_routing .selected src dst hrouting hgeneration).1]
    simp

/-- A forced choice announces itself and then the path that is active after it. -/
theorem reroute_events (h : Consistent selector) (hrouting : selector.routing = some routing)
    {src dst : SwitchId} (hends : selector.endpoints = some (src, dst)) :
    selector.reroute.events =
      .rerouted :: announcement .rerouted selector.reroute.state.candidates.activePath? := by
  have hgeneration := h.generation_eq hrouting
  simp only [reroute, hends]
  rw [selectFor_events .rerouted src dst hrouting hgeneration, changeOf_chosen,
    (selectFor_of_routing .rerouted src dst hrouting hgeneration).1]
  simp

/-- The path that a forced choice answers with, if it has a place, is active after it. -/
theorem reroute_answer (h : Consistent selector) (hrouting : selector.routing = some routing)
    {src dst : SwitchId} (hends : selector.endpoints = some (src, dst)) :
    ∃ found : Option Selection, selector.reroute.answer = .ok found ∧
      selector.reroute.state.candidates.activePath? = found.bind Selection.placed? := by
  have hgeneration := h.generation_eq hrouting
  obtain ⟨hstate, hanswer⟩ := selectFor_of_routing .rerouted src dst hrouting hgeneration
  simp only [reroute, hends]
  refine ⟨_, hanswer, ?_⟩
  rw [hstate, chosen_activePath?, Option.bind_map]
  rfl

/-- Without a graph or a flow, a forced choice does nothing. -/
theorem reroute_of_nothing (h : selector.routing = none ∨ selector.endpoints = none) :
    selector.reroute.state = selector ∧ selector.reroute.events = [] := by
  unfold reroute
  cases hends : selector.endpoints with
  | none => exact ⟨rfl, rfl⟩
  | some ends =>
    obtain hdisabled | hnone := h
    · simp only [selectFor_of_disabled hdisabled, and_self]
    · simp [hnone] at hends

/-- A commit that is not possible does nothing. -/
theorem commit_of_refused {generation index : Nat}
    (h : (selector.commit generation index).answer ≠ true) :
    selector.commit generation index = ⟨selector, [], false⟩ := by
  unfold commit
  split
  · rename_i hgeneration
    split
    · rename_i path hpath
      have hlt := (List.getElem?_eq_some_iff.mp hpath).1
      exact absurd (commit_answer_iff.mpr ⟨hgeneration, hlt⟩) h
    · rfl
  · rfl

/-- A commit announces the candidate that it has made active if another one was active before. -/
theorem commit_events (selector : Selector) (generation index : Nat) :
    (selector.commit generation index).events =
      if (selector.commit generation index).answer = true ∧
          selector.candidates.active ≠ some index then
        announcement .switched (selector.commit generation index).state.candidates.activePath?
      else [] := by
  by_cases hdone : (selector.commit generation index).answer = true
  · obtain ⟨hgeneration, hlt⟩ := commit_answer_iff.mp hdone
    have hpath := List.getElem?_eq_getElem hlt
    rw [commit_activePath? hdone hpath]
    simp only [hdone, true_and, ne_eq, ite_not, announcement]
    simp only [commit, hgeneration, if_true, hpath]
  · rw [if_neg fun hboth => hdone hboth.1, commit_of_refused hdone]

/-- On one graph a path that is active has its place among the same candidates at all times. -/
theorem Consistent.place_unique {before after : Selector} (hbefore : Consistent before)
    (hafter : Consistent after) (hrouting : after.routing = before.routing) {first last : Nat}
    {path : Path} (hfirst : before.candidates.activePath? = some (first, path))
    (hlast : after.candidates.activePath? = some (last, path)) : first = last := by
  obtain ⟨_, hbeforePath⟩ := Candidates.activePath?_eq_some_iff.mp hfirst
  obtain ⟨_, hafterPath⟩ := Candidates.activePath?_eq_some_iff.mp hlast
  have hbeforeMem := List.mem_of_getElem? hbeforePath
  have hafterMem := List.mem_of_getElem? hafterPath
  have hbeforeNe := List.ne_nil_of_mem hbeforeMem
  have hafterNe := List.ne_nil_of_mem hafterMem
  -- The ends of the path are those of both flows.
  obtain ⟨src, dst, hends, hstarts, hlasts⟩ := hbefore.ends_of_mem hbeforeMem
  obtain ⟨src', dst', hends', hstarts', hlasts'⟩ := hafter.ends_of_mem hafterMem
  obtain rfl : src = src' := Option.some.inj (hstarts.symm.trans hstarts')
  obtain rfl : dst = dst' := Option.some.inj (hlasts.symm.trans hlasts')
  have hpaths := (hbefore.paths_eq_iff hafter hrouting hafterNe).mpr
    ⟨hbeforeNe, hends'.trans hends.symm⟩
  obtain ⟨_, _, _, _, _, _, hnodup, _⟩ := hbefore.sound.complete hbeforeNe
  rw [hpaths] at hafterPath
  have hlt := (List.getElem?_eq_some_iff.mp hbeforePath).1
  exact (List.getElem?_inj hlt hnodup).mp (hbeforePath.trans hafterPath.symm)

/-- Whoever hears the events of an outcome knows which path is active after it: it is the last one
that is announced, or nothing is announced and it was active before. -/
def Announces {α : Type} (before : Selector) (outcome : Outcome Selector α) : Prop :=
  ∀ index path, outcome.state.candidates.activePath? = some (index, path) →
    (∃ reason, lastChange? outcome.events = some ⟨index, path, reason⟩) ∨
      (lastChange? outcome.events = none ∧
        before.candidates.activePath? = some (index, path))

theorem disable_announces (selector : Selector) :
    Announces selector ⟨selector.disable, [], ()⟩ := by
  intro index path hactive
  unfold disable at hactive
  split at hactive
  · cases hactive
  · exact .inr ⟨rfl, hactive⟩

theorem update_announces (selector : Selector) (report : Snapshot) :
    Announces selector ⟨(selector.update report).1, [], ()⟩ := by
  unfold update
  split
  · split
    · intro index path hactive
      cases hactive
    · exact disable_announces selector
  · exact disable_announces selector

/-- Where a selection is silent, the path was active before, and then in the same place. -/
theorem select_announces (h : Consistent selector) (src dst : SwitchId) :
    Announces selector (selector.select src dst) := by
  intro index path hactive
  rw [select_events h, hactive, Option.map_some]
  by_cases hsame : selector.candidates.activePath?.map Prod.snd = some path
  · obtain ⟨⟨place, other⟩, hbefore, hpath⟩ := Option.map_eq_some_iff.mp hsame
    obtain rfl : other = path := hpath
    have hafter := (selectFor_change selector .selected src dst).consistent h
    have hrouting : (selector.select src dst).state.routing = selector.routing := by
      cases hrouting : selector.routing with
      | none => rw [select, selectFor_of_disabled hrouting, hrouting]
      | some routing =>
        have hgeneration := h.generation_eq hrouting
        rw [select, (selectFor_of_routing .selected src dst hrouting hgeneration).1]
        exact hrouting
    obtain rfl := h.place_unique hafter hrouting hbefore hactive
    rw [if_pos hsame]
    exact .inr ⟨rfl, hbefore⟩
  · rw [if_neg hsame]
    exact .inl ⟨.selected, rfl⟩

theorem reroute_announces (h : Consistent selector) : Announces selector selector.reroute := by
  intro index path hactive
  by_cases hnothing : selector.routing = none ∨ selector.endpoints = none
  · obtain ⟨hstate, hevents⟩ := reroute_of_nothing hnothing
    rw [hevents]
    exact .inr ⟨rfl, hstate ▸ hactive⟩
  · rw [not_or] at hnothing
    obtain ⟨routing, hrouting⟩ := Option.ne_none_iff_exists'.mp hnothing.1
    obtain ⟨⟨src, dst⟩, hends⟩ := Option.ne_none_iff_exists'.mp hnothing.2
    rw [reroute_events h hrouting hends, hactive]
    exact .inl ⟨.rerouted, rfl⟩

theorem commit_announces (selector : Selector) (generation place : Nat) :
    Announces selector (selector.commit generation place) := by
  intro index path hactive
  by_cases hdone : (selector.commit generation place).answer = true
  · obtain ⟨_, hlt⟩ := commit_answer_iff.mp hdone
    have hplace := List.getElem?_eq_getElem hlt
    have hcommitted := (commit_activePath? hdone hplace).symm.trans hactive
    obtain ⟨rfl, rfl⟩ := Prod.mk.inj (Option.some.inj hcommitted)
    rw [commit_events, hactive]
    by_cases hsame : selector.candidates.active = some place
    · rw [if_neg fun hboth => hboth.2 hsame]
      exact .inr ⟨rfl, Candidates.activePath?_eq_some_iff.mpr ⟨hsame, hplace⟩⟩
    · rw [if_pos ⟨hdone, hsame⟩]
      exact .inl ⟨.switched, rfl⟩
  · rw [commit_of_refused hdone] at hactive ⊢
    exact .inr ⟨rfl, hactive⟩

theorem serve_announces (h : Consistent selector) (request : Request) :
    Announces selector (serve request selector) := by
  cases request with
  | update report => exact update_announces selector report
  | install graph =>
    intro index path hactive
    cases hactive
  | disable => exact disable_announces selector
  | select src dst => exact select_announces h src dst
  | reroute => exact reroute_announces h
  | commit generation place => exact commit_announces selector _ place
  | start => exact fun _ _ hactive => .inr ⟨rfl, hactive⟩
  | stop => exact fun _ _ hactive => .inr ⟨rfl, hactive⟩

end Selector

/-! ## Listeners from the beginning -/

namespace SelectorForum

open Selector (Request)

/-- The selectors that requests lead to from one that has taken in nothing yet, if a listener is
there from the beginning.  Others come and go, and nobody calls back. -/
inductive Attended (expected : ExpectedSize) (listener : Handle) : SelectorForum → Prop where
  | begun {audience : Audience Request} (hquiet : audience.Quiet) (horderly : audience.Orderly)
      (hmember : listener ∈ audience.members) :
      Attended expected listener { state := { expected := expected }, audience }
  | served {forum : SelectorForum} (h : Attended expected listener forum) (request : Request) :
      Attended expected listener (forum.perform (Selector.serve request)).1
  | joined {forum : SelectorForum} (h : Attended expected listener forum)
      {other : Listener Request} (hother : other.reactions = []) :
      Attended expected listener (forum.enlist other)
  | left {forum : SelectorForum} (h : Attended expected listener forum) {other : Handle}
      (hother : other ≠ listener) : Attended expected listener (forum.dismiss other)

variable {expected : ExpectedSize} {listener : Handle} {forum : SelectorForum}

/-- What holds of the listeners and of the selector all the time. -/
structure Attends (listener : Handle) (forum : SelectorForum) : Prop where
  quiet : forum.audience.Quiet
  orderly : forum.audience.Orderly
  member : listener ∈ forum.audience.members
  consistent : Selector.Consistent forum.state

theorem Attends.told (h : Attends listener forum) {α : Type}
    (operation : Selector → Outcome Selector α) :
    (forum.perform operation).1.told listener =
      forum.told listener ++ (operation forum.state).events :=
  Forum.told_settle Selector.serve h.quiet h.member h.orderly.distinct _

theorem perform_audience (hquiet : forum.audience.Quiet) {α : Type}
    (operation : Selector → Outcome Selector α) :
    (forum.perform operation).1.audience = forum.audience := by
  unfold perform
  rw [Forum.settle_of_quiet Selector.serve hquiet]

theorem Attended.attends (h : Attended expected listener forum) : Attends listener forum := by
  induction h with
  | begun hquiet horderly hmember =>
    exact ⟨hquiet, horderly, hmember, Selector.initial_consistent expected⟩
  | @served forum _ request ih =>
    have haudience := perform_audience ih.quiet (Selector.serve request)
    have hstate := (perform_of_quiet ih.quiet (Selector.serve request)).1
    refine ⟨haudience ▸ ih.quiet, haudience ▸ ih.orderly, haudience ▸ ih.member, ?_⟩
    rw [hstate]
    exact (Selector.serve_change request forum.state).consistent ih.consistent
  | joined _ hother ih =>
    exact ⟨ih.quiet.enlist hother, ih.orderly.enlist _, List.mem_append_left _ ih.member,
      ih.consistent⟩
  | left _ hother ih =>
    refine ⟨ih.quiet.dismiss _, ih.orderly.dismiss _, ?_, ih.consistent⟩
    exact List.mem_filter.mpr ⟨ih.member, by simpa using hother.symm⟩

theorem lastChange?_append (earlier later : List Event) :
    lastChange? (earlier ++ later) = (lastChange? later).or (lastChange? earlier) := by
  simp [lastChange?, List.getLast?_append]

/-- The last change that the listener has been told of is the path that is active. -/
theorem Attended.lastChange?_told (h : Attended expected listener forum) {index : Nat} {path : Path}
    (hactive : forum.state.candidates.activePath? = some (index, path)) :
    ∃ reason, lastChange? (forum.told listener) = some ⟨index, path, reason⟩ := by
  induction h generalizing index path with
  | begun => cases hactive
  | @served forum hbefore request ih =>
    have hattends := hbefore.attends
    rw [(perform_of_quiet hattends.quiet _).1] at hactive
    rw [hattends.told, lastChange?_append]
    rcases Selector.serve_announces hattends.consistent request index path hactive with
      ⟨reason, hlast⟩ | ⟨hsilent, hstill⟩
    · exact ⟨reason, by rw [hlast, Option.some_or]⟩
    · rw [hsilent, Option.none_or]
      exact ih hstill
  | joined _ _ ih => exact ih hactive
  | left _ _ ih => exact ih hactive

/-- Which path is active, a listener knows from what it has been told; and it is told of a path
whenever one becomes active. -/
structure Informed (listener : Handle) (forum : SelectorForum) : Prop where
  /-- The active candidate is the last that the listener has been told of. -/
  active : ∀ index, forum.state.candidates.active = some index → ∃ path reason,
    forum.state.candidates.activePath? = some (index, path) ∧
      lastChange? (forum.told listener) = some ⟨index, path, reason⟩
  /-- A selection tells of the path that it has made active, unless it was active before. -/
  select : ∀ src dst,
    let after := (forum.perform fun selector => selector.select src dst).1
    after.told listener = forum.told listener ++
      if forum.state.candidates.activePath?.map Prod.snd =
          after.state.candidates.activePath?.map Prod.snd then []
      else announcement .selected after.state.candidates.activePath?
  /-- A forced choice tells of itself, and then of the path that it has found and made active. -/
  reroute : ∀ routing ends, forum.state.routing = some routing →
    forum.state.endpoints = some ends →
    let after := (forum.perform Selector.reroute).1
    ∃ found : Option Selection, (forum.perform Selector.reroute).2 = .ok found ∧
      after.state.candidates.activePath? = found.bind Selection.placed? ∧
      after.told listener = forum.told listener ++
        .rerouted :: announcement .rerouted (found.bind Selection.placed?)
  /-- Where there is nothing to choose, nothing is told. -/
  nothing : forum.state.routing = none ∨ forum.state.endpoints = none →
    (forum.perform Selector.reroute).1.told listener = forum.told listener
  /-- A commit tells of the candidate that it has made active, unless it was active before. -/
  commit : ∀ generation index,
    let after := (forum.perform fun selector => selector.commit generation index).1
    let done := (forum.perform fun selector => selector.commit generation index).2
    (done = true → ∃ path, after.state.candidates.activePath? = some (index, path)) ∧
      after.told listener = forum.told listener ++
        if done = true ∧ forum.state.candidates.active ≠ some index then
          announcement .switched after.state.candidates.activePath?
        else []
  /-- Nothing else tells of a path. -/
  others : ∀ request : Request, ∃ news,
    (forum.perform (Selector.serve request)).1.told listener = forum.told listener ++ news ∧
      ∀ change, .pathChanged change ∈ news →
        (∃ src dst, request = .select src dst) ∨ request = .reroute ∨
          ∃ generation index, request = .commit generation index

/-- A listener that has been there from the beginning is informed. -/
theorem Attended.informed (h : Attended expected listener forum) : Informed listener forum := by
  obtain ⟨hquiet, horderly, hmember, hconsistent⟩ := h.attends
  have htold := @Attends.told listener forum ⟨hquiet, horderly, hmember, hconsistent⟩
  constructor
  case active =>
    intro index hactive
    have hlt := hconsistent.active index hactive
    have hpath := Candidates.activePath?_eq_some_iff.mpr ⟨hactive, List.getElem?_eq_getElem hlt⟩
    obtain ⟨reason, hlast⟩ := h.lastChange?_told hpath
    exact ⟨_, reason, hpath, hlast⟩
  case select =>
    intro src dst after
    have hstate : after.state = (forum.state.select src dst).state := (perform_of_quiet hquiet _).1
    rw [htold, Selector.select_events hconsistent, hstate]
  case reroute =>
    rintro routing ⟨src, dst⟩ hrouting hends after
    have hstate : after.state = forum.state.reroute.state := (perform_of_quiet hquiet _).1
    obtain ⟨found, hanswer, hactive⟩ := Selector.reroute_answer hconsistent hrouting hends
    refine ⟨found, (perform_of_quiet hquiet _).2.trans hanswer, hstate ▸ hactive, ?_⟩
    rw [htold, Selector.reroute_events hconsistent hrouting hends, hactive]
  case nothing =>
    intro hnothing
    rw [htold, (Selector.reroute_of_nothing hnothing).2, List.append_nil]
  case commit =>
    intro generation index after done
    have hstate : after.state = (forum.state.commit generation index).state :=
      (perform_of_quiet hquiet _).1
    have hdone : done = (forum.state.commit generation index).answer :=
      (perform_of_quiet hquiet _).2
    rw [htold, Selector.commit_events, hstate, hdone]
    refine ⟨?_, rfl⟩
    intro hcommitted
    obtain ⟨_, hlt⟩ := Selector.commit_answer_iff.mp hcommitted
    exact ⟨_, Selector.commit_activePath? hcommitted (List.getElem?_eq_getElem hlt)⟩
  case others =>
    intro request
    refine ⟨_, htold _, ?_⟩
    intro change hmem
    cases request with
    | update | install | disable => simp [Selector.serve] at hmem
    | start | stop => simp [Selector.serve, Selector.start, Selector.stop] at hmem
    | select src dst => exact .inl ⟨src, dst, rfl⟩
    | reroute => exact .inr (.inl rfl)
    | commit generation index => exact .inr (.inr ⟨generation, index, rfl⟩)

/-- The first of two listeners, after the tangled report, a selection, a commit, the same selection
again, a silent one, and a forced choice. -/
def resteered : SelectorForum :=
  [Request.update Snapshot.tangle, .select ⟨1⟩ ⟨4⟩, .commit none 2, .select ⟨1⟩ ⟨4⟩,
    .select ⟨1⟩ ⟨4⟩, .reroute, .commit none 0].foldl
      (fun forum request => (forum.perform (Selector.serve request)).1)
      { state := { expected := ⟨5, 9⟩ }, audience := (Audience.enlist {} {}).enlist {} }

/-- What it has been told of last is what is active. -/
theorem informed_resteered :
    resteered.told 0 =
      [.pathChanged ⟨1, ⟨[⟨1⟩, ⟨2⟩, ⟨4⟩]⟩, .selected⟩,
        .pathChanged ⟨2, ⟨[⟨1⟩, ⟨4⟩]⟩, .switched⟩,
        .pathChanged ⟨1, ⟨[⟨1⟩, ⟨2⟩, ⟨4⟩]⟩, .selected⟩,
        .rerouted,
        .pathChanged ⟨1, ⟨[⟨1⟩, ⟨2⟩, ⟨4⟩]⟩, .rerouted⟩,
        .pathChanged ⟨0, ⟨[⟨1⟩, ⟨2⟩, ⟨3⟩, ⟨4⟩]⟩, .switched⟩] ∧
    ∃ path reason, resteered.state.candidates.activePath? = some (0, path) ∧
      lastChange? (resteered.told 0) = some ⟨0, path, reason⟩ := by
  have hbegun : Attended ⟨5, 9⟩ 0
      { state := { expected := ⟨5, 9⟩ }, audience := (Audience.enlist {} {}).enlist {} } := by
    refine .begun (Audience.Quiet.enlist (Audience.Quiet.enlist ?_ rfl) rfl)
      ⟨by decide, by decide⟩ (by decide)
    exact fun _ hmember => absurd hmember List.not_mem_nil
  have hattended : Attended ⟨5, 9⟩ 0 resteered :=
    ((((((hbegun.served _).served _).served _).served _).served _).served _).served _
  exact ⟨by decide, hattended.informed.active 0 (by decide)⟩

end SelectorForum

end TrafficSteering
