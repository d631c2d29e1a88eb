import TrafficSteering.Proofs.DataPlane
import TrafficSteering.Proofs.Engine.Course
set_option autoImplicit false

/-!
# Work under the permit

Whoever holds the permit installs paths and reads telemetry with others coming in between.  As they
cannot get the permit, they reach the selector and its listeners and nothing else: above all they
offer no rules.  So the rules that are offered while a path is installed are the rules of the path,
in their order, and the data plane decides about them as if nobody had come in between.
-/

namespace TrafficSteering

/-- What comes of an interjection while somebody holds the permit. -/
def SelectorForum.disturb (forum : SelectorForum) : Interjection → SelectorForum
  | .disable => forum.modify Selector.disable
  | .update report => (forum.update report).1
  | .select src dst => (forum.perform fun selector => selector.select src dst).1
  | .grab | .reroute => forum

/-! ## What a history holds -/

/-- The computation that an entry of a history writes down, if it does. -/
def Entry.computation? (entry : Entry) : Option Computation :=
  match entry.occurrence with
  | .computed computation => some computation
  | _ => none

/-- The interjection that an entry of a history writes down, if it does. -/
def Entry.interjection? (entry : Entry) : Option Interjection :=
  match entry.occurrence with
  | .interjected interjection => some interjection
  | _ => none

/-- The rule that an entry of a history writes down as offered, if it does. -/
def Entry.rule? (entry : Entry) : Option Rule :=
  match entry.occurrence with
  | .offered rule => some rule
  | _ => none

/-- What has been interjected according to a history, the first thing first. -/
def interjectionsIn (history : List Entry) : List Interjection :=
  history.reverse.filterMap Entry.interjection?

/-- The rules that have been offered according to a history, the first one first. -/
def offersIn (history : List Entry) : List Rule := history.reverse.filterMap Entry.rule?

theorem interjectionsIn_append (later earlier : List Entry) :
    interjectionsIn (later ++ earlier) = interjectionsIn earlier ++ interjectionsIn later := by
  rw [interjectionsIn, List.reverse_append, List.filterMap_append]
  rfl

theorem offersIn_append (later earlier : List Entry) :
    offersIn (later ++ earlier) = offersIn earlier ++ offersIn later := by
  rw [offersIn, List.reverse_append, List.filterMap_append]
  rfl

/-- The rules of a path that are offered: up to the first that is refused. -/
def Installer.offeredFor (installer : Installer) (graph : Graph) (plane : DataPlane)
    (path : Path) : List Rule :=
  match installer.rulesForPath graph path with
  | .ok rules => rules.take ((plane.accepted rules).length + 1)
  | .error _ => []

namespace Engine

variable {engine : Engine}

/-! ## Others come in between -/

/-- The selector and its listeners after what has been interjected since, while somebody held the
permit. -/
def disturbed (engine : Engine) (new : List Entry) : SelectorForum :=
  (interjectionsIn new).foldl SelectorForum.disturb engine.forum

/-- Nobody is about to interject anything. -/
def Peaceful (engine : Engine) : Prop := engine.beforeRule = none ∧ engine.beforeReading = none

/-- What lies between two moments while somebody holds the permit and works: others reach the
selector and its listeners only, by what they interject. -/
structure UnderPermit (before after : Engine) (new : List Entry) : Prop where
  history : after.history = new ++ before.history := by rfl
  forum : after.forum = before.disturbed new := by rfl
  undisturbed : before.Undisturbed after.toMoment := by exact {}
  settings : after.settings = before.settings := by rfl
  peaceful : before.Peaceful → interjectionsIn new = [] ∧ after.Peaceful := by
    exact fun hpeace => ⟨rfl, hpeace⟩

variable {first second third : Engine} {earlier later : List Entry}

theorem disturbed_append (h : second.forum = first.disturbed earlier) (later : List Entry) :
    first.disturbed (later ++ earlier) = second.disturbed later := by
  rw [disturbed, interjectionsIn_append, List.foldl_append, disturbed, h, disturbed]

namespace UnderPermit

theorem refl (engine : Engine) : UnderPermit engine engine [] := {}

theorem trans (h : UnderPermit first second earlier) (hnext : UnderPermit second third later) :
    UnderPermit first third (later ++ earlier) where
  history := by rw [hnext.history, h.history, List.append_assoc]
  forum := hnext.forum.trans (disturbed_append h.forum later).symm
  undisturbed := h.undisturbed.trans hnext.undisturbed
  settings := hnext.settings.trans h.settings
  peaceful := by
    intro hpeace
    obtain ⟨hearlier, hstill⟩ := h.peaceful hpeace
    obtain ⟨hlater, hafter⟩ := hnext.peaceful hstill
    exact ⟨by rw [interjectionsIn_append, hearlier, hlater]; rfl, hafter⟩

theorem busy (h : UnderPermit first second earlier) (hbusy : first.guard.busy = true) :
    second.guard.busy = true :=
  (congrArg Guard.busy h.undisturbed.guard).trans hbusy

end UnderPermit

theorem interject_of_busy (hbusy : engine.guard.busy = true) (offer : Offer)
    (interjection : Interjection) :
    engine.interject offer interjection =
      { engine with forum := engine.forum.disturb interjection } := by
  cases interjection with
  | grab => simp only [interject, grab, Guard.tryBegin?_of_busy hbusy, SelectorForum.disturb]
  | reroute => simp only [interject, rerouteWith_of_busy hbusy, SelectorForum.disturb]
  | disable | update | select => rfl

/-- The same where the interjection has been written down and used up. -/
theorem interjected_of_busy (hbusy : engine.guard.busy = true) (offer : Offer)
    (interjection : Interjection) (beforeReading beforeRule : Option Interjection) :
    ({ engine.note (.interjected interjection) with beforeReading, beforeRule } : Engine).interject
        offer interjection =
      { engine.note (.interjected interjection) with
        forum := engine.forum.disturb interjection, beforeReading, beforeRule } :=
  @interject_of_busy { engine.note (.interjected interjection) with beforeReading, beforeRule }
    hbusy offer interjection

/-- The entries are of offers or of interjections, and the offers are those of some rules. -/
structure Offers (new : List Entry) (rules : List Rule) : Prop where
  rules : offersIn new = rules
  only : ∀ entry ∈ new, entry.rule?.isSome ∨ entry.interjection?.isSome

theorem offer_of_busy (hbusy : engine.guard.busy = true) (rule : Rule) :
    ∃ new, UnderPermit engine (engine.offer rule).1 new ∧ Offers new [rule] ∧
      (engine.offer rule).1.plane = (engine.plane.install rule).1 ∧
      (engine.offer rule).2 = (engine.plane.install rule).2 := by
  unfold offer
  cases hbefore : engine.beforeRule with
  | none =>
    exact ⟨[⟨engine.toMoment, .offered rule⟩], {}, ⟨rfl, by simp [Entry.rule?]⟩, rfl, rfl⟩
  | some interjection =>
    simp only [interjected_of_busy hbusy]
    exact ⟨[⟨_, .offered rule⟩, ⟨engine.toMoment, .interjected interjection⟩],
      { peaceful := fun hpeace => by simp [Peaceful, hbefore] at hpeace },
      ⟨rfl, by simp [Entry.rule?, Entry.interjection?]⟩, rfl, rfl⟩

/-- Rules are offered up to the first that is refused. -/
theorem offerAll_of_busy (hbusy : engine.guard.busy = true) (rules : List Rule) :
    ∃ new, UnderPermit engine (Installer.offerAll offer engine rules).1 new ∧
      Offers new (rules.take ((engine.plane.accepted rules).length + 1)) ∧
      (Installer.offerAll offer engine rules).1.plane =
        (Installer.offerAll DataPlane.install engine.plane rules).1 ∧
      (Installer.offerAll offer engine rules).2 =
        (Installer.offerAll DataPlane.install engine.plane rules).2 := by
  induction rules generalizing engine with
  | nil => exact ⟨[], .refl engine, ⟨rfl, by simp⟩, rfl, rfl⟩
  | cons rule rest ih =>
    obtain ⟨new, hwork, hoffers, hplane, hanswer⟩ := offer_of_busy hbusy rule
    rw [Installer.offerAll, Installer.offerAll, DataPlane.accepted]
    rcases hoffer : offer engine rule with ⟨next, fault | ⟨⟩⟩
    · rw [hoffer] at hwork hplane hanswer
      have hinstall : engine.plane.install rule = (next.plane, .error fault) :=
        Prod.ext hplane.symm hanswer.symm
      simp only [hinstall]
      exact ⟨new, hwork, hoffers, trivial, trivial⟩
    · rw [hoffer] at hwork hplane hanswer
      have hinstall : engine.plane.install rule = (next.plane, .ok ()) :=
        Prod.ext hplane.symm hanswer.symm
      obtain ⟨more, hrest, hothers, hall⟩ := ih (hwork.busy hbusy)
      simp only [hinstall]
      refine ⟨more ++ new, hwork.trans hrest, ⟨?_, ?_⟩, hall⟩
      · rw [offersIn_append, hoffers.rules, hothers.rules]
        rfl
      · intro entry hentry
        rcases List.mem_append.mp hentry with hmore | hnew
        · exact hothers.only entry hmore
        · exact hoffers.only entry hnew

/-- Between the computation of the rules of a path and the end of its installation, those rules are
offered and no others. -/
theorem installPath_of_busy (hbusy : engine.guard.busy = true) (computation : Computation) :
    ∃ offers, UnderPermit (engine.note (.computed computation)) (engine.installPath computation).1
        offers ∧
      Offers offers (engine.installer.offeredFor computation.routing.graph engine.plane
        computation.path) ∧
      (engine.installPath computation).1.plane =
        (engine.installer.attempt computation.routing.graph engine.plane computation.path).1 ∧
      (engine.installPath computation).2 =
        (engine.installer.attempt computation.routing.graph engine.plane computation.path).2 := by
  unfold installPath installWith Installer.installPath Installer.attempt Installer.installPath
    Installer.offeredFor
  cases engine.installer.rulesForPath computation.routing.graph computation.path with
  | error fault => exact ⟨[], .refl _, ⟨rfl, by simp⟩, rfl, rfl⟩
  | ok rules =>
    have hnoted : (engine.note (.computed computation)).guard.busy = true := hbusy
    obtain ⟨offers, hwork, hoffers, hplane, hanswer⟩ := offerAll_of_busy hnoted rules
    have hsame : (engine.note (.computed computation)).plane = engine.plane := rfl
    rw [hsame] at hoffers hplane hanswer
    rcases hoffer : Installer.offerAll offer (engine.note (.computed computation)) rules with
      ⟨next, fault | ⟨⟩⟩
    · rw [hoffer] at hwork hplane hanswer
      have hinstall : Installer.offerAll DataPlane.install engine.plane rules =
          (next.plane, .error fault) := Prod.ext hplane.symm hanswer.symm
      simp only [hoffer, hinstall]
      exact ⟨offers, hwork, hoffers, trivial, trivial⟩
    · rw [hoffer] at hwork hplane hanswer
      have hinstall : Installer.offerAll DataPlane.install engine.plane rules =
          (next.plane, .ok ()) := Prod.ext hplane.symm hanswer.symm
      simp only [hoffer, hinstall]
      exact ⟨offers, hwork, hoffers, trivial, trivial⟩

/-- A run installs its winner and makes it active under its own permit. -/
theorem installWinner_of_busy (hbusy : engine.guard.busy = true) (number : Nat) (probe : Probe)
    (winner : Option Nat) :
    engine.Undisturbed (engine.installWinner number probe winner).1.toMoment := by
  unfold installWinner
  split
  · exact {}
  · rename_i index
    split
    · exact {}
    · rename_i path _
      obtain ⟨_, hwork, -⟩ := installPath_of_busy hbusy
        ⟨.winner number index, path, probe.generation, probe.routing⟩
      have hinstalled : engine.Undisturbed (engine.installPath
          ⟨.winner number index, path, probe.generation, probe.routing⟩).1.toMoment :=
        hwork.undisturbed
      split
      · rename_i next _ hanswer
        rw [hanswer] at hinstalled
        exact hinstalled.trans {}
      · rename_i hanswer
        rw [hanswer] at hinstalled
        exact hinstalled

/-- A reading under the permit.  No rules are computed for it. -/
theorem measure_of_busy (hbusy : engine.guard.busy = true) (graph : Graph) (generation : Nat)
    (paths : List Path) (index : Nat) :
    ∃ new, UnderPermit engine (engine.measure graph generation paths index).1 new ∧
      ∀ entry ∈ new, entry.computation? = none := by
  unfold measure
  cases paths[index]?.bind graph.measuredAt? with
  | none => exact ⟨[], .refl engine, by simp⟩
  | some port =>
    cases hbefore : engine.beforeReading with
    | none => exact ⟨[_], {}, by simp [Entry.computation?]⟩
    | some interjection =>
      simp only [interjected_of_busy hbusy]
      exact ⟨[_, ⟨engine.toMoment, .interjected interjection⟩],
        { peaceful := fun hpeace => by simp [Peaceful, hbefore] at hpeace },
        by simp [Entry.computation?]⟩

end Engine

end TrafficSteering
