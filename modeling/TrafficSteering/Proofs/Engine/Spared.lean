import TrafficSteering.Engine.Traffic
set_option autoImplicit false

/-!
# What offers and interjections leave alone

To offer a rule, with all that others interject before it, changes the selector and its listeners,
the data plane and the permit.  It does not touch the table, the log and telemetry, nor a run or the
monitor, and it takes no time.  The same holds for what others interject before a reading.
-/

namespace TrafficSteering

/-- Nothing has changed between two moments but the selector, the data plane, the permit, and what
is still to be interjected. -/
structure Moment.Spared (before after : Moment) : Prop where
  settings : after.settings = before.settings := by rfl
  recorder : after.recorder = before.recorder := by rfl
  run : after.run = before.run := by rfl
  runsStarted : after.runsStarted = before.runsStarted := by rfl
  phase : after.phase = before.phase := by rfl
  reports : after.reports = before.reports := by rfl
  awaitable : after.awaitable = before.awaitable := by rfl
  monitor : after.monitor = before.monitor := by rfl
  now : after.now = before.now := by rfl

theorem Moment.Spared.refl (moment : Moment) : moment.Spared moment := {}

theorem Moment.Spared.trans {first second third : Moment} (h : first.Spared second)
    (hnext : second.Spared third) : first.Spared third where
  settings := hnext.settings.trans h.settings
  recorder := hnext.recorder.trans h.recorder
  run := hnext.run.trans h.run
  runsStarted := hnext.runsStarted.trans h.runsStarted
  phase := hnext.phase.trans h.phase
  reports := hnext.reports.trans h.reports
  awaitable := hnext.awaitable.trans h.awaitable
  monitor := hnext.monitor.trans h.monitor
  now := hnext.now.trans h.now

namespace Engine

open Moment

variable {engine : Engine}

/-- A way to offer rules that leaves all this alone. -/
def Offer.Sparing (offer : Offer) : Prop :=
  ∀ (engine : Engine) (rule : Rule), engine.Spared (offer engine rule).1.toMoment

theorem offerAtOnce_spares : offerAtOnce.Sparing := fun _ _ => {}

section

variable {offer : Offer} (hoffer : offer.Sparing)
include hoffer

theorem offerAll_spares (engine : Engine) (rules : List Rule) :
    engine.Spared (Installer.offerAll offer engine rules).1.toMoment := by
  induction rules generalizing engine with
  | nil => exact .refl _
  | cons rule rest ih =>
    have hfirst := hoffer engine rule
    rw [Installer.offerAll]
    rcases hanswer : offer engine rule with ⟨next, fault | ⟨⟩⟩
    · rw [hanswer] at hfirst
      exact hfirst
    · rw [hanswer] at hfirst
      exact hfirst.trans (ih next)

theorem installWith_spares (engine : Engine) (computation : Computation) :
    engine.Spared (engine.installWith offer computation).1.toMoment := by
  have hnoted : engine.Spared (engine.note (.computed computation)).toMoment := .refl _
  unfold installWith Installer.installPath
  cases engine.installer.rulesForPath computation.routing.graph computation.path with
  | error fault => exact hnoted
  | ok rules =>
    have hall := hnoted.trans (offerAll_spares hoffer _ rules)
    rcases hanswer : Installer.offerAll offer (engine.note (.computed computation)) rules with
      ⟨next, fault | ⟨⟩⟩
    · rw [hanswer] at hall
      simpa only [hanswer] using hall
    · rw [hanswer] at hall
      simpa only [hanswer] using hall

theorem chooseWith_spares (engine : Engine) :
    engine.Spared (engine.chooseWith offer).1.toMoment := by
  have hchosen : engine.Spared (engine.perform Selector.reroute).1.toMoment := {}
  simp only [chooseWith]
  rcases hanswer : engine.perform Selector.reroute with ⟨next, fault | _ | selection⟩
  · rw [hanswer] at hchosen
    exact hchosen
  · rw [hanswer] at hchosen
    exact hchosen
  · rw [hanswer] at hchosen
    simp only [installChoice]
    split
    · exact hchosen
    · rename_i routing _
      have hinstall := hchosen.trans (installWith_spares hoffer next
        ⟨.reroute, selection.path, selection.generation, routing⟩)
      split
      · rename_i hinstalled
        rw [hinstalled] at hinstall
        exact hinstall
      · rename_i hinstalled
        rw [hinstalled] at hinstall
        exact hinstall

theorem rerouteWith_spares (engine : Engine) :
    engine.Spared (engine.rerouteWith offer).1.toMoment := by
  unfold rerouteWith
  split
  · exact .refl _
  · rename_i guard _
    have hforced : engine.Spared
        ({ engine with guard, forcing := engine.forcing + 1 } : Engine).toMoment := {}
    exact (hforced.trans (chooseWith_spares hoffer _)).trans {}

theorem interject_spares (engine : Engine) (interjection : Interjection) :
    engine.Spared (engine.interject offer interjection).toMoment := by
  cases interjection with
  | grab =>
    simp only [interject, grab]
    split <;> exact {}
  | reroute => exact rerouteWith_spares hoffer engine
  | disable | update | select => exact {}

end

theorem offer_spares : Offer.Sparing offer := by
  intro engine rule
  unfold offer
  split
  · exact {}
  · rename_i interjection _
    have hused : engine.Spared ({ engine.note (.interjected interjection) with
      beforeRule := none } : Engine).toMoment := {}
    exact (hused.trans (interject_spares offerAtOnce_spares _ interjection)).trans {}

/-! ## Before a reading -/

/-- The engine as it is at the next reading: what others interject before it has happened. -/
def atReading (engine : Engine) : Engine :=
  match engine.beforeReading with
  | none => engine
  | some interjection =>
    { engine.note (.interjected interjection) with beforeReading := none }.interject offer
      interjection

theorem atReading_spares (engine : Engine) : engine.Spared engine.atReading.toMoment := by
  unfold atReading
  split
  · exact .refl _
  · rename_i interjection _
    have hused : engine.Spared ({ engine.note (.interjected interjection) with
      beforeReading := none } : Engine).toMoment := {}
    exact hused.trans (interject_spares offer_spares _ interjection)

/-- A measurement, if there is a port to read, happens after what others interject. -/
theorem measure_of_port {graph : Graph} {generation index : Nat} {paths : List Path}
    {port : Interface} (hport : paths[index]?.bind graph.measuredAt? = some port) :
    engine.measure graph generation paths index =
      engine.atReading.record graph generation paths index := by
  unfold measure atReading
  rw [hport]
  cases engine.beforeReading with
  | none => rfl
  | some interjection => rfl

theorem measure_of_no_port {graph : Graph} {generation index : Nat} {paths : List Path}
    (hport : paths[index]?.bind graph.measuredAt? = none) :
    engine.measure graph generation paths index = (engine, none) := by
  simp only [measure, hport]

end Engine

end TrafficSteering
