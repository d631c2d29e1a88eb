import TrafficSteering.Engine.Action
set_option autoImplicit false

/-!
# Computations and their rules

Rules are offered one after another as soon as they have been computed.  Before any of them, others
may interject something, and if that is a forced choice, rules are computed and offered for it, too.
But then one more forced choice holds a permit.  So a rule that is offered belongs to the last
computation before it that was made under as many forced choices.

`Interlude` is what lies between a computation and one of its rules.
-/

namespace TrafficSteering

/-- The switch run that rules are computed for, if it is one. -/
def Purpose.run? : Purpose → Option Nat
  | .candidate run _ | .winner run _ => some run
  | .packet _ | .reroute => none

/-- The rules that are computed. -/
def Computation.rules (computation : Computation) (installer : Installer) :
    Except Fault (List Rule) :=
  match computation.purpose with
  | .packet packet =>
    Option.toList <$>
      installer.ruleForPacket computation.routing.graph computation.path packet
  | _ => installer.rulesForPath computation.routing.graph computation.path

/-- For all but packets, rules are computed for the whole path. -/
theorem Computation.rules_of_path {computation : Computation} (installer : Installer)
    (h : ∀ packet, computation.purpose ≠ .packet packet) :
    computation.rules installer =
      installer.rulesForPath computation.routing.graph computation.path := by
  unfold Computation.rules
  split
  · rename_i packet hpacket
    exact absurd hpacket (h packet)
  · rfl

namespace Engine

/-- What happens to an engine in between, where all that is computed is computed within forced
choices, at least `depth` of them. -/
structure Enclosed (depth : Nat) (before after : Engine) (since : List Entry) : Prop where
  history : after.history = since ++ before.history := by rfl
  settings : after.settings = before.settings := by rfl
  forcing : after.forcing = before.forcing := by rfl
  depth : ∀ entry ∈ since, ∀ computation, entry.occurrence = .computed computation →
    depth ≤ entry.found.forcing

/-- What happens in between while rules are offered. -/
structure Interlude (before after : Engine) (since : List Entry) : Prop
    extends Enclosed (before.forcing + 1) before after since where
  /-- Unless something is interjected, nothing happens to the selector and its listeners. -/
  forum : (∀ entry ∈ since, ∀ interjection, entry.occurrence ≠ .interjected interjection) →
    after.forum = before.forum

/-- A rule belongs to a computation that the engine has made. -/
structure Owed (engine : Engine) (rule : Rule) (made : Engine) (computation : Computation)
    (since : List Entry) : Prop where
  interlude : Interlude (made.note (.computed computation)) engine since
  rules : ∃ rules, computation.rules engine.installer = .ok rules ∧ rule ∈ rules

variable {first second third : Engine} {depth : Nat} {earlier later : List Entry}

namespace Enclosed

/-- Nothing is written down. -/
theorem of_silent (hhistory : second.history = first.history)
    (hsettings : second.settings = first.settings) (hforcing : second.forcing = first.forcing) :
    Enclosed depth first second [] :=
  ⟨hhistory, hsettings, hforcing, by simp⟩

theorem trans (h : Enclosed depth first second earlier)
    (hnext : Enclosed depth second third later) :
    Enclosed depth first third (later ++ earlier) where
  history := by rw [hnext.history, h.history, List.append_assoc]
  settings := hnext.settings.trans h.settings
  forcing := hnext.forcing.trans h.forcing
  depth := by
    intro entry hentry
    rcases List.mem_append.mp hentry with hlater | hearlier
    · exact hnext.depth entry hlater
    · exact h.depth entry hearlier

theorem mono {less : Nat} (h : Enclosed depth first second earlier) (hless : less ≤ depth) :
    Enclosed less first second earlier :=
  { h with depth := fun entry hentry computation hcomputed =>
      Nat.le_trans hless (h.depth entry hentry computation hcomputed) }

end Enclosed

namespace Interlude

theorem refl (engine : Engine) : Interlude engine engine [] :=
  ⟨.of_silent rfl rfl rfl, fun _ => rfl⟩

theorem trans (h : Interlude first second earlier) (hnext : Interlude second third later) :
    Interlude first third (later ++ earlier) where
  toEnclosed := h.toEnclosed.trans (h.forcing ▸ hnext.toEnclosed)
  forum := by
    intro hnone
    have hlater := hnext.forum fun entry hentry => hnone entry (List.mem_append_left _ hentry)
    have hearlier := h.forum fun entry hentry => hnone entry (List.mem_append_right _ hentry)
    exact hlater.trans hearlier

/-- A rule is offered without an interruption. -/
theorem offerAtOnce (engine : Engine) (rule : Rule) :
    Interlude engine (engine.offerAtOnce rule).1 [⟨engine.toMoment, .offered rule⟩] where
  depth := by simp
  forum := fun _ => rfl

end Interlude

/-- A rule still belongs to its computation after others have been offered. -/
theorem Owed.still {engine after made : Engine} {rule : Rule} {computation : Computation}
    (h : engine.Owed rule made computation earlier) (hinterlude : Interlude engine after later) :
    after.Owed rule made computation (later ++ earlier) where
  interlude := h.interlude.trans hinterlude
  rules := by
    simp only [Moment.installer, hinterlude.settings]
    exact h.rules

/-- Once rules have been computed, they belong to the computation. -/
theorem owed_of_rules (engine : Engine) {computation : Computation} {rules : List Rule}
    (hrules : computation.rules engine.installer = .ok rules) {rule : Rule} (hmem : rule ∈ rules) :
    (engine.note (.computed computation)).Owed rule engine computation [] :=
  ⟨.refl _, rules, hrules, hmem⟩

end Engine

end TrafficSteering
