import TrafficSteering.Installer
set_option autoImplicit false

/-!
# Accepted rules

Of rules that are offered one after another, the switches take those up to the first that is
refused.  An installation has succeeded exactly if they have taken all of them.
-/

namespace TrafficSteering

namespace DataPlane

/-- The rules that are taken of some that are offered one after another. -/
def accepted (plane : DataPlane) : List Rule → List Rule
  | [] => []
  | rule :: rest =>
    match plane.install rule with
    | (plane, .ok ()) => rule :: plane.accepted rest
    | (_, .error _) => []

theorem rules_of_refused {plane next : DataPlane} {rule : Rule} {fault : Fault}
    (h : plane.install rule = (next, .error fault)) : next.rules = plane.rules := by
  unfold install at h
  split at h
  · obtain ⟨rfl, -⟩ := Prod.mk.inj h
    rfl
  · cases h

theorem rules_of_taken {plane next : DataPlane} {rule : Rule}
    (h : plane.install rule = (next, .ok ())) : next.rules = plane.rules ++ [rule] := by
  unfold install at h
  split at h
  · cases h
  · obtain ⟨rfl, -⟩ := Prod.mk.inj h
    rfl

/-- All rules have been taken, or there is a fault and the next one was refused. -/
theorem offerAll_install (plane : DataPlane) (rules : List Rule) :
    (Installer.offerAll install plane rules).1.rules = plane.rules ++ plane.accepted rules ∧
    ((Installer.offerAll install plane rules).2 = .ok () ↔ plane.accepted rules = rules) := by
  induction rules generalizing plane with
  | nil => simp [Installer.offerAll, accepted]
  | cons rule rest ih =>
    rw [Installer.offerAll, accepted]
    rcases hanswer : plane.install rule with ⟨next, fault | ⟨⟩⟩
    · simp [rules_of_refused hanswer]
    · obtain ⟨htaken, hall⟩ := ih next
      simp [htaken, hall, rules_of_taken hanswer]

end DataPlane

namespace Installer

variable (installer : Installer) (graph : Graph)

/-- The installation of a path on the data plane alone. -/
def attempt (plane : DataPlane) (path : Path) : DataPlane × Except Fault Nat :=
  installer.installPath DataPlane.install graph path plane

/-- Whether the rules of a path are computed and all of them are taken. -/
def Succeeds (plane : DataPlane) (path : Path) : Prop :=
  ∃ rules, installer.rulesForPath graph path = .ok rules ∧ plane.accepted rules = rules

/-- The rules of a path that are taken. -/
def acceptedFor (plane : DataPlane) (path : Path) : List Rule :=
  match installer.rulesForPath graph path with
  | .ok rules => plane.accepted rules
  | .error _ => []

instance (plane : DataPlane) (path : Path) : Decidable (installer.Succeeds graph plane path) :=
  match h : installer.rulesForPath graph path with
  | .ok rules => decidable_of_iff (plane.accepted rules = rules) (by simp [Succeeds, h])
  | .error _ => .isFalse (by simp [Succeeds, h])

section

variable {σ : Type} (offer : σ → Rule → σ × Except Fault Unit) {path : Path}

theorem installPath_of_error {fault : Fault}
    (h : installer.rulesForPath graph path = .error fault) (state : σ) :
    installer.installPath offer graph path state = (state, .error fault) := by
  simp [installPath, h]

theorem installPath_of_ok {rules : List Rule} (h : installer.rulesForPath graph path = .ok rules)
    (state : σ) :
    installer.installPath offer graph path state =
      ((offerAll offer state rules).1,
        (offerAll offer state rules).2.map fun _ => rules.length) := by
  simp only [installPath, h]
  rcases offerAll offer state rules with ⟨next, fault | ⟨⟩⟩ <;> rfl

end

theorem attempt_of_error {path : Path} {fault : Fault}
    (h : installer.rulesForPath graph path = .error fault) (plane : DataPlane) :
    installer.attempt graph plane path = (plane, .error fault) :=
  installPath_of_error installer graph DataPlane.install h plane

theorem attempt_of_ok {path : Path} {rules : List Rule}
    (h : installer.rulesForPath graph path = .ok rules) (plane : DataPlane) :
    installer.attempt graph plane path =
      ((offerAll DataPlane.install plane rules).1,
        (offerAll DataPlane.install plane rules).2.map fun _ => rules.length) :=
  installPath_of_ok installer graph DataPlane.install h plane

theorem attempt_rules (plane : DataPlane) (path : Path) :
    (installer.attempt graph plane path).1.rules =
      plane.rules ++ installer.acceptedFor graph plane path := by
  unfold acceptedFor
  cases hrules : installer.rulesForPath graph path with
  | error fault => simp [attempt_of_error installer graph hrules]
  | ok rules => rw [attempt_of_ok installer graph hrules, (plane.offerAll_install rules).1]

theorem attempt_rules_of_ok {path : Path} {rules : List Rule}
    (h : installer.rulesForPath graph path = .ok rules) (plane : DataPlane) :
    (installer.attempt graph plane path).1.rules = plane.rules ++ plane.accepted rules := by
  simp only [attempt_rules, acceptedFor, h]

/-- An installation answers with a number exactly if it succeeds. -/
theorem attempt_cases (plane : DataPlane) (path : Path) :
    (installer.Succeeds graph plane path ∧
      ∃ count, (installer.attempt graph plane path).2 = .ok count) ∨
    (¬ installer.Succeeds graph plane path ∧
      ∃ fault, (installer.attempt graph plane path).2 = .error fault) := by
  unfold Succeeds
  cases hrules : installer.rulesForPath graph path with
  | error fault =>
    exact .inr ⟨by simp, fault, by rw [attempt_of_error installer graph hrules]⟩
  | ok rules =>
    have hall := (plane.offerAll_install rules).2
    rw [attempt_of_ok installer graph hrules]
    cases hanswer : (offerAll DataPlane.install plane rules).2 with
    | error fault =>
      rw [hanswer] at hall
      exact .inr ⟨by simpa using hall, fault, rfl⟩
    | ok =>
      rw [hanswer] at hall
      exact .inl ⟨by simpa using hall, rules.length, rfl⟩

end Installer

end TrafficSteering
