import TrafficSteering.Proofs.Engine.SwitchRun
set_option autoImplicit false

/-!
# Reachable engines

An engine is built, acted on from outside, and goes on by itself.  All of it is turns from an engine
without a topology, so what turns keep holds of every engine and of every moment in its history.
-/

namespace TrafficSteering.Engine

open Moment

variable {engine after : Engine}

/-! ## The monitor -/

theorem trigger_course (engine : Engine) : Course engine engine.trigger.1 := by
  unfold trigger
  cases hbusy : engine.guard.busy with
  | true =>
    rw [Guard.tryBegin?_of_busy hbusy]
    exact .refl engine
  | false =>
    rw [Guard.tryBegin?_of_free hbusy]
    exact .of_free hbusy (.single (.triggered hbusy)) rfl

theorem judge_course (engine : Engine) (index : Nat) (kbps : UInt32) :
    Course engine (engine.judge index kbps).1 := by
  have htrigger := trigger_course engine
  unfold judge
  split
  · split
    · rename_i hanswer
      rw [hanswer] at htrigger
      exact htrigger
    · rename_i hanswer
      rw [hanswer] at htrigger
      exact htrigger
  · split
    · exact .refl engine
    · exact .refl engine

theorem tick_course (h : engine.Steady) : Course engine engine.tick.1 := by
  unfold tick
  split
  · exact .refl engine
  · split
    · exact .refl engine
    · simp only
      split
      · rename_i index path routing hactive hrouting
        split
        · have hmeasured := measure_course h (candidates_simple h hrouting)
            engine.selector.candidates.generation index
          split
          · rename_i next kbps hanswer
            rw [hanswer] at hmeasured
            exact hmeasured.trans (judge_course next index kbps)
          · rename_i hanswer
            rw [hanswer] at hmeasured
            exact hmeasured
        · exact .refl engine
      · exact .refl engine

/-- The clock goes on, or the monitor is told something. -/
theorem waited_turn (engine : Engine) (awaitable : List Nat) (monitor : Monitor) (now : Nat) :
    Turn engine { engine with awaitable, monitor, now } :=
  .arranged engine.recorder.telemetry engine.plane.verdict engine.plane.room awaitable monitor
    engine.beforeReading engine.beforeRule now

theorem resumeMonitor_turns (h : engine.Steady) : Turns engine engine.resumeMonitor :=
  (tick_course h).turns.tail (waited_turn _ _ _ _)

/-! ## Time -/

/-- A task that an engine has before it. -/
def Task.Pending (engine : Engine) : Task → Prop
  | .goOn run => engine.run = some run
  | .look due => engine.monitor = .waiting due

theorem nextTask?_pending {task : Task} (h : engine.nextTask? = some task) :
    task.Pending engine := by
  have hmonitor : ∀ {other}, engine.monitorTask? = some other → other.Pending engine := by
    intro other hother
    unfold monitorTask? at hother
    split at hother
    · rename_i due hdue
      obtain rfl := Option.some.inj hother
      exact hdue
    · simp at hother
  unfold nextTask? at h
  split at h
  · rename_i run other hrun hother
    split at h
    · obtain rfl := Option.some.inj h
      exact hrun
    · obtain rfl := Option.some.inj h
      exact hmonitor hother
  · rename_i run hrun _
    obtain rfl := Option.some.inj h
    exact hrun
  · exact hmonitor h

theorem happen_turns (h : engine.Steady) {task : Task} (htask : task.Pending engine) :
    Turns engine (engine.happen task) := by
  have hwaited : Turn engine { engine with now := max engine.now task.due } :=
    waited_turn engine engine.awaitable engine.monitor _
  have hsteady := hwaited.steady h
  cases task with
  | goOn run =>
    exact .head hwaited (resumeRun_settles_or_over hsteady htask).1
  | look due => exact .head hwaited (resumeMonitor_turns hsteady)

/-- Actions in which time passes. -/
def Action.Lasting : Action → Prop
  | .sleep _ | .await => True
  | _ => False

section

variable {motive : Engine → Prop}
  (hstep : ∀ {engine : Engine} {task : Task}, motive engine → engine.nextTask? = some task →
    motive (engine.happen task))
include hstep

/-- What each task keeps is kept by all that happen. -/
theorem happenUntil_induction (h : motive engine) (limit steps : Nat) :
    motive (happenUntil limit steps engine) := by
  induction steps generalizing engine with
  | zero => exact h
  | succ steps ih =>
    unfold happenUntil
    cases htask : engine.nextTask? with
    | none => exact h
    | some task =>
      simp only
      split
      · exact ih (hstep h htask)
      · exact h

variable (htime : ∀ {engine : Engine} (limit : Nat), motive engine →
  motive { engine with now := max engine.now limit })
include htime

theorem passUntil_induction (h : motive engine) (limit : Nat) : motive (engine.passUntil limit) :=
  htime limit (happenUntil_induction hstep h limit _)

theorem passUntilOver_induction (h : motive engine) (number waits : Nat) :
    motive (passUntilOver number waits engine) := by
  induction waits generalizing engine with
  | zero => exact h
  | succ waits ih =>
    unfold passUntilOver
    split
    · exact ih (passUntil_induction hstep htime h _)
    · exact h

/-- What each task keeps is kept while time passes. -/
theorem lasting_induction (hasks : ∀ {engine : Engine} (awaitable : List Nat), motive engine →
    motive { engine with awaitable }) (h : motive engine) {action : Action}
    (hlasting : action.Lasting) : motive (engine.act action).1 := by
  cases action with
  | sleep span => exact passUntil_induction hstep htime h _
  | await =>
    simp only [act, await]
    split
    · exact h
    · exact passUntilOver_induction hstep htime (hasks _ h) _ _
  | _ => exact hlasting.elim

end

/-! ## Actions -/

theorem obey_turns (h : engine.Steady) (command : Command) :
    Turns engine (engine.obey command) := by
  cases command with
  | start => exact (perform_course .start (fun _ => rfl) engine).turns
  | stop => exact (perform_course .stop (fun _ => rfl) engine).turns
  | reroute => exact (reroute_course h).turns

theorem obeyAll_turns (h : engine.Steady) (commands : List Command) :
    Turns engine (commands.foldl obey engine) := by
  induction commands generalizing engine with
  | nil => exact .refl
  | cons command rest ih =>
    have hfirst := obey_turns h command
    exact hfirst.trans (ih (hfirst.steady h))

theorem signal_turns (engine : Engine) (value : Option Bool) :
    Turns engine (engine.signal value).1 := by
  unfold signal
  split
  · exact .refl
  · exact .refl
  · exact .single (waited_turn engine engine.awaitable _ engine.now)
  · exact .single (waited_turn engine engine.awaitable _ engine.now)

theorem lasting_turns (h : engine.Steady) {action : Action} (hlasting : action.Lasting) :
    Turns engine (engine.act action).1 := by
  refine lasting_induction (motive := Turns engine) ?_ ?_ ?_ .refl hlasting
  · intro later task hturns htask
    exact hturns.trans (happen_turns (hturns.steady h) (nextTask?_pending htask))
  · exact fun limit hturns => hturns.tail (waited_turn _ _ _ _)
  · exact fun awaitable hturns => hturns.tail (waited_turn _ _ _ _)

theorem act_turns (h : engine.Steady) (action : Action) : Turns engine (engine.act action).1 := by
  cases action with
  | listen listener => exact .single (.asked [] rfl)
  | unlisten listener => exact .single (.asked [] rfl)
  | disable => exact (disable_course engine).turns
  | route | allPaths | candidates | nothing => exact .refl
  | select src dst =>
    exact (perform_course (.select src dst) (fun _ => rfl) engine).turns
  | commit generation index =>
    exact (perform_course (.commit generation index) (fun _ => rfl) engine).turns
  | packet packet => exact (handlePacket_course h packet).turns
  | update report => exact (update_course engine report).turns
  | start => exact obey_turns h .start
  | stop => exact obey_turns h .stop
  | reroute => exact (reroute_course h).turns
  | control stream => exact obeyAll_turns h (Session.serve stream).1
  | telemetry interface reading =>
    exact .single (.arranged _ engine.plane.verdict engine.plane.room engine.awaitable
      engine.monitor engine.beforeReading engine.beforeRule engine.now)
  | tick => exact (tick_course h).turns
  | measure index => exact (measureNow_course h index).turns
  | table call => exact .single (.called call)
  | trigger =>
    have htrigger := (trigger_course engine).turns
    simp only [act]
    split
    · rename_i next number hanswer
      rw [hanswer] at htrigger
      exact htrigger.tail (waited_turn next (number :: next.awaitable) next.monitor next.now)
    · rename_i hanswer
      rw [hanswer] at htrigger
      exact htrigger
  | sleep | await => exact lasting_turns h trivial
  | grab => exact (grab_course engine).turns
  | release => exact release_turns engine
  | verdict verdict =>
    exact .single (.arranged engine.recorder.telemetry verdict engine.plane.room engine.awaitable
      engine.monitor engine.beforeReading engine.beforeRule engine.now)
  | limit room =>
    exact .single (.arranged engine.recorder.telemetry engine.plane.verdict room engine.awaitable
      engine.monitor engine.beforeReading engine.beforeRule engine.now)
  | beforeReading interjection =>
    exact .single (.arranged engine.recorder.telemetry engine.plane.verdict engine.plane.room
      engine.awaitable engine.monitor (some interjection) engine.beforeRule engine.now)
  | beforeRule interjection =>
    exact .single (.arranged engine.recorder.telemetry engine.plane.verdict engine.plane.room
      engine.awaitable engine.monitor engine.beforeReading (some interjection) engine.now)
  | monitor => exact .single (waited_turn engine engine.awaitable _ engine.now)
  | signal value => exact signal_turns engine value

theorem obeyAll_reports (h : engine.Steady) (commands : List Command) :
    (commands.foldl obey engine).reports = engine.reports := by
  induction commands generalizing engine with
  | nil => rfl
  | cons command rest ih =>
    have hfirst : (engine.obey command).reports = engine.reports := by
      cases command with
      | start | stop => rfl
      | reroute => exact (reroute_course h).reports
    exact (ih ((obey_turns h command).steady h)).trans hfirst

/-- Reports are filed only as time passes. -/
theorem act_reports (h : engine.Steady) {action : Action} (hnow : ¬ action.Lasting) :
    (engine.act action).1.reports = engine.reports := by
  cases action with
  | packet packet => exact (handlePacket_course h packet).reports
  | reroute => exact (reroute_course h).reports
  | control stream => exact obeyAll_reports h (Session.serve stream).1
  | tick => exact (tick_course h).reports
  | measure index => exact (measureNow_course h index).reports
  | trigger =>
    have htrigger := (trigger_course engine).reports
    simp only [act]
    split
    · rename_i hanswer
      rw [hanswer] at htrigger
      exact htrigger
    · rename_i hanswer
      rw [hanswer] at htrigger
      exact htrigger
  | grab => exact (grab_course engine).reports
  | release =>
    simp only [act, release]
    split <;> rfl
  | signal value =>
    simp only [act, signal]
    split <;> rfl
  | sleep | await => exact absurd trivial hnow
  | _ => rfl

/-! ## Reachable engines -/

/-- The engines that are built from a configuration, acted on from outside, and go on by
themselves. -/
inductive Reachable (storage : Storage) (settings : Settings) : Engine → Prop where
  | built {engine : Engine} (h : build storage settings = .ok engine) :
      Reachable storage settings engine
  | acted {engine : Engine} (h : Reachable storage settings engine) (action : Action) :
      Reachable storage settings (engine.act action).1
  /-- The run or the monitor goes on. -/
  | happened {engine : Engine} (h : Reachable storage settings engine) {task : Task}
      (htask : task.Pending engine) : Reachable storage settings (engine.happen task)

theorem idle_steady (settings : Settings) : (idle settings).Steady where
  exclusive := ⟨by simp [idle, permits], by simp [idle, permits], by simp [idle, Unfinished],
    by simp [idle], by simp [idle]⟩
  consistent := Selector.initial_consistent settings.expected
  probe := by simp [idle]
  filed := by simp [idle]

theorem build_course {storage : Storage} {settings : Settings}
    (h : build storage settings = .ok engine) : Course (idle settings) engine := by
  unfold build at h
  split at h
  · simp at h
  · split at h
    · simp at h
    · split at h
      · obtain rfl := Except.ok.inj h
        exact .refl (idle settings)
      · rename_i report _
        have hupdate := update_course (idle settings) report
        split at h
        · rename_i hanswer
          obtain rfl := Except.ok.inj h
          rw [hanswer] at hupdate
          exact hupdate
        · simp at h

namespace Reachable

variable {storage : Storage} {settings : Settings}

theorem turns (h : Reachable storage settings engine) : Turns (idle settings) engine := by
  induction h with
  | built hbuild => exact (build_course hbuild).turns
  | acted _ action ih => exact ih.trans (act_turns (ih.steady (idle_steady settings)) action)
  | happened _ htask ih => exact ih.trans (happen_turns (ih.steady (idle_steady settings)) htask)

theorem steady (h : Reachable storage settings engine) : engine.Steady :=
  h.turns.steady (idle_steady settings)

/-- What an engine has done was done at a steady moment that turns led to. -/
theorem past (h : Reachable storage settings engine) {later earlier : List Entry} {entry : Entry}
    (hhistory : engine.history = later ++ entry :: earlier) :
    Turns (idle settings) ⟨entry.found, earlier⟩ ∧ entry.found.Steady ∧
      entry.occurrence.Fits ⟨entry.found, earlier⟩ := by
  obtain ⟨hturns, hfits⟩ := h.turns.past rfl hhistory
  exact ⟨hturns, hturns.steady (idle_steady settings), hfits⟩

/-- An action and all that then happens by itself. -/
theorem step (h : Reachable storage settings engine) (action : Action) :
    Reachable storage settings (engine.step action).1 :=
  (h.acted action).acted (.sleep 0)

theorem play (h : Reachable storage settings engine) (actions : List Action) :
    Reachable storage settings (engine.play actions) := by
  induction actions generalizing engine with
  | nil => exact h
  | cons action rest ih => exact ih (h.step action)

end Reachable

/-! ## An engine on the tangled report

Every switch but the last has a host.  The traffic between the first and the fourth is steered, but
the only path between them that has edges both ways is the direct one. -/

def tangledSettings : Settings where
  expected := ⟨5, 9⟩
  hosts := [⟨⟨10, 0, 0, 1⟩, ⟨1⟩, ⟨11⟩⟩, ⟨⟨10, 0, 0, 2⟩, ⟨2⟩, ⟨12⟩⟩, ⟨⟨10, 0, 0, 3⟩, ⟨3⟩, ⟨13⟩⟩,
    ⟨⟨10, 0, 0, 4⟩, ⟨4⟩, ⟨14⟩⟩]
  pairs := [⟨⟨10, 0, 0, 1⟩, ⟨10, 0, 0, 4⟩⟩]
  topology := some Snapshot.tangle

/-- The engine that is built from these settings. -/
def tangled : Engine := ((idle tangledSettings).update Snapshot.tangle).1

theorem tangled_reachable : Reachable ⟨[], []⟩ tangledSettings tangled := .built rfl

/-- A packet between the hosts of two switches, received by the switch of its sender. -/
def packetBetween (src dst : UInt8) : Packet :=
  ⟨⟨src.toUInt64⟩, .ipv4, ⟨10, 0, 0, src⟩, ⟨10, 0, 0, dst⟩⟩

/-! ## An engine on a kite

Two detours and a heavy direct link join the first switch and the fourth, and all three candidates
have edges both ways. -/

def kiteReport : Snapshot where
  switches := [⟨1⟩, ⟨2⟩, ⟨3⟩, ⟨4⟩]
  links := [Snapshot.strand 1 1 2 1, Snapshot.strand 2 1 1 1, Snapshot.strand 2 2 4 1,
    Snapshot.strand 4 1 2 1, Snapshot.strand 1 2 3 1, Snapshot.strand 3 1 1 1,
    Snapshot.strand 3 2 4 1, Snapshot.strand 4 2 3 1, Snapshot.strand 1 3 4 9,
    Snapshot.strand 4 3 1 9]

def kiteSettings : Settings :=
  { tangledSettings with expected := ⟨4, 10⟩, topology := some kiteReport }

/-- The engine that is built from these settings. -/
def kite : Engine := ((idle kiteSettings).update kiteReport).1

theorem kite_reachable : Reachable ⟨[], []⟩ kiteSettings kite := .built rfl

/-- Either detour has a switch that rejects every rule, and the direct path is refused a single one
of its rules when it is offered again. -/
def obstacles (offer : Nat) (rule : Rule) : Option Refusal :=
  if rule.switch = ⟨2⟩ ∨ rule.switch = ⟨3⟩ ∨ offer = 13 then some (.rejected rule) else none

/-- An engine whose candidates meet these obstacles. -/
def obstructed : Engine :=
  kite.play [.packet (packetBetween 1 4), .telemetry ⟨⟨1⟩, ⟨3⟩⟩ (some ⟨700000, 100000⟩),
    .verdict obstacles]

theorem obstructed_reachable : Reachable ⟨[], []⟩ kiteSettings obstructed := kite_reachable.play _

end TrafficSteering.Engine
