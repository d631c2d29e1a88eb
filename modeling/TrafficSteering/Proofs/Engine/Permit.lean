import TrafficSteering.Proofs.Engine.Reachable
set_option autoImplicit false

/-!
# One permit

Switch runs, forced choices and callers share one permit.  However they interleave, there is never
more than one, and the guard knows whether there is one; and no way out of a switch run or of a
forced choice keeps it.
-/

namespace TrafficSteering.Engine

/-- At every moment permit, run and phase belong together.  A run that goes on either waits for its
next candidate or is over, with the permit given back.  A forced choice gives back the permit that
it took; if there was none to take, it does nothing. -/
theorem Reachable.exclusive_throughout {storage : Storage} {settings : Settings} {engine : Engine}
    (h : Reachable storage settings engine) :
    (engine.Exclusive ∧ ∀ entry ∈ engine.history, entry.found.Exclusive) ∧
    (∀ run, engine.run = some run →
      (∃ probe, (engine.resumeRun run).Settles run.number probe) ∨
        (engine.resumeRun run).Over run.number) ∧
    (engine.guard.busy = false → engine.reroute.1.AtRest) ∧
    (engine.guard.busy = true → engine.reroute = (engine, .ok none)) := by
  have hsteady := h.steady
  refine ⟨⟨hsteady.exclusive, ?_⟩, ?_, ?_, ?_⟩
  · intro entry hentry
    obtain ⟨later, earlier, hhistory⟩ := List.append_of_mem hentry
    exact (h.past hhistory).2.1.exclusive
  · exact fun run hrun => (resumeRun_settles_or_over hsteady hrun).2
  · exact fun hfree => (rerouteWith_of_free offer_orderly hsteady hfree).2
  · exact rerouteWith_of_busy

/-- An engine in a switch run.  Others try to grab the permit before the first rule and to force a
new choice before the first reading. -/
def switching : Engine :=
  tangled.play [.packet (packetBetween 1 4), .beforeRule .grab, .beforeReading .reroute, .trigger]

/-- The first two candidates cannot be installed, so the run waits for the third.  Then it is over:
the winner cannot be installed either. -/
theorem exclusive_throughout_switching : ∃ run, switching.run = some run ∧
    switching.phase = .probing 2 ∧ switching.beforeRule = none ∧
    (∀ entry ∈ switching.history, entry.found.Exclusive) ∧
    (switching.resumeRun run).Over run.number := by
  have hreach : Reachable ⟨[], []⟩ tangledSettings switching := tangled_reachable.play _
  obtain ⟨run, hrun⟩ := Option.isSome_iff_exists.mp (show switching.run.isSome = true by decide)
  obtain ⟨⟨_, hhistory⟩, hruns, _⟩ := hreach.exclusive_throughout
  refine ⟨run, hrun, by decide, by decide, hhistory, ?_⟩
  rcases hruns run hrun with ⟨probe, hsettles⟩ | hover
  · obtain ⟨index, due, hlater, _⟩ := hsettles.run
    have hnone : (switching.run.bind fun run => (switching.resumeRun run).run) = none := by decide
    rw [hrun, Option.bind_some, hlater] at hnone
    simp at hnone
  · exact hover

end TrafficSteering.Engine
