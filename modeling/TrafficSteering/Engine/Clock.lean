import TrafficSteering.Engine.Monitoring
set_option autoImplicit false

/-!
# Time

Time passes only where the engine is told to let it pass.  Whatever falls due on the way happens at
the time at which it is due, earlier things first.  A switch run that is due together with the
monitor goes first.

Both periods of a valid configuration are positive, so at one time at most three things happen: a
run goes on, the monitor looks, and the run that it starts begins.  This bounds the number of things
that can happen up to a given time.
-/

namespace TrafficSteering.Engine

/-- What can fall due. -/
inductive Task where
  /-- A switch run goes on. -/
  | goOn (run : Run)
  /-- The monitor looks at the active path. -/
  | look (due : Nat)
  deriving DecidableEq, Repr

/-- When a task is due. -/
def Task.due : Task → Nat
  | .goOn run => run.due
  | .look due => due

/-- The task of the monitor. -/
def monitorTask? (engine : Engine) : Option Task :=
  match engine.monitor with
  | .waiting due => some (.look due)
  | _ => none

/-- The task that is due first. -/
def nextTask? (engine : Engine) : Option Task :=
  match engine.run, engine.monitorTask? with
  | some run, some task => if run.due ≤ task.due then some (.goOn run) else some task
  | some run, none => some (.goOn run)
  | none, task => task

/-- Lets a task happen at its time. -/
def happen (engine : Engine) (task : Task) : Engine :=
  let engine := { engine with now := max engine.now task.due }
  match task with
  | .goOn run => engine.resumeRun run
  | .look _ => engine.resumeMonitor

/-- Lets at most a given number of tasks happen that are due up to a time. -/
def happenUntil (limit : Nat) : Nat → Engine → Engine
  | 0, engine => engine
  | steps + 1, engine =>
    match engine.nextTask? with
    | none => engine
    | some task => if task.due ≤ limit then happenUntil limit steps (engine.happen task) else engine

/-- Lets time pass up to a limit. -/
def passUntil (engine : Engine) (limit : Nat) : Engine :=
  let engine := engine.happenUntil limit (3 * (limit + 1 - engine.now))
  { engine with now := max engine.now limit }

/-- Lets everything happen that can happen now. -/
def catchUp (engine : Engine) : Engine := engine.passUntil engine.now

/-- Lets a span of time pass. -/
def sleep (engine : Engine) (span : Nat) : Engine := engine.passUntil (engine.after span)

/-- Lets time pass until a run is over, over at most a given number of waits. -/
def passUntilOver (number : Nat) : Nat → Engine → Engine
  | 0, engine => engine
  | waits + 1, engine =>
    match engine.report? number, engine.run with
    | none, some run => passUntilOver number waits (engine.passUntil run.due)
    | _, _ => engine

/-- The number of waits that the present run has at most before it. -/
def waitsLeft (engine : Engine) : Nat :=
  match engine.run with
  | none => 0
  | some run =>
    match run.stage with
    | .spawned => engine.selector.candidates.paths.length + 1
    | .settling probe index => probe.paths.length - index

/-- Waits for the run that was triggered last and has not been waited for, and returns its
report. -/
def await (engine : Engine) : Engine × Option Report :=
  match engine.awaitable with
  | [] => (engine, none)
  | number :: rest =>
    let engine := { engine with awaitable := rest }.passUntilOver number engine.waitsLeft
    (engine, engine.report? number)

end TrafficSteering.Engine
