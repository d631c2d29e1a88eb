import TrafficSteering.Control.Session
import TrafficSteering.Installer
import TrafficSteering.Selector
import TrafficSteering.Settings
import TrafficSteering.Storage
import TrafficSteering.Throughput.Recorder
set_option autoImplicit false

/-!
# The engine

The engine ties path selection, rules, measuring, and the runs that switch paths together.  Time is
a number of milliseconds.  Everything that goes on by itself, a switch run or the monitor, is a part
of the state with the time at which it is due.

At most one switch run goes on at a time.  Whoever wants to start one, or to force a new choice,
needs the one permit of the guard.

What an engine does is written down as it happens, each occurrence together with the moment at which
it happened.  Nothing in the engine reads this history.
-/

namespace TrafficSteering

/-- The guard of the one permit. -/
structure Guard where
  /-- Whether somebody holds the permit. -/
  busy : Bool := false
  deriving DecidableEq, Repr

/-- The guard after the permit has been taken, if nobody held it. -/
def Guard.tryBegin? (guard : Guard) : Option Guard :=
  if guard.busy then none else some { busy := true }

/-- The guard after the permit has been given back. -/
def Guard.release (_ : Guard) : Guard := { busy := false }

/-- What a switch run is doing. -/
inductive Phase where
  | idle
  /-- Trying the candidate at a place. -/
  | probing (index : Nat)
  | installing
  deriving DecidableEq, Repr

/-- What a switch run has come to. -/
structure Report where
  generation : Nat
  /-- The recorded throughput of each candidate. -/
  throughputs : List UInt32 := []
  selected : Option Nat := none
  committed : Bool := false
  elapsed : Nat := 0
  deriving DecidableEq, Repr

/-- What a switch run works on: the candidates, their generation, and the installed graph as they
were at its start. -/
structure Probe where
  started : Nat
  generation : Nat
  routing : Routing
  paths : List Path
  deriving DecidableEq, Repr

/-- How far a switch run is. -/
inductive Stage where
  /-- It has the permit and nothing else. -/
  | spawned
  /-- The candidate at a place is being installed, or settles. -/
  | settling (probe : Probe) (index : Nat)
  deriving DecidableEq, Repr

structure Run where
  number : Nat
  stage : Stage
  /-- When the run goes on. -/
  due : Nat
  deriving DecidableEq, Repr

/-- The monitor, which looks at the active path once in a period. -/
inductive Monitor where
  /-- It has never been started, or its shutdown line is gone. -/
  | off
  /-- It looks next at the given time. -/
  | waiting (due : Nat)
  /-- It has been told to end. -/
  | ended
  deriving DecidableEq, Repr

/-- What one look of the monitor comes to. -/
inductive MonitorOutcome where
  /-- There is no traffic session. -/
  | inactive
  /-- Somebody holds the permit. -/
  | busy
  | noActivePath
  /-- There is no reading for the active path. -/
  | noData
  /-- The throughput is at or below the congestion band. -/
  | idle (index : Nat) (kbps : UInt32)
  /-- The throughput is at or above the congestion band. -/
  | healthy (index : Nat) (kbps : UInt32)
  /-- The throughput is inside the congestion band, and a switch run begins. -/
  | scheduled (index : Nat) (kbps : UInt32)
  deriving DecidableEq, Repr

/-- Something that others do just before the next reading or the next rule. -/
inductive Interjection where
  | grab
  | disable
  | reroute
  | update (report : Snapshot)
  | select (src dst : SwitchId)
  deriving DecidableEq, Repr

/-! ## Occurrences -/

/-- For what rules are computed. -/
inductive Purpose where
  | packet (packet : Packet)
  | reroute
  /-- A switch run tries the candidate at a place. -/
  | candidate (run index : Nat)
  /-- A switch run installs the candidate that it has selected. -/
  | winner (run index : Nat)
  deriving DecidableEq, Repr

/-- Rules are computed from a path and a graph. -/
structure Computation where
  purpose : Purpose
  path : Path
  /-- The generation of the graph on which the path was found. -/
  found : Nat
  /-- The graph from which the rules take their ports. -/
  routing : Routing
  deriving DecidableEq, Repr

/-- One of the candidates of a generation is measured. -/
structure Measurement where
  graph : Graph
  generation : Nat
  paths : List Path
  index : Nat
  answer : Option UInt32
  deriving DecidableEq, Repr

/-- What an engine does. -/
inductive Occurrence where
  /-- Others interject something. -/
  | interjected (interjection : Interjection)
  | computed (computation : Computation)
  /-- A rule is offered to the data plane. -/
  | offered (rule : Rule)
  /-- A switch run takes up its candidates, and the table follows them. -/
  | tookUp (run : Nat) (probe : Probe)
  | measured (measurement : Measurement)
  /-- The table is called from outside. -/
  | called (call : ThroughputTable.Call)
  deriving DecidableEq, Repr

/-! ## Engines -/

/-- The engine and everything around it, at one moment. -/
structure Moment where
  settings : Settings
  forum : SelectorForum
  recorder : Recorder := {}
  plane : DataPlane := {}
  guard : Guard := {}
  phase : Phase := .idle
  /-- The switch run that goes on. -/
  run : Option Run := none
  /-- How many switch runs have been started. -/
  runsStarted : Nat := 0
  /-- The reports of the runs that are over, by the number of the run. -/
  reports : List (Nat × Report) := []
  /-- The runs whose reports can be waited for, the last one first. -/
  awaitable : List Nat := []
  monitor : Monitor := .off
  /-- How many permits callers keep. -/
  kept : Nat := 0
  /-- How many forced choices hold a permit. -/
  forcing : Nat := 0
  beforeReading : Option Interjection := none
  beforeRule : Option Interjection := none
  now : Nat := 0

/-- Something that an engine did, and the moment at which it did it. -/
structure Entry where
  found : Moment
  occurrence : Occurrence

/-- An engine at the present moment, and what it has done so far, the last thing first. -/
structure Engine extends Moment where
  history : List Entry := []

namespace Moment

/-- The selector of the engine. -/
def selector (moment : Moment) : Selector := moment.forum.state

/-- The hosts and pairs of the configuration. -/
def installer (moment : Moment) : Installer := ⟨moment.settings.hosts, moment.settings.pairs⟩

end Moment

namespace Engine

/-- Writes down what the engine does. -/
def note (engine : Engine) (occurrence : Occurrence) : Engine :=
  { engine with history := ⟨engine.toMoment, occurrence⟩ :: engine.history }

/-- The longest time that anything waits, in milliseconds: thirty years of 365 days. -/
def longestWait : Nat := 30 * 365 * 24 * 60 * 60 * 1000

/-- The time at which a wait is over that begins now. -/
def after (engine : Engine) (span : Nat) : Nat := engine.now + min span longestWait

/-- An engine without a topology. -/
def idle (settings : Settings) : Engine where
  settings := settings
  forum := { state := { expected := settings.expected } }
  recorder := { log := settings.log.map fun _ => [] }

/-- Takes in a topology report. -/
def update (engine : Engine) (report : Snapshot) : Engine × Except Fault Bool :=
  let (forum, answer) := engine.forum.update report
  ({ engine with forum }, answer)

/-- Builds an engine: the conditions on the configuration are tested first, then the log is created,
and then the topology of the configuration is taken in.  A topology that makes no graph is a fault;
one of an unexpected size only leaves routing disabled. -/
def build (storage : Storage) (settings : Settings) : Except Fault Engine :=
  match settings.validate with
  | .error cause => .error (.settings cause)
  | .ok () =>
    match settings.log.elim (.ok ()) storage.create with
    | .error cause => .error (.system cause)
    | .ok () =>
      match settings.topology with
      | none => .ok (idle settings)
      | some report =>
        match (idle settings).update report with
        | (engine, .ok _) => .ok engine
        | (_, .error fault) => .error fault

/-- Performs an operation of the selector and announces what it brings about. -/
def perform {α : Type} (engine : Engine) (operation : Selector → Outcome Selector α) :
    Engine × α :=
  let (forum, answer) := engine.forum.perform operation
  ({ engine with forum }, answer)

/-- Withdraws the graph. -/
def disable (engine : Engine) : Engine :=
  { engine with forum := engine.forum.modify Selector.disable }

/-- Takes the permit and keeps it, if nobody holds it. -/
def grab (engine : Engine) : Engine × Bool :=
  match engine.guard.tryBegin? with
  | some guard => ({ engine with guard, kept := engine.kept + 1 }, true)
  | none => (engine, false)

/-- Gives back a permit that was kept, if there is one. -/
def release (engine : Engine) : Engine × Bool :=
  if engine.kept = 0 then (engine, false)
  else ({ engine with guard := engine.guard.release, kept := engine.kept - 1 }, true)

/-- The same engine with no calls and no rules written down yet. -/
def forget (engine : Engine) : Engine :=
  { engine with forum := engine.forum.forget, plane := engine.plane.drain }

end Engine

end TrafficSteering
