import TrafficSteering.Engine.Clock
set_option autoImplicit false

/-!
# Actions

Everything that can be done to an engine from outside, as one type, and what each action answers.
After each action, everything that can happen at that time does happen.  A run of the engine is a
list of actions.
-/

namespace TrafficSteering.Engine

/-- What can be done to an engine. -/
inductive Action where
  | listen (listener : Listener Selector.Request)
  | unlisten (listener : Handle)
  | disable
  | route (src dst : SwitchId)
  | allPaths (src dst : SwitchId)
  | select (src dst : SwitchId)
  /-- Make a candidate active; without a generation, the current one is meant. -/
  | commit (generation : Option Nat) (index : Nat)
  | candidates
  | packet (packet : Packet)
  | update (report : Snapshot)
  | start
  | stop
  | reroute
  | control (stream : List Chunk)
  /-- Set the reading of a port, or clear it. -/
  | telemetry (interface : Interface) (reading : Option Reading)
  | tick
  | measure (index : Nat)
  | table (call : ThroughputTable.Call)
  | trigger
  | await
  | grab
  | release
  /-- Set what the switches say about each further offer. -/
  | verdict (verdict : Nat → Rule → Option Refusal)
  /-- Limit the number of further rules, or lift the limit. -/
  | limit (room : Option Nat)
  /-- Interject something before the next reading. -/
  | beforeReading (interjection : Interjection)
  /-- Interject something before the next rule. -/
  | beforeRule (interjection : Interjection)
  | monitor
  /-- Signal the monitor; without a value, its shutdown line is gone. -/
  | signal (value : Option Bool)
  | sleep (span : Nat)
  | nothing

/-- Name the switch that rejects rules, or none. -/
def Action.reject (switch : Option SwitchId) : Action := .verdict (DataPlane.rejecting switch)

/-- What an action answers. -/
inductive Answer where
  | nothing
  | flag (value : Bool)
  | handle (listener : Handle)
  | fault (fault : Fault)
  | path (path : Option Path)
  | paths (paths : List Path)
  | selection (selection : Option Selection)
  | rule (rule : Option Rule)
  | ending (ending : SessionEnd)
  | outcome (outcome : MonitorOutcome)
  | kbps (kbps : Option UInt32)
  | table (answer : ThroughputTable.Answer)
  | report (report : Option Report)
  | ended (ended : Option Bool)
  deriving DecidableEq, Repr

/-- The answer of an operation that may fail. -/
def Answer.ofExcept {α : Type} (answer : α → Answer) : Except Fault α → Answer
  | .ok value => answer value
  | .error cause => .fault cause

/-- Does something to an engine, without what happens by itself afterwards. -/
def act (engine : Engine) : Action → Engine × Answer
  | .listen listener =>
    ({ engine with forum := engine.forum.enlist listener },
      .handle engine.forum.audience.nextHandle)
  | .unlisten listener =>
    ({ engine with forum := engine.forum.dismiss listener },
      .flag (engine.forum.audience.hasMember listener))
  | .disable => (engine.disable, .nothing)
  | .route src dst => (engine, .ofExcept .path (engine.selector.route src dst))
  | .allPaths src dst => (engine, .ofExcept .paths (engine.selector.allPaths src dst))
  | .select src dst =>
    let (engine, answer) := engine.perform fun selector => selector.select src dst
    (engine, .ofExcept .selection answer)
  | .commit generation index =>
    let (engine, answer) := engine.perform fun selector =>
      selector.commit (generation.getD selector.candidates.generation) index
    (engine, .flag answer)
  | .candidates => (engine, .paths engine.selector.candidates.paths)
  | .packet packet =>
    let (engine, answer) := engine.handlePacket packet
    (engine, .ofExcept .rule answer)
  | .update report =>
    let (engine, answer) := engine.update report
    (engine, .ofExcept .flag answer)
  | .start => (engine.start, .nothing)
  | .stop => (engine.stop, .nothing)
  | .reroute =>
    let (engine, answer) := engine.reroute
    (engine, .ofExcept .selection answer)
  | .control stream =>
    let (commands, ending) := Session.serve stream
    (commands.foldl obey engine, .ending ending)
  | .telemetry interface reading =>
    let telemetry := match reading with
      | some reading => engine.recorder.telemetry.set interface reading
      | none => engine.recorder.telemetry.clear interface
    ({ engine with recorder := { engine.recorder with telemetry } }, .nothing)
  | .tick =>
    let (engine, outcome) := engine.tick
    (engine, .outcome outcome)
  | .measure index =>
    let (engine, answer) := engine.measureNow index
    (engine, .ofExcept .kbps answer)
  | .table call =>
    let (table, answer) := engine.recorder.table.perform call
    ({ engine.note (.called call) with recorder := { engine.recorder with table } },
      .table answer)
  | .trigger =>
    match engine.trigger with
    | (engine, some number) =>
      ({ engine with awaitable := number :: engine.awaitable }, .flag true)
    | (engine, none) => (engine, .flag false)
  | .await =>
    let (engine, report) := engine.await
    (engine, .report report)
  | .grab =>
    let (engine, taken) := engine.grab
    (engine, .flag taken)
  | .release =>
    let (engine, given) := engine.release
    (engine, .flag given)
  | .verdict verdict => ({ engine with plane := { engine.plane with verdict } }, .nothing)
  | .limit room => ({ engine with plane := { engine.plane with room } }, .nothing)
  | .beforeReading interjection => ({ engine with beforeReading := some interjection }, .nothing)
  | .beforeRule interjection => ({ engine with beforeRule := some interjection }, .nothing)
  | .monitor => (engine.startMonitor, .nothing)
  | .signal value =>
    let (engine, ended) := engine.signal value
    (engine, .ended ended)
  | .sleep span => (engine.sleep span, .nothing)
  | .nothing => (engine, .nothing)

/-- Does something to an engine and lets everything happen that then can. -/
def step (engine : Engine) (action : Action) : Engine × Answer :=
  let (engine, answer) := engine.act action
  (engine.catchUp, answer)

/-- Does one thing after another. -/
def play (engine : Engine) (actions : List Action) : Engine :=
  actions.foldl (fun engine action => (engine.step action).1) engine

end TrafficSteering.Engine
