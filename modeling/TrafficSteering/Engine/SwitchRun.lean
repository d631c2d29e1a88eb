import TrafficSteering.Engine.Traffic
set_option autoImplicit false

/-!
# Switch runs

A switch run tries the candidates in order.  Each one is installed, given time to settle, and
measured; a candidate that cannot be installed is passed over at once.  Then the best one is
installed and made active, unless the candidates have been replaced in the meantime.  The run holds
the permit from the moment it is triggered until it is over.

A run stops only where it waits for a candidate to settle, so a step of the engine takes it from one
wait to the next.
-/

namespace TrafficSteering.Engine

/-- Takes the permit and begins a run, if nobody holds the permit.  Returns the number of the
run. -/
def trigger (engine : Engine) : Engine × Option Nat :=
  match engine.guard.tryBegin? with
  | none => (engine, none)
  | some guard =>
    let number := engine.runsStarted
    ({ engine with
        guard
        run := some { number, stage := .spawned, due := engine.now }
        runsStarted := number + 1 }, some number)

/-- Ends a run: the report is filed and the permit is given back. -/
def finishRun (engine : Engine) (number : Nat) (report : Report) : Engine :=
  { engine with
    run := none
    guard := engine.guard.release
    reports := engine.reports ++ [(number, report)] }

/-- Installs the winner and makes it active.  Returns whether it became active. -/
def installWinner (engine : Engine) (number : Nat) (probe : Probe) (winner : Option Nat) :
    Engine × Bool :=
  match winner with
  | none => (engine, false)
  | some index =>
    match probe.paths[index]? with
    | none => (engine, false)
    | some path =>
      match engine.installPath ⟨.winner number index, path, probe.generation, probe.routing⟩ with
      | (engine, .ok _) => engine.perform fun selector => selector.commit probe.generation index
      | (engine, .error _) => (engine, false)

/-- Concludes a run after the last candidate. -/
def conclude (engine : Engine) (number : Nat) (probe : Probe) : Engine :=
  let engine := { engine with phase := .installing }
  let throughputs := engine.recorder.table.samples
  let selected := engine.recorder.table.best?.map Prod.fst
  let (engine, committed) := engine.installWinner number probe selected
  { engine with phase := .idle }.finishRun number
    { generation := probe.generation, throughputs, selected, committed
      elapsed := engine.now - probe.started }

/-- Tries candidates from a place on, up to the first that can be installed, and waits for it to
settle.  Concludes the run if none can be installed. -/
def tryFrom (engine : Engine) (number : Nat) (probe : Probe) (index : Nat) : List Path → Engine
  | [] => engine.conclude number probe
  | path :: rest =>
    let engine : Engine :=
      { engine with
        phase := .probing index
        run := some { number, stage := .settling probe index, due := engine.now } }
    match engine.installPath ⟨.candidate number index, path, probe.generation, probe.routing⟩ with
    | (engine, .error _) => engine.tryFrom number probe (index + 1) rest
    | (engine, .ok _) =>
      { engine with
        run := some { number, stage := .settling probe index
                      due := engine.after engine.settings.settlePeriod } }

/-- Takes up the candidates of a run: from now on the table follows them. -/
def takeUp (engine : Engine) (number : Nat) (probe : Probe) : Engine :=
  let table := engine.recorder.table.align probe.generation probe.paths.length
  { engine.note (.tookUp number probe) with recorder := { engine.recorder with table } }

/-- Begins the work of a run.  Without candidates on the present graph there is nothing to do. -/
def beginRun (engine : Engine) (number : Nat) : Engine :=
  let candidates := engine.selector.candidates
  match engine.selector.routing with
  | some routing =>
    if routing.generation = candidates.generation ∧ candidates.paths ≠ [] then
      let probe : Probe := ⟨engine.now, candidates.generation, routing, candidates.paths⟩
      (engine.takeUp number probe).tryFrom number probe 0 probe.paths
    else engine.finishRun number { generation := candidates.generation }
  | none => engine.finishRun number { generation := candidates.generation }

/-- Takes a run that is due to its next wait or to its end. -/
def resumeRun (engine : Engine) (run : Run) : Engine :=
  match run.stage with
  | .spawned => engine.beginRun run.number
  | .settling probe index =>
    let (engine, _) := engine.measure probe.routing.graph probe.generation probe.paths index
    engine.tryFrom run.number probe (index + 1) (probe.paths.drop (index + 1))

/-- The report of a run that is over. -/
def report? (engine : Engine) (number : Nat) : Option Report := engine.reports.lookup number

end TrafficSteering.Engine
