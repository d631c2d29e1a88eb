import TrafficSteering.Engine.SwitchRun
set_option autoImplicit false

/-!
# Monitoring

The monitor measures the active path and starts a switch run if the recorded throughput lies inside
the congestion band.  It does nothing outside a traffic session and while somebody holds the
permit.
-/

namespace TrafficSteering.Engine

/-- Judges a recorded throughput of the active path. -/
def judge (engine : Engine) (index : Nat) (kbps : UInt32) : Engine × MonitorOutcome :=
  if engine.settings.congestion.isCongested kbps then
    match engine.trigger with
    | (engine, some _) => (engine, .scheduled index kbps)
    | (engine, none) => (engine, .busy)
  else if kbps ≤ engine.settings.congestion.lower then (engine, .idle index kbps)
  else (engine, .healthy index kbps)

/-- Looks at the active path once. -/
def tick (engine : Engine) : Engine × MonitorOutcome :=
  if !engine.selector.session then (engine, .inactive)
  else if engine.guard.busy then (engine, .busy)
  else
    let candidates := engine.selector.candidates
    match candidates.activePath?, engine.selector.routing with
    | some (index, _), some routing =>
      if routing.generation = candidates.generation then
        match engine.measure routing.graph candidates.generation candidates.paths index with
        | (engine, some kbps) => engine.judge index kbps
        | (engine, none) => (engine, .noData)
      else (engine, .noActivePath)
    | _, _ => (engine, .noActivePath)

/-- Starts the monitor.  It looks at once and then once in a period. -/
def startMonitor (engine : Engine) : Engine := { engine with monitor := .waiting engine.now }

/-- Lets the monitor look when it is due. -/
def resumeMonitor (engine : Engine) : Engine :=
  let (engine, _) := engine.tick
  { engine with monitor := .waiting (engine.after engine.settings.monitorPeriod) }

/-- A signal on the shutdown line of the monitor; without a value, the line is gone.  Returns
whether the monitor has ended, if there is a line to a monitor. -/
def signal (engine : Engine) (value : Option Bool) : Engine × Option Bool :=
  match engine.monitor, value with
  | .off, _ => (engine, none)
  | .waiting _, some false => (engine, some false)
  | _, some _ => ({ engine with monitor := .ended }, some true)
  | _, none => ({ engine with monitor := .off }, some true)

end TrafficSteering.Engine
