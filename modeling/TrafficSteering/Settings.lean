import TrafficSteering.Fault
set_option autoImplicit false

/-!
# Settings

What the controller is configured with, the defaults, and the conditions that a configuration has to
meet: no period is zero, the congestion band is not empty, and every steered host has a binding.
-/

namespace TrafficSteering

open Address (Endpoint)

/-- The throughputs in kilobits per second that count as congestion: those strictly between the two
bounds.  At or below the lower bound a path is idle, at or above the upper one it is healthy. -/
structure CongestionBand where
  lower : UInt32 := 100
  upper : UInt32 := 1000
  deriving DecidableEq, Repr

/-- Whether a throughput lies strictly inside the band. -/
def CongestionBand.isCongested (band : CongestionBand) (kbps : UInt32) : Bool :=
  band.lower < kbps && kbps < band.upper

/-- The configuration of the controller.  Periods are in milliseconds. -/
structure Settings where
  /-- Where the control channel listens. -/
  control : Endpoint := .v4 ⟨127, 0, 0, 1⟩ 6655
  /-- The time between two looks at the active path. -/
  monitorPeriod : Nat := 2000
  /-- The time between the installation of a candidate and its measurement. -/
  settlePeriod : Nat := 2000
  congestion : CongestionBand := {}
  expected : ExpectedSize := {}
  hosts : List HostBinding := []
  pairs : List HostPair := []
  /-- A topology to start with. -/
  topology : Option Snapshot := none
  /-- The file that throughput samples are appended to. -/
  log : Option String := none
  deriving DecidableEq, Repr

namespace Settings

/-- The first host of a steered pair, in order, that has no binding. -/
def firstUnbound? (settings : Settings) : Option Address.IPv4 :=
  (settings.pairs.flatMap fun pair => [pair.first, pair.second]).find? fun ip =>
    !settings.hosts.any fun binding => binding.ip == ip

/-- Tests the conditions that a configuration has to meet. -/
def validate (settings : Settings) : Except SettingsFault Unit :=
  if settings.monitorPeriod = 0 ∨ settings.settlePeriod = 0 then .error .zeroPeriod
  else if settings.congestion.upper ≤ settings.congestion.lower then
    .error (.emptyBand settings.congestion.lower settings.congestion.upper)
  else match settings.firstUnbound? with
    | some ip => .error (.unboundHost ip)
    | none => .ok ()

end Settings

end TrafficSteering
