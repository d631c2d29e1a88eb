import TrafficSteering.Graph
set_option autoImplicit false

/-!
# Readings

The bandwidth of switch ports, as the last poll reported it, and the port at which the throughput of
a path is read: the one by which the last but one switch sends to the last.
-/

namespace TrafficSteering

/-- The bits per second that a port receives and sends. -/
structure Reading where
  received : UInt64
  sent : UInt64
  deriving DecidableEq, Repr

/-- The throughput of both directions in kilobits per second, rounded down.  The sum stops at the
largest 64-bit number and the result at the largest 32-bit number. -/
def Reading.kbps (reading : Reading) : UInt32 :=
  let total := min (reading.received.toNat + reading.sent.toNat) (UInt64.size - 1)
  UInt32.ofNat (min (total / 1000) (UInt32.size - 1))

/-- A port of a switch. -/
structure Interface where
  switch : SwitchId
  port : PortNo
  deriving DecidableEq, Hashable, Repr

/-- The last readings of the ports that have one. -/
structure Telemetry where
  readings : List (Interface × Reading) := []
  deriving DecidableEq, Repr

namespace Telemetry

/-- Takes in a reading, in place of the one before. -/
def set (telemetry : Telemetry) (interface : Interface) (reading : Reading) : Telemetry :=
  ⟨(interface, reading) :: telemetry.readings.filter fun entry => entry.1 != interface⟩

def clear (telemetry : Telemetry) (interface : Interface) : Telemetry :=
  ⟨telemetry.readings.filter fun entry => entry.1 != interface⟩

def read? (telemetry : Telemetry) (interface : Interface) : Option Reading :=
  telemetry.readings.lookup interface

end Telemetry

/-- The port at which the throughput of a path is read, if the path ends with an edge. -/
def Graph.measuredAt? (graph : Graph) (path : Path) : Option Interface := do
  let (switch, last) ← path.lastHop?
  let edge ← graph.edge? switch last
  return ⟨switch, edge.port⟩

/-- The present throughput of a path in kilobits per second. -/
def Telemetry.sample? (telemetry : Telemetry) (graph : Graph) (path : Path) : Option UInt32 := do
  let interface ← graph.measuredAt? path
  let reading ← telemetry.read? interface
  return reading.kbps

end TrafficSteering
