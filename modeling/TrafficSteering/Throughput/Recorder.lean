import TrafficSteering.Throughput.Reading
import TrafficSteering.Throughput.Table
set_option autoImplicit false

/-!
# Measuring

The recorder samples candidates through telemetry, keeps the values in its table and, if a log is
kept, appends a line for each value.
-/

namespace TrafficSteering

/-- One line of the throughput log. -/
structure LogEntry where
  index : Nat
  kbps : UInt32
  deriving DecidableEq, Repr

/-- A log entry on one line. -/
def LogEntry.render (entry : LogEntry) : String :=
  "path=" ++ toString entry.index ++ " kbps=" ++ toString entry.kbps.toNat

/-- Telemetry, the values recorded from it, and the log if there is one. -/
structure Recorder where
  telemetry : Telemetry := {}
  table : ThroughputTable := {}
  log : Option (List LogEntry) := none
  deriving DecidableEq, Repr

namespace Recorder

/-- Samples one of the candidates of a generation and records the value.  Returns the recorded
value, which is not the sample if a zero was ignored, or nothing if there is no reading. -/
def measure (recorder : Recorder) (graph : Graph) (generation : Nat) (paths : List Path)
    (index : Nat) : Recorder × Option UInt32 :=
  match paths[index]?.bind (recorder.telemetry.sample? graph) with
  | none => (recorder, none)
  | some kbps =>
    let aligned := recorder.table.align generation paths.length
    let (table, recorded) := aligned.record generation index kbps
    match recorded with
    | none => ({ recorder with table }, none)
    | some value =>
      ({ recorder with table, log := recorder.log.map (· ++ [⟨index, value⟩]) }, some value)

end Recorder

end TrafficSteering
