import TrafficSteering.Engine.Basic
import TrafficSteering.Settings.Json
set_option autoImplicit false

/-!
# The daemon

What the daemon says when it starts and when it is told to end, and how it reports that it cannot
start.  A configuration file that cannot be read is replaced by the defaults; one that can be read
but is not usable is a failure.
-/

namespace TrafficSteering

/-- How important a notice is. -/
inductive Level where
  | info
  | warn
  deriving DecidableEq, Repr

def Level.render : Level → String
  | .info => "INFO"
  | .warn => "WARN"

/-- A log event: a message and named values. -/
structure Notice where
  level : Level
  message : String
  values : List (String × String) := []
  deriving DecidableEq, Repr

namespace Notice

/-- The named values, each behind a blank. -/
def renderValues (notice : Notice) : String :=
  String.join (notice.values.map fun value => " " ++ value.1 ++ "=" ++ value.2)

/-- A notice of the daemon on one line. -/
def render (notice : Notice) : String :=
  notice.level.render ++ " adaptive_controller: " ++ notice.message ++ notice.renderValues

/-- The notice that a rule is installed, where rules are only logged. -/
def ofRule (rule : Rule) : Notice :=
  ⟨.info, "Install " ++ rule.render, [("priority", toString rule.priority.toNat)]⟩

end Notice

namespace Daemon

/-- Why the daemon does not come up: a fault, and what was being done if that has a name. -/
structure Failure where
  context : Option String := none
  fault : Fault
  deriving DecidableEq, Repr

/-- What a fault was caused by in turn. -/
def causesOf : Fault → List String
  | .system cause => [cause.message]
  | _ => []

/-- The causes of a failure, the nearest first. -/
def Failure.causes (failure : Failure) : List String :=
  match failure.context with
  | some _ => failure.fault.message :: causesOf failure.fault
  | none => causesOf failure.fault

/-- The lines in which the causes are listed below an empty line.  They are numbered if there are
several. -/
def causeLines : List String → List String
  | [] => []
  | [cause] => ["", "Caused by:", "    " ++ cause]
  | causes =>
    "" :: "Caused by:" :: causes.mapIdx fun index cause =>
      "    " ++ toString index ++ ": " ++ cause

/-- The lines in which a failure is reported. -/
def Failure.lines (failure : Failure) : List String :=
  ("Error: " ++ failure.context.getD failure.fault.message) :: causeLines failure.causes

/-- What the daemon knows of its surroundings. -/
structure Surroundings where
  storage : Storage
  fileName : String
  /-- Its contents, if it is there. -/
  contents : Option ByteArray
  /-- What comes of listening on a socket address. -/
  bind : Address.Endpoint → Except SystemFault Unit

/-- The version that the daemon announces. -/
def version : String := "0.1.0"

/-- The configuration to use, and the notice that the file could not be read, if so. -/
def loadSettings (surroundings : Surroundings) :
    Except Failure (Settings × List Notice) :=
  match Settings.load surroundings.contents with
  | .ok settings => .ok (settings, [])
  | .error (.system cause) =>
    .ok ({}, [⟨.warn, "Config " ++ surroundings.fileName ++ " not readable (" ++ cause.message ++
      "), using defaults", []⟩])
  | .error fault => .error ⟨some ("invalid config " ++ surroundings.fileName), fault⟩

/-- The notice that routing waits for a topology, if it does. -/
def waitingNotice (engine : Engine) : List Notice :=
  if engine.selector.isEnabled then []
  else [⟨.info, "Waiting for topology",
    [("switches", toString engine.settings.expected.switches),
     ("links", toString engine.settings.expected.links)]⟩]

/-- Brings the daemon up.  Returns what it says and, if it comes up, its engine. -/
def boot (surroundings : Surroundings) : List Notice × Except Failure Engine :=
  let hello : Notice := ⟨.info, "Adaptive controller v" ++ version, []⟩
  match loadSettings surroundings with
  | .error failure => ([hello], .error failure)
  | .ok (settings, notices) =>
    match Engine.build surroundings.storage settings with
    | .error fault => (hello :: notices, .error { fault := fault })
    | .ok engine =>
      let notices := hello :: notices ++ waitingNotice engine
      match surroundings.bind settings.control with
      | .error cause =>
        (notices, .error ⟨some ("cannot bind control channel on " ++ settings.control.render),
          .system cause⟩)
      | .ok () => (notices, .ok engine)

/-- What the daemon says when it is told to end. -/
def farewell : Notice := ⟨.info, "Shutting down", []⟩

/-- Everything the daemon says when it is started and then told to end, and its exit code. -/
def runOnce (surroundings : Surroundings) : List Notice × Except Failure Unit × UInt8 :=
  match boot surroundings with
  | (notices, .ok _) => (notices ++ [farewell], .ok (), 0)
  | (notices, .error failure) => (notices, .error failure, 1)

end Daemon

end TrafficSteering
