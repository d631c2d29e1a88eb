import TrafficSteering.Daemon
import TrafficSteering.Engine.Action
import TrafficSteering.Network
set_option autoImplicit false

/-!
# The command line

Brings the daemon up with the configuration file that the environment names.  Commands are taken
from standard input, as from one control session, and the end of the input tells the daemon to end.
-/

open TrafficSteering

/-- The configuration file if the environment names none. -/
def defaultConfigFile : String := "/etc/adaptive/controller.json"

/-- The contents of a file, if it can be read. -/
def readContents (fileName : String) : IO (Option ByteArray) := do
  try
    return some (← IO.FS.readBinFile fileName)
  catch _ => return none

/-- Whether a file or directory can be opened. -/
def canOpen (path : String) : IO Bool := do
  try
    IO.FS.withFile path .read fun _ => return true
  catch _ => return false

/-- What is at a place, if anything is. -/
def entryAt? (absolute : Bool) (place : List String) :
    IO (Option (List String × EntryKind)) := do
  let path := (if absolute then "/" else "") ++ String.intercalate "/" place
  if ← canOpen (path ++ "/.") then return some (place, .directory)
  else if ← canOpen path then return some (place, .file)
  else return none

/-- What has to be known of the files and directories to create the log file of a
configuration. -/
def storageFor (contents : Option ByteArray) : IO Storage := do
  match Settings.load contents with
  | .ok { log := some path, .. } =>
    let places := Storage.placesFrom [] (Storage.names path)
    return { entries := ← places.filterMapM (entryAt? (Storage.isAbsolute path)) }
  | _ => return { entries := [] }

/-- Everything on standard input. -/
def readInput : IO (List UInt8) := do
  let bytes ← (← IO.getStdin).readToEnd
  return bytes.toUTF8.toList

/-- Writes the throughput log, if there is one. -/
def writeLog (engine : Engine) : IO Unit :=
  match engine.settings.log, engine.recorder.log with
  | some fileName, some entries =>
    IO.FS.writeFile fileName (String.join (entries.map fun entry => entry.render ++ "\n"))
  | _, _ => pure ()

def main : IO UInt32 := do
  let fileName := (← IO.getEnv "CONFIG_PATH").getD defaultConfigFile
  let contents ← readContents fileName
  let storage ← storageFor contents
  let (notices, result) := Daemon.boot { storage, fileName, contents, bind := Network.listen {} }
  for notice in notices do
    IO.println notice.render
  match result with
  | .error failure =>
    for line in failure.lines do
      IO.eprintln line
    return 1
  | .ok engine =>
    let engine := engine.play [.monitor, .control [.data (← readInput)]]
    for rule in engine.plane.rules do
      IO.println (Notice.ofRule rule).render
    writeLog engine
    IO.println Daemon.farewell.render
    return 0
