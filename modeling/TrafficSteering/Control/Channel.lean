import TrafficSteering.Control.Session
import TrafficSteering.Fault
set_option autoImplicit false

/-!
# The control channel

The channel listens on a socket and serves one client at a time; the next one waits with everything
it has sent so far.  A signal on the shutdown line ends the channel: while it waits for a client,
only if the signal says so or the line is gone, and during a session in any case.

Whether attempts to connect reach the channel is up to the network.
-/

namespace TrafficSteering

/-- What a waiting client has done so far. -/
structure Backlog where
  client : Nat
  sent : List UInt8 := []
  /-- How the client has ended the connection, if it has. -/
  ending : Option SessionEnd := none
  deriving DecidableEq, Repr

/-- What an attempt of a client comes to. -/
inductive ClientAnswer where
  | done
  /-- Nobody answers. -/
  | refused
  /-- The connection is gone. -/
  | broken
  /-- The client has never been connected. -/
  | unknownClient
  deriving DecidableEq, Repr

/-- A control channel and its clients. -/
structure Channel where
  /-- Whether attempts to connect reach the channel. -/
  reachable : Bool := true
  running : Bool := true
  /-- The client that is being served. -/
  served : Option (Nat × Session) := none
  /-- The clients that wait, in order. -/
  waiting : List Backlog := []
  /-- The clients that have been connected. -/
  known : List Nat := []
  deriving DecidableEq, Repr

namespace Channel

/-- Serves waiting clients until one stays, and returns their commands. -/
def serveNext (channel : Channel) : List Backlog → Channel × List Command
  | [] => ({ channel with served := none, waiting := [] }, [])
  | backlog :: rest =>
    match backlog.ending with
    | none =>
      let (session, commands) := Session.feedAll {} backlog.sent
      ({ channel with served := some (backlog.client, session), waiting := rest }, commands)
    | some .closed =>
      let (commands, _) := Session.serve [.data backlog.sent]
      let (channel, others) := serveNext channel rest
      (channel, commands ++ others)
    | some .failed => serveNext channel rest

def connect (channel : Channel) (client : Nat) : Channel × ClientAnswer :=
  if channel.running && channel.reachable then
    let channel := { channel with known := client :: channel.known }
    if channel.served.isSome then
      ({ channel with waiting := channel.waiting ++ [{ client := client }] }, .done)
    else ({ channel with served := some (client, {}) }, .done)
  else (channel, .refused)

/-- Changes what a waiting client has done. -/
def updateWaiting (channel : Channel) (client : Nat) (change : Backlog → Backlog) : Channel :=
  { channel with waiting := channel.waiting.map fun backlog =>
      if backlog.client = client then change backlog else backlog }

/-- A client sends bytes.  Returns the commands that are carried out. -/
def send (channel : Channel) (client : Nat) (bytes : List UInt8) :
    Channel × ClientAnswer × List Command :=
  if !channel.known.contains client then (channel, .unknownClient, [])
  else if !channel.running then (channel, .broken, [])
  else match channel.served with
    | some (current, session) =>
      if current = client then
        let (session, commands) := session.feedAll bytes
        ({ channel with served := some (client, session) }, .done, commands)
      else (channel.updateWaiting client fun backlog =>
        { backlog with sent := backlog.sent ++ bytes }, .done, [])
    | none => (channel, .broken, [])

/-- A client ends its connection, if it has one.  Returns the commands that are carried out: that of
its last line unless the connection is cut off, and those of clients whose turn it is then. -/
def leave (channel : Channel) (client : Nat) (ending : SessionEnd) :
    Channel × List Command :=
  if !channel.known.contains client then (channel, [])
  else
    let channel := { channel with known := channel.known.filter (· != client) }
    if !channel.running then (channel, [])
    else match channel.served with
      | some (current, session) =>
        if current = client then
          let last := if ending = .closed then session.finish?.toList else []
          let (channel, commands) := channel.serveNext channel.waiting
          (channel, last ++ commands)
        else (channel.updateWaiting client fun backlog =>
          { backlog with ending := some ending }, [])
      | none => (channel, [])

/-- A signal on the shutdown line; without a value, the line is gone. -/
def signal (channel : Channel) (value : Option Bool) : Channel :=
  if channel.served.isNone && value = some false then channel
  else { channel with running := false, served := none, waiting := [] }

/-- Tries to listen on the same socket once more. -/
def bindAgain (channel : Channel) : Except Fault Unit :=
  if channel.running then .error (.system .addressInUse) else .ok ()

end Channel

end TrafficSteering
