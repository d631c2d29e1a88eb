import TrafficSteering.DataPlane
import TrafficSteering.Graph
set_option autoImplicit false

/-!
# Forwarding rules

Turns paths into rules.  A path carries every steered pair of hosts that is attached to its two
ends, in both directions: on each switch one rule forwards towards the far host and one back towards
the near host.  A packet handed to the controller gets the one rule for the switch it came from.
-/

namespace TrafficSteering

open Address (IPv4)

/-- Where hosts attach and which pairs of them are steered. -/
structure Installer where
  hosts : List HostBinding := []
  pairs : List HostPair := []
  deriving DecidableEq, Repr

namespace Installer

variable (installer : Installer)

/-- The binding of an address.  The last of several bindings of one address counts. -/
def host (ip : IPv4) : Except Fault HostBinding :=
  match installer.hosts.reverse.find? fun binding => binding.ip == ip with
  | some binding => .ok binding
  | none => .error (.unknownHost ip)

/-- The two hosts of a pair in path order, near and far, if they are attached to the ends. -/
def orient? (first last : SwitchId) (a b : HostBinding) : Option (HostBinding × HostBinding) :=
  if a.switch = first ∧ b.switch = last then some (a, b)
  else if b.switch = first ∧ a.switch = last then some (b, a)
  else none

/-- What IPv4 packets from one host to another match. -/
def flowBetween (src dst : HostBinding) : FlowMatch := ⟨.ipv4, src.ip, dst.ip⟩

/-- The port towards a neighbouring switch, or the port of a host where the path ends. -/
def portTowards (graph : Graph) (switch : SwitchId) (next : Option SwitchId) (host : HostBinding) :
    Except Fault PortNo :=
  match next with
  | some next => graph.egressPort switch next
  | none => .ok host.port

/-- The rules for two hosts along the rest of a path, given the switch before it. -/
def rulesAlong (graph : Graph) (near far : HostBinding) :
    Option SwitchId → List SwitchId → Except Fault (List Rule)
  | _, [] => .ok []
  | previous, switch :: rest => do
    let out ← portTowards graph switch rest.head? far
    let back ← portTowards graph switch previous near
    let others ← rulesAlong graph near far (some switch) rest
    return .permanent switch (flowBetween near far) out ::
      .permanent switch (flowBetween far near) back :: others

/-- The rules for one pair.  A pair that is not attached to the ends of the path has none. -/
def rulesForPair (graph : Graph) (path : Path) (first last : SwitchId) (pair : HostPair) :
    Except Fault (List Rule) := do
  let a ← installer.host pair.first
  let b ← installer.host pair.second
  match orient? first last a b with
  | some (near, far) => rulesAlong graph near far none path.switches
  | none => return []

/-- The rules for every steered pair that is attached to the ends of a path. -/
def rulesForPath (graph : Graph) (path : Path) : Except Fault (List Rule) :=
  match path.source?, path.destination? with
  | some first, some last =>
    List.flatten <$> installer.pairs.mapM (installer.rulesForPair graph path first last)
  | _, _ => .ok []

/-- The rule for a packet on the switch it came from, if that switch is on the path: towards the
next switch, or to the port of the receiving host on the last one. -/
def ruleForPacket (graph : Graph) (path : Path) (packet : Packet) :
    Except Fault (Option Rule) :=
  match path.position? packet.switch with
  | none => .ok none
  | some index => do
    let out ← match path.switches[index + 1]? with
      | some next => graph.egressPort packet.switch next
      | none => HostBinding.port <$> installer.host packet.dst
    return some (.permanent packet.switch ⟨packet.etherType, packet.src, packet.dst⟩ out)

/-! ## Installation

Rules are offered through a function on some state, so that whatever else happens at the time of an
offer can be a part of it. -/

variable {σ : Type} (offer : σ → Rule → σ × Except Fault Unit)

/-- Offers rules one after another, up to the first that is refused. -/
def offerAll (state : σ) : List Rule → σ × Except Fault Unit
  | [] => (state, .ok ())
  | rule :: rest =>
    match offer state rule with
    | (state, .ok ()) => offerAll state rest
    | (state, .error fault) => (state, .error fault)

/-- Computes the rules of a path, offers them if that succeeds, and returns their number. -/
def installPath (graph : Graph) (path : Path) (state : σ) : σ × Except Fault Nat :=
  match installer.rulesForPath graph path with
  | .error fault => (state, .error fault)
  | .ok rules =>
    match offerAll offer state rules with
    | (state, .ok ()) => (state, .ok rules.length)
    | (state, .error fault) => (state, .error fault)

/-- Computes the rule for a packet, offers it if there is one, and returns it. -/
def installForPacket (graph : Graph) (path : Path) (packet : Packet) (state : σ) :
    σ × Except Fault (Option Rule) :=
  match installer.ruleForPacket graph path packet with
  | .error fault => (state, .error fault)
  | .ok none => (state, .ok none)
  | .ok (some rule) =>
    match offer state rule with
    | (state, .ok ()) => (state, .ok (some rule))
    | (state, .error fault) => (state, .error fault)

end Installer

end TrafficSteering
