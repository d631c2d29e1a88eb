import TrafficSteering.Address.IPv4
import TrafficSteering.Topology
set_option autoImplicit false

/-!
# Flows

What a switch matches on, the forwarding rules that steer a flow, where hosts attach to the fabric,
and the packets that switches hand to the controller.
-/

namespace TrafficSteering

open Address (IPv4)

/-- The type of an Ethernet payload. -/
inductive EtherType where
  | ipv4
  | arp
  /-- Any type, by its number.  The numbers of IPv4 and ARP may occur here too. -/
  | other (number : UInt16)
  deriving DecidableEq, Hashable, Repr

namespace EtherType

/-- The type with a given number. -/
def ofNumber (number : UInt16) : EtherType :=
  if number = 0x0800 then .ipv4 else if number = 0x0806 then .arp else .other number

/-- The number of a type. -/
def number : EtherType → UInt16
  | .ipv4 => 0x0800
  | .arp => 0x0806
  | .other number => number

/-- Whether packets of this type are routed. -/
def isRoutable : EtherType → Bool
  | .ipv4 | .arp => true
  | .other _ => false

/-- The name of a type. -/
def render : EtherType → String
  | .ipv4 => "Ipv4"
  | .arp => "Arp"
  | .other number => "Other(" ++ toString number.toNat ++ ")"

end EtherType

/-- The packets that a rule applies to. -/
structure FlowMatch where
  etherType : EtherType
  src : IPv4
  dst : IPv4
  deriving DecidableEq, Hashable, Repr

/-- A forwarding rule of one switch.  A timeout of zero never expires. -/
structure Rule where
  switch : SwitchId
  flow : FlowMatch
  /-- The port by which matching packets leave. -/
  out : PortNo
  priority : UInt16
  idleTimeout : UInt16
  hardTimeout : UInt16
  deriving DecidableEq, Hashable, Repr

namespace Rule

/-- The priority of the rules of steered flows. -/
def steeringPriority : UInt16 := 100

/-- A rule that never expires, at the priority of steered flows. -/
def permanent (switch : SwitchId) (flow : FlowMatch) (out : PortNo) : Rule :=
  ⟨switch, flow, out, steeringPriority, 0, 0⟩

/-- The switch, the match and the port of a rule. -/
def render (rule : Rule) : String :=
  "[SW-" ++ rule.switch.render ++ "] " ++ rule.flow.etherType.render ++ " " ++
    rule.flow.src.render ++ " -> " ++ rule.flow.dst.render ++ " out:" ++ toString rule.out

instance : ToString Rule := ⟨render⟩

end Rule

/-- Where a host attaches to the fabric. -/
structure HostBinding where
  ip : IPv4
  switch : SwitchId
  /-- The port of the switch that faces the host. -/
  port : PortNo
  deriving DecidableEq, Hashable, Repr

/-- Two hosts whose traffic is steered together, in both directions. -/
structure HostPair where
  first : IPv4
  second : IPv4
  deriving DecidableEq, Hashable, Repr

/-- The same two hosts in the opposite order. -/
def HostPair.reverse (pair : HostPair) : HostPair := ⟨pair.second, pair.first⟩

/-- A packet that a switch hands to the controller. -/
structure Packet where
  /-- The switch that received the packet. -/
  switch : SwitchId
  etherType : EtherType
  src : IPv4
  dst : IPv4
  deriving DecidableEq, Repr

end TrafficSteering
