import TrafficSteering.Flow
import TrafficSteering.Topology.Json
set_option autoImplicit false

/-!
# JSON forms of flows

Addresses are texts.  The two routed types are their names, any other type is its number under the
name `Other`, and a named type may also be written as an object with the value `null`.  A pair of
hosts is an array of two addresses and has no form with names.
-/

namespace TrafficSteering

open Json (Decoder Fields)

namespace Address.IPv4

/-- An address as its printed form. -/
def toJson (ip : IPv4) : Json := .text ip.render

end Address.IPv4

namespace EtherType

/-- A type as its name, or as its number under the name `Other`. -/
def toJson : EtherType → Json
  | .ipv4 => .text "Ipv4"
  | .arp => .text "Arp"
  | .other number => .record [("Other", .natural number.toNat)]

/-- The routed type with a given name. -/
def ofName? (name : String) : Option EtherType :=
  if name = "Ipv4" then some .ipv4 else if name = "Arp" then some .arp else none

/-- Reads a type. -/
def decode : Decoder EtherType
  | .string (some name) =>
    match ofName? name with
    | some type => .ok type
    | none => .error .unexpected
  | .object [(some name, value)] =>
    if name = "Other" then .other <$> Json.decodeUInt16 value
    else match ofName? name, value with
      | some type, .null => .ok type
      | _, _ => .error (Json.mismatch value)
  | value => .error (Json.mismatch value)

end EtherType

namespace FlowMatch

/-- A match as a record of three fields. -/
def toJson (flow : FlowMatch) : Json :=
  .record [("eth_type", flow.etherType.toJson), ("ipv4_src", flow.src.toJson),
    ("ipv4_dst", flow.dst.toJson)]

/-- The fields of a match. -/
def fields : Fields FlowMatch :=
  FlowMatch.mk <$> .required "eth_type" EtherType.decode <*>
    .required "ipv4_src" Json.decodeIPv4 <*> .required "ipv4_dst" Json.decodeIPv4

/-- Reads a match. -/
def decode : Decoder FlowMatch := fields.decoder

end FlowMatch

namespace Rule

/-- A rule as a record of six fields. -/
def toJson (rule : Rule) : Json :=
  .record [("switch", rule.switch.toJson), ("flow_match", rule.flow.toJson),
    ("out_port", rule.out.toJson), ("priority", .natural rule.priority.toNat),
    ("idle_timeout", .natural rule.idleTimeout.toNat),
    ("hard_timeout", .natural rule.hardTimeout.toNat)]

/-- The fields of a rule. -/
def fields : Fields Rule :=
  Rule.mk <$> .required "switch" SwitchId.decode <*> .required "flow_match" FlowMatch.decode <*>
    .required "out_port" PortNo.decode <*> .required "priority" Json.decodeUInt16 <*>
    .required "idle_timeout" Json.decodeUInt16 <*> .required "hard_timeout" Json.decodeUInt16

/-- Reads a rule. -/
def decode : Decoder Rule := fields.decoder

end Rule

namespace HostBinding

/-- A binding as a record of three fields. -/
def toJson (binding : HostBinding) : Json :=
  .record [("ip", binding.ip.toJson), ("switch", binding.switch.toJson),
    ("port", binding.port.toJson)]

/-- The fields of a binding. -/
def fields : Fields HostBinding :=
  HostBinding.mk <$> .required "ip" Json.decodeIPv4 <*> .required "switch" SwitchId.decode <*>
    .required "port" PortNo.decode

/-- Reads a binding. -/
def decode : Decoder HostBinding := fields.decoder

end HostBinding

namespace HostPair

/-- A pair as an array of two addresses. -/
def toJson (pair : HostPair) : Json := .array [pair.first.toJson, pair.second.toJson]

/-- The two addresses in the order of the array. -/
def fields : Fields HostPair :=
  HostPair.mk <$> .required "0" Json.decodeIPv4 <*> .required "1" Json.decodeIPv4

/-- Reads a pair. -/
def decode : Decoder HostPair
  | .array elements => fields.decoder (.array elements)
  | other => .error (Json.mismatch other)

end HostPair

end TrafficSteering
