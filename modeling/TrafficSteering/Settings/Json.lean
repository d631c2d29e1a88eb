import TrafficSteering.Flow.Json
import TrafficSteering.Settings
set_option autoImplicit false

/-!
# Configuration files

A configuration is a JSON record in which every field may be left out.  A file is loaded by decoding
its text and testing the conditions on a configuration; it is saved with one field on a line.
-/

namespace TrafficSteering

open Json (Decoder Fields)

namespace CongestionBand

/-- A band as a record of two fields. -/
def toJson (band : CongestionBand) : Json :=
  .record [("lower_kbps", .natural band.lower.toNat), ("upper_kbps", .natural band.upper.toNat)]

def fields : Fields CongestionBand :=
  CongestionBand.mk <$> .required "lower_kbps" Json.decodeUInt32 <*>
    .required "upper_kbps" Json.decodeUInt32

def decode : Decoder CongestionBand := fields.decoder

end CongestionBand

namespace Settings

/-- A value, or `null` in its absence. -/
def optionToJson {α : Type} (toJson : α → Json) : Option α → Json
  | some value => toJson value
  | none => .null

/-- A configuration as a record of nine fields. -/
def toJson (settings : Settings) : Json :=
  .record [
    ("control_addr", .text settings.control.render),
    ("monitor_period_ms", .natural settings.monitorPeriod),
    ("settle_period_ms", .natural settings.settlePeriod),
    ("congestion", settings.congestion.toJson),
    ("expected_topology", settings.expected.toJson),
    ("hosts", .array (settings.hosts.map HostBinding.toJson)),
    ("flow_pairs", .array (settings.pairs.map HostPair.toJson)),
    ("topology", optionToJson Snapshot.toJson settings.topology),
    ("throughput_log", optionToJson Json.text settings.log)]

/-- The fields of a configuration, with their defaults. -/
def fields : Fields Settings :=
  let default : Settings := {}
  Settings.mk <$> .withDefault "control_addr" Json.decodeEndpoint default.control
    <*> .withDefault "monitor_period_ms" (Json.decodeNatural UInt64.size) default.monitorPeriod
    <*> .withDefault "settle_period_ms" (Json.decodeNatural UInt64.size) default.settlePeriod
    <*> .withDefault "congestion" CongestionBand.decode default.congestion
    <*> .withDefault "expected_topology" ExpectedSize.decode default.expected
    <*> .withDefault "hosts" (Json.decodeList HostBinding.decode) default.hosts
    <*> .withDefault "flow_pairs" (Json.decodeList HostPair.decode) default.pairs
    <*> .withDefault "topology" (Json.decodeOption Snapshot.decode) default.topology
    <*> .withDefault "throughput_log" (Json.decodeOption Json.decodeText) default.log

/-- Reads a configuration without testing its conditions. -/
def decode : Decoder Settings := fields.decoder

/-- The configuration in a text, tested. -/
def ofText (text : String) : Except SettingsFault Settings :=
  match (Json.document text).decode decode with
  | .error cause => .error (.undecodable cause)
  | .ok settings => do
    settings.validate
    return settings

/-- The configuration in the contents of a file; a file that is not there has none. -/
def load (contents : Option ByteArray) : Except Fault Settings :=
  match contents with
  | none => .error (.system .notFound)
  | some bytes =>
    match String.fromUTF8? bytes with
    | none => .error (.system .notUtf8)
    | some text =>
      match ofText text with
      | .ok settings => .ok settings
      | .error cause => .error (.settings cause)

/-- The text that a configuration is saved as. -/
def save (settings : Settings) : String := settings.toJson.renderIndented

end Settings

end TrafficSteering
