import TrafficSteering.Json.Decoder
import TrafficSteering.Json.Printer
import TrafficSteering.Topology
set_option autoImplicit false

/-!
# JSON forms of the topology

Switches are texts, ports and weights are numbers, links and reports are records.  The weight of a
link may be left out, in which case it is one.
-/

namespace TrafficSteering

open Json (Decoder Fields)

namespace SwitchId

def toJson (id : SwitchId) : Json := .text id.render

/-- Reads any accepted form of a switch. -/
def decode : Decoder SwitchId := Json.decodeSwitchId

end SwitchId

namespace PortNo

def toJson (port : PortNo) : Json := .natural port.number.toNat

/-- Reads a port number of 32 bits. -/
def decode : Decoder PortNo := fun value => PortNo.mk <$> Json.decodeUInt32 value

end PortNo

namespace Link

/-- A link as a record of four fields. -/
def toJson (link : Link) : Json :=
  .record [("src", link.src.toJson), ("src_port", link.port.toJson), ("dst", link.dst.toJson),
    ("weight", .natural link.weight.toNat)]

def fields : Fields Link :=
  Link.mk <$> .required "src" SwitchId.decode <*> .required "src_port" PortNo.decode <*>
    .required "dst" SwitchId.decode <*> .withDefault "weight" Json.decodeUInt32 1

def decode : Decoder Link := fields.decoder

end Link

namespace Path

def toJson (path : Path) : Json := .array (path.switches.map SwitchId.toJson)

def decode : Decoder Path := fun value => Path.mk <$> Json.decodeList SwitchId.decode value

end Path

namespace Snapshot

/-- A report as a record of two fields. -/
def toJson (report : Snapshot) : Json :=
  .record [("switches", .array (report.switches.map SwitchId.toJson)),
    ("links", .array (report.links.map Link.toJson))]

def fields : Fields Snapshot :=
  Snapshot.mk <$> .required "switches" (Json.decodeList SwitchId.decode) <*>
    .required "links" (Json.decodeList Link.decode)

def decode : Decoder Snapshot := fields.decoder

end Snapshot

namespace ExpectedSize

/-- An expected size as a record of two fields. -/
def toJson (expected : ExpectedSize) : Json :=
  .record [("switches", .natural expected.switches), ("links", .natural expected.links)]

/-- The fields of an expected size: two counts of 64 bits. -/
def fields : Fields ExpectedSize :=
  ExpectedSize.mk <$> .required "switches" (Json.decodeNatural UInt64.size) <*>
    .required "links" (Json.decodeNatural UInt64.size)

def decode : Decoder ExpectedSize := fields.decoder

end ExpectedSize

end TrafficSteering
