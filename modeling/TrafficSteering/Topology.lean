import TrafficSteering.SwitchId
set_option autoImplicit false

/-!
# Topology

Ports, directed links, paths through the fabric, and the reports of the discovery service.  A cable
is reported as two links, one for each direction.
-/

namespace TrafficSteering

/-- The number of a switch port. -/
structure PortNo where
  number : UInt32
  deriving DecidableEq, Hashable, Repr, Inhabited

instance : ToString PortNo := ⟨fun port => toString port.number.toNat⟩

/-- A directed link from one switch to another. -/
structure Link where
  src : SwitchId
  /-- The port by which it leaves. -/
  port : PortNo
  dst : SwitchId
  /-- The cost of the link in a shortest path. -/
  weight : UInt32 := 1
  deriving DecidableEq, Repr, Inhabited

/-- The switches that a flow passes, in order. -/
structure Path where
  switches : List SwitchId
  deriving DecidableEq, Repr, Inhabited

namespace Path

/-- The path that stays on one switch. -/
def single (switch : SwitchId) : Path := ⟨[switch]⟩

def source? (path : Path) : Option SwitchId := path.switches.head?

def destination? (path : Path) : Option SwitchId := path.switches.getLast?

/-- The pairs of neighbouring switches, in path order. -/
def hops (path : Path) : List (SwitchId × SwitchId) := path.switches.zip path.switches.tail

/-- The last pair of neighbouring switches, if the path has a link. -/
def lastHop? (path : Path) : Option (SwitchId × SwitchId) := path.hops.getLast?

/-- The place of the first occurrence of a switch. -/
def position? (path : Path) (switch : SwitchId) : Option Nat := path.switches.idxOf? switch

def size (path : Path) : Nat := path.switches.length

/-- The same switches in the opposite order. -/
def reverse (path : Path) : Path := ⟨path.switches.reverse⟩

/-- The switches with arrows between them, in brackets. -/
def render (path : Path) : String :=
  "[" ++ String.intercalate " -> " (path.switches.map SwitchId.render) ++ "]"

instance : ToString Path := ⟨render⟩

end Path

/-- One report of the discovery service. -/
structure Snapshot where
  switches : List SwitchId
  /-- The links that were found, in the order of their discovery. -/
  links : List Link
  deriving DecidableEq, Repr, Inhabited

/-- The size a report must have before routing is enabled. -/
structure ExpectedSize where
  switches : Nat := 5
  links : Nat := 12
  deriving DecidableEq, Repr, Inhabited

namespace ExpectedSize

/-- Whether both counts are exactly the expected ones. -/
def isMet (expected : ExpectedSize) (switches links : Nat) : Bool :=
  expected.switches == switches && expected.links == links

/-- Whether a report has the expected size.  Repeated switches and links count as often as they are
reported. -/
def accepts (expected : ExpectedSize) (report : Snapshot) : Bool :=
  expected.isMet report.switches.length report.links.length

end ExpectedSize

end TrafficSteering
