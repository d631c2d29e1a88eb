import TrafficSteering.Fault
set_option autoImplicit false

/-!
# The network

Where a server on this host can listen.  Any IPv4 address will do.  Of the IPv6 addresses, only the
unspecified one, those that embed an IPv4 address and, while the loopback interface is up, its own
address will.  The loopback interface is the only one, and its number is one.
-/

namespace TrafficSteering

open Address (IPv6 Endpoint)

/-- The network as far as this host can use it. -/
structure Network where
  /-- Whether the loopback interface is up, so that clients on this host reach a server. -/
  loopback : Bool := true
  deriving DecidableEq, Repr

namespace Network

/-- The IPv6 address of the loopback interface. -/
def loopbackAddress : IPv6 := ⟨[0, 0, 0, 0, 0, 0, 0, 1], rfl⟩

/-- The number of the loopback interface. -/
def loopbackScope : UInt32 := 1

/-- Whether an interface has an IPv6 address. -/
def hasAddress (network : Network) (ip : IPv6) : Bool :=
  network.loopback && ip == loopbackAddress

/-- What comes of listening on an IPv6 address.  A group of receivers cannot be listened on, and an
address that is valid on one link only needs the number of an interface. -/
def listenV6 (network : Network) (ip : IPv6) (scope : UInt32) : Except SystemFault Unit :=
  if ip.isMulticast then .error .invalidArgument
  else if ip.isUnspecified || ip.mapped?.isSome then .ok ()
  else if ip.isLinkLocal && scope = 0 then .error .invalidArgument
  else if ip.isLinkLocal && scope ≠ loopbackScope then .error .noSuchDevice
  else if network.hasAddress ip then .ok ()
  else .error .addressNotAvailable

/-- What comes of listening on a socket address. -/
def listen (network : Network) : Endpoint → Except SystemFault Unit
  | .v4 .. => .ok ()
  | .v6 ip scope _ => network.listenV6 ip scope

end Network

end TrafficSteering
