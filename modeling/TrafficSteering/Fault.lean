import TrafficSteering.Flow
import TrafficSteering.Json.Decoder
set_option autoImplicit false

/-!
# Faults

Everything that can go wrong, by cause.  The wording of each cause is in one place, `message`.
-/

namespace TrafficSteering

open Address (IPv4)

/-- Why a file or a socket is not to be had. -/
inductive SystemFault where
  | notFound
  | noDeviceOrAddress
  | permissionDenied
  | noSuchDevice
  | notDirectory
  | isDirectory
  | invalidArgument
  | nameTooLong
  | addressInUse
  | addressNotAvailable
  | nulByte
  | notUtf8
  deriving DecidableEq, Repr

/-- What the operating system says about a fault. -/
def SystemFault.message : SystemFault → String
  | .notFound => "No such file or directory (os error 2)"
  | .noDeviceOrAddress => "No such device or address (os error 6)"
  | .permissionDenied => "Permission denied (os error 13)"
  | .noSuchDevice => "No such device (os error 19)"
  | .notDirectory => "Not a directory (os error 20)"
  | .isDirectory => "Is a directory (os error 21)"
  | .invalidArgument => "Invalid argument (os error 22)"
  | .nameTooLong => "File name too long (os error 36)"
  | .addressInUse => "Address already in use (os error 98)"
  | .addressNotAvailable => "Cannot assign requested address (os error 99)"
  | .nulByte => "file name contained an unexpected NUL byte"
  | .notUtf8 => "stream did not contain valid UTF-8"

/-- Why the data plane does not take a rule. -/
inductive Refusal where
  /-- The switch of the rule does not take rules. -/
  | rejected (rule : Rule)
  /-- There is no room for another rule. -/
  | full
  deriving DecidableEq, Repr

/-- What the data plane says about a refusal. -/
def Refusal.message : Refusal → String
  | .rejected rule => "rejected " ++ rule.render
  | .full => "table full"

/-- Why a configuration is not usable. -/
inductive SettingsFault where
  /-- The text is not the JSON form of a configuration. -/
  | undecodable (cause : Json.Fault)
  | zeroPeriod
  /-- The lower bound of the congestion band is not below the upper one. -/
  | emptyBand (lower upper : UInt32)
  /-- A host of a steered pair has no binding. -/
  | unboundHost (ip : IPv4)
  deriving DecidableEq, Repr

/-- What is wrong with a configuration. -/
def SettingsFault.message : SettingsFault → String
  | .undecodable cause => cause.message
  | .zeroPeriod => "periods must be non-zero"
  | .emptyBand lower upper =>
    "congestion band (" ++ toString lower.toNat ++ ", " ++ toString upper.toNat ++ ") is empty"
  | .unboundHost ip => "flow pair host " ++ ip.render ++ " has no binding"

/-- Why an operation of the controller fails. -/
inductive Fault where
  /-- No link leads from one switch to the other. -/
  | missingEdge (src dst : SwitchId)
  /-- A link of a report ends at a switch that the report does not list. -/
  | unknownSwitch (switch : SwitchId)
  /-- No graph is installed. -/
  | routingDisabled
  /-- No host is bound to the address. -/
  | unknownHost (ip : IPv4)
  /-- A text does not name a switch. -/
  | invalidSwitchId (cause : SwitchId.Malformed)
  /-- The data plane does not take a rule. -/
  | refused (cause : Refusal)
  /-- The configuration is not usable. -/
  | settings (cause : SettingsFault)
  /-- A file or a socket is not to be had. -/
  | system (cause : SystemFault)
  deriving DecidableEq, Repr

namespace Fault

/-- What a fault says. -/
def message : Fault → String
  | .missingEdge src dst => "missing edge " ++ src.render ++ " -> " ++ dst.render
  | .unknownSwitch switch => "link references unknown switch " ++ switch.render
  | .routingDisabled => "routing disabled: topology not fully discovered"
  | .unknownHost ip => "unknown host: " ++ ip.render
  | .invalidSwitchId cause => "invalid switch id: " ++ cause.text
  | .refused cause => "flow actuator error: " ++ cause.message
  | .settings cause => "config error: " ++ cause.message
  | .system cause => "IO error: " ++ cause.message

end Fault

end TrafficSteering
