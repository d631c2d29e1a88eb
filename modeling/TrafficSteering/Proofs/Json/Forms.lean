import TrafficSteering.Flow.Json
import TrafficSteering.Proofs.Address
import TrafficSteering.Proofs.Json.Records
import TrafficSteering.Proofs.SwitchId
set_option autoImplicit false

/-!
# Decoding JSON forms

The JSON form of a value is decoded as that value, and no form holds a break of the grammar.
-/

namespace TrafficSteering

open Json (Fields)

/-! ## Simple values and lists -/

namespace Json

theorem decodeNatural_natural {bound n : Nat} (h : n < bound) :
    decodeNatural bound (.natural n) = .ok n := if_pos h

/-- What is decoded as a number below a bound is one. -/
theorem lt_of_decodeNatural {bound n : Nat} {value : Json}
    (h : decodeNatural bound value = .ok n) : n < bound := by
  cases value with
  | natural m =>
    rw [decodeNatural] at h
    split at h
    · next hsmall => exact Except.ok.inj h ▸ hsmall
    · cases h
  | _ => cases h

theorem decodeUInt16_natural (n : UInt16) : decodeUInt16 (.natural n.toNat) = .ok n := by
  rw [decodeUInt16, decodeNatural_natural n.toNat_lt]
  exact congrArg Except.ok (UInt16.ofNat_toNat (x := n))

theorem decodeUInt32_natural (n : UInt32) : decodeUInt32 (.natural n.toNat) = .ok n := by
  rw [decodeUInt32, decodeNatural_natural n.toNat_lt]
  exact congrArg Except.ok (UInt32.ofNat_toNat (x := n))

theorem decodeText_text (written : String) : decodeText (.text written) = .ok written := rfl

theorem decodeWritten_text {α : Type} {read? : String → Option α} {written : String}
    {result : α} (h : read? written = some result) :
    decodeWritten read? (.text written) = .ok result := by
  simp only [decodeWritten, text, decodeText, bind, Except.bind, h]

variable {α : Type} {decode : Decoder α} {toJson : α → Json}

theorem decodeList_map (h : ∀ value, decode (toJson value) = .ok value) (values : List α) :
    decodeList decode (.array (values.map toJson)) = .ok values := by
  rw [decodeList]
  induction values with
  | nil => rfl
  | cons value rest ih => rw [List.map_cons, List.mapM_cons, h, ih]; rfl

theorem decodeOption_of_ne_null {value : Json} {result : α} (hsome : value ≠ .null)
    (h : decode value = .ok result) : decodeOption decode value = .ok (some result) := by
  rw [decodeOption.eq_2 _ _ hsome, h]
  rfl

/-! ### Forms without a break -/

theorem intactElements_map (h : ∀ value, (toJson value).intact = true) (values : List α) :
    intactElements (values.map toJson) = true := by
  induction values with
  | nil => rfl
  | cons value rest ih => rw [List.map_cons, intactElements, h, ih]; rfl

theorem intact_record {members : List (String × Json)}
    (h : ∀ member ∈ members, member.2.intact = true) : (record members).intact = true := by
  rw [record, intact]
  induction members with
  | nil => rfl
  | cons member rest ih =>
    rw [List.forall_mem_cons] at h
    rw [List.map_cons, intactMembers, h.1, ih h.2]
    rfl

end Json

/-! ## The fabric -/

namespace SwitchId

theorem decode_toJson (id : SwitchId) : decode id.toJson = .ok id := by
  simp only [decode, toJson, Json.decodeSwitchId, Json.text, Json.decodeText, bind, Except.bind,
    parse_render]

theorem intact_toJson (id : SwitchId) : id.toJson.intact = true := rfl

end SwitchId

namespace PortNo

theorem decode_toJson (port : PortNo) : decode port.toJson = .ok port := by
  rw [decode, toJson, Json.decodeUInt32_natural]
  rfl

theorem intact_toJson (port : PortNo) : port.toJson.intact = true := rfl

end PortNo

namespace Link

theorem decode_toJson (link : Link) : decode link.toJson = .ok link :=
  (Fields.reads_pure Link.mk
    |>.required "src" link.src.decode_toJson
    |>.required "src_port" link.port.decode_toJson
    |>.required "dst" link.dst.decode_toJson
    |>.withDefault "weight" 1 (Json.decodeUInt32_natural link.weight)
    |>.decoder (by decide))

theorem intact_toJson (link : Link) : link.toJson.intact = true := rfl

end Link

namespace Path

theorem decode_toJson (path : Path) : decode path.toJson = .ok path := by
  rw [decode, toJson, Json.decodeList_map SwitchId.decode_toJson]
  rfl

theorem intact_toJson (path : Path) : path.toJson.intact = true :=
  Json.intactElements_map SwitchId.intact_toJson path.switches

end Path

namespace Snapshot

theorem decode_toJson (report : Snapshot) : decode report.toJson = .ok report :=
  (Fields.reads_pure Snapshot.mk
    |>.required "switches" (Json.decodeList_map SwitchId.decode_toJson report.switches)
    |>.required "links" (Json.decodeList_map Link.decode_toJson report.links)
    |>.decoder (by decide))

theorem intact_toJson (report : Snapshot) : report.toJson.intact = true := by
  refine Json.intact_record ?_
  simp only [List.forall_mem_cons, List.not_mem_nil, false_implies, implies_true, and_true]
  exact ⟨Json.intactElements_map SwitchId.intact_toJson report.switches,
    Json.intactElements_map Link.intact_toJson report.links⟩

end Snapshot

namespace ExpectedSize

/-- Counts of 64 bits, as which an expected size is read. -/
def Fits (expected : ExpectedSize) : Prop :=
  expected.switches < UInt64.size ∧ expected.links < UInt64.size

instance (expected : ExpectedSize) : Decidable expected.Fits :=
  inferInstanceAs (Decidable (_ ∧ _))

theorem decode_toJson {expected : ExpectedSize} (hfits : expected.Fits) :
    decode expected.toJson = .ok expected :=
  (Fields.reads_pure ExpectedSize.mk
    |>.required "switches" (Json.decodeNatural_natural hfits.1)
    |>.required "links" (Json.decodeNatural_natural hfits.2)
    |>.decoder (by decide))

theorem fits_of_decode {value : Json} {expected : ExpectedSize}
    (h : decode value = .ok expected) : expected.Fits :=
  (Fields.yields_pure (fun _ hfirst _ hsecond => ⟨hfirst, hsecond⟩)
    |>.required "switches" (fun _ _ => Json.lt_of_decodeNatural)
    |>.required "links" (fun _ _ => Json.lt_of_decodeNatural)
    |>.decoder h)

end ExpectedSize

/-! ## Hosts -/

namespace Address.IPv4

theorem decode_toJson (ip : IPv4) : Json.decodeIPv4 ip.toJson = .ok ip :=
  Json.decodeWritten_text ip.ofString?_render

theorem intact_toJson (ip : IPv4) : ip.toJson.intact = true := rfl

end Address.IPv4

namespace HostBinding

theorem decode_toJson (binding : HostBinding) : decode binding.toJson = .ok binding :=
  (Fields.reads_pure HostBinding.mk
    |>.required "ip" binding.ip.decode_toJson
    |>.required "switch" binding.switch.decode_toJson
    |>.required "port" binding.port.decode_toJson
    |>.decoder (by decide))

theorem intact_toJson (binding : HostBinding) : binding.toJson.intact = true := rfl

end HostBinding

namespace HostPair

theorem decode_toJson (pair : HostPair) : decode pair.toJson = .ok pair :=
  (Fields.reads_pure HostPair.mk
    |>.required "0" pair.first.decode_toJson
    |>.required "1" pair.second.decode_toJson
    |>.decoder_array)

theorem intact_toJson (pair : HostPair) : pair.toJson.intact = true := rfl

end HostPair

/-! ## Rules -/

namespace EtherType

/-- The names stand for the routed types, and a number under the name `Other` for itself, whatever
type it is the number of. -/
theorem decode_toJson (type : EtherType) : decode type.toJson = .ok type := by
  cases type with
  | ipv4 | arp => rfl
  | other number =>
    show EtherType.other <$> Json.decodeUInt16 (.natural number.toNat) = _
    rw [Json.decodeUInt16_natural]
    rfl

theorem intact_toJson (type : EtherType) : type.toJson.intact = true := by
  cases type <;> rfl

end EtherType

namespace FlowMatch

theorem decode_toJson (flow : FlowMatch) : decode flow.toJson = .ok flow :=
  (Fields.reads_pure FlowMatch.mk
    |>.required "eth_type" flow.etherType.decode_toJson
    |>.required "ipv4_src" flow.src.decode_toJson
    |>.required "ipv4_dst" flow.dst.decode_toJson
    |>.decoder (by decide))

theorem intact_toJson (flow : FlowMatch) : flow.toJson.intact = true := by
  refine Json.intact_record ?_
  simp only [List.forall_mem_cons, List.not_mem_nil, false_implies, implies_true, and_true]
  exact ⟨flow.etherType.intact_toJson, flow.src.intact_toJson, flow.dst.intact_toJson⟩

end FlowMatch

namespace Rule

theorem decode_toJson (rule : Rule) : decode rule.toJson = .ok rule :=
  (Fields.reads_pure Rule.mk
    |>.required "switch" rule.switch.decode_toJson
    |>.required "flow_match" rule.flow.decode_toJson
    |>.required "out_port" rule.out.decode_toJson
    |>.required "priority" (Json.decodeUInt16_natural rule.priority)
    |>.required "idle_timeout" (Json.decodeUInt16_natural rule.idleTimeout)
    |>.required "hard_timeout" (Json.decodeUInt16_natural rule.hardTimeout)
    |>.decoder (by decide))

theorem intact_toJson (rule : Rule) : rule.toJson.intact = true := by
  refine Json.intact_record ?_
  simp only [List.forall_mem_cons, List.not_mem_nil, false_implies, implies_true, and_true]
  exact ⟨rule.switch.intact_toJson, rule.flow.intact_toJson, rule.out.intact_toJson, rfl, rfl, rfl⟩

end Rule

end TrafficSteering
