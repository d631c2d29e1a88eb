import TrafficSteering.Proofs.Json.Forms
import TrafficSteering.Proofs.Json.Reading
set_option autoImplicit false

/-!
# Forms that keep values

Reading what was written for a value gives back the value.  This takes two things: the form is
decoded as the value, and the text of the form reads back as the form, for which it must hold no
break of the grammar.  Both hold of everything that describes the fabric and its flows.
-/

namespace TrafficSteering.Json

variable {α : Type} {toJson : α → Json} {decode : Decoder α}

/-- A printed form is decoded as what the form is decoded as, in either layout. -/
theorem decode_chars {form : Json} {value : α} (hdecoded : decode form = .ok value)
    (hwhole : form.intact = true) (layout : Layout) (depth : Nat) :
    (document (String.ofList (form.chars layout depth))).decode decode = .ok value := by
  rw [document_chars layout hwhole, Document.decode, hdecoded]
  rfl

/-- Whatever value is written without space between its parts, the text is read as that value. -/
def Kept (toJson : α → Json) (decode : Decoder α) : Prop :=
  ∀ value, (document (toJson value).render).decode decode = .ok value

theorem Kept.of_decode (hdecoded : ∀ value, decode (toJson value) = .ok value)
    (hwhole : ∀ value, (toJson value).intact = true) : Kept toJson decode :=
  fun value => decode_chars (hdecoded value) (hwhole value) .compact 0

/-- The forms of the fabric and of flows keep all values: identifiers and ports of any number, links
with any weight, paths and reports in their order and with what they repeat, and types that have a
number although they have a name. -/
theorem forms_kept :
    Kept SwitchId.toJson SwitchId.decode ∧ Kept PortNo.toJson PortNo.decode ∧
    Kept Link.toJson Link.decode ∧ Kept Path.toJson Path.decode ∧
    Kept Snapshot.toJson Snapshot.decode ∧
    Kept EtherType.toJson EtherType.decode ∧ Kept FlowMatch.toJson FlowMatch.decode ∧
    Kept Rule.toJson Rule.decode ∧ Kept HostBinding.toJson HostBinding.decode ∧
    Kept HostPair.toJson HostPair.decode := by
  refine ⟨?switch, ?port, ?link, ?path, ?report, ?type, ?flow, ?rule, ?binding, ?pair⟩
  case switch => exact .of_decode SwitchId.decode_toJson SwitchId.intact_toJson
  case port => exact .of_decode PortNo.decode_toJson PortNo.intact_toJson
  case link => exact .of_decode Link.decode_toJson Link.intact_toJson
  case path => exact .of_decode Path.decode_toJson Path.intact_toJson
  case report => exact .of_decode Snapshot.decode_toJson Snapshot.intact_toJson
  case type => exact .of_decode EtherType.decode_toJson EtherType.intact_toJson
  case flow => exact .of_decode FlowMatch.decode_toJson FlowMatch.intact_toJson
  case rule => exact .of_decode Rule.decode_toJson Rule.intact_toJson
  case binding => exact .of_decode HostBinding.decode_toJson HostBinding.intact_toJson
  case pair => exact .of_decode HostPair.decode_toJson HostPair.intact_toJson

/-- A number that has a name stays a number. -/
example : (document (EtherType.other 0x0806).toJson.render).decode EtherType.decode =
    .ok (.other 0x0806) := by
  decide +kernel

end TrafficSteering.Json
