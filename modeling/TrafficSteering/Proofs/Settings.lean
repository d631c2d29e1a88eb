import TrafficSteering.Proofs.Json.RoundTrip
import TrafficSteering.Settings.Json
set_option autoImplicit false

/-!
# Saving and loading

A configuration that has been loaded meets its conditions, and the file it is saved as is loaded as
the same configuration.  The two halves meet in `Fits`: whatever is decoded fits into 64 bits where
it has to, and whatever fits is decoded from its printed form.
-/

namespace TrafficSteering

open Json (Fields)

namespace CongestionBand

theorem decode_toJson (band : CongestionBand) : decode band.toJson = .ok band :=
  (Fields.reads_pure CongestionBand.mk
    |>.required "lower_kbps" (Json.decodeUInt32_natural band.lower)
    |>.required "upper_kbps" (Json.decodeUInt32_natural band.upper)
    |>.decoder (by decide))

end CongestionBand

namespace Settings

/-- Periods and counts that are numbers of 64 bits. -/
structure Fits (settings : Settings) : Prop where
  monitorPeriod : settings.monitorPeriod < UInt64.size
  settlePeriod : settings.settlePeriod < UInt64.size
  expected : settings.expected.Fits

/-! ## The JSON form -/

theorem decodeOption_optionToJson {α : Type} {decode : Json.Decoder α} {toJson : α → Json}
    (hdecoded : ∀ value, decode (toJson value) = .ok value)
    (hpresent : ∀ value, toJson value ≠ .null) (value : Option α) :
    Json.decodeOption decode (optionToJson toJson value) = .ok value := by
  cases value with
  | none => rfl
  | some value => exact Json.decodeOption_of_ne_null (hpresent value) (hdecoded value)

/-- A configuration that fits is decoded from its JSON form. -/
theorem decode_toJson {settings : Settings} (hfits : settings.Fits) :
    decode settings.toJson = .ok settings :=
  let default : Settings := {}
  (Fields.reads_pure Settings.mk
    |>.withDefault "control_addr" default.control
      (Json.decodeWritten_text settings.control.ofString?_render)
    |>.withDefault "monitor_period_ms" default.monitorPeriod
      (Json.decodeNatural_natural hfits.monitorPeriod)
    |>.withDefault "settle_period_ms" default.settlePeriod
      (Json.decodeNatural_natural hfits.settlePeriod)
    |>.withDefault "congestion" default.congestion settings.congestion.decode_toJson
    |>.withDefault "expected_topology" default.expected
      (ExpectedSize.decode_toJson hfits.expected)
    |>.withDefault "hosts" default.hosts
      (Json.decodeList_map HostBinding.decode_toJson settings.hosts)
    |>.withDefault "flow_pairs" default.pairs
      (Json.decodeList_map HostPair.decode_toJson settings.pairs)
    |>.withDefault "topology" default.topology
      (decodeOption_optionToJson Snapshot.decode_toJson (fun _ => nofun) settings.topology)
    |>.withDefault "throughput_log" default.log
      (decodeOption_optionToJson Json.decodeText_text (fun _ => nofun) settings.log)
    |>.decoder (by decide))

/-- Whatever is decoded fits: the counts that are read do, and so do the defaults. -/
theorem fits_of_decode {value : Json} {settings : Settings} (h : decode value = .ok settings) :
    settings.Fits := by
  refine Fields.Yields.decoder (?_ : fields.Yields Fits) h
  refine .other (.other (.other (.other ?_ _) _) _) _
  refine .withDefault (.other ?_ _) _ (fun _ _ => ExpectedSize.fits_of_decode) (by decide)
  refine .withDefault ?_ _ (fun _ _ => Json.lt_of_decodeNatural) (by decide)
  refine .withDefault ?_ _ (fun _ _ => Json.lt_of_decodeNatural) (by decide)
  refine .other ?_ _
  exact Fields.yields_pure fun _ _ hmonitor _ hsettle _ _ hexpected _ _ _ _ =>
    ⟨hmonitor, hsettle, hexpected⟩

theorem intact_toJson (settings : Settings) : settings.toJson.intact = true := by
  have hhosts := Json.intactElements_map HostBinding.intact_toJson settings.hosts
  have hpairs := Json.intactElements_map HostPair.intact_toJson settings.pairs
  have htopology : (optionToJson Snapshot.toJson settings.topology).intact = true := by
    cases settings.topology with
    | none => rfl
    | some report => exact report.intact_toJson
  have hlog : (optionToJson Json.text settings.log).intact = true := by
    cases settings.log <;> rfl
  refine Json.intact_record ?_
  simp only [List.forall_mem_cons, List.not_mem_nil, false_implies, implies_true, and_true]
  exact ⟨rfl, rfl, rfl, rfl, rfl, hhosts, hpairs, htopology, hlog⟩

/-! ## Files -/

/-- A configuration that fits and meets its conditions is read from the text it is saved as. -/
theorem ofText_save {settings : Settings} (hfits : settings.Fits)
    (hvalid : settings.validate = .ok ()) : ofText settings.save = .ok settings := by
  have hdecoded : (Json.document settings.save).decode decode = .ok settings :=
    Json.decode_chars (decode_toJson hfits) settings.intact_toJson .indented 0
  rw [ofText, hdecoded]
  simp only [hvalid]
  rfl

/-- What is read from a text fits and meets its conditions. -/
theorem of_ofText {text : String} {settings : Settings} (h : ofText text = .ok settings) :
    settings.Fits ∧ settings.validate = .ok () := by
  rw [ofText] at h
  cases hdecoded : (Json.document text).decode decode with
  | error cause => simp [hdecoded] at h
  | ok read =>
    simp only [hdecoded] at h
    obtain ⟨⟨⟩, hvalid, h⟩ := bind_eq_ok_iff.1 h
    obtain rfl := Except.ok.inj h
    obtain ⟨result, hroot, hended⟩ := bind_eq_ok_iff.1 hdecoded
    split at hended
    · exact ⟨Except.ok.inj hended ▸ fits_of_decode hroot, hvalid⟩
    · cases hended

theorem fromUTF8?_toUTF8 (text : String) : String.fromUTF8? text.toUTF8 = some text :=
  dif_pos text.isValidUTF8

theorem load_toUTF8 {text : String} {settings : Settings} (h : ofText text = .ok settings) :
    load (some text.toUTF8) = .ok settings := by
  simp only [load, fromUTF8?_toUTF8, h]

/-- A configuration that has been loaded meets its conditions.  The file it is saved as is loaded
as the same configuration, and so saved as the same text. -/
theorem load_save {file : ByteArray} {settings : Settings}
    (hloaded : load (some file) = .ok settings) :
    settings.validate = .ok () ∧ load (some settings.save.toUTF8) = .ok settings ∧
      ∀ again, load (some settings.save.toUTF8) = .ok again → again.save = settings.save := by
  obtain ⟨text, hread⟩ : ∃ text, ofText text = .ok settings := by
    rw [load] at hloaded
    split at hloaded
    · cases hloaded
    · next text _ =>
      split at hloaded
      · next hread => exact ⟨text, Except.ok.inj hloaded ▸ hread⟩
      · cases hloaded
  obtain ⟨hfits, hvalid⟩ := of_ofText hread
  have hsaved := load_toUTF8 (ofText_save hfits hvalid)
  refine ⟨hvalid, hsaved, fun again hreloaded => ?_⟩
  rw [Except.ok.inj (hsaved.symm.trans hreloaded)]

/-- A file with records as objects and as arrays, identifiers in two notations, a socket address
that is not in its printed form, and an escaped character. -/
def sampleFile : String :=
  "\x7b\"control_addr\":\"[0:0:1::%07]:080\",\"hosts\":[[\"10.0.0.1\",\" 0x1f \",3]]," ++
  "\"topology\":\x7b\"links\":[[\"31\",3,\"7\"]],\"switches\":[]\x7d," ++
  "\"throughput_log\":\"a\\u0009b\"\x7d"

/-- What the file configures. -/
def sample : Settings where
  control := .v6 ⟨[0, 0, 1, 0, 0, 0, 0, 0], rfl⟩ 7 80
  hosts := [⟨⟨10, 0, 0, 1⟩, ⟨31⟩, ⟨3⟩⟩]
  topology := some ⟨[], [⟨⟨31⟩, ⟨3⟩, ⟨7⟩, 1⟩]⟩
  log := some "a\tb"

/-- The file is loaded, and what it configures is loaded again from the file it is saved as. -/
theorem load_save_sample :
    load (some sampleFile.toUTF8) = .ok sample ∧ sample.validate = .ok () ∧
      load (some sample.save.toUTF8) = .ok sample ∧
      ∀ again, load (some sample.save.toUTF8) = .ok again → again.save = sample.save := by
  have hread : ofText sampleFile = .ok sample := by decide +kernel
  exact ⟨load_toUTF8 hread, load_save (load_toUTF8 hread)⟩

end Settings

end TrafficSteering
