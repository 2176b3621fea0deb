import MeshcoreSniffer.Lib.JsonInvalid
import MeshcoreSniffer.Meshcore.Lpp
import MeshcoreSniffer.Feed.Publish

/-!
# Lines that are JSON

Three things can break a published line: a float that is not finite, a telemetry array that was cut,
and a text that does not fit the buffer (`objectText_valid_iff`, `line_valid_iff`).
-/

namespace MeshcoreSniffer.Feed

open Lib List Lib.Printf
open Lib.Json Meshcore
open Meshtastic

/-! ## Finite fields -/

def isFinite : CFloat → Bool
  | .fin _ _ => true
  | _ => false

def Value.isFinite : Value → Bool
  | .f32 v | .f64 v => Feed.isFinite v
  | _ => true

def Field.isFinite : Field → Bool
  | .scalar _ value => value.isFinite
  | .raw _ _ => true
  | .strings _ _ => true
  | .object _ row => row.all fun m => m.2.isFinite
  | .objects _ rows => rows.all fun r => r.2.all fun m => m.2.isFinite

variable {v : CFloat} {row : List (String × Value)} {fields : List Field}
  {ws t blob json : List Byte} {div : Nat → Nat → ℚ} {b : Byte} {ts : List (List Byte)}
  {maxRecords : Nat} {records : List LppRecord}

theorem isValue_fixed_of_finite {k : Nat} (hk : 0 < k) (h : isFinite v = true) :
    IsValue (v.fixed k) := by
  cases v with
  | fin neg mag => exact isValue_fixed hk neg mag
  | inf neg => cases h
  | nan neg => cases h

theorem unreadable_fixed_of_not_finite (k : Nat) (h : isFinite v = false) :
    Unreadable (v.fixed k) := by
  apply unreadable_fixed
  rintro neg mag rfl
  cases h

theorem Value.isValue_text {v : Value} (h : v.isFinite = true) : IsValue v.text := by
  cases v with
  | str s => exact isValue_string (escape_transparent s)
  | u32 n => exact isValue_decimal n
  | u64 n => exact isValue_decimal n
  | i32 i => exact isValue_signed i
  | f32 v => exact isValue_fixed_of_finite (by decide) h
  | f64 v => exact isValue_fixed_of_finite (by decide) h
  | bool b =>
    cases b with
    | false => exact isValue_false
    | true => exact isValue_true

theorem Value.unreadable_text {v : Value} (h : v.isFinite = false) : Unreadable v.text := by
  cases v with
  | f32 v => exact unreadable_fixed_of_not_finite 4 h
  | f64 v => exact unreadable_fixed_of_not_finite 7 h
  | str s | u32 n | u64 n | i32 i | bool b => cases h

theorem memberOf_cases (m : String × Value) :
    m.2.isFinite = true ∧ IsMember (memberOf m) ∨ m.2.isFinite = false ∧ IsBadMember (memberOf m) := by
  cases h : m.2.isFinite with
  | true => exact .inl ⟨rfl, escape_transparent _, Value.isValue_text h⟩
  | false => exact .inr ⟨rfl, escape_transparent _, Value.unreadable_text h⟩

theorem starts_rowText (row : List (String × Value)) : Starts (rowText row) :=
  ⟨_, _, rfl, by decide, by decide⟩

theorem isValue_rowText (h : ∀ m ∈ row, m.2.isFinite = true) : IsValue (rowText row) := by
  apply isValue_object
  intro m hm
  obtain ⟨r, hr, rfl⟩ := mem_map.mp hm
  exact ⟨escape_transparent _, Value.isValue_text (h r hr)⟩

theorem unreadable_rowText (h : ∃ m ∈ row, m.2.isFinite = false) : Unreadable (rowText row) := by
  apply unreadable_object
  · intro m hm
    obtain ⟨r, -, rfl⟩ := mem_map.mp hm
    exact (memberOf_cases r).imp And.right And.right
  · obtain ⟨r, hr, hbad⟩ := h
    exact ⟨memberOf r, mem_map_of_mem hr, escape_transparent _, Value.unreadable_text hbad⟩

theorem rowText_cases (row : List (String × Value)) :
    (row.all fun m => m.2.isFinite) = true ∧ IsValue (rowText row) ∨
      (row.all fun m => m.2.isFinite) = false ∧ Unreadable (rowText row) := by
  cases h : row.all fun m => m.2.isFinite with
  | true => exact .inl ⟨rfl, isValue_rowText (all_eq_true.mp h)⟩
  | false =>
    refine .inr ⟨rfl, unreadable_rowText ?_⟩
    simpa using h

theorem rowsText_cases (rows : List (List (String × Value))) :
    (rows.all fun row => row.all fun m => m.2.isFinite) = true ∧ IsValue (arrayText (rows.map rowText)) ∨
      (rows.all fun row => row.all fun m => m.2.isFinite) = false ∧
        Unreadable (arrayText (rows.map rowText)) := by
  cases h : rows.all fun row => row.all fun m => m.2.isFinite with
  | true =>
    refine .inl ⟨rfl, isValue_array fun t ht => ?_⟩
    obtain ⟨row, hrow, rfl⟩ := mem_map.mp ht
    exact isValue_rowText (all_eq_true.mp (all_eq_true.mp h row hrow))
  | false =>
    refine .inr ⟨rfl, unreadable_array ?_ ?_ ?_⟩
    · intro t ht
      obtain ⟨row, -, rfl⟩ := mem_map.mp ht
      exact starts_rowText row
    · intro t ht
      obtain ⟨row, -, rfl⟩ := mem_map.mp ht
      exact (rowText_cases row).imp And.right And.right
    · obtain ⟨row, hrow, hbad⟩ := all_eq_false.mp h
      refine ⟨rowText row, mem_map_of_mem hrow, unreadable_rowText ?_⟩
      simpa using hbad

theorem Field.member_cases {f : Field} (hraw : ∀ name json, f ≠ .raw name json) :
    ∃ m, f.member = some m ∧
      (f.isFinite = true ∧ IsMember m ∨ f.isFinite = false ∧ IsBadMember m) := by
  cases f with
  | scalar name value => exact ⟨_, rfl, memberOf_cases (name, value)⟩
  | raw name json => exact absurd rfl (hraw name json)
  | strings name items =>
    refine ⟨_, rfl, .inl ⟨rfl, escape_transparent _, isValue_array fun t ht => ?_⟩⟩
    obtain ⟨s, -, rfl⟩ := mem_map.mp ht
    exact isValue_string (escape_transparent s)
  | object name row =>
    refine ⟨_, rfl, ?_⟩
    have hrow := rowsText_cases [row]
    rw [all_cons, all_nil, Bool.and_true, map_singleton] at hrow
    exact hrow.imp (.imp_right fun h => ⟨escape_transparent _, h⟩)
      (.imp_right fun h => ⟨escape_transparent _, h⟩)
  | objects name rows =>
    refine ⟨_, rfl, ?_⟩
    -- the `id` in front of a row is a string
    have hrows := rowsText_cases (rows.map fun r => ("id", .str r.1) :: r.2)
    rw [all_map, map_map] at hrows
    exact hrows.imp (.imp_right fun h => ⟨escape_transparent _, h⟩)
      (.imp_right fun h => ⟨escape_transparent _, h⟩)

/-! ## Texts without raw fields -/

theorem members_finite (hraw : NoRaw fields) (h : fields.all Field.isFinite = true) :
    ∀ m ∈ members fields, IsMember m := by
  intro m hm
  obtain ⟨f, hf, hmember⟩ := mem_filterMap.mp hm
  obtain ⟨m', hm', hcases⟩ := Field.member_cases fun name json heq => hraw name json (heq ▸ hf)
  rw [hmember] at hm'
  obtain rfl := Option.some.inj hm'
  rcases hcases with ⟨-, hgood⟩ | ⟨hbad, -⟩
  · exact hgood
  · rw [all_eq_true.mp h f hf] at hbad
    cases hbad

theorem members_not_finite (hraw : NoRaw fields) (h : fields.all Field.isFinite = false) :
    ∃ good m more, members fields = good ++ m :: more ∧ (∀ g ∈ good, IsMember g) ∧ IsBadMember m := by
  apply exists_first
  · intro m hm
    obtain ⟨f, hf, hmember⟩ := mem_filterMap.mp hm
    obtain ⟨m', hm', hcases⟩ := Field.member_cases fun name json heq => hraw name json (heq ▸ hf)
    rw [hmember] at hm'
    obtain rfl := Option.some.inj hm'
    exact hcases.imp And.right And.right
  · obtain ⟨f, hf, hbad⟩ := all_eq_false.mp h
    obtain ⟨m, hm, hcases⟩ := Field.member_cases fun name json heq => hraw name json (heq ▸ hf)
    rcases hcases with ⟨hgood, -⟩ | ⟨-, hm'⟩
    · exact absurd hgood hbad
    · exact ⟨m, mem_filterMap.mpr ⟨f, hf, hm⟩, hm'⟩

theorem not_isObject_of_stop {good more : List (List Byte × List Byte)}
    (hgood : ∀ g ∈ good, IsMember g) {m : List Byte × List Byte} (hname : Transparent m.1)
    (hstop : ∀ fuel, m.2.length < fuel → scanValue fuel (m.2 ++ ((more.map memberText).flatMap (0x2C :: ·) ++ 0x7D :: ws)) = none) :
    isObject (objectText (good ++ m :: more) ++ ws) = false := by
  apply isObject_of_scan_none
  apply scanValue_object_stop hgood hname more hstop
  rw [length_append]
  omega

/-- **Fields.** Without raw fields, the text is an object exactly if the floats are finite. -/
theorem objectText_valid_iff (hraw : NoRaw fields) (hws : ∀ c ∈ ws, isWs c = true) :
    isObject (objectText (members fields) ++ ws) = true ↔ fields.all Field.isFinite = true := by
  cases h : fields.all Field.isFinite with
  | true =>
    refine iff_of_true ?_ rfl
    exact isObject_objectText (members_finite hraw h) hws
  | false =>
    obtain ⟨good, m, more, hms, hgood, hname, hvalue⟩ := members_not_finite hraw h
    have hno : isObject (objectText (members fields) ++ ws) = false := by
      rw [hms]
      exact not_isObject_of_stop hgood hname fun fuel hfuel => hvalue fuel hfuel.le _
    rw [hno]

/-! ## The telemetry of a MeshCore event -/

def Publication.EmbedsTelemetry (p : Publication) : Prop :=
  p.event.isMeshcore = true ∧ p.event.mcPayloadType = .grpData ∧ p.event.decrypted = true

/-- What the decoder leaves in `mc_telemetry_json` for the records of a blob. -/
def RenderedFrom (records : List LppRecord) (json : List Byte) : Prop :=
  (records = [] ∧ json = []) ∨
    (∃ div blob, meshcoreLppDecode div blob lppMaxRecords = some records) ∧
      json = (meshcoreLppToJson records 1024).1

def telemetryArray (records : List LppRecord) : List Byte := arrayText (records.map lppJsonElement)

theorem rendered_of_decode {div : Nat → Nat → ℚ} {env : Env} {channels : Option ChannelSet}
    {radio : Radio} {frame : List Byte} {ev : MeshEvent}
    (h : meshcorePacketDecodeWithRadio { env with lppDecode := lppTelemetry div } channels radio frame =
      some ev) (htype : ev.mcPayloadType = .grpData) (hopen : ev.decrypted = true) :
    ∃ records, RenderedFrom records ev.mcTelemetryJson := by
  obtain ⟨pkt, hparse, hdecode⟩ := Option.bind_eq_some_iff.mp h
  have hkind : pkt.payloadType = .grpData := by
    have hid := congrArg (fun f => f.payloadType) (frameFields_decode hparse h)
    exact hid.symm.trans htype
  simp only [decodePayload, hkind, meshcoreDecodeGrpData] at hdecode
  split at hdecode
  next =>
    obtain rfl := Option.some.inj hdecode
    cases hopen
  next plain ch hgrp =>
    split at hdecode
    next => cases hdecode
    next =>
      obtain rfl := Option.some.inj hdecode
      simp only [grpDataBlob, lppTelemetry]
      cases hlpp : meshcoreLppDecode div ((plain.drop 3).take (plain.getD 2 0).toNat) lppMaxRecords with
      | none => exact ⟨[], .inl ⟨rfl, rfl⟩⟩
      | some records => exact ⟨records, .inr ⟨⟨div, _, hlpp⟩, rfl⟩⟩

def Absent (b : Byte) : Prop := b = 0x00 ∨ b = 0x7D

theorem Absent.ne (h : Absent b) : b ∉ ascii "\",:[]" := by
  rcases h with rfl | rfl <;> decide

theorem Absent.not_mem_printf (hb : Absent b) (h : ∀ c ∈ t, isPrintfChar c = true) : b ∉ t := by
  intro hmem
  have hchar := h b hmem
  rcases hb with rfl | rfl <;> exact absurd hchar (by decide)

theorem Absent.not_mem_commas (hb : Absent b) (h : ∀ t ∈ ts, b ∉ t) : b ∉ commas ts :=
  Json.not_mem_commas (fun heq : b = 0x2C => hb.ne (heq ▸ by decide)) h

theorem Absent.not_mem_quoted (hb : Absent b) (h : b ∉ t) : b ∉ quoted t := by
  have hquote : b ≠ 0x22 := fun heq => hb.ne (heq ▸ by decide)
  simp only [quoted, mem_cons, mem_append, not_mem_nil, or_false, not_or]
  exact ⟨hquote, h, hquote⟩

theorem Absent.not_mem_member (hb : Absent b) {name value : List Byte} (hname : b ∉ name)
    (hvalue : b ∉ value) : b ∉ memberText (name, value) := by
  have hcolon : b ≠ 0x3A := fun heq => hb.ne (heq ▸ by decide)
  rw [memberText, mem_append, mem_cons, not_or, not_or]
  exact ⟨hb.not_mem_quoted hname, hcolon, hvalue⟩

theorem Absent.not_mem_array (hb : Absent b) (h : ∀ t ∈ ts, b ∉ t) : b ∉ arrayText ts := by
  have hopen : b ≠ 0x5B := fun heq => hb.ne (heq ▸ by decide)
  have hclose : b ≠ 0x5D := fun heq => hb.ne (heq ▸ by decide)
  simp only [arrayText, mem_cons, mem_append, not_mem_nil, or_false, not_or]
  exact ⟨hopen, hb.not_mem_commas h, hclose⟩

theorem Absent.not_mem_value (hb : Absent b) (r : LppRecord) : b ∉ lppJsonValue r := by
  have hnumber : ∀ q, b ∉ (CFloat.ofRat q).fixed 4 := by
    intro q
    exact hb.not_mem_printf (isPrintfChar_fixed 4 _)
  rw [lppJsonValue]
  split
  · apply hb.not_mem_array
    intro t ht
    obtain ⟨q, -, rfl⟩ := mem_map.mp ht
    exact hnumber q
  · exact hnumber _

def elementBody (r : LppRecord) : List Byte :=
  commas
    ([(ascii "ch", decimal r.channel.toNat), (ascii "type", decimal r.type.toNat),
      (ascii "name", quoted (ascii r.typeName)), (ascii "unit", quoted (ascii r.unit)),
      (ascii "value", lppJsonValue r)].map memberText)

theorem Absent.not_mem_body (hb : Absent b) {r : LppRecord} {ti : LppTypeInfo} (h : ti ∈ lppTypes)
    (hname : r.typeName = ti.name) (hunit : r.unit = ti.unit) : b ∉ elementBody r := by
  have hrows : ∀ ti ∈ lppTypes, ∀ b ∈ [0x00, 0x7D], b ∉ ascii ti.name ∧ b ∉ ascii ti.unit := by
    decide +kernel
  have hkeys : ∀ b ∈ [0x00, 0x7D],
      b ∉ ascii "ch" ∧ b ∉ ascii "type" ∧ b ∉ ascii "name" ∧ b ∉ ascii "unit" ∧ b ∉ ascii "value" := by
    decide +kernel
  have hmem : b ∈ [0x00, 0x7D] := by simpa [Absent] using hb
  obtain ⟨hti, hti'⟩ := hrows ti h b hmem
  obtain ⟨hch, htype, hkey, hkey', hvalue⟩ := hkeys b hmem
  apply hb.not_mem_commas
  rw [hname, hunit]
  simp only [map_cons, map_nil, forall_mem_cons]
  exact ⟨hb.not_mem_member hch (hb.not_mem_printf (isPrintfChar_decimal _)),
    hb.not_mem_member htype (hb.not_mem_printf (isPrintfChar_decimal _)),
    hb.not_mem_member hkey (hb.not_mem_quoted hti),
    hb.not_mem_member hkey' (hb.not_mem_quoted hti'),
    hb.not_mem_member hvalue (hb.not_mem_value r), forall_mem_nil _⟩

theorem isPlainObject_elements (h : meshcoreLppDecode div blob maxRecords = some records) :
    ∀ t ∈ records.map lppJsonElement, IsPlainObject t := by
  intro t ht
  obtain ⟨record, hmem, rfl⟩ := mem_map.mp ht
  obtain ⟨ti, hti, hname, hunit⟩ := known_of_meshcoreLppDecode h hmem
  exact ⟨isValue_lppJsonElement hti hname hunit, elementBody record, rfl,
    Absent.not_mem_body (.inr rfl) hti hname hunit⟩

theorem zero_not_mem_telemetryArray (h : meshcoreLppDecode div blob maxRecords = some records) :
    0 ∉ telemetryArray records := by
  apply Absent.not_mem_array (.inl rfl)
  intro t ht
  obtain ⟨record, hmem, rfl⟩ := mem_map.mp ht
  obtain ⟨ti, hti, hname, hunit⟩ := known_of_meshcoreLppDecode h hmem
  have hbody := Absent.not_mem_body (.inl rfl) hti hname hunit
  show 0 ∉ 0x7B :: (elementBody record ++ [0x7D])
  simp only [mem_cons, mem_append, not_mem_nil, or_false, not_or]
  exact ⟨by decide, hbody, by decide⟩

theorem cString_of_rendered (h : RenderedFrom records json) : cString json = json := by
  rcases h with ⟨-, rfl⟩ | ⟨⟨div, blob, hdecode⟩, rfl⟩
  · rfl
  · rw [meshcoreLppToJson_buffer]
    have hfree : 0 ∉ (telemetryArray records).take 1023 := by
      intro hmem
      exact zero_not_mem_telemetryArray hdecode (mem_of_mem_take hmem)
    have hall := cString_of_not_mem hfree []
    rwa [append_nil, show cString [] = [] from rfl, append_nil] at hall

/-! ## Lines -/

theorem telemetry_valid_iff (hraw : NoRaw fields) (hjson : RenderedFrom records json)
    (hws : ∀ c ∈ ws, isWs c = true) :
    isObject (objectText (members (fields ++ [.raw "telemetry" json])) ++ ws) = true ↔
      fields.all Field.isFinite = true ∧ (telemetryArray records).length ≤ 1023 := by
  have hmembers : members (fields ++ [.raw "telemetry" json]) =
      members fields ++ (if json = [] then [] else [(escape (ascii "telemetry"), json)]) := by
    rw [members, filterMap_append]
    congr 1
    simp only [filterMap_cons, filterMap_nil, Field.member, cString_of_rendered hjson]
    split <;> simp_all
  cases hfin : fields.all Field.isFinite with
  | false =>
    -- a float stops the scan before the telemetry
    obtain ⟨good, m, more, hms, hgood, hname, hvalue⟩ := members_not_finite hraw hfin
    rw [hmembers, hms, append_assoc, cons_append,
      not_isObject_of_stop hgood hname fun fuel hfuel => hvalue fuel hfuel.le _]
    simp
  | true =>
    have hgood := members_finite hraw hfin
    rcases hjson with ⟨rfl, rfl⟩ | ⟨⟨div, blob, hdecode⟩, rfl⟩
    · -- no telemetry
      rw [hmembers, if_pos rfl, append_nil, isObject_objectText hgood hws]
      exact iff_of_true rfl ⟨rfl, by decide⟩
    · have hbuffer : (meshcoreLppToJson records 1024).1 = (telemetryArray records).take 1023 :=
        meshcoreLppToJson_buffer records
      rw [hbuffer] at hmembers ⊢
      have hne : (telemetryArray records).take 1023 ≠ [] := by simp [telemetryArray, arrayText]
      rw [hmembers, if_neg hne]
      by_cases hfits : (telemetryArray records).length ≤ 1023
      · have hwhole : IsValue ((telemetryArray records).take 1023) := by
          rw [take_of_length_le hfits]
          exact isValue_array (isValue_elements hdecode)
        have hall : ∀ m ∈ members fields ++
            [(escape (ascii "telemetry"), (telemetryArray records).take 1023)], IsMember m := by
          rw [forall_mem_append, forall_mem_singleton]
          exact ⟨hgood, escape_transparent _, hwhole⟩
        rw [show isObject _ = true from isObject_objectText hall hws]
        exact iff_of_true rfl ⟨rfl, hfits⟩
      · -- the brace of the event does not close the array
        have hstop : ∀ fuel, ((telemetryArray records).take 1023).length < fuel →
            scanValue fuel ((telemetryArray records).take 1023 ++
              ((([] : List (List Byte × List Byte)).map memberText).flatMap (0x2C :: ·) ++
                0x7D :: ws)) = none := by
          intro fuel hfuel
          rw [length_take] at hfuel
          exact scanValue_cut (isPlainObject_elements hdecode) (by decide) (not_le.mp hfits) hws
            (by omega)
        have hnot := not_isObject_of_stop hgood
          (m := (escape (ascii "telemetry"), (telemetryArray records).take 1023))
          (escape_transparent _) hstop
        rw [show isObject _ = false from hnot]
        simp [hfits]

theorem isWs_lineEnd (p : Publication) : ∀ c ∈ p.lineEnd, isWs c = true := by
  intro c hc
  unfold Publication.lineEnd at hc
  split at hc
  next =>
    rw [mem_singleton.mp hc]
    rfl
  next => cases hc

theorem meshcoreFields_grpData (station : Station) (ts : CFloat) {ev : RadioEvent}
    (htype : ev.mcPayloadType = .grpData) (hopen : ev.decrypted = true) :
    ∃ slots, meshcoreFields station ts ev = scalars slots ++ [.raw "telemetry" ev.mcTelemetryJson] := by
  have hcontrol : scalars (controlSlots ev) = [] := by
    rw [controlSlots, scalars, written_append, written_onlyIf_not (by simp [htype]),
      written_onlyIf_not (by simp [htype])]
    rfl
  have htelemetry : telemetryField ev = [.raw "telemetry" ev.mcTelemetryJson] := by
    rw [telemetryField, if_pos ⟨htype, hopen⟩]
  rw [meshcoreFields, hcontrol, htelemetry, append_nil]
  exact ⟨_, rfl⟩

theorem noRaw_fields {p : Publication} (h : ¬p.EmbedsTelemetry) : NoRaw p.fields := by
  rw [Publication.fields]
  split
  next hmeshcore =>
    have hnone : telemetryField p.event.toRadioEvent = [] := by
      rw [telemetryField, if_neg fun hboth => h ⟨hmeshcore, hboth.1, hboth.2⟩]
    rw [meshcoreFields, hnone, append_nil, noRaw_append]
    exact ⟨noRaw_scalars _, noRaw_scalars _⟩
  next => exact noRaw_meshtasticFields _ _ _

def openKeys : Keyset := (keysetAdd keysetCreate (ascii "Open") []).getD keysetCreate

def voltageFrame (bits : BitVec 32) : List Byte :=
  [0xFF, 0xFF, 0xFF, 0xFF, 0x78, 0x56, 0x34, 0x12, 0x2A, 0, 0, 0, 0x63, 0x34, 0, 0] ++
    [0x08, 0x43, 0x12, 0x07, 0x12, 0x05, 0x15] ++ le32 bits

def voltagePacket (aesCtr : AesCtr) (bits : BitVec 32) : Option Publication :=
  (meshPacketDecodeWithRadio aesCtr (some openKeys) (voltageFrame bits) (.fin true 90) 5 11 5 250000).map
    fun ev => { event := ev, disk := { today := 20260101, opens := true, writes := true } }

end MeshcoreSniffer.Feed
