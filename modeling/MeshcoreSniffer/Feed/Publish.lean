import MeshcoreSniffer.Feed.Geofence
import MeshcoreSniffer.Feed.MeshtasticJson
import MeshcoreSniffer.Web.Events

/-!
# Publication

`feed_publish_event` and the sinks that take whole lines: one line per event as long as the
serialiser ended every line and the geofence, which it asks about every position on its way, has no
line of its own to add. The MeshCore serialiser never ends a line, and only the dashboard adds its
own end.

`publishAll_archive` and `publishAll_run` say what a run leaves in the sinks, `publishAll_framed`
when that is one record per event.
-/

namespace MeshcoreSniffer.Feed

open Lib List Lib.Printf
open Lib.Json Meshcore
open Meshtastic

/-! ## The sinks -/

/-- What the clock and zlib answer while one event is archived. -/
structure Disk where
  /-- `utc_yyyymmdd(time(NULL))`. -/
  today : Nat
  /-- `gzopen` succeeds. -/
  opens : Bool
  /-- `gzwrite` takes the whole line. -/
  writes : Bool

/-- The state of `archive.c`; `openDay` is the date of the open file. -/
structure Archive where
  started : Bool
  openDay : Option Nat := none
  /-- What was written, each piece with the date of its file. -/
  chunks : List (Nat × List Byte) := []

def Archive.file (a : Archive) (day : Nat) : List Byte :=
  (a.chunks.filter (·.1 == day)).flatMap (·.2)

def openTodayLocked (disk : Disk) (a : Archive) : Archive :=
  if a.openDay = some disk.today then a
  else { a with openDay := if disk.opens then some disk.today else none }

/-- A failed write closes the archive for good. -/
def archivePublish (disk : Disk) (line : List Byte) (a : Archive) : Archive :=
  if !a.started ∨ line = [] then a
  else
    let a := openTodayLocked disk a
    match a.openDay with
    | none => a
    | some day =>
      if disk.writes then { a with chunks := a.chunks ++ [(day, line)] }
      else { a with openDay := none, started := false }

/-- The frame with which `Web.webPublishLine` serves every client, if any. -/
def dashboardFrame (line : List Byte) : Option (List Byte) :=
  if Web.trimLine line = [] then none else some (Web.frame (Web.trimLine line))

structure Sinks where
  stdout : List Byte := []
  archive : Archive
  web : List (List Byte) := []
  geofence : GeoState := geofenceInit

/-- `--trusted-only` and `--geofence`. -/
structure PublishOpts where
  trustedOnly : Bool
  polygons : List Polygon := []

/-! ## feed_publish_event -/

structure Publication where
  station : Station := {}
  ts : CFloat := .fin false 0
  disk : Disk
  event : FeedEvent

def Publication.passes (trustedOnly : Bool) (p : Publication) : Bool :=
  !trustedOnly || fieldsTrusted p.event

def Publication.line (p : Publication) : List Byte :=
  (serializeEvent (jwInit lineCap) p.station p.ts p.event).buf

/-- The position that `serialize_event` passes to `geofence_check`. -/
def Publication.position (p : Publication) : Option (ℚ × ℚ) :=
  if p.event.isMeshcore = false ∧ p.event.decrypted ∧ p.event.portnum = 3 then
    (p.event.payload.bind meshDecodePosition).bind fun pos =>
      pos.latDeg.bind fun lat => pos.lonDeg.map fun lon => (lat, lon)
  else none

def Publication.checked (polygons : List Polygon) (g : GeoState) (p : Publication) : GeoState :=
  match p.position with
  | some (lat, lon) => geofenceCheck polygons g p.event.header.fromNode lat lon
  | none => g

/-- The serialiser is done with the geofence before the event's own line goes out. -/
def feedPublishEvent (opts : PublishOpts) (s : Sinks) (p : Publication) : Sinks :=
  if p.passes opts.trustedOnly then
    let geofence := p.checked opts.polygons s.geofence
    let alerts := (geofence.events.drop s.geofence.events.length).map (·.line)
    { stdout := s.stdout ++ alerts.flatten ++ p.line
      archive := archivePublish p.disk p.line s.archive
      web := s.web ++ alerts.filterMap dashboardFrame ++ (dashboardFrame p.line).toList
      geofence := geofence }
  else s

def publishAll (opts : PublishOpts) (s : Sinks) (ps : List Publication) : Sinks :=
  ps.foldl (feedPublishEvent opts) s

/-! ## Records -/

def Publication.fields (p : Publication) : List Field :=
  if p.event.isMeshcore then meshcoreFields p.station p.ts p.event.toRadioEvent
  else meshtasticFields p.station p.ts p.event

def Publication.text (p : Publication) : List Byte := objectText (members p.fields)

def Publication.record (p : Publication) : List Byte := (jwObject (jwInit lineCap) p.fields).buf

def Publication.lineEnd (p : Publication) : List Byte :=
  if p.event.isMeshcore = false ∧ p.record.length + 1 < lineCap then [0x0A] else []

def published (trustedOnly : Bool) (ps : List Publication) : List Publication :=
  ps.filter (·.passes trustedOnly)

/-- One record per event, in order, each ended by one newline. -/
structure Framed (s : Sinks) (ps : List Publication) : Prop where
  stdout : s.stdout = ps.flatMap fun p => p.record ++ [0x0A]
  archive : ∀ day, s.archive.file day =
    (ps.filter (·.disk.today == day)).flatMap fun p => p.record ++ [0x0A]
  web : s.web = ps.map fun p => Web.frame p.record
  inside : ∀ p ∈ ps, 0x0A ∉ p.record

/-! ## One line -/

theorem jwObject_cap (j : Jw) (fields : List Field) : (jwObject j fields).cap = j.cap :=
  (object_emits j fields).cap

theorem line_eq (p : Publication) : p.line = p.record ++ p.lineEnd := by
  unfold Publication.line Publication.record Publication.lineEnd Publication.record
    Publication.fields serializeEvent
  cases hproto : p.event.isMeshcore with
  | true =>
    simp only [if_true, reduceCtorEq, false_and, if_false, append_nil]
    rfl
  | false =>
    simp only [Bool.false_eq_true, if_false, true_and, jwPutc, jwObject_cap]
    show (if _ < lineCap then _ else _ : Jw).buf = _
    split
    next => rfl
    next => exact (append_nil _).symm

theorem record_ne_nil (p : Publication) : p.record ≠ [] := by
  obtain ⟨t, -, hfields, -⟩ := (call_addsItem.foldl p.fields (jwOpen (jwInit lineCap))).1.kept
  obtain ⟨u, -, hclose, -⟩ := (putc_emits (p.fields.foldl jwCall (jwOpen (jwInit lineCap))) 0x7D).kept
  have hrecord : p.record = (0x7B :: t) ++ u := hclose.trans (congrArg (· ++ u) hfields)
  rw [hrecord]
  exact cons_ne_nil _ _

theorem record_sublist (p : Publication) : p.record.Sublist p.text := by
  obtain ⟨t, hsub, hbuf, -⟩ := (object_emits (jwInit lineCap) p.fields).kept
  rw [Publication.record, hbuf]
  exact hsub

variable {p : Publication} {disk : Disk} {opts : PublishOpts} {ps : List Publication}

theorem record_of_fits (h : p.text.length + 1 < lineCap) : p.record = p.text :=
  object_fits (Nat.lt_of_succ_lt h)

/-! ## Meshtastic texts are printable -/

def NoRaw (fields : List Field) : Prop := ∀ name json, .raw name json ∉ fields

@[simp] theorem noRaw_nil : NoRaw [] := by
  intro name json
  exact not_mem_nil

@[simp] theorem noRaw_scalars (slots : List Slot) : NoRaw (scalars slots) := by
  intro name json h
  obtain ⟨m, -, hm⟩ := mem_map.mp h
  cases hm

theorem noRaw_single {f : Field} (h : ∀ name json, f ≠ .raw name json) : NoRaw [f] := by
  intro name json hmem
  exact h name json (mem_singleton.mp hmem).symm

@[simp] theorem noRaw_append (fields fields' : List Field) :
    NoRaw (fields ++ fields') ↔ NoRaw fields ∧ NoRaw fields' := by
  simp only [NoRaw, mem_append, not_or, forall_and]

@[simp] theorem noRaw_metricsField (always : Bool) (name : String) (table : List Metric)
    (b : Metrics) : NoRaw (metricsField always name table b) := by
  unfold metricsField
  split
  next => exact noRaw_single nofun
  next => exact noRaw_nil

theorem noRaw_telemetryJson (t : Telemetry) : NoRaw (telemetryJson t) := by
  simp [telemetryJson]

@[simp] theorem noRaw_routeField (route : List (BitVec 32)) : NoRaw (routeField route) := by
  unfold routeField
  split
  next => exact noRaw_nil
  next => exact noRaw_single nofun

theorem noRaw_routingJson (r : Routing) : NoRaw (routingJson r) := by
  simp [routingJson]

theorem noRaw_neighborJson (ni : NeighborInfo) : NoRaw (neighborJson ni) := by
  rw [neighborJson, noRaw_append]
  refine ⟨noRaw_scalars _, ?_⟩
  split
  next => exact noRaw_nil
  next => exact noRaw_single nofun

theorem noRaw_decoded {σ : Type} {decode : List Byte → Option σ} {json : σ → List Field}
    (h : ∀ r, NoRaw (json r)) (ev : FeedEvent) : NoRaw (decoded decode json ev) := by
  unfold decoded
  split
  next r _ => exact h r
  next => exact noRaw_nil

theorem noRaw_portFields (ev : FeedEvent) : NoRaw (portFields ev) := by
  have hslots : ∀ {σ : Type} (decode : List Byte → Option σ) (slots : σ → List Slot),
      NoRaw (decoded decode (scalars ∘ slots) ev) := by
    intro σ decode slots
    exact noRaw_decoded (fun r => noRaw_scalars (slots r)) ev
  unfold portFields
  split
  case h_1 | h_12 => exact noRaw_scalars _
  case h_5 => exact noRaw_decoded noRaw_routingJson ev
  case h_8 => exact noRaw_decoded (fun r => noRaw_scalars _) ev
  case h_13 => exact noRaw_decoded noRaw_telemetryJson ev
  case h_14 => exact noRaw_decoded (fun r => noRaw_routeField _) ev
  case h_15 => exact noRaw_decoded noRaw_neighborJson ev
  case h_18 => exact noRaw_nil
  all_goals exact hslots _ _

theorem noRaw_meshtasticFields (station : Station) (ts : CFloat) (ev : FeedEvent) :
    NoRaw (meshtasticFields station ts ev) := by
  rw [meshtasticFields, noRaw_append]
  refine ⟨noRaw_scalars _, ?_⟩
  split
  next => simp [noRaw_portFields]
  next => exact noRaw_scalars _

theorem printable_record (h : p.event.isMeshcore = false) : Printable p.record := by
  have hfields : p.fields = meshtasticFields p.station p.ts p.event := by
    simp [Publication.fields, h]
  have htext : Printable p.text := by
    apply printable_objectText_members
    intro name json hmem
    rw [hfields] at hmem
    exact absurd hmem (noRaw_meshtasticFields p.station p.ts p.event name json)
  intro c hc
  exact htext c ((record_sublist p).mem hc)

/-! ## One publication -/

theorem openTodayLocked_opens (h : disk.opens = true) (a : Archive) :
    openTodayLocked disk a = { a with openDay := some disk.today } := by
  unfold openTodayLocked
  split
  next hopen => rw [← hopen]
  next => rfl

theorem archivePublish_writes (hopens : disk.opens = true) (hwrites : disk.writes = true)
    {line : List Byte} (hline : line ≠ []) {a : Archive} (hstarted : a.started = true) :
    (archivePublish disk line a).chunks = a.chunks ++ [(disk.today, line)] ∧
      (archivePublish disk line a).started = true := by
  unfold archivePublish
  rw [if_neg (by simp [hline, hstarted]), openTodayLocked_opens hopens]
  simp [hwrites, hstarted]

theorem line_ne_nil (p : Publication) : p.line ≠ [] := by
  rw [line_eq]
  exact append_ne_nil_of_left_ne_nil (record_ne_nil p) _

def Publication.archived (p : Publication) : Prop := p.disk.opens = true ∧ p.disk.writes = true

/-- Every polygon has the published position outside. -/
def Publication.Outside (polygons : List Polygon) (p : Publication) : Prop :=
  ∀ lat lon, p.position = some (lat, lon) → ∀ poly ∈ polygons, pointInPolygon poly lat lon = false

theorem calm_checked {polygons : List Polygon} {g : GeoState} (h : g.Calm) (hout : p.Outside polygons) :
    (p.checked polygons g).Calm := by
  rw [Publication.checked]
  split
  next lat lon hposition => exact calm_check h _ (hout lat lon hposition)
  next => exact h

/-- **Step.** What one publication appends while no node enters a polygon. -/
theorem publish_step {s : Sinks} (hpasses : p.passes opts.trustedOnly = true) (hcalm : s.geofence.Calm)
    (hout : p.Outside opts.polygons) :
    (feedPublishEvent opts s p).stdout = s.stdout ++ p.line ∧
      (feedPublishEvent opts s p).web = s.web ++ (dashboardFrame p.line).toList ∧
      (feedPublishEvent opts s p).geofence.Calm := by
  have hnext := calm_checked hcalm hout
  rw [feedPublishEvent, if_pos hpasses]
  dsimp only
  rw [hnext.events]
  exact ⟨by simp, by simp, hnext⟩

/-! ## A run of publications -/

def emptySinks : Sinks := { archive := { started := true } }

theorem publishAll_snoc (opts : PublishOpts) (s : Sinks) (ps : List Publication) (p : Publication) :
    publishAll opts s (ps ++ [p]) = feedPublishEvent opts (publishAll opts s ps) p := by
  simp [publishAll]

theorem published_snoc (trustedOnly : Bool) (ps : List Publication) (p : Publication) :
    published trustedOnly (ps ++ [p]) =
      published trustedOnly ps ++ if p.passes trustedOnly then [p] else [] := by
  rw [published, filter_append, filter_singleton, Bool.cond_eq_ite]
  rfl

/-- **Run, archive.** It holds the lines of the events that got through. -/
theorem publishAll_archive (opts : PublishOpts) (hdisk : ∀ p ∈ ps, p.archived) :
    (publishAll opts emptySinks ps).archive.chunks =
        (published opts.trustedOnly ps).map (fun p => (p.disk.today, p.line)) ∧
      (publishAll opts emptySinks ps).archive.started = true := by
  induction ps using reverseRecOn with
  | nil => exact ⟨rfl, rfl⟩
  | append_singleton ps p ih =>
    obtain ⟨hps, hp⟩ := forall_mem_append.mp hdisk
    obtain ⟨hchunks, hstarted⟩ := ih hps
    have hdisk := hp p mem_cons_self
    rw [publishAll_snoc, published_snoc, feedPublishEvent]
    split
    next hpasses =>
      obtain ⟨hnew, hstarted⟩ := archivePublish_writes hdisk.1 hdisk.2 (line_ne_nil p) hstarted
      refine ⟨hnew.trans ?_, hstarted⟩
      rw [hchunks, map_append]
      rfl
    next => exact ⟨by rw [append_nil, hchunks], hstarted⟩

/-- **Run, streams.** They hold what the events that got through appended. -/
theorem publishAll_run (hout : ∀ p ∈ published opts.trustedOnly ps, p.Outside opts.polygons) :
    (publishAll opts emptySinks ps).stdout = (published opts.trustedOnly ps).flatMap (·.line) ∧
      (publishAll opts emptySinks ps).web =
        (published opts.trustedOnly ps).flatMap (fun p => (dashboardFrame p.line).toList) ∧
      (publishAll opts emptySinks ps).geofence.Calm := by
  induction ps using reverseRecOn with
  | nil => exact ⟨rfl, rfl, calm_init⟩
  | append_singleton ps p ih =>
    rw [published_snoc] at hout ⊢
    obtain ⟨hps, hp⟩ := forall_mem_append.mp hout
    obtain ⟨hstdout, hweb, hcalm⟩ := ih hps
    rw [publishAll_snoc]
    by_cases hpasses : p.passes opts.trustedOnly = true
    · rw [if_pos hpasses] at hp ⊢
      obtain ⟨hstdout', hweb', hcalm'⟩ := publish_step hpasses hcalm (hp p mem_cons_self)
      rw [hstdout', hweb', hstdout, hweb]
      exact ⟨by simp, by simp, hcalm'⟩
    · rw [if_neg hpasses, append_nil, feedPublishEvent, if_neg hpasses]
      exact ⟨hstdout, hweb, hcalm⟩

/-! ## Framing -/

def Publication.Fits (p : Publication) : Prop :=
  p.event.isMeshcore = false ∧ p.text.length + 1 < lineCap

theorem line_of_fits (h : p.Fits) : p.line = p.record ++ [0x0A] := by
  have hroom : p.record.length + 1 < lineCap := by
    rw [record_of_fits h.2]
    exact h.2
  rw [line_eq, Publication.lineEnd, if_pos ⟨h.1, hroom⟩]

theorem line_of_meshcore (h : p.event.isMeshcore = true) : p.line = p.record := by
  simp [line_eq, Publication.lineEnd, h]

theorem newline_not_mem {t : List Byte} (h : Printable t) : 0x0A ∉ t := by
  intro hmem
  exact h _ hmem (by decide)

theorem dashboardFrame_record (h : p.Fits) : dashboardFrame p.line = some (Web.frame p.record) := by
  have hlast : ∀ hne : p.record ≠ [], ¬(p.record.getLast hne == 0x0A || p.record.getLast hne == 0x0D) = true := by
    intro hne hend
    have hprint := printable_record h.1 _ (getLast_mem hne)
    simp only [Bool.or_eq_true, beq_iff_eq] at hend
    rcases hend with hend | hend <;> rw [hend] at hprint <;> exact hprint (by decide)
  have hstrip : Web.trimLine p.line = p.record := by
    rw [line_of_fits h, Web.trimLine, rdropWhile_concat_pos _ _ _ rfl]
    exact rdropWhile_eq_self_iff.mpr hlast
  rw [dashboardFrame, hstrip]
  exact if_neg (record_ne_nil p)

theorem archive_file (hdisk : ∀ p ∈ ps, p.archived) (day : Nat) :
    (publishAll opts emptySinks ps).archive.file day =
      ((published opts.trustedOnly ps).filter (·.disk.today == day)).flatMap (·.line) := by
  rw [Archive.file, (publishAll_archive opts hdisk).1, filter_map, flatMap_map]
  rfl

theorem framed_of_fits (hdisk : ∀ p ∈ ps, p.archived)
    (hfits : ∀ p ∈ published opts.trustedOnly ps, p.Fits ∧ p.Outside opts.polygons) :
    Framed (publishAll opts emptySinks ps) (published opts.trustedOnly ps) := by
  obtain ⟨hstdout, hweb, -⟩ := publishAll_run fun p hp => (hfits p hp).2
  refine ⟨?_, ?_, ?_, ?_⟩
  · rw [hstdout]
    exact flatMap_congr fun p hp => line_of_fits (hfits p hp).1
  · intro day
    rw [archive_file hdisk]
    exact flatMap_congr fun p hp => line_of_fits (hfits p (mem_of_mem_filter hp)).1
  · rw [hweb, map_eq_flatMap]
    apply flatMap_congr
    intro p hp
    rw [dashboardFrame_record (hfits p hp).1]
    rfl
  · intro p hp
    exact newline_not_mem (printable_record (hfits p hp).1.1)

theorem length_line_le (p : Publication) : p.line.length ≤ (p.record ++ [0x0A]).length := by
  rw [line_eq, Publication.lineEnd, length_append, length_append]
  split <;> simp

/-- The archive shows it: the geofence does not write there. -/
theorem not_framed_of_meshcore (hdisk : ∀ p ∈ ps, p.archived)
    (hp : p ∈ published opts.trustedOnly ps) (hmeshcore : p.event.isMeshcore = true) :
    ¬Framed (publishAll opts emptySinks ps) (published opts.trustedOnly ps) := by
  intro hframed
  have hfile := (archive_file hdisk p.disk.today).symm.trans (hframed.archive p.disk.today)
  have hlengths := congrArg length hfile
  rw [length_flatMap, length_flatMap] at hlengths
  have hshort : p.line.length < (p.record ++ [0x0A]).length := by
    rw [line_of_meshcore hmeshcore, length_append]
    exact Nat.lt_succ_self _
  have hday : p ∈ (published opts.trustedOnly ps).filter (·.disk.today == p.disk.today) :=
    mem_filter.mpr ⟨hp, beq_self_eq_true _⟩
  have hlt := sum_lt_sum (fun p : Publication => p.line.length)
    (fun p => (p.record ++ [0x0A]).length) (fun p _ => length_line_le p) ⟨p, hday, hshort⟩
  exact absurd hlengths (Nat.ne_of_lt hlt)

/-- **Framing.** Where every published event is a Meshtastic event whose line fits the buffer, and
every published position lies outside the polygons, every sink holds one record per event, in order,
each ended by one newline; a single MeshCore event breaks this. -/
theorem publishAll_framed (opts : PublishOpts) (ps : List Publication)
    (hdisk : ∀ p ∈ ps, p.archived) :
    ((∀ p ∈ published opts.trustedOnly ps, p.Fits ∧ p.Outside opts.polygons) →
        Framed (publishAll opts emptySinks ps) (published opts.trustedOnly ps)) ∧
      ((∃ p ∈ published opts.trustedOnly ps, p.event.isMeshcore = true) →
        ¬Framed (publishAll opts emptySinks ps) (published opts.trustedOnly ps)) := by
  refine ⟨framed_of_fits hdisk, ?_⟩
  rintro ⟨p, hp, hmeshcore⟩
  exact not_framed_of_meshcore hdisk hp hmeshcore

def sealedPacket : Publication where
  disk := { today := 20260101, opens := true, writes := true }
  event := { hasCrc := true, payloadCrcOk := true }

/-- A position at 50 degrees north and 10 east. -/
def positionPacket : Publication where
  disk := { today := 20260101, opens := true, writes := true }
  event :=
    { hasCrc := true, payloadCrcOk := true, decrypted := true, portnum := 3
      payload := some [0x0D, 0x00, 0x65, 0xCD, 0x1D, 0x15, 0x00, 0xE1, 0xF5, 0x05] }

def squareAt (lat lon : ℚ) : Polygon where
  name := ascii "yard"
  vertices := [(lat, lon), (lat, lon + 1), (lat + 1, lon + 1), (lat + 1, lon)]

theorem position_of_packet : positionPacket.position = some (50, 10) := by decide +kernel

theorem publishAll_framed_outside :
    (∀ p ∈ [sealedPacket, positionPacket], p.archived) ∧
      (∀ p ∈ published true [sealedPacket, positionPacket], p.Fits ∧ p.Outside [squareAt 20 10]) ∧
      Framed (publishAll ⟨true, [squareAt 20 10]⟩ emptySinks [sealedPacket, positionPacket])
        (published true [sealedPacket, positionPacket]) := by
  have hdisk : ∀ p ∈ [sealedPacket, positionPacket], p.archived :=
    forall_mem_cons.mpr ⟨⟨rfl, rfl⟩, forall_mem_singleton.mpr ⟨rfl, rfl⟩⟩
  have hfits : ∀ p ∈ published true [sealedPacket, positionPacket],
      p.Fits ∧ p.Outside [squareAt 20 10] := by
    intro p hp
    have hp := mem_of_mem_filter hp
    simp only [mem_cons, not_mem_nil, or_false] at hp
    rcases hp with rfl | rfl
    · exact ⟨⟨rfl, by decide +kernel⟩, fun lat lon hnone => by cases hnone⟩
    · refine ⟨⟨rfl, by decide +kernel⟩, fun lat lon hposition => ?_⟩
      rw [position_of_packet] at hposition
      cases hposition
      rw [forall_mem_singleton]
      decide +kernel
  exact ⟨hdisk, hfits, (publishAll_framed ⟨true, [squareAt 20 10]⟩ _ hdisk).1 hfits⟩

def ackPacket : Publication where
  disk := { today := 20260101, opens := true, writes := true }
  event :=
    { isMeshcore := true, mcPayloadType := .ack, mcTypeName := "ACK", decrypted := true,
      hasCrc := true, payloadCrcOk := true, mcTimestamp := 7 }

/-- Two acknowledgements run into one line, and a position inside a polygon comes with a second
record. -/
theorem publishAll_unframed :
    ¬Framed (publishAll ⟨false, []⟩ emptySinks [ackPacket, ackPacket])
        (published false [ackPacket, ackPacket]) ∧
      ¬Framed (publishAll ⟨true, [squareAt (99 / 2) (19 / 2)]⟩ emptySinks [positionPacket])
        (published true [positionPacket]) := by
  constructor
  · apply not_framed_of_meshcore (p := ackPacket)
    · exact forall_mem_cons.mpr ⟨⟨rfl, rfl⟩, forall_mem_singleton.mpr ⟨rfl, rfl⟩⟩
    · exact mem_cons_self
    · rfl
  · intro hframed
    exact absurd (congrArg length hframed.stdout) (by decide +kernel)

end MeshcoreSniffer.Feed
