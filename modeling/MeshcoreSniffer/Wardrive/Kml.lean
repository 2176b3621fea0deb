import MeshcoreSniffer.Lib.Printf
import MeshcoreSniffer.Lib.Xml

/-!
# KML export

`wardrive/kml.go`, as the bytes it writes; the formatting of numbers, times and durations is Go's
(`GoLib`).
-/

namespace MeshcoreSniffer.Wardrive

open Lib List Lib.Printf
open Lib.Xml

/-! ## What the writer reads -/

def isPlainByte (b : Byte) : Bool := isNameByte b || b == 0x2B

/-- The parts of Go's library the writer uses, on its floats, times and durations. -/
structure GoLib (F T D : Type) where
  lit : ℚ → F
  pi : F
  add : F → F → F
  sub : F → F → F
  mul : F → F → F
  div : F → F → F
  sin : F → F
  cos : F → F
  asin : F → F
  atan2 : F → F → F
  /-- `x <= 0`. -/
  nonPos : F → Bool
  /-- `x != 0`. -/
  nonZero : F → Bool
  /-- The verb `%.kf`. -/
  fixed : Nat → F → List Byte
  /-- `t.UTC().Format(kmlTimeFormat)`. -/
  kmlTime : T → List Byte
  /-- `t.UTC().Format("2006-01-02")`. -/
  date : T → List Byte
  isZero : T → Bool
  elapsed : T → T → D
  noTime : D
  /-- `d.Round(time.Second)`, printed. -/
  seconds : D → List Byte
  fixed_plain : ∀ k x, ∀ b ∈ fixed k x, isPlainByte b = true
  kmlTime_plain : ∀ t, ∀ b ∈ kmlTime t, isPlainByte b = true
  date_plain : ∀ t, ∀ b ∈ date t, isPlainByte b = true
  seconds_plain : ∀ d, ∀ b ∈ seconds d, isPlainByte b = true

structure Session (T : Type) where
  sessionID : List Byte
  stationID : List Byte
  startTS : T
  endTS : T

structure NodeAggregate (F T : Type) where
  nodeID : List Byte
  longName : List Byte
  shortName : List Byte
  hwModel : BitVec 32
  role : BitVec 32
  channelName : List Byte
  channelHash : Byte
  preset : List Byte
  freqHz : BitVec 64
  firstSeen : T
  lastSeen : T
  obsCount : Int
  bestRSSIdBm : F
  bestSNRdB : F
  estLat : F
  estLon : F
  estUncertaintyM : F
  estMethod : List Byte
  selfReportedLat : F
  selfReportedLon : F
  selfReportedTS : Option T

structure TrackPoint (F T : Type) where
  ts : T
  lat : F
  lon : F
  altM : F

/-! ## Escaping -/

def escapeByte (b : Byte) : List Byte :=
  if b = 0x26 then ascii "&amp;"
  else if b = 0x3C then ascii "&lt;"
  else if b = 0x3E then ascii "&gt;"
  else if b = 0x22 then ascii "&quot;"
  else if b = 0x27 then ascii "&apos;"
  else [b]

def xmlEscape (s : List Byte) : List Byte := s.flatMap escapeByte

/-! ## The document -/

/-- The lines of `kmlStyles`, style by style. -/
def kmlStyles : List (List String) :=
  [ [ "<Style id=\"mesh-decrypted\">",
      "  <IconStyle><color>ff00ff00</color><scale>1.1</scale><Icon><href>http://maps.google.com/mapfiles/kml/paddle/grn-circle.png</href></Icon></IconStyle>",
      "  <LabelStyle><color>ff00ff00</color><scale>0.85</scale></LabelStyle>",
      "</Style>" ],
    [ "<Style id=\"mesh-encrypted\">",
      "  <IconStyle><color>ff00aaff</color><scale>1.0</scale><Icon><href>http://maps.google.com/mapfiles/kml/paddle/orange-circle.png</href></Icon></IconStyle>",
      "  <LabelStyle><color>ff00aaff</color><scale>0.8</scale></LabelStyle>",
      "</Style>" ],
    [ "<Style id=\"mesh-router\">",
      "  <IconStyle><color>ffff00ff</color><scale>1.2</scale><Icon><href>http://maps.google.com/mapfiles/kml/paddle/purple-stars.png</href></Icon></IconStyle>",
      "  <LabelStyle><color>ffff00ff</color><scale>0.9</scale></LabelStyle>",
      "</Style>" ],
    [ "<Style id=\"mesh-track\">",
      "  <LineStyle><color>ffffff00</color><width>3</width></LineStyle>",
      "</Style>" ],
    [ "<Style id=\"mesh-confidence-decrypted\">",
      "  <LineStyle><color>4400ff00</color><width>1</width></LineStyle>",
      "  <PolyStyle><color>2200ff00</color><fill>1</fill><outline>1</outline></PolyStyle>",
      "</Style>" ],
    [ "<Style id=\"mesh-confidence-encrypted\">",
      "  <LineStyle><color>4400aaff</color><width>1</width></LineStyle>",
      "  <PolyStyle><color>2200aaff</color><fill>1</fill><outline>1</outline></PolyStyle>",
      "</Style>" ] ]

def roleRouter : BitVec 32 := 2

def earthRadiusM : ℚ := 6371000

def appName : String := "meshtastic-wardrive"

def line (s : String) : List Byte := ascii s ++ [0x0A]

theorem line_ofList (l : List Char) :
    line (String.ofList l) = (l.map fun c => BitVec.ofNat 8 c.toNat) ++ [0x0A] := by
  rw [line, ascii_ofList]

section

variable {F T D : Type} (go : GoLib F T D)

def documentName (sess : Session T) : List Byte :=
  let stationPart := if sess.stationID = [] then ascii "wardrive" else sess.stationID
  ascii "meshtastic-wardrive: " ++ stationPart ++ ascii " " ++ go.date sess.startTS

def documentDescription (sess : Session T) (aggs : List (NodeAggregate F T))
    (track : List (TrackPoint F T)) : List Byte :=
  let dec := (aggs.filter fun a => a.channelName ≠ []).length
  let enc := (aggs.filter fun a => a.channelName = []).length
  let dur := if go.isZero sess.endTS then go.noTime else go.elapsed sess.endTS sess.startTS
  ascii appName ++ ascii " session " ++ sess.sessionID ++ ascii ". " ++ decimal aggs.length
    ++ ascii " nodes (" ++ decimal dec ++ ascii " decrypted, " ++ decimal enc
    ++ ascii " encrypted-only) over " ++ decimal track.length ++ ascii " GPS fixes; duration "
    ++ go.seconds dur ++ ascii "."

def nodeDisplayName (a : NodeAggregate F T) : List Byte :=
  if a.longName ≠ [] then
    if a.shortName ≠ [] then
      a.nodeID ++ ascii " " ++ a.longName ++ ascii " [" ++ a.shortName ++ ascii "]"
    else a.nodeID ++ ascii " " ++ a.longName
  else a.nodeID

def descriptionRows (a : NodeAggregate F T) : List (String × List Byte) :=
  [("Node id", a.nodeID)]
    ++ (if a.longName ≠ [] then [("Long name", a.longName)] else [])
    ++ (if a.shortName ≠ [] then [("Short name", a.shortName)] else [])
    ++ (if a.hwModel ≠ 0 then [("HW model", decimal a.hwModel.toNat)] else [])
    ++ (if a.role ≠ 0 then [("Role", decimal a.role.toNat)] else [])
    ++ (if a.channelName ≠ [] then [("Channel", a.channelName)] else [])
    ++ [("Channel hash", ascii "0x" ++ hexPadded 2 a.channelHash.toNat)]
    ++ (if a.preset ≠ [] then [("Preset", a.preset)] else [])
    ++ (if a.freqHz ≠ 0 then
        [("Frequency", go.fixed 3 (go.div (go.lit a.freqHz.toNat) (go.lit 1000000)) ++ ascii " MHz")]
      else [])
    ++ [("First seen (UTC)", go.kmlTime a.firstSeen), ("Last seen (UTC)", go.kmlTime a.lastSeen),
      ("Observations", signed a.obsCount), ("Best RSSI", go.fixed 1 a.bestRSSIdBm ++ ascii " dBm")]
    ++ (if go.nonZero a.bestSNRdB then [("Best SNR", go.fixed 1 a.bestSNRdB ++ ascii " dB")] else [])
    ++ [("Estimate", go.fixed 7 a.estLat ++ ascii ", " ++ go.fixed 7 a.estLon ++ ascii " ("
        ++ a.estMethod ++ ascii ", ~" ++ go.fixed 0 a.estUncertaintyM ++ ascii " m 1-sigma)")]
    ++ (match a.selfReportedTS with
      | none => []
      | some ts => [("Self-reported", go.fixed 7 a.selfReportedLat ++ ascii ", "
          ++ go.fixed 7 a.selfReportedLon ++ ascii " at " ++ go.kmlTime ts)])

def descriptionRow (r : String × List Byte) : List Byte :=
  ascii "<tr><td><b>" ++ xmlEscape (ascii r.1) ++ ascii "</b></td><td>" ++ xmlEscape r.2
    ++ ascii "</td></tr>"

def nodeDescriptionHTML (a : NodeAggregate F T) : List Byte :=
  ascii "<table>" ++ (descriptionRows go a).flatMap descriptionRow ++ ascii "</table>"
    ++ ascii "<p><i>Confidence radius is the RSSI&sup2;-weighted spread of observations from the centroid; "
    ++ ascii "it is a measure of consistency with the data, not a guarantee that the emitter sits within the ring.</i></p>"

def writeNodePlacemark (a : NodeAggregate F T) : List Byte :=
  let style := if a.role = roleRouter then "#mesh-router"
    else if a.channelName ≠ [] then "#mesh-decrypted" else "#mesh-encrypted"
  line "      <Placemark>"
    ++ (ascii "        <name>" ++ xmlEscape (nodeDisplayName a) ++ line "</name>")
    ++ (ascii "        <styleUrl>" ++ ascii style ++ line "</styleUrl>")
    ++ (ascii "        <description>" ++ (ascii "<![CDATA[" ++ nodeDescriptionHTML go a ++ ascii "]]>")
      ++ line "</description>")
    ++ (ascii "        <Point><coordinates>" ++ go.fixed 7 a.estLon ++ ascii "," ++ go.fixed 7 a.estLat
      ++ line ",0</coordinates></Point>")
    ++ line "      </Placemark>"

def circlePoints (lat lon radiusM : F) (n : Nat) : List (F × F) :=
  let n := if n < 3 then 32 else n
  let angRad := go.div radiusM (go.lit earthRadiusM)
  let latRad := go.div (go.mul lat go.pi) (go.lit 180)
  let lonRad := go.div (go.mul lon go.pi) (go.lit 180)
  (List.range (n + 1)).map fun i =>
    let bearing := go.div (go.mul (go.mul (go.lit i) (go.lit 2)) go.pi) (go.lit n)
    let sinLat := go.add (go.mul (go.sin latRad) (go.cos angRad))
      (go.mul (go.mul (go.cos latRad) (go.sin angRad)) (go.cos bearing))
    let newLat := go.asin sinLat
    let y := go.mul (go.mul (go.sin bearing) (go.sin angRad)) (go.cos latRad)
    let x := go.sub (go.cos angRad) (go.mul (go.sin latRad) sinLat)
    let newLon := go.add lonRad (go.atan2 y x)
    (go.div (go.mul newLat (go.lit 180)) go.pi, go.div (go.mul newLon (go.lit 180)) go.pi)

def writeConfidenceRing (a : NodeAggregate F T) : List Byte :=
  let style := if a.channelName ≠ [] then "#mesh-confidence-decrypted"
    else "#mesh-confidence-encrypted"
  line "      <Placemark>"
    ++ (ascii "        <name>" ++ xmlEscape a.nodeID ++ line " 1-sigma</name>")
    ++ (ascii "        <styleUrl>" ++ ascii style ++ line "</styleUrl>")
    ++ line "        <Polygon><outerBoundaryIs><LinearRing><coordinates>"
    ++ (circlePoints go a.estLat a.estLon a.estUncertaintyM 32).flatMap (fun p =>
      ascii "          " ++ go.fixed 7 p.2 ++ ascii "," ++ go.fixed 7 p.1 ++ line ",0")
    ++ line "        </coordinates></LinearRing></outerBoundaryIs></Polygon>"
    ++ line "      </Placemark>"

def writeTrack (track : List (TrackPoint F T)) : List Byte :=
  line "  <Folder><name>Operator path</name>"
    ++ line "    <Placemark><name>track</name><styleUrl>#mesh-track</styleUrl>"
    ++ line "      <gx:Track>"
    ++ track.flatMap (fun tp => ascii "        <when>" ++ go.kmlTime tp.ts ++ line "</when>")
    ++ track.flatMap (fun tp => ascii "        <gx:coord>" ++ go.fixed 7 tp.lon ++ ascii " "
      ++ go.fixed 7 tp.lat ++ ascii " " ++ go.fixed 2 tp.altM ++ line "</gx:coord>")
    ++ line "      </gx:Track>"
    ++ line "    </Placemark>"
    ++ line "  </Folder>"

def writeNodes (aggs : List (NodeAggregate F T)) : List Byte :=
  line "  <Folder><name>Meshtastic nodes</name>"
    ++ line "    <Folder><name>Decrypted (channel known)</name>"
    ++ (aggs.filter fun a => a.channelName ≠ []).flatMap (writeNodePlacemark go)
    ++ line "    </Folder>"
    ++ line "    <Folder><name>Encrypted (channel unknown)</name>"
    ++ (aggs.filter fun a => a.channelName = []).flatMap (writeNodePlacemark go)
    ++ line "    </Folder>"
    ++ line "    <Folder><name>Confidence circles</name>"
    ++ (aggs.filter fun a => !go.nonPos a.estUncertaintyM).flatMap (writeConfidenceRing go)
    ++ line "    </Folder>"
    ++ line "  </Folder>"

def writeKML (sess : Session T) (aggs : List (NodeAggregate F T)) (track : List (TrackPoint F T)) :
    List Byte :=
  line "<?xml version=\"1.0\" encoding=\"UTF-8\"?>"
    ++ line "<kml xmlns=\"http://www.opengis.net/kml/2.2\" xmlns:gx=\"http://www.google.com/kml/ext/2.2\">"
    ++ line "<Document>"
    ++ (ascii "  <name>" ++ xmlEscape (documentName go sess) ++ line "</name>")
    ++ (ascii "  <description>" ++ xmlEscape (documentDescription go sess aggs track)
      ++ line "</description>")
    ++ kmlStyles.flatMap (fun style => style.flatMap line)
    ++ (if 0 < track.length then writeTrack go track else [])
    ++ writeNodes go aggs
    ++ line "</Document>"
    ++ line "</kml>"

end

/-! ## Markup -/

theorem escapeByte_cases (b : Byte) :
    (escapeByte b = [b] ∧ b ≠ 0x3C ∧ b ≠ 0x3E ∧ b ≠ 0x26)
      ∨ (escapeByte b ∈ references ∧ isXmlByte b = true
        ∧ ∃ m, escapeByte b = 0x26 :: (m ++ [0x3B])) := by
  rw [escapeByte]
  split
  next h => exact .inr ⟨by decide, h ▸ by decide, ascii "amp", rfl⟩
  split
  next h => exact .inr ⟨by decide, h ▸ by decide, ascii "lt", rfl⟩
  split
  next h => exact .inr ⟨by decide, h ▸ by decide, ascii "gt", rfl⟩
  split
  next h => exact .inr ⟨by decide, h ▸ by decide, ascii "quot", rfl⟩
  split
  next h => exact .inr ⟨by decide, h ▸ by decide, ascii "apos", rfl⟩
  next hamp hlt hgt _ _ => exact .inl ⟨rfl, hlt, hgt, hamp⟩

theorem xmlEscape_cons (b : Byte) (s : List Byte) : xmlEscape (b :: s) = escapeByte b ++ xmlEscape s :=
  flatMap_cons ..

theorem charData_xmlEscape (s : List Byte) : CharData (xmlEscape s) := by
  induction s with
  | nil => exact .nil
  | cons b s ih =>
    rw [xmlEscape_cons]
    rcases escapeByte_cases b with ⟨hself, hlt, hgt, hamp⟩ | ⟨href, -, -⟩
    · rw [hself]
      exact .byte hlt hgt hamp ih
    · exact .reference href ih

/-- **Markup.** An escaped field holds no angle bracket. -/
theorem xmlEscape_no_markup (s : List Byte) : 0x3C ∉ xmlEscape s ∧ 0x3E ∉ xmlEscape s :=
  (charData_xmlEscape s).no_markup

/-! ## Characters -/

theorem xmlEscape_of_wide {t : List Byte} (h : ∀ b ∈ t, 128 ≤ b.toNat) : xmlEscape t = t := by
  induction t with
  | nil => rfl
  | cons b t ih =>
    obtain ⟨hb, ht⟩ := forall_mem_cons.mp h
    rcases escapeByte_cases b with ⟨hself, -⟩ | ⟨-, hbyte, -⟩
    · rw [xmlEscape_cons, hself, ih ht, singleton_append]
    · exact absurd (lt_of_isXmlByte hbyte) (Nat.not_lt.mpr hb)

theorem legal_xmlEscape_of_legal {s : List Byte} (h : Legal s) : Legal (xmlEscape s) := by
  obtain ⟨cs, hcs, rfl⟩ := h
  have hflat : xmlEscape (cs.flatMap utf8) = cs.flatMap fun c => xmlEscape (utf8 c) :=
    flatMap_assoc
  rw [hflat]
  refine legal_flatMap fun c hc => ?_
  by_cases hascii : c.toNat < 128
  · rw [utf8_of_ascii hascii, xmlEscape, flatMap_singleton]
    rcases escapeByte_cases (BitVec.ofNat 8 c.toNat) with ⟨hself, -⟩ | ⟨href, -, -⟩
    · rw [hself]
      exact legal_byte ((isXmlByte_iff hascii).trans (hcs c hc))
    · exact legal_reference href
  · rw [xmlEscape_of_wide (utf8_of_wide (Nat.not_lt.mp hascii))]
    exact ⟨[c], forall_mem_singleton.mpr (hcs c hc), flatMap_singleton ..⟩

theorem legal_of_legal_xmlEscape {a s : List Byte} (h : Legal (a ++ xmlEscape s)) : Legal (a ++ s) := by
  induction s generalizing a with
  | nil => exact h
  | cons b s ih =>
    rw [xmlEscape_cons] at h
    rcases escapeByte_cases b with ⟨hself, -⟩ | ⟨-, hb, m, href⟩
    · rw [hself, ← append_assoc] at h
      have := ih h
      rwa [append_assoc] at this
    · rw [href, cons_append, append_assoc] at h
      obtain ⟨ha, -, hrest⟩ := h.split (by decide)
      obtain ⟨-, -, hs⟩ := hrest.split (by decide)
      exact ha.append ((legal_byte hb).append (ih (a := []) hs))

theorem legal_xmlEscape_iff (s : List Byte) : Legal (xmlEscape s) ↔ Legal s :=
  ⟨legal_of_legal_xmlEscape (a := []), legal_xmlEscape_of_legal⟩

section

variable {F T D : Type} (go : GoLib F T D)

theorem guarded_xmlEscape (s : List Byte) : guarded 0x5D (xmlEscape s) = true :=
  guarded_of_not_mem (xmlEscape_no_markup s).2 _

theorem guarded_descriptionRow (r : String × List Byte) :
    guarded 0x5D (descriptionRow r) = true := by
  have hfront : guarded 0x5D (ascii "<tr><td><b>") = true := rfl
  have hmiddle : guarded 0x5D (ascii "</b></td><td>") = true := rfl
  have hback : guarded 0x5D (ascii "</td></tr>") = true := rfl
  exact guarded_append (guarded_append (guarded_append
    (guarded_append hfront (guarded_xmlEscape _)) hmiddle) (guarded_xmlEscape _)) hback

/-- **Markup.** No field closes the CDATA section. -/
theorem description_no_end (a : NodeAggregate F T) : ¬ascii "]]>" <:+: nodeDescriptionHTML go a := by
  have hopen : guarded 0x5D (ascii "<table>") = true := rfl
  have hclose : guarded 0x5D (ascii "</table>") = true := rfl
  have hnote : guarded 0x5D (ascii "<p><i>Confidence radius is the RSSI&sup2;-weighted spread of observations from the centroid; ") = true := by
    rw [ascii_ofList]
    decide
  have hnote' : guarded 0x5D (ascii "it is a measure of consistency with the data, not a guarantee that the emitter sits within the ring.</i></p>") = true := by
    rw [ascii_ofList]
    decide
  exact not_infix_of_guarded (guarded_append (guarded_append (guarded_append (guarded_append hopen
    (guarded_flatMap fun r _ => guarded_descriptionRow r)) hclose) hnote) hnote')

/-! ## The fields are text -/

structure NodeAggregate.TextLegal (a : NodeAggregate F T) : Prop where
  nodeID : Legal a.nodeID
  longName : Legal a.longName
  shortName : Legal a.shortName
  channelName : Legal a.channelName
  preset : Legal a.preset
  estMethod : Legal a.estMethod

structure FieldsLegal (sess : Session T) (aggs : List (NodeAggregate F T)) : Prop where
  sessionID : Legal sess.sessionID
  stationID : Legal sess.stationID
  nodes : ∀ a ∈ aggs, a.TextLegal

variable {b : Byte} {t v : List Byte} {k : String} {a : NodeAggregate F T}
  {aggs : List (NodeAggregate F T)} {sess : Session T} {track : List (TrackPoint F T)}

theorem isXmlByte_of_isPlainByte (h : isPlainByte b = true) :
    isXmlByte b = true ∧ b ≠ 0x3C ∧ b ≠ 0x3E ∧ b ≠ 0x26 := by
  revert b
  decide

theorem legal_plain (h : ∀ b ∈ t, isPlainByte b = true) : Legal t :=
  legal_of_bytes fun b hb => (isXmlByte_of_isPlainByte (h b hb)).1

theorem balanced_plain (h : ∀ b ∈ t, isPlainByte b = true) : Balanced t :=
  balanced_text (legal_plain h) (charData_of_bytes fun b hb => (isXmlByte_of_isPlainByte (h b hb)).2)

theorem balanced_xmlEscape (h : Legal t) : Balanced (xmlEscape t) :=
  balanced_text (legal_xmlEscape_of_legal h) (charData_xmlEscape t)

theorem isPlainByte_of_isDigit (h : isDigit b = true) : isPlainByte b = true := by
  revert b
  decide

theorem legal_decimal (n : Nat) : Legal (decimal n) :=
  legal_plain fun b hb => isPlainByte_of_isDigit (isDigit_decimal n b hb)

theorem legal_signed (i : Int) : Legal (signed i) := by
  have hall : ∀ b : Byte, isPrintfChar b = true → isXmlByte b = true := by decide
  exact legal_of_bytes fun b hb => hall b (isPrintfChar_signed i b hb)

theorem legal_hexPadded (k n : Nat) : Legal (hexPadded k n) := by
  have hall : ∀ d < 16, isXmlByte (hexDigit d) = true := by decide
  refine legal_of_bytes fun b hb => ?_
  obtain ⟨d, hd, rfl⟩ := mem_hexPadded hb
  exact hall d hd

def RowLegal (r : String × List Byte) : Prop := Legal (ascii r.1) ∧ Legal r.2

theorem rowLegal (hk : (ascii k).all isXmlByte = true) (hv : Legal v) :
    RowLegal (k, v) := ⟨legal_ascii hk, hv⟩

theorem rowLegal_single (hk : (ascii k).all isXmlByte = true) (hv : Legal v) :
    ∀ r ∈ [(k, v)], RowLegal r :=
  forall_mem_singleton.mpr (rowLegal hk hv)

theorem rowLegal_ite {c : Prop} [Decidable c] {rows : List (String × List Byte)}
    (h : ∀ r ∈ rows, RowLegal r) : ∀ r ∈ (if c then rows else []), RowLegal r := by
  split
  next => exact h
  next => exact forall_mem_nil _

theorem rowLegal_rows (h : a.TextLegal) : ∀ r ∈ descriptionRows go a, RowLegal r := by
  obtain ⟨hnode, hlong, hshort, hchannel, hpreset, hmethod⟩ := h
  have hfixed : ∀ k x, Legal (go.fixed k x) := fun k x => legal_plain (go.fixed_plain k x)
  have htime : ∀ t, Legal (go.kmlTime t) := fun t => legal_plain (go.kmlTime_plain t)
  have hseen : ∀ r ∈ [("First seen (UTC)", go.kmlTime a.firstSeen),
      ("Last seen (UTC)", go.kmlTime a.lastSeen), ("Observations", signed a.obsCount),
      ("Best RSSI", go.fixed 1 a.bestRSSIdBm ++ ascii " dBm")], RowLegal r :=
    forall_mem_cons.mpr ⟨rowLegal rfl (htime _), forall_mem_cons.mpr
      ⟨rowLegal rfl (htime _), forall_mem_cons.mpr
        ⟨rowLegal rfl (legal_signed _), rowLegal_single rfl ((hfixed _ _).append (legal_ascii rfl))⟩⟩⟩
  have hself : ∀ r ∈ (match a.selfReportedTS with
      | none => []
      | some ts => [("Self-reported", go.fixed 7 a.selfReportedLat ++ ascii ", "
          ++ go.fixed 7 a.selfReportedLon ++ ascii " at " ++ go.kmlTime ts)]), RowLegal r := by
    split
    next => exact forall_mem_nil _
    next => exact rowLegal_single rfl (((((hfixed _ _).append (legal_ascii rfl)).append (hfixed _ _)).append
        (legal_ascii rfl)).append (htime _))
  simp only [descriptionRows, forall_mem_append, and_assoc]
  exact ⟨rowLegal_single rfl hnode, rowLegal_ite (rowLegal_single rfl hlong),
    rowLegal_ite (rowLegal_single rfl hshort), rowLegal_ite (rowLegal_single rfl (legal_decimal _)),
    rowLegal_ite (rowLegal_single rfl (legal_decimal _)), rowLegal_ite (rowLegal_single rfl hchannel),
    rowLegal_single rfl ((legal_ascii rfl).append (legal_hexPadded _ _)),
    rowLegal_ite (rowLegal_single rfl hpreset),
    rowLegal_ite (rowLegal_single rfl ((hfixed _ _).append (legal_ascii rfl))), hseen,
    rowLegal_ite (rowLegal_single rfl ((hfixed _ _).append (legal_ascii rfl))),
    rowLegal_single rfl (((((((hfixed _ _).append (legal_ascii rfl)).append (hfixed _ _)).append
      (legal_ascii rfl)).append hmethod).append (legal_ascii rfl)).append (hfixed _ _) |>.append
      (legal_ascii rfl)), hself⟩

theorem legal_description (h : ∀ r ∈ descriptionRows go a, RowLegal r) :
    Legal (nodeDescriptionHTML go a) := by
  have hrow : ∀ r ∈ descriptionRows go a, Legal (descriptionRow r) := by
    intro r hr
    obtain ⟨hlabel, hvalue⟩ := h r hr
    exact ((((legal_ascii rfl).append (legal_xmlEscape_of_legal hlabel)).append (legal_ascii rfl)).append
      (legal_xmlEscape_of_legal hvalue)).append (legal_ascii rfl)
  refine ((((legal_ascii rfl).append (legal_flatMap hrow)).append (legal_ascii rfl)).append
    (legal_ascii ?_)).append (legal_ascii ?_)
  · rw [ascii_ofList]
    decide
  · rw [ascii_ofList]
    decide

/-! ## The elements balance -/

theorem balanced_pair (k : Nat) (x y : F) (sep : String) (hsep : fixedEffect [] (ascii sep) = some []) :
    Balanced (go.fixed k x ++ ascii sep ++ go.fixed k y) :=
  ((balanced_plain (go.fixed_plain k x)).append (balanced_fixed hsep)).append
    (balanced_plain (go.fixed_plain k y))

theorem legal_nodeDisplayName (h : a.TextLegal) : Legal (nodeDisplayName a) := by
  have hfull := (h.nodeID.append (legal_ascii (s := " ") rfl)).append h.longName
  rw [nodeDisplayName]
  split
  next =>
    split
    next => exact ((hfull.append (legal_ascii rfl)).append h.shortName).append (legal_ascii rfl)
    next => exact hfull
  next => exact h.nodeID

theorem balanced_style {style : String} (h : style ∈ ["#mesh-router", "#mesh-decrypted",
    "#mesh-encrypted", "#mesh-confidence-decrypted", "#mesh-confidence-encrypted"]) :
    Balanced (ascii "        <styleUrl>" ++ ascii style ++ line "</styleUrl>") := by
  have hfixed : ∀ style ∈ ["#mesh-router", "#mesh-decrypted", "#mesh-encrypted",
      "#mesh-confidence-decrypted", "#mesh-confidence-encrypted"],
      fixedEffect [] (ascii style) = some [] := by decide
  exact (balanced_fixed (hfixed style h)).around [ascii "styleUrl"] (by decide)
    (by decide)

theorem balanced_writeNodePlacemark (h : a.TextLegal) : Balanced (writeNodePlacemark go a) := by
  have hname := (balanced_xmlEscape (legal_nodeDisplayName h)).around [ascii "name"]
    (a := ascii "        <name>") (b := line "</name>") (by decide) (by decide)
  have hdescription :=
    (balanced_cdata (legal_description go (rowLegal_rows go h)) (description_no_end go a)).around
      [ascii "description"] (a := ascii "        <description>") (b := line "</description>")
      (by decide) (by decide)
  have hpoint := (balanced_pair go 7 a.estLon a.estLat "," (by decide)).around
    [ascii "coordinates", ascii "Point"] (a := ascii "        <Point><coordinates>")
    (b := line ",0</coordinates></Point>") (by decide) (by decide)
  have hpicked : (if a.role = roleRouter then "#mesh-router"
      else if a.channelName ≠ [] then "#mesh-decrypted" else "#mesh-encrypted")
      ∈ ["#mesh-router", "#mesh-decrypted", "#mesh-encrypted", "#mesh-confidence-decrypted",
        "#mesh-confidence-encrypted"] := by
    split
    next => simp
    next => split <;> simp
  have hall := (((hname.append (balanced_style hpicked)).append hdescription).append hpoint).around
    [ascii "Placemark"] (a := line "      <Placemark>") (b := line "      </Placemark>")
    (by decide) (by decide)
  simpa only [writeNodePlacemark, append_assoc] using hall

theorem balanced_writeConfidenceRing (h : a.TextLegal) : Balanced (writeConfidenceRing go a) := by
  have hname := (balanced_xmlEscape h.nodeID).around [ascii "name"]
    (a := ascii "        <name>") (b := line " 1-sigma</name>") (by decide)
    (by decide)
  have hpicked : (if a.channelName ≠ [] then "#mesh-confidence-decrypted"
      else "#mesh-confidence-encrypted")
      ∈ ["#mesh-router", "#mesh-decrypted", "#mesh-encrypted", "#mesh-confidence-decrypted",
        "#mesh-confidence-encrypted"] := by
    split <;> simp
  have hpoint : ∀ p : F × F, Balanced
      (ascii "          " ++ (go.fixed 7 p.2 ++ ascii "," ++ go.fixed 7 p.1) ++ line ",0") :=
    fun p => (balanced_pair go 7 p.2 p.1 "," (by decide)).around [] (by decide)
      (by decide)
  have hring := (balanced_flatMap (l := circlePoints go a.estLat a.estLon a.estUncertaintyM 32)
    fun p _ => hpoint p).around
    [ascii "coordinates", ascii "LinearRing", ascii "outerBoundaryIs", ascii "Polygon"]
    (a := line "        <Polygon><outerBoundaryIs><LinearRing><coordinates>")
    (b := line "        </coordinates></LinearRing></outerBoundaryIs></Polygon>")
    (by decide) (by decide)
  have hall := ((hname.append (balanced_style hpicked)).append hring).around
    [ascii "Placemark"] (a := line "      <Placemark>") (b := line "      </Placemark>")
    (by decide) (by decide)
  simpa only [writeConfidenceRing, append_assoc] using hall

theorem balanced_writeTrack (track : List (TrackPoint F T)) : Balanced (writeTrack go track) := by
  have hwhen : ∀ tp : TrackPoint F T, Balanced
      (ascii "        <when>" ++ go.kmlTime tp.ts ++ line "</when>") :=
    fun tp => (balanced_plain (go.kmlTime_plain tp.ts)).around [ascii "when"] (by decide)
      (by decide)
  have hcoord : ∀ tp : TrackPoint F T, Balanced (ascii "        <gx:coord>"
      ++ (go.fixed 7 tp.lon ++ ascii " " ++ go.fixed 7 tp.lat ++ (ascii " " ++ go.fixed 2 tp.altM))
      ++ line "</gx:coord>") :=
    fun tp => ((balanced_pair go 7 tp.lon tp.lat " " (by decide)).append
      ((balanced_fixed (by decide)).append (balanced_plain (go.fixed_plain 2 tp.altM)))).around
      [ascii "gx:coord"] (by decide) (by decide)
  have htrack := ((balanced_flatMap (l := track) fun tp _ => hwhen tp).append
    (balanced_flatMap (l := track) fun tp _ => hcoord tp)).around [ascii "gx:Track"]
    (a := line "      <gx:Track>") (b := line "      </gx:Track>") (by decide)
    (by decide)
  have hplacemark := htrack.around [ascii "Placemark"]
    (a := line "    <Placemark><name>track</name><styleUrl>#mesh-track</styleUrl>")
    (b := line "    </Placemark>") (by decide) (by decide)
  have hall := hplacemark.around [ascii "Folder"]
    (a := line "  <Folder><name>Operator path</name>") (b := line "  </Folder>")
    (by decide) (by decide)
  simpa only [writeTrack, append_assoc] using hall

theorem balanced_writeNodes (h : ∀ a ∈ aggs, a.TextLegal) : Balanced (writeNodes go aggs) := by
  have hplacemarks : ∀ p : NodeAggregate F T → Bool,
      Balanced ((aggs.filter p).flatMap (writeNodePlacemark go)) := by
    intro p
    exact balanced_flatMap fun a ha =>
      balanced_writeNodePlacemark go (h a (mem_of_mem_filter ha))
  have hrings : Balanced ((aggs.filter fun a => !go.nonPos a.estUncertaintyM).flatMap
      (writeConfidenceRing go)) :=
    balanced_flatMap fun a ha => balanced_writeConfidenceRing go (h a (mem_of_mem_filter ha))
  have hdecrypted := (hplacemarks fun a => a.channelName ≠ []).around [ascii "Folder"]
    (a := line "    <Folder><name>Decrypted (channel known)</name>") (b := line "    </Folder>")
    (by decide) (by decide)
  have hencrypted := (hplacemarks fun a => a.channelName = []).around [ascii "Folder"]
    (a := line "    <Folder><name>Encrypted (channel unknown)</name>") (b := line "    </Folder>")
    (by decide) (by decide)
  have hcircles := hrings.around [ascii "Folder"]
    (a := line "    <Folder><name>Confidence circles</name>") (b := line "    </Folder>")
    (by decide) (by decide)
  have hall := ((hdecrypted.append hencrypted).append hcircles).around [ascii "Folder"]
    (a := line "  <Folder><name>Meshtastic nodes</name>") (b := line "  </Folder>")
    (by decide) (by decide)
  simpa only [writeNodes, append_assoc] using hall

theorem legal_documentName (h : Legal sess.stationID) : Legal (documentName go sess) := by
  have hstation : Legal (if sess.stationID = [] then ascii "wardrive" else sess.stationID) := by
    split
    next => exact legal_ascii rfl
    next => exact h
  exact (((legal_ascii rfl).append hstation).append (legal_ascii rfl)).append
    (legal_plain (go.date_plain _))

theorem legal_documentDescription (h : Legal sess.sessionID) (aggs : List (NodeAggregate F T))
    (track : List (TrackPoint F T)) : Legal (documentDescription go sess aggs track) := by
  have hhead := (((legal_ascii (s := appName) rfl).append (legal_ascii (s := " session ") rfl)).append
    h).append (legal_ascii (s := ". ") rfl)
  exact ((((((((((hhead.append (legal_decimal _)).append (legal_ascii rfl)).append
    (legal_decimal _)).append (legal_ascii rfl)).append (legal_decimal _)).append
    (legal_ascii rfl)).append (legal_decimal _)).append (legal_ascii rfl)).append
    (legal_plain (go.seconds_plain _))).append (legal_ascii rfl))

def kmlAttrs : List (Name × List Byte) :=
  [(ascii "xmlns", ascii "http://www.opengis.net/kml/2.2"),
    (ascii "xmlns:gx", ascii "http://www.google.com/kml/ext/2.2")]

theorem isDocument_writeKML (h : FieldsLegal sess aggs) (track : List (TrackPoint F T)) :
    IsDocument (writeKML go sess aggs track) := by
  have hname := (balanced_xmlEscape (legal_documentName go h.stationID)).around [ascii "name"]
    (a := ascii "  <name>") (b := line "</name>") (by decide) (by decide)
  have hdescription :=
    (balanced_xmlEscape (legal_documentDescription go h.sessionID aggs track)).around
      [ascii "description"] (a := ascii "  <description>") (b := line "</description>")
      (by decide) (by decide)
  have hstyles : Balanced (kmlStyles.flatMap fun style => style.flatMap line) := by
    have hstyle : ∀ style ∈ kmlStyles, fixedEffect [] (style.flatMap line) = some [] := by
      simp only [kmlStyles, forall_mem_cons, flatMap_cons, flatMap_nil]
      repeat rw [line_ofList]
      decide +kernel
    exact balanced_flatMap fun style hs => balanced_fixed (hstyle style hs)
  have htrack : Balanced (if 0 < track.length then writeTrack go track else []) := by
    split
    next => exact balanced_writeTrack go track
    next => exact balanced_nil
  have hinner := ((((hname.append hdescription).append hstyles).append htrack).append
    (balanced_writeNodes go h.nodes)).around [ascii "Document"] (a := [0x0A] ++ line "<Document>")
    (b := line "</Document>") (by decide) (by decide)
  have hkml : line "<kml xmlns=\"http://www.opengis.net/kml/2.2\" xmlns:gx=\"http://www.google.com/kml/ext/2.2\">"
      = (Token.opening (ascii "kml") kmlAttrs).render ++ [0x0A] := by
    rw [line_ofList]
    decide
  have hclose : line "</kml>" = (Token.closing (ascii "kml")).render ++ [0x0A] := by decide
  have hok : (Token.opening (ascii "kml") kmlAttrs).isFixed = true := by decide
  refine ⟨ascii "kml", kmlAttrs, [0x0A], _, [0x0A], Token.ok_of_isFixed hok, hinner,
    by decide, by decide, ?_⟩
  rw [writeKML, hkml, hclose]
  simp only [line, xmlDecl, append_assoc]

/-! ## Every field is shown -/

theorem shows_description (ha : a ∈ aggs) :
    Shows (writeNodes go aggs) (nodeDescriptionHTML go a) := by
  have hcdata : Shows (ascii "<![CDATA[" ++ nodeDescriptionHTML go a ++ ascii "]]>")
      (nodeDescriptionHTML go a) :=
    shows_between (x := 0x5B) (y := 0x5D) rfl rfl (by decide) (by decide) _
  have hplacemark : Shows (writeNodePlacemark go a) (nodeDescriptionHTML go a) :=
    (((hcdata.right _).left _).right _).left _ |>.left _
  rw [writeNodes]
  -- the two folders share out the nodes
  by_cases hchannel : a.channelName = []
  · have hmem : a ∈ aggs.filter fun a => a.channelName = [] :=
      mem_filter.mpr ⟨ha, by simpa using hchannel⟩
    have hfolder := hplacemark.flatMap (f := writeNodePlacemark go) hmem
    exact ((((hfolder.right _).left _).left _).left _ |>.left _).left _
  · have hmem : a ∈ aggs.filter fun a => a.channelName ≠ [] :=
      mem_filter.mpr ⟨ha, by simpa using hchannel⟩
    have hfolder := hplacemark.flatMap (f := writeNodePlacemark go) hmem
    exact (((((((((hfolder.right _).left _).left _).left _).left _).left _).left _).left _).left _)

theorem legal_row (h : Legal (nodeDescriptionHTML go a)) {r : String × List Byte}
    (hr : r ∈ descriptionRows go a) : Legal r.2 := by
  have hrow : Shows (descriptionRow r) (xmlEscape r.2) :=
    shows_between (x := 0x3E) (y := 0x3C) getLast?_append rfl (by decide) (by decide) _
  have hshown : Shows (nodeDescriptionHTML go a) (xmlEscape r.2) :=
    ((((hrow.flatMap hr).right _).left _).left _).left _
  exact (legal_xmlEscape_iff r.2).mp (hshown.legal h)

theorem textLegal_of_description (h : Legal (nodeDescriptionHTML go a)) : a.TextLegal := by
  have hoptional : ∀ (v : List Byte) (k : String),
      (v ≠ [] → (k, v) ∈ descriptionRows go a) → Legal v := by
    intro v k hrow
    by_cases hv : v = []
    · rw [hv]
      exact legal_nil
    · exact legal_row go h (hrow hv)
  have hestimate := legal_row go h (r := ("Estimate", go.fixed 7 a.estLat ++ ascii ", "
    ++ go.fixed 7 a.estLon ++ ascii " (" ++ a.estMethod ++ ascii ", ~"
    ++ go.fixed 0 a.estUncertaintyM ++ ascii " m 1-sigma)")) (by simp [descriptionRows])
  have hmethod : Shows (go.fixed 7 a.estLat ++ ascii ", " ++ go.fixed 7 a.estLon ++ ascii " ("
      ++ a.estMethod ++ ascii ", ~") a.estMethod :=
    shows_between (x := 0x28) (y := 0x2C) getLast?_append rfl (by decide) (by decide) _
  exact {
    nodeID := legal_row go h (r := ("Node id", a.nodeID)) (by simp [descriptionRows])
    longName := hoptional _ "Long name" fun hne => by simp [descriptionRows, hne]
    shortName := hoptional _ "Short name" fun hne => by simp [descriptionRows, hne]
    channelName := hoptional _ "Channel" fun hne => by simp [descriptionRows, hne]
    preset := hoptional _ "Preset" fun hne => by simp [descriptionRows, hne]
    estMethod := ((hmethod.left _).left _).legal hestimate }

theorem stationID_of_documentName (h : Legal (documentName go sess)) : Legal sess.stationID := by
  by_cases hempty : sess.stationID = []
  · rw [hempty]
    exact legal_nil
  · rw [documentName, if_neg hempty] at h
    have hshown : Shows (ascii "meshtastic-wardrive: " ++ sess.stationID ++ ascii " ")
        sess.stationID :=
      shows_between (x := 0x20) (y := 0x20) rfl rfl (by decide) (by decide) _
    exact (hshown.left _).legal h

theorem sessionID_of_documentDescription (h : Legal (documentDescription go sess aggs track)) :
    Legal sess.sessionID := by
  have hshown : Shows (ascii appName ++ ascii " session " ++ sess.sessionID ++ ascii ". ")
      sess.sessionID :=
    shows_between (x := 0x20) (y := 0x2E) (by decide) rfl (by decide) (by decide) _
  exact (((((((((((hshown.left _).left _).left _).left _).left _).left _).left _).left _).left _).left
    _)).legal h

theorem fieldsLegal_of_legal (h : Legal (writeKML go sess aggs track)) : FieldsLegal sess aggs := by
  have hname : Shows (ascii "  <name>" ++ xmlEscape (documentName go sess) ++ line "</name>")
      (xmlEscape (documentName go sess)) :=
    shows_between (x := 0x3E) (y := 0x3C) rfl rfl (by decide) (by decide) _
  have hdescription : Shows (ascii "  <description>"
      ++ xmlEscape (documentDescription go sess aggs track) ++ line "</description>")
      (xmlEscape (documentDescription go sess aggs track)) :=
    shows_between (x := 0x3E) (y := 0x3C) rfl rfl (by decide) (by decide) _
  refine ⟨?_, ?_, ?_⟩
  · have hout : Shows (writeKML go sess aggs track) _ :=
      ((((((hdescription.right _).left _).left _).left _).left _)).left _
    exact sessionID_of_documentDescription go ((legal_xmlEscape_iff _).mp (hout.legal h))
  · have hout : Shows (writeKML go sess aggs track) _ :=
      (((((((hname.right _).left _).left _).left _).left _).left _)).left _
    exact stationID_of_documentName go ((legal_xmlEscape_iff _).mp (hout.legal h))
  · intro a ha
    have hout : Shows (writeKML go sess aggs track) _ :=
      (((shows_description go ha).right _).left _).left _
    exact textLegal_of_description go (hout.legal h)

/-! ## Main theorem -/

/-- **Documents.** No field adds an element or closes the CDATA section it stands in, and the
document is well formed exactly when every field it shows is text that XML allows. -/
theorem writeKML_document_iff (sess : Session T) (aggs : List (NodeAggregate F T))
    (track : List (TrackPoint F T)) :
    ((∀ field, 0x3C ∉ xmlEscape field ∧ 0x3E ∉ xmlEscape field)
        ∧ ∀ a ∈ aggs, ¬ascii "]]>" <:+: nodeDescriptionHTML go a)
      ∧ (IsDocument (writeKML go sess aggs track) ↔ FieldsLegal sess aggs) := by
  refine ⟨⟨xmlEscape_no_markup, fun a _ => description_no_end go a⟩, ?_, ?_⟩
  · intro hdoc
    exact fieldsLegal_of_legal go hdoc.legal
  · intro hfields
    exact isDocument_writeKML go hfields track

end

/-- Go's library on the number `0`, the zero time and the empty duration. -/
def zeroGo : GoLib Unit Unit Unit where
  lit _ := ()
  pi := ()
  add _ _ := ()
  sub _ _ := ()
  mul _ _ := ()
  div _ _ := ()
  sin _ := ()
  cos _ := ()
  asin _ := ()
  atan2 _ _ := ()
  nonPos _ := true
  nonZero _ := false
  fixed k _ := if k = 0 then ascii "0" else ascii "0." ++ List.replicate k 0x30
  kmlTime _ := ascii "0001-01-01T00:00:00Z"
  date _ := ascii "0001-01-01"
  isZero _ := true
  elapsed _ _ := ()
  noTime := ()
  seconds _ := ascii "0s"
  fixed_plain := by
    intro k _ b hb
    split at hb
    next => exact List.all_eq_true.mp (by decide : (ascii "0").all isPlainByte = true) b hb
    next =>
      rcases List.mem_append.mp hb with hb | hb
      · exact List.all_eq_true.mp (by decide : (ascii "0.").all isPlainByte = true) b hb
      · rw [List.eq_of_mem_replicate hb]
        rfl
  kmlTime_plain := fun _ => List.all_eq_true.mp (by decide)
  date_plain := fun _ => List.all_eq_true.mp (by decide)
  seconds_plain := fun _ => List.all_eq_true.mp (by decide)

def controlNode : NodeAggregate Unit Unit where
  nodeID := ascii "!0a0b0c0d"
  longName := [0x01]
  shortName := []
  hwModel := 0
  role := 0
  channelName := ascii "LongFast"
  channelHash := 8
  preset := []
  freqHz := 0
  firstSeen := ()
  lastSeen := ()
  obsCount := 1
  bestRSSIdBm := ()
  bestSNRdB := ()
  estLat := ()
  estLon := ()
  estUncertaintyM := ()
  estMethod := ascii "centroid"
  selfReportedLat := ()
  selfReportedLon := ()
  selfReportedTS := none

/-- The control character reaches the file, which is then no XML. -/
theorem writeKML_control_character :
    ¬IsDocument (writeKML zeroGo ⟨ascii "s1", ascii "car", (), ()⟩ [controlNode] []) := by
  intro hdoc
  have hfields := fieldsLegal_of_legal zeroGo hdoc.legal
  have hname : Legal [0x01] := (hfields.nodes controlNode mem_cons_self).longName
  obtain ⟨-, hbyte, -⟩ := Legal.split (t := []) (f := []) (b := 0x01) (by decide) hname
  exact absurd hbyte (by decide)

end MeshcoreSniffer.Wardrive
