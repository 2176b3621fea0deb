import MeshcoreSniffer.Meshcore.Framing
import MeshcoreSniffer.Meshcore.GroupText
import MeshcoreSniffer.Meshcore.Lpp

/-!
# The fields of an ADVERT

`AdvertData.bytes` is how the app data is written, and `AdvertData.reported k` what a reader may
report of its first `k` bytes. The decoder announces a name by its flag alone.
-/

namespace MeshcoreSniffer.Meshcore

open Lib List Option

structure AdvertData where
  advType : BitVec 4
  latlon : Option (BitVec 32 × BitVec 32)
  extra1 : Option (BitVec 16)
  extra2 : Option (BitVec 16)
  name : Option (List Byte)

def advertFlags (advType : BitVec 4) (latlon extra1 extra2 name : Bool) : Byte :=
  advType.setWidth 8 ||| (if latlon then 0x10 else 0) ||| (if extra1 then 0x20 else 0) |||
    (if extra2 then 0x40 else 0) ||| if name then 0x80 else 0

theorem advertFlags_bits (t : BitVec 4) (l e e' n : Bool) :
    advertFlags t l e e' n &&& 0x0F = t.setWidth 8 ∧
      (advertFlags t l e e' n &&& 0x10 ≠ 0 ↔ l = true) ∧
      (advertFlags t l e e' n &&& 0x20 ≠ 0 ↔ e = true) ∧
      (advertFlags t l e e' n &&& 0x40 ≠ 0 ↔ e' = true) ∧
      (advertFlags t l e e' n &&& 0x80 ≠ 0 ↔ n = true) := by
  revert t l e e' n
  decide

namespace AdvertData

variable (d : AdvertData)

def flags : Byte :=
  advertFlags d.advType d.latlon.isSome d.extra1.isSome d.extra2.isSome d.name.isSome

def latlonBytes : List Byte := d.latlon.elim [] fun p => wrLe32 p.1 ++ wrLe32 p.2

def extra1Bytes : List Byte := d.extra1.elim [] wrLe16

def extra2Bytes : List Byte := d.extra2.elim [] wrLe16

def bytes : List Byte :=
  d.flags :: (d.latlonBytes ++ (d.extra1Bytes ++ (d.extra2Bytes ++ d.name.getD [])))

def latlonEnd : Nat := 1 + d.latlonBytes.length

def extra1End : Nat := d.latlonEnd + d.extra1Bytes.length

def nameStart : Nat := d.extra1End + d.extra2Bytes.length

def degrees (v : BitVec 32) : ℚ := v.toInt / 1000000

def position (k : Nat) : Option (ℚ × ℚ) :=
  if d.latlonEnd ≤ k then
    d.latlon.bind fun p =>
      if mcLatlonPlausible (degrees p.1) (degrees p.2) then some (degrees p.1, degrees p.2) else none
  else none

end AdvertData

structure AdvertFields where
  advType : Byte := 0
  hasLatlon : Bool := false
  lat : ℚ := 0
  lon : ℚ := 0
  extra1 : BitVec 16 := 0
  extra2 : BitVec 16 := 0
  hasName : Bool := false
  nodeName : List Byte := []
  deriving DecidableEq

def MeshEvent.advertFields (ev : MeshEvent) : AdvertFields where
  advType := ev.mcAdvType
  hasLatlon := ev.mcHasLatlon
  lat := ev.mcLat
  lon := ev.mcLon
  extra1 := ev.mcExtra1
  extra2 := ev.mcExtra2
  hasName := ev.mcHasName
  nodeName := ev.mcNodeName

/-- What the first `k` bytes say: the fields before the cut, and no other. -/
def AdvertData.reported (d : AdvertData) (k : Nat) : AdvertFields where
  advType := if k = 0 then 0 else d.advType.setWidth 8
  hasLatlon := (d.position k).isSome
  lat := ((d.position k).map Prod.fst).getD 0
  lon := ((d.position k).map Prod.snd).getD 0
  extra1 := if d.extra1End ≤ k then d.extra1.getD 0 else 0
  extra2 := if d.nameStart ≤ k then d.extra2.getD 0 else 0
  hasName := d.nameStart ≤ k && d.name.isSome
  nodeName := if d.nameStart ≤ k then d.name.getD [] else []

/-! ## Reading behind a cut -/

theorem rdLe32_take (p : List Byte) {n : Nat} (hn : 4 ≤ n) : rdLe32 (p.take n) = rdLe32 p := by
  simp only [rdLe32, getD_eq_getElem?_getD, getElem?_take]
  simp [show 0 < n by omega, show 1 < n by omega, show 2 < n by omega, show 3 < n by omega]

theorem rdLe16_take (p : List Byte) {n : Nat} (hn : 2 ≤ n) : rdLe16 (p.take n) = rdLe16 p := by
  simp only [rdLe16, getD_eq_getElem?_getD, getElem?_take]
  simp [show 0 < n by omega, show 1 < n by omega]

theorem rdLe16_wrLe16 (v : BitVec 16) (rest : List Byte) : rdLe16 (wrLe16 v ++ rest) = v := by
  simp only [rdLe16, wrLe16, cons_append, nil_append, getD_cons_zero,
    getD_cons_succ]
  apply BitVec.eq_of_getLsbD_eq
  intro i hi
  simp only [BitVec.getLsbD_or, BitVec.getLsbD_shiftLeft, BitVec.getLsbD_setWidth,
    BitVec.getLsbD_ushiftRight]
  rcases Nat.lt_or_ge i 8 with h8 | h8
  · simp [hi, h8]
  · simp [hi, show ¬i < 8 by omega, show i - 8 < 8 by omega, show i - 8 < 16 by omega,
      show 8 + (i - 8) = i by omega]

theorem readExtra_cut {app behind : List Byte} {flags mask : Byte} {e k : Nat}
    (set : BitVec 16 → MeshEvent → MeshEvent) (ev : MeshEvent) (x : Option (BitVec 16))
    (hlen : app.length = k) (hflag : flags &&& mask ≠ 0 ↔ x.isSome = true)
    (hdrop : app.drop e = (x.elim [] wrLe16 ++ behind).take (k - e)) :
    readExtra app flags mask set ev (min e k) =
      (if e + (x.elim [] wrLe16).length ≤ k then x.elim ev fun v => set v ev else ev,
        min (e + (x.elim [] wrLe16).length) k) := by
  cases x with
  | none =>
    have hoff : ¬flags &&& mask ≠ 0 := by
      intro hset
      cases hflag.mp hset
    rw [readExtra, if_neg hoff]
    simp
  | some v =>
    have hwidth : ((some v).elim [] wrLe16 : List Byte).length = 2 := rfl
    rw [readExtra, if_pos (hflag.mpr rfl), hwidth, hlen]
    by_cases hfits : e + 2 ≤ k
    · have hread : rdLe16 (app.drop e) = v := by
        rw [hdrop, rdLe16_take _ (by omega)]
        exact rdLe16_wrLe16 v behind
      rw [if_pos (by omega), if_pos hfits, Nat.min_eq_left (by omega), hread, Nat.min_eq_left hfits]
      rfl
    · rw [if_neg (by omega), if_neg hfits, Nat.min_eq_right (by omega)]

def withPosition (ev : MeshEvent) : Option (ℚ × ℚ) → MeshEvent
  | none => ev
  | some (lat, lon) => { ev with mcHasLatlon := true, mcLat := lat, mcLon := lon }

theorem advertFields_withPosition (ev : MeshEvent) (p : Option (ℚ × ℚ)) :
    (withPosition ev p).advertFields =
      { ev.advertFields with
        hasLatlon := p.isSome || ev.advertFields.hasLatlon
        lat := (p.map Prod.fst).getD ev.advertFields.lat
        lon := (p.map Prod.snd).getD ev.advertFields.lon } := by
  cases p with
  | none => rfl
  | some p => rfl

theorem advertFields_extra1 (ev : MeshEvent) (c : Prop) [Decidable c] (x : Option (BitVec 16)) :
    (if c then x.elim ev fun v => { ev with mcExtra1 := v } else ev).advertFields =
      { ev.advertFields with
        extra1 := if c then x.getD ev.advertFields.extra1 else ev.advertFields.extra1 } := by
  split
  next => cases x <;> rfl
  next => rfl

theorem advertFields_extra2 (ev : MeshEvent) (c : Prop) [Decidable c] (x : Option (BitVec 16)) :
    (if c then x.elim ev fun v => { ev with mcExtra2 := v } else ev).advertFields =
      { ev.advertFields with
        extra2 := if c then x.getD ev.advertFields.extra2 else ev.advertFields.extra2 } := by
  split
  next => cases x <;> rfl
  next => rfl

section Cut

variable (d : AdvertData) (k : Nat)

theorem AdvertData.drop_one : (d.bytes.take k).drop 1 =
    (d.latlonBytes ++ (d.extra1Bytes ++ (d.extra2Bytes ++ d.name.getD []))).take (k - 1) := by
  rw [drop_take]
  rfl

theorem AdvertData.drop_latlonEnd : (d.bytes.take k).drop d.latlonEnd =
    (d.extra1Bytes ++ (d.extra2Bytes ++ d.name.getD [])).take (k - d.latlonEnd) := by
  rw [drop_take, latlonEnd, ← drop_drop]
  show ((d.latlonBytes ++ _).drop d.latlonBytes.length).take _ = _
  rw [drop_left]

theorem AdvertData.drop_extra1End : (d.bytes.take k).drop d.extra1End =
    (d.extra2Bytes ++ d.name.getD []).take (k - d.extra1End) := by
  rw [extra1End, ← drop_drop, d.drop_latlonEnd, drop_take, drop_left, Nat.sub_sub]

theorem AdvertData.drop_nameStart : (d.bytes.take k).drop d.nameStart =
    (d.name.getD []).take (k - d.nameStart) := by
  rw [nameStart, ← drop_drop, d.drop_extra1End, drop_take, drop_left, Nat.sub_sub]

variable {d k} (hk : k ≤ d.bytes.length)

include hk

theorem length_cut : (d.bytes.take k).length = k := length_take_of_le hk

theorem readLatlon_cut (hpos : 1 ≤ k) (ev : MeshEvent) :
    readLatlon (d.bytes.take k) d.flags ev 1 =
      (withPosition ev (d.position k), min d.latlonEnd k) := by
  obtain ⟨-, hflag, -⟩ := advertFlags_bits d.advType d.latlon.isSome d.extra1.isSome d.extra2.isSome
    d.name.isSome
  change d.flags &&& 0x10 ≠ 0 ↔ _ at hflag
  have hdrop := d.drop_one k
  rw [readLatlon, length_cut hk, AdvertData.position]
  cases hlatlon : d.latlon with
  | none =>
    have hend : d.latlonEnd = 1 := by rw [AdvertData.latlonEnd, AdvertData.latlonBytes, hlatlon]; rfl
    rw [hlatlon] at hflag
    rw [if_neg fun hset => Bool.false_ne_true (hflag.mp hset), hend, Nat.min_eq_left hpos]
    simp [withPosition]
  | some p =>
    obtain ⟨lat, lon⟩ := p
    have hbytes : d.latlonBytes = wrLe32 lat ++ wrLe32 lon := by
      rw [AdvertData.latlonBytes, hlatlon]
      rfl
    have hend : d.latlonEnd = 9 := by rw [AdvertData.latlonEnd, hbytes]; rfl
    rw [hlatlon] at hflag
    rw [if_pos (hflag.mpr rfl), hend]
    by_cases hfits : 1 + 8 ≤ k
    · have hlat : rdLe32 ((d.bytes.take k).drop 1) = lat := by
        rw [hdrop, rdLe32_take _ (by omega), hbytes, append_assoc, rdLe32_wrLe32]
      have hlon : rdLe32 ((d.bytes.take k).drop (1 + 4)) = lon := by
        rw [← drop_drop, hdrop, drop_take, rdLe32_take _ (by omega), hbytes,
          append_assoc, drop_left' (show (wrLe32 lat).length = 4 from rfl), rdLe32_wrLe32]
      rw [if_pos hfits, if_pos (by omega : 9 ≤ k), hlat, hlon, Nat.min_eq_left (by omega : 9 ≤ k)]
      change (if mcLatlonPlausible (AdvertData.degrees lat) (AdvertData.degrees lon) = true then _
        else _) = _
      rw [bind_some]
      split
      next => rfl
      next => rfl
    · rw [if_neg hfits, if_neg (by omega : ¬9 ≤ k), Nat.min_eq_right (by omega)]
      rfl

theorem readExtra1_cut (ev : MeshEvent) :
    readExtra1 (d.bytes.take k) d.flags ev (min d.latlonEnd k) =
      (if d.extra1End ≤ k then d.extra1.elim ev fun v => { ev with mcExtra1 := v } else ev,
        min d.extra1End k) :=
  readExtra_cut _ ev d.extra1 (length_cut hk)
    (advertFlags_bits d.advType d.latlon.isSome d.extra1.isSome d.extra2.isSome d.name.isSome).2.2.1
    (d.drop_latlonEnd k)

theorem readExtra2_cut (ev : MeshEvent) :
    readExtra2 (d.bytes.take k) d.flags ev (min d.extra1End k) =
      (if d.nameStart ≤ k then d.extra2.elim ev fun v => { ev with mcExtra2 := v } else ev,
        min d.nameStart k) :=
  readExtra_cut _ ev d.extra2 (length_cut hk)
    (advertFlags_bits d.advType d.latlon.isSome d.extra1.isSome d.extra2.isSome d.name.isSome).2.2.2.1
    (d.drop_extra1End k)

theorem readName_cut {ev : MeshEvent} (hev : ev.mcHasName = false) (hname : ev.mcNodeName = []) :
    readName (d.bytes.take k) d.flags ev (min d.nameStart k) =
      { ev with
        mcHasName := d.name.isSome
        mcNodeName := copyPrintable ((d.name.getD []).take (k - d.nameStart)) 40 } := by
  have hflag := (advertFlags_bits d.advType d.latlon.isSome d.extra1.isSome d.extra2.isSome
    d.name.isSome).2.2.2.2
  change d.flags &&& 0x80 ≠ 0 ↔ _ at hflag
  have hdrop : (d.bytes.take k).drop (min d.nameStart k) = (d.name.getD []).take (k - d.nameStart) := by
    rcases Nat.le_total d.nameStart k with hle | hle
    · rw [Nat.min_eq_left hle, d.drop_nameStart]
    · rw [Nat.min_eq_right hle, drop_eq_nil_of_le (length_cut hk).le, Nat.sub_eq_zero_of_le hle,
        take_zero]
  rw [readName, length_cut hk, hdrop]
  cases hcase : d.name with
  | none =>
    rw [hcase] at hflag
    rw [if_neg fun h => Bool.false_ne_true (hflag.mp h.1)]
    cases ev
    simp_all [copyPrintable]
  | some name =>
    rw [hcase] at hflag
    rw [if_pos ⟨hflag.mpr rfl, Nat.min_le_right _ _⟩]
    rfl

/-- **Decoder.** Of the first `k` bytes every field but the name is reported as it should be; the
name whenever its flag is set. -/
theorem readAppData_cut (hpos : 1 ≤ k) {ev : MeshEvent} (hev : ev.advertFields = {}) :
    (readAppData (d.bytes.take k) ev).advertFields =
      { d.reported k with
        hasName := d.name.isSome
        nodeName := copyPrintable ((d.name.getD []).take (k - d.nameStart)) 40 } := by
  obtain ⟨rest, happ⟩ : ∃ rest, d.bytes.take k = d.flags :: rest := by
    obtain ⟨n, rfl⟩ : ∃ n, k = n + 1 := ⟨k - 1, by omega⟩
    exact ⟨_, rfl⟩
  have htype : d.flags &&& 0x0F = d.advType.setWidth 8 := (advertFlags_bits ..).1
  -- the name is read into the event that the other fields have left
  have hname : ∀ ev', ev'.advertFields = { d.reported k with hasName := false, nodeName := [] } →
      (readName (d.bytes.take k) d.flags ev' (min d.nameStart k)).advertFields =
        { d.reported k with
          hasName := d.name.isSome
          nodeName := copyPrintable ((d.name.getD []).take (k - d.nameStart)) 40 } := by
    intro ev' hev'
    rw [readName_cut hk (congrArg AdvertFields.hasName hev') (congrArg AdvertFields.nodeName hev')]
    simp only [MeshEvent.advertFields, AdvertFields.mk.injEq] at hev' ⊢
    simp [hev']
  have hstart : MeshEvent.advertFields { ev with mcAdvType := d.flags &&& 0x0F } =
      { advType := d.advType.setWidth 8 } := by
    rw [htype]
    exact congrArg (fun f : AdvertFields => { f with advType := d.advType.setWidth 8 }) hev
  rw [happ, readAppData, ← happ]
  dsimp only
  rw [readLatlon_cut hk hpos, readExtra1_cut hk, readExtra2_cut hk]
  apply hname
  rw [advertFields_extra2, advertFields_extra1, advertFields_withPosition, hstart]
  simp [AdvertData.reported, show k ≠ 0 by omega]

end Cut

def NameFits (name : List Byte) : Prop := name.length ≤ 39 ∧ 0 ∉ name

theorem copyPrintable_eq_iff (name : List Byte) : copyPrintable name 40 = name ↔ NameFits name := by
  rw [copyPrintable, NameFits]
  constructor
  · intro h
    constructor
    · have hlen := congrArg List.length h
      have hle := (takeWhile_sublist (p := (· != (0 : Byte))) (l := name.take (40 - 1))).length_le
      rw [length_take] at hle
      omega
    · intro hzero
      rw [← h] at hzero
      simpa using mem_takeWhile_imp hzero
  · rintro ⟨hlen, hzero⟩
    rw [take_of_length_le hlen, takeWhile_eq_self_iff]
    intro b hb
    simpa using fun heq : b = 0 => hzero (heq ▸ hb)

theorem AdvertData.length_bytes (d : AdvertData) :
    d.bytes.length = d.nameStart + (d.name.getD []).length := by
  simp only [bytes, nameStart, extra1End, latlonEnd, length_cons, length_append]
  omega

theorem AdvertData.reported_zero (d : AdvertData) : d.reported 0 = {} := by
  have hlatlon : ¬d.latlonEnd ≤ 0 := by rw [latlonEnd]; omega
  have hextra1 : ¬d.extra1End ≤ 0 := by rw [extra1End]; omega
  have hname : ¬d.nameStart ≤ 0 := by rw [nameStart]; omega
  simp only [reported, position, if_neg hlatlon, if_neg hextra1, if_neg hname, decide_eq_false hname]
  rfl

theorem AdvertFields.with_name_eq_iff (f : AdvertFields) (named : Bool) (name : List Byte) :
    { f with hasName := named, nodeName := name } = f ↔ named = f.hasName ∧ name = f.nodeName := by
  constructor
  · intro h
    exact ⟨congrArg AdvertFields.hasName h, congrArg AdvertFields.nodeName h⟩
  · rintro ⟨rfl, rfl⟩
    rfl

/-- **Fields.** App data cut before the name is reported as far as it goes exactly if it announces
no name or the flags byte is gone too; whole app data exactly if the event has room for its name. -/
theorem advert_fields_iff (env : Env) (pkt : Packet) (ev : MeshEvent) (d : AdvertData) (k : Nat)
    (hev : ev.advertFields = {}) (hlen : pubKeySize + 4 + signatureSize ≤ pkt.payload.length)
    (hk : k ≤ d.bytes.length) (happ : advertAppData pkt.payload = d.bytes.take k) :
    ∃ ev', meshcoreDecodeAdvert env pkt ev = some ev' ∧
      (k < d.nameStart → (ev'.advertFields = d.reported k ↔ k = 0 ∨ d.name = none)) ∧
      (k = d.bytes.length →
        (ev'.advertFields = d.reported k ↔ ∀ name, d.name = some name → NameFits name)) := by
  rw [meshcoreDecodeAdvert, if_neg (by omega), happ]
  dsimp only
  refine ⟨_, rfl, ?_⟩
  set start : MeshEvent := { ev with
    mcPubkey := advertPubkey pkt.payload
    mcTimestamp := advertTimestamp pkt.payload
    mcSigValid := advertSigned env.crypto pkt.payload }
  have hstart : start.advertFields = {} := hev
  change (k < d.nameStart → ((readAppData (d.bytes.take k) start).advertFields = d.reported k ↔ _)) ∧
    (k = d.bytes.length → ((readAppData (d.bytes.take k) start).advertFields = d.reported k ↔ _))
  have hbytes := d.length_bytes
  have hflags : 1 ≤ d.bytes.length := by rw [AdvertData.bytes, length_cons]; omega
  rcases Nat.eq_zero_or_pos k with rfl | hpos
  · refine ⟨fun _ => ?_, fun hwhole => by omega⟩
    rw [d.reported_zero]
    exact iff_of_true hstart (Or.inl rfl)
  rw [readAppData_cut hk hpos hstart, AdvertFields.with_name_eq_iff]
  constructor
  · -- before the name nothing may be announced of it
    intro hcut
    have hgone : ¬d.nameStart ≤ k := by omega
    simp only [AdvertData.reported, decide_eq_false hgone, if_neg hgone, Bool.false_and,
      isSome_eq_false_iff, isNone_iff_eq_none]
    constructor
    · rintro ⟨hnone, -⟩
      exact Or.inr hnone
    · rintro (hzero | hnone)
      · omega
      · rw [hnone, getD_none, take_nil]
        exact ⟨rfl, rfl⟩
  · intro hwhole
    have hthere : d.nameStart ≤ k := by omega
    have hall : (d.name.getD []).take (k - d.nameStart) = d.name.getD [] :=
      take_of_length_le (by omega)
    simp only [AdvertData.reported, decide_eq_true hthere, if_pos hthere, Bool.true_and, hall,
      true_and, copyPrintable_eq_iff]
    cases d.name with
    | none => simp [NameFits]
    | some name => simp

def repeater (name : Option (List Byte)) : AdvertData :=
  ⟨2, some (0x02EA0D40, 0x0023D6A0), none, none, name⟩

def cutAdvert (name : Option (List Byte)) : List Byte :=
  [0x11, 0x00] ++ List.replicate 100 0 ++ (repeater name).bytes.take 5

theorem cutAdvert_parses {name : Option (List Byte)} (h : name = none ∨ name = some (ascii "relay")) :
    ∃ pkt, meshcorePacketParse (cutAdvert name) = some pkt ∧ pkt.payload.length = 105 ∧
      advertAppData pkt.payload = (repeater name).bytes.take 5 := by
  have hparse : ∀ name ∈ [none, some (ascii "relay")],
      (meshcorePacketParse (cutAdvert name)).map (fun pkt =>
        (pkt.payload.length, advertAppData pkt.payload)) =
          some (105, (repeater name).bytes.take 5) := by
    decide
  obtain ⟨pkt, hpkt, hfields⟩ := map_eq_some_iff.mp (hparse name (by simpa using h))
  exact ⟨pkt, hpkt, congrArg Prod.fst hfields, congrArg Prod.snd hfields⟩

theorem advert_fields_unnamed :
    ∃ pkt ev', meshcorePacketParse (cutAdvert none) = some pkt ∧
      meshcoreDecodeAdvert plainEnv pkt {} = some ev' ∧
      ev'.advertFields = (repeater none).reported 5 := by
  obtain ⟨pkt, hparse, hlen, happ⟩ := cutAdvert_parses (Or.inl rfl)
  obtain ⟨ev', hdecode, hcut, -⟩ := advert_fields_iff plainEnv pkt {} (repeater none) 5 rfl
    (by rw [hlen]; decide) (by decide) happ
  exact ⟨pkt, ev', hparse, hdecode, (hcut (by decide)).mpr (Or.inr rfl)⟩

/-- A cut in the position leaves an announced name that is empty. -/
theorem advert_announces_cut_name :
    ∃ pkt ev', meshcorePacketParse (cutAdvert (some (ascii "relay"))) = some pkt ∧
      meshcoreDecodeAdvert plainEnv pkt {} = some ev' ∧
      ((repeater (some (ascii "relay"))).reported 5).hasName = false ∧
      ev'.mcHasName = true ∧ ev'.mcNodeName = [] := by
  have hdecode : (meshcorePacketParse (cutAdvert (some (ascii "relay")))).bind
      (fun pkt => (meshcoreDecodeAdvert plainEnv pkt {}).map
        fun ev' => (ev'.mcHasName, ev'.mcNodeName)) = some (true, []) := by
    decide +kernel
  obtain ⟨pkt, hparse, hfields⟩ := bind_eq_some_iff.mp hdecode
  obtain ⟨ev', hev', hnamed⟩ := map_eq_some_iff.mp hfields
  exact ⟨pkt, ev', hparse, hev', by decide +kernel, congrArg Prod.fst hnamed,
    congrArg Prod.snd hnamed⟩

end MeshcoreSniffer.Meshcore
