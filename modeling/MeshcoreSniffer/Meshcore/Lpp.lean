import MeshcoreSniffer.Meshcore.Decoders
import MeshcoreSniffer.Lib.Json
import MeshcoreSniffer.Lib.Blocks

/-!
# CayenneLPP telemetry

`meshcore_lpp.c`: a blob of a GRP_DATA message is read as telemetry records and rendered as JSON and
as text into buffers of fixed size; both renderers stop at the first piece that does not fit.
-/

namespace MeshcoreSniffer.Meshcore

open Lib Lib.Printf Lib.Json List Option

/-! ## The type table -/

structure LppTypeInfo where
  type : Byte
  name : String
  unit : String
  /-- Bytes of one value. -/
  width : Nat
  nValues : Nat
  mult : Nat
  isSigned : Bool
  deriving DecidableEq

def lppTypes : List LppTypeInfo :=
  [⟨0, "digital_in", "", 1, 1, 1, false⟩,
   ⟨1, "digital_out", "", 1, 1, 1, false⟩,
   ⟨2, "analog_in", "", 2, 1, 100, true⟩,
   ⟨3, "analog_out", "", 2, 1, 100, true⟩,
   ⟨100, "generic", "", 4, 1, 1, false⟩,
   ⟨101, "luminosity", "lux", 2, 1, 1, false⟩,
   ⟨102, "presence", "", 1, 1, 1, false⟩,
   ⟨103, "temperature", "C", 2, 1, 10, true⟩,
   ⟨104, "humidity", "%", 1, 1, 2, false⟩,
   ⟨113, "accelerometer", "G", 2, 3, 1000, true⟩,
   ⟨115, "pressure", "hPa", 2, 1, 10, false⟩,
   ⟨116, "voltage", "V", 2, 1, 100, false⟩,
   ⟨117, "current", "A", 2, 1, 1000, true⟩,
   ⟨118, "frequency", "Hz", 4, 1, 1, false⟩,
   ⟨120, "percentage", "%", 1, 1, 1, false⟩,
   ⟨121, "altitude", "m", 2, 1, 1, true⟩,
   ⟨125, "concentration", "ppm", 2, 1, 1, false⟩,
   ⟨128, "power", "W", 2, 1, 1, false⟩,
   ⟨130, "distance", "m", 4, 1, 1000, false⟩,
   ⟨131, "energy", "kWh", 4, 1, 1000, false⟩,
   ⟨132, "direction", "deg", 2, 1, 1, false⟩,
   ⟨133, "unixtime", "", 4, 1, 1, false⟩,
   ⟨134, "gyrometer", "deg/s", 2, 3, 100, true⟩,
   ⟨135, "colour", "", 1, 3, 1, false⟩,
   ⟨136, "gps", "", 3, 3, 0, true⟩,
   ⟨142, "switch", "", 1, 1, 1, false⟩]

def lppTypeLookup (type : Byte) : Option LppTypeInfo := lppTypes.find? (·.type == type)

theorem lppTypeLookup_eq_some_iff {type : Byte} {ti : LppTypeInfo} :
    lppTypeLookup type = some ti ↔ ti ∈ lppTypes ∧ ti.type = type := by
  constructor
  · intro h
    exact ⟨mem_of_find?_eq_some h, by simpa using find?_some h⟩
  · rintro ⟨hmem, rfl⟩
    -- no two rows share a type code
    have hrows : ∀ ti ∈ lppTypes, lppTypes.find? (·.type == ti.type) = some ti := by decide
    exact hrows ti hmem

/-! ## The decoder -/

structure LppRecord where
  channel : Byte
  type : Byte
  typeName : String
  unit : String
  values : List ℚ
  deriving DecidableEq

def LppRecord.header (r : LppRecord) : Byte × Byte × String × String :=
  (r.channel, r.type, r.typeName, r.unit)

def bigEndian (p : List Byte) : Nat := p.foldl (fun raw b => raw * 256 + b.toNat) 0

/-- `lpp_read_value` at the start of `p`; `div` is the quotient of two `float`s. -/
def lppReadValue (div : Nat → Nat → ℚ) (p : List Byte) (width mult : Nat) (isSigned : Bool) : ℚ :=
  let raw := bigEndian (p.take width)
  let quotient (n : Nat) : ℚ := if mult = 0 then div n 1 else div n mult
  if isSigned && raw.testBit (width * 8 - 1) then -quotient (2 ^ (width * 8) - raw)
  else quotient raw

def lppGps : Byte := 136

def lppReadValues (div : Nat → Nat → ℚ) (ti : LppTypeInfo) (p : List Byte) : List ℚ :=
  if ti.type = lppGps then
    [lppReadValue div p 3 10000 true, lppReadValue div (p.drop 3) 3 10000 true,
      lppReadValue div (p.drop 6) 3 100 true]
  else
    (List.range ti.nValues).map fun v =>
      lppReadValue div (p.drop (v * ti.width)) ti.width ti.mult ti.isSigned

/-- One round of the loop of `meshcore_lpp_decode`: a record and what follows it. -/
def lppReadRecord (div : Nat → Nat → ℚ) : List Byte → Option (LppRecord × List Byte)
  | channel :: type :: rest =>
    if channel = 0 then none
    else
      match lppTypeLookup type with
      | none => none
      | some ti =>
        if rest.length < ti.width * ti.nValues then none
        else
          some (⟨channel, type, ti.name, ti.unit, lppReadValues div ti rest⟩,
            rest.drop (ti.width * ti.nValues))
  | _ => none

/-- Every record takes two bytes or more, so the length of the blob is fuel enough. -/
def lppRecords (div : Nat → Nat → ℚ) : Nat → List Byte → Option (List LppRecord)
  | _, [] => some []
  | 0, _ :: _ => none
  | fuel + 1, buf =>
    match lppReadRecord div buf with
    | none => none
    | some (r, rest) => (lppRecords div fuel rest).map (r :: ·)

/-- The whole blob is checked, the first `maxRecords` records are kept. -/
def meshcoreLppDecode (div : Nat → Nat → ℚ) (buf : List Byte) (maxRecords : Nat) :
    Option (List LppRecord) :=
  if buf = [] then none else (lppRecords div buf.length buf).map (·.take maxRecords)

def lppMaxRecords : Nat := 16

def exactDiv (raw mult : Nat) : ℚ := raw / mult

/-! ## Words of a record -/

def wordBytes : Nat → Nat → List Byte
  | 0, _ => []
  | w + 1, n => wordBytes w (n / 256) ++ [BitVec.ofNat 8 n]

@[simp] theorem length_wordBytes (w n : Nat) : (wordBytes w n).length = w := by
  induction w generalizing n with
  | zero => rfl
  | succ w ih => rw [wordBytes, length_append, ih, length_singleton]

theorem bigEndian_snoc (p : List Byte) (b : Byte) : bigEndian (p ++ [b]) = bigEndian p * 256 + b.toNat := by
  rw [bigEndian, foldl_append]
  rfl

theorem bigEndian_wordBytes (w n : Nat) : bigEndian (wordBytes w n) = n % 256 ^ w := by
  induction w generalizing n with
  | zero => simp [wordBytes, bigEndian, Nat.mod_one]
  | succ w ih =>
    have hsplit : n % 256 ^ (w + 1) = n % 256 + 256 * (n / 256 % 256 ^ w) := by
      rw [Nat.pow_succ', Nat.mod_mul]
    rw [wordBytes, bigEndian_snoc, ih, hsplit, BitVec.toNat_ofNat]
    omega

theorem wordBytes_bigEndian (p : List Byte) : wordBytes p.length (bigEndian p) = p := by
  induction p using reverseRecOn with
  | nil => rfl
  | append_singleton p b ih =>
    have hb := b.isLt
    have hhigh : (bigEndian p * 256 + b.toNat) / 256 = bigEndian p := by omega
    have hlow : BitVec.ofNat 8 (bigEndian p * 256 + b.toNat) = b := by
      apply BitVec.eq_of_toNat_eq
      rw [BitVec.toNat_ofNat]
      omega
    rw [length_append, length_singleton, wordBytes, bigEndian_snoc, hhigh, hlow, ih]

theorem bigEndian_lt (p : List Byte) : bigEndian p < 256 ^ p.length := by
  have h := congrArg bigEndian (wordBytes_bigEndian p)
  rw [bigEndian_wordBytes] at h
  rw [← h]
  exact Nat.mod_lt _ (by positivity)

def wordValue {w : Nat} (isSigned : Bool) (word : BitVec w) : Int :=
  if isSigned then word.toInt else word.toNat

theorem pow_256 (w : Nat) : 256 ^ w = 2 ^ (8 * w) := by
  rw [pow_mul]
  rfl

theorem lppReadValue_word {w mult : Nat} (hmult : mult ≠ 0) (isSigned : Bool)
    (word : BitVec (8 * w)) (rest : List Byte) :
    lppReadValue exactDiv (wordBytes w word.toNat ++ rest) w mult isSigned =
      wordValue isSigned word / mult := by
  have hraw : bigEndian ((wordBytes w word.toNat ++ rest).take w) = word.toNat := by
    rw [take_left' (length_wordBytes w _), bigEndian_wordBytes, pow_256,
      Nat.mod_eq_of_lt word.isLt]
  have hmsb : word.toNat.testBit (w * 8 - 1) = word.msb := by
    rw [BitVec.msb_eq_getLsbD_last, BitVec.getLsbD, Nat.mul_comm w 8]
  simp only [lppReadValue, hraw, hmsb, hmult, if_false, exactDiv]
  cases isSigned with
  | false => simp [wordValue]
  | true =>
    rw [wordValue, if_pos rfl, BitVec.toInt_eq_msb_cond]
    cases hneg : word.msb with
    | false => simp
    | true =>
      have hle : word.toNat ≤ 2 ^ (w * 8) := by
        rw [Nat.mul_comm w 8]
        exact word.isLt.le
      simp only [Bool.and_self, if_true]
      rw [Nat.cast_sub hle, Nat.mul_comm w 8]
      push_cast
      ring

/-! ## Records as a sender builds them -/

def LppTypeInfo.mults (ti : LppTypeInfo) : List Nat :=
  if ti.type = lppGps then [10000, 10000, 100] else List.replicate ti.nValues ti.mult

/-- A record before it is written: every field is in its range by its type. -/
structure Reading where
  channel : Byte
  info : LppTypeInfo
  words : List (BitVec (8 * info.width))
  channel_ne : channel ≠ 0
  known : info ∈ lppTypes
  length_words : words.length = info.nValues

namespace Reading

def payload (r : Reading) : List Byte :=
  r.words.flatMap fun word => wordBytes r.info.width word.toNat

def bytes (r : Reading) : List Byte := r.channel :: r.info.type :: r.payload

def values (r : Reading) : List ℚ :=
  List.zipWith (fun word (mult : Nat) => (wordValue r.info.isSigned word : ℚ) / mult) r.words
    r.info.mults

def record (r : Reading) : LppRecord :=
  ⟨r.channel, r.info.type, r.info.name, r.info.unit, r.values⟩

end Reading

theorem lppTypes_rows {ti : LppTypeInfo} (h : ti ∈ lppTypes) :
    ti.mults.length = ti.nValues ∧ (∀ m ∈ ti.mults, m ≠ 0) ∧
      (ti.type = lppGps → ti.width = 3 ∧ ti.nValues = 3 ∧ ti.isSigned = true) := by
  revert ti
  decide

theorem lppReadValues_eq (div : Nat → Nat → ℚ) {ti : LppTypeInfo} (h : ti ∈ lppTypes)
    (p : List Byte) :
    lppReadValues div ti p = (range ti.nValues).map fun v =>
      lppReadValue div (p.drop (v * ti.width)) ti.width (ti.mults.getD v 0) ti.isSigned := by
  by_cases hgps : ti.type = lppGps
  · obtain ⟨hwidth, hcount, hsigned⟩ := (lppTypes_rows h).2.2 hgps
    simp [lppReadValues, LppTypeInfo.mults, hgps, hwidth, hcount, hsigned, range_succ]
  · rw [lppReadValues, if_neg hgps]
    apply map_congr_left
    intro v hv
    have hmult : ti.mults.getD v 0 = ti.mult := by
      simp [LppTypeInfo.mults, hgps, mem_range.mp hv]
    rw [hmult]

namespace Reading

theorem length_payload (r : Reading) : r.payload.length = r.info.width * r.info.nValues := by
  rw [payload, length_flatMap_of_length fun word _ => length_wordBytes r.info.width word.toNat,
    r.length_words, Nat.mul_comm]

theorem drop_payload (r : Reading) {v : Nat} (hv : v < r.words.length) (rest : List Byte) :
    ∃ behind, (r.payload ++ rest).drop (v * r.info.width) =
      wordBytes r.info.width r.words[v].toNat ++ behind := by
  have hle : v * r.info.width ≤ r.payload.length := by
    rw [r.length_payload, Nat.mul_comm, ← r.length_words]
    exact Nat.mul_le_mul_left _ hv.le
  rw [drop_append_of_le_length hle, payload,
    drop_flatMap (fun word _ => length_wordBytes r.info.width word.toNat),
    drop_eq_getElem_cons hv, flatMap_cons, append_assoc]
  exact ⟨_, rfl⟩

theorem lppReadValues_payload (r : Reading) (rest : List Byte) :
    lppReadValues exactDiv r.info (r.payload ++ rest) = r.values := by
  obtain ⟨hmults, hne, -⟩ := lppTypes_rows r.known
  rw [lppReadValues_eq exactDiv r.known]
  apply ext_getElem
  · simp [values, r.length_words, hmults]
  · intro v hv hv'
    have hword : v < r.words.length := by
      rw [r.length_words]
      simpa using hv
    have hmult : v < r.info.mults.length := by
      rw [hmults, ← r.length_words]
      exact hword
    obtain ⟨behind, hcursor⟩ := r.drop_payload hword rest
    rw [getElem_map, getElem_range, hcursor, getD_eq_getElem _ _ hmult,
      lppReadValue_word (hne _ (getElem_mem hmult))]
    simp [values]

theorem lppReadRecord_bytes (div : Nat → Nat → ℚ) (r : Reading) (rest : List Byte) :
    lppReadRecord div (r.bytes ++ rest) =
      some (⟨r.channel, r.info.type, r.info.name, r.info.unit,
        lppReadValues div r.info (r.payload ++ rest)⟩, rest) := by
  have hlookup : lppTypeLookup r.info.type = some r.info :=
    lppTypeLookup_eq_some_iff.mpr ⟨r.known, rfl⟩
  have hroom : ¬(r.payload ++ rest).length < r.info.width * r.info.nValues := by
    rw [length_append, r.length_payload]
    omega
  rw [bytes, cons_append, cons_append, lppReadRecord, if_neg r.channel_ne, hlookup]
  dsimp only
  rw [if_neg hroom, drop_left' r.length_payload]

theorem exists_of_lppReadRecord {div : Nat → Nat → ℚ} {buf rest : List Byte} {record : LppRecord}
    (h : lppReadRecord div buf = some (record, rest)) :
    ∃ r : Reading, buf = r.bytes ++ rest := by
  match buf, h with
  | [], h => cases h
  | [_], h => cases h
  | channel :: type :: p, h =>
    rw [lppReadRecord] at h
    split at h
    · cases h
    next hchannel =>
      split at h
      · cases h
      next ti hlookup =>
        obtain ⟨hknown, htype⟩ := lppTypeLookup_eq_some_iff.mp hlookup
        split at h
        · cases h
        next hroom =>
          obtain ⟨-, rfl⟩ := Prod.mk.inj (some.inj h)
          -- cut the payload into words
          let piece (v : Nat) : List Byte := (p.drop (v * ti.width)).take ti.width
          let word (v : Nat) : BitVec (8 * ti.width) := BitVec.ofNat _ (bigEndian (piece v))
          refine ⟨⟨channel, ti, (range ti.nValues).map word, hchannel, hknown, by simp⟩, ?_⟩
          have hword : ∀ v ∈ range ti.nValues, wordBytes ti.width (word v).toNat = piece v := by
            intro v hv
            have hend : (v + 1) * ti.width ≤ ti.nValues * ti.width :=
              Nat.mul_le_mul_right _ (mem_range.mp hv)
            rw [Nat.succ_mul, Nat.mul_comm ti.nValues] at hend
            have hlen : (piece v).length = ti.width := by
              rw [length_take, length_drop]
              omega
            have hlt := bigEndian_lt (piece v)
            have hback := wordBytes_bigEndian (piece v)
            rw [hlen] at hlt hback
            rw [pow_256] at hlt
            rw [BitVec.toNat_ofNat, Nat.mod_eq_of_lt hlt, hback]
          have hpayload : ((range ti.nValues).map word).flatMap
              (fun w => wordBytes ti.width w.toNat) = p.take (ti.width * ti.nValues) := by
            rw [flatMap_map, flatMap_def, map_congr_left hword, flatten_cut,
              Nat.mul_comm]
          rw [bytes, payload, cons_append, cons_append, hpayload, take_append_drop,
            htype]

theorem bytes_append_ne_nil (r : Reading) (rest : List Byte) : r.bytes ++ rest ≠ [] := by
  rw [bytes, cons_append]
  exact cons_ne_nil _ _

end Reading

/-! ## Runs of records -/

variable {fuel maxRecords : Nat} {div : Nat → Nat → ℚ} {buf blob : List Byte}
  {records : List LppRecord} {ti : LppTypeInfo}

theorem lppRecords_run (div : Nat → Nat → ℚ) (rs : List Reading)
    (hfuel : (rs.flatMap Reading.bytes).length ≤ fuel) :
    ∃ records, lppRecords div fuel (rs.flatMap Reading.bytes) = some records ∧
      records.map LppRecord.header = rs.map (·.record.header) ∧
      (div = exactDiv → records = rs.map Reading.record) := by
  induction rs generalizing fuel with
  | nil =>
    refine ⟨[], ?_, rfl, fun _ => rfl⟩
    rw [flatMap_nil, lppRecords]
  | cons r rs ih =>
    rw [flatMap_cons, length_append] at hfuel
    have hhead : 2 ≤ r.bytes.length := by
      rw [Reading.bytes, length_cons, length_cons]
      omega
    obtain ⟨n, rfl⟩ : ∃ n, fuel = n + 1 := ⟨fuel - 1, by omega⟩
    obtain ⟨records, hrest, hheaders, hexact⟩ := ih (show (rs.flatMap Reading.bytes).length ≤ n by omega)
    rw [flatMap_cons, lppRecords, r.lppReadRecord_bytes]
    · dsimp only
      rw [hrest]
      refine ⟨_, rfl, ?_, ?_⟩
      · rw [map_cons, map_cons, hheaders]
        rfl
      · rintro rfl
        rw [r.lppReadValues_payload, hexact rfl]
        rfl
    · exact r.bytes_append_ne_nil _

theorem exists_of_lppRecords (h : lppRecords div fuel buf = some records) :
    ∃ rs : List Reading, buf = rs.flatMap Reading.bytes := by
  induction fuel generalizing buf records with
  | zero =>
    cases buf with
    | nil => exact ⟨[], rfl⟩
    | cons b buf => cases h
  | succ fuel ih =>
    cases buf with
    | nil => exact ⟨[], rfl⟩
    | cons b buf =>
      rw [lppRecords] at h
      · split at h
        · cases h
        next record rest hread =>
          obtain ⟨more, hmore, -⟩ := map_eq_some_iff.mp h
          obtain ⟨r, hbuf⟩ := Reading.exists_of_lppReadRecord hread
          obtain ⟨rs, hrest⟩ := ih hmore
          exact ⟨r :: rs, by rw [hbuf, hrest, flatMap_cons]⟩
      · exact cons_ne_nil b buf

theorem meshcoreLppDecode_run (div : Nat → Nat → ℚ) {rs : List Reading} (hne : rs ≠ [])
    (maxRecords : Nat) :
    ∃ records, meshcoreLppDecode div (rs.flatMap Reading.bytes) maxRecords =
        some (records.take maxRecords) ∧
      records.map LppRecord.header = rs.map (·.record.header) ∧
      (div = exactDiv → records = rs.map Reading.record) := by
  obtain ⟨r, rs, rfl⟩ := exists_cons_of_ne_nil hne
  obtain ⟨records, hrun, hheaders, hexact⟩ := lppRecords_run div (r :: rs) le_rfl
  have hbuf : (r :: rs).flatMap Reading.bytes ≠ [] := r.bytes_append_ne_nil _
  refine ⟨records, ?_, hheaders, hexact⟩
  rw [meshcoreLppDecode, if_neg hbuf, hrun, map_some]

theorem exists_of_meshcoreLppDecode {kept : List LppRecord}
    (h : meshcoreLppDecode div buf maxRecords = some kept) :
    ∃ rs : List Reading, rs ≠ [] ∧ buf = rs.flatMap Reading.bytes := by
  rw [meshcoreLppDecode] at h
  split at h
  · cases h
  next hbuf =>
    obtain ⟨records, hrecords, -⟩ := map_eq_some_iff.mp h
    obtain ⟨rs, hrs⟩ := exists_of_lppRecords hrecords
    refine ⟨rs, ?_, hrs⟩
    rintro rfl
    exact hbuf hrs

/-- **Exactness.** A blob is read if and only if it is a non-empty run of complete records of known
types on channels that are not zero; then the first sixteen are reported with, in exact arithmetic,
the numbers that were written. -/
theorem meshcoreLppDecode_exact (div : Nat → Nat → ℚ) :
    (∀ buf, (meshcoreLppDecode div buf lppMaxRecords).isSome ↔
      ∃ rs : List Reading, rs ≠ [] ∧ buf = rs.flatMap Reading.bytes) ∧
    ∀ rs : List Reading, rs ≠ [] →
      (meshcoreLppDecode div (rs.flatMap Reading.bytes) lppMaxRecords).map
          (·.map LppRecord.header) = some ((rs.map (·.record.header)).take 16) ∧
        (div = exactDiv → meshcoreLppDecode div (rs.flatMap Reading.bytes) lppMaxRecords =
          some ((rs.map Reading.record).take 16)) := by
  constructor
  · intro buf
    constructor
    · intro h
      obtain ⟨kept, hkept⟩ := isSome_iff_exists.mp h
      exact exists_of_meshcoreLppDecode hkept
    · rintro ⟨rs, hne, rfl⟩
      obtain ⟨records, hrun, -⟩ := meshcoreLppDecode_run div hne lppMaxRecords
      rw [hrun]
      rfl
  · intro rs hne
    obtain ⟨records, hrun, hheaders, hexact⟩ := meshcoreLppDecode_run div hne lppMaxRecords
    rw [hrun]
    constructor
    · rw [map_some, map_take, hheaders]
      rfl
    · intro hdiv
      rw [hexact hdiv]
      rfl

def sampleReadings : List Reading :=
  [⟨1, ⟨136, "gps", "", 3, 3, 0, true⟩, [0x06765F, 0xF2960A, 0x0003E8], by decide, by decide, rfl⟩,
   ⟨2, ⟨103, "temperature", "C", 2, 1, 10, true⟩, [0xFFFD], by decide, by decide, rfl⟩]

theorem meshcoreLppDecode_exact_sample :
    (meshcoreLppDecode exactDiv
      [0x01, 0x88, 0x06, 0x76, 0x5F, 0xF2, 0x96, 0x0A, 0x00, 0x03, 0xE8, 0x02, 0x67, 0xFF, 0xFD]
      lppMaxRecords).map (·.map LppRecord.values) =
      some [[42.3519, -87.9094, 10], [-0.3]] := by
  have hbytes : sampleReadings.flatMap Reading.bytes = [0x01, 0x88, 0x06, 0x76, 0x5F, 0xF2, 0x96,
      0x0A, 0x00, 0x03, 0xE8, 0x02, 0x67, 0xFF, 0xFD] := by decide +kernel
  rw [← hbytes, ((meshcoreLppDecode_exact exactDiv).2 sampleReadings (cons_ne_nil _ _)).2 rfl]
  decide +kernel

/-! ## Rendering -/

/-- The first piece that does not fit is cut, and the renderer returns −1 there. -/
def appendPieces (cap : Nat) : List (List Byte) → List Byte → List Byte × Bool
  | [], buf => (buf, true)
  | piece :: pieces, buf =>
    if cap - buf.length ≤ piece.length then (buf ++ piece.take (cap - buf.length - 1), false)
    else appendPieces cap pieces (buf ++ piece)

theorem appendPieces_buffer {cap : Nat} (pieces : List (List Byte)) (hbuf : buf.length < cap) :
    (appendPieces cap pieces buf).1 = (buf ++ pieces.flatten).take (cap - 1) := by
  induction pieces generalizing buf with
  | nil =>
    rw [appendPieces, flatten_nil, append_nil, take_of_length_le (by omega)]
  | cons piece pieces ih =>
    rw [appendPieces, flatten_cons]
    split
    next hcut =>
      have hroom : cap - 1 - buf.length ≤ piece.length := by omega
      rw [take_append, take_of_length_le (show buf.length ≤ cap - 1 by omega),
        take_append_of_le_length hroom, Nat.sub_right_comm]
    next hfits =>
      rw [ih (by rw [length_append]; omega), append_assoc]

def lppJsonValue (r : LppRecord) : List Byte :=
  match r.values with
  | [x, y, z] => arrayText ([x, y, z].map fun q => (CFloat.ofRat q).fixed 4)
  | values => (CFloat.ofRat (values.getD 0 0)).fixed 4

def lppJsonElement (r : LppRecord) : List Byte :=
  objectText
    [(ascii "ch", decimal r.channel.toNat), (ascii "type", decimal r.type.toNat),
      (ascii "name", quoted (ascii r.typeName)), (ascii "unit", quoted (ascii r.unit)),
      (ascii "value", lppJsonValue r)]

def separated (separator : Byte) : List (List Byte) → List (List Byte)
  | [] => []
  | piece :: pieces => piece :: pieces.map (separator :: ·)

/-- `meshcore_lpp_to_json` into a buffer of `cap` bytes. -/
def meshcoreLppToJson (records : List LppRecord) (cap : Nat) : List Byte × Bool :=
  appendPieces cap ([[0x5B]] ++ separated 0x2C (records.map lppJsonElement) ++ [[0x5D]]) []

def lppTextItem (r : LppRecord) : List Byte :=
  match r.values with
  | [x, y, z] => ascii r.typeName ++ 0x3D :: (CFloat.ofRat x).fixed 3 ++ 0x2C ::
      (CFloat.ofRat y).fixed 3 ++ 0x2C :: (CFloat.ofRat z).fixed 3 ++ ascii r.unit
  | values => ascii r.typeName ++ 0x3D :: (CFloat.ofRat (values.getD 0 0)).fixed 2 ++ ascii r.unit

/-- `meshcore_lpp_to_text` into a buffer of `cap` bytes. -/
def meshcoreLppToText (records : List LppRecord) (cap : Nat) : List Byte × Bool :=
  appendPieces cap (separated 0x20 (records.map lppTextItem)) []

/-- What it leaves in `mc_telemetry_json` and `mc_text`. What the renderers return is not looked at.
-/
def lppTelemetry (div : Nat → Nat → ℚ) (blob : List Byte) : Option (List Byte × List Byte) :=
  (meshcoreLppDecode div blob lppMaxRecords).map fun records =>
    ((meshcoreLppToJson records 1024).1, (meshcoreLppToText records 256).1)

/-! ## Whole or cut -/

theorem flatten_separated (ts : List (List Byte)) : (separated 0x2C ts).flatten = commas ts := by
  induction ts with
  | nil => rfl
  | cons t ts ih =>
    cases ts with
    | nil => simp [separated, commas]
    | cons u ts =>
      rw [commas, ← ih]
      simp [separated]

theorem meshcoreLppToJson_buffer (records : List LppRecord) :
    (meshcoreLppToJson records 1024).1 = (arrayText (records.map lppJsonElement)).take 1023 := by
  rw [meshcoreLppToJson, appendPieces_buffer _ (by decide), nil_append, flatten_append,
    flatten_append, flatten_separated]
  rfl

theorem transparent_of_known (h : ti ∈ lppTypes) :
    Transparent (ascii ti.name) ∧ Transparent (ascii ti.unit) := by
  have hrows : ∀ ti ∈ lppTypes, (∀ c ∈ ascii ti.name, c ≠ 0x22 ∧ c ≠ 0x5C ∧ ¬c < 0x20) ∧
      ∀ c ∈ ascii ti.unit, c ≠ 0x22 ∧ c ≠ 0x5C ∧ ¬c < 0x20 := by decide
  exact ⟨transparent_plain (hrows ti h).1, transparent_plain (hrows ti h).2⟩

theorem isValue_lppJsonElement {r : LppRecord} (h : ti ∈ lppTypes) (hname : r.typeName = ti.name)
    (hunit : r.unit = ti.unit) : IsValue (lppJsonElement r) := by
  have hnumber : ∀ q, IsValue ((CFloat.ofRat q).fixed 4) := by
    intro q
    exact isValue_fixed (by decide) _ _
  have hvalue : IsValue (lppJsonValue r) := by
    rw [lppJsonValue]
    split
    · apply isValue_array
      intro t ht
      obtain ⟨q, -, rfl⟩ := mem_map.mp ht
      exact hnumber q
    · exact hnumber _
  have hkey : ∀ key ∈ [ascii "ch", ascii "type", ascii "name", ascii "unit", ascii "value"],
      Transparent key := by
    intro key hmem
    apply transparent_plain
    revert key
    decide
  obtain ⟨hplain, hplain'⟩ := transparent_of_known h
  rw [lppJsonElement, hname, hunit]
  apply isValue_object
  simp only [forall_mem_cons] at hkey ⊢
  exact ⟨⟨hkey.1, isValue_decimal _⟩, ⟨hkey.2.1, isValue_decimal _⟩,
    ⟨hkey.2.2.1, isValue_string hplain⟩, ⟨hkey.2.2.2.1, isValue_string hplain'⟩,
    ⟨hkey.2.2.2.2.1, hvalue⟩, forall_mem_nil _⟩

theorem known_of_meshcoreLppDecode (h : meshcoreLppDecode div blob maxRecords = some records)
    {record : LppRecord} (hmem : record ∈ records) :
    ∃ ti ∈ lppTypes, record.typeName = ti.name ∧ record.unit = ti.unit := by
  obtain ⟨rs, hne, rfl⟩ := exists_of_meshcoreLppDecode h
  obtain ⟨all, hrun, hheaders, -⟩ := meshcoreLppDecode_run div hne maxRecords
  rw [h] at hrun
  obtain rfl := some.inj hrun
  -- the record has the name and the unit of the reading it was read from
  have hheader : record.header ∈ rs.map (·.record.header) := by
    rw [← hheaders]
    exact mem_map_of_mem (mem_of_mem_take hmem)
  obtain ⟨r, -, hr⟩ := mem_map.mp hheader
  simp only [LppRecord.header, Reading.record, Prod.mk.injEq] at hr
  exact ⟨r.info, r.known, hr.2.2.1.symm, hr.2.2.2.symm⟩

theorem isValue_elements (h : meshcoreLppDecode div blob maxRecords = some records) :
    ∀ t ∈ records.map lppJsonElement, IsValue t := by
  intro t ht
  obtain ⟨record, hmem, rfl⟩ := mem_map.mp ht
  obtain ⟨ti, hti, hname, hunit⟩ := known_of_meshcoreLppDecode h hmem
  exact isValue_lppJsonElement hti hname hunit

def TelemetryWhole (json : List Byte) (records : List LppRecord) : Prop :=
  json = [] ∨ ∃ ts, ts.length = records.length ∧ (∀ t ∈ ts, IsValue t) ∧ json = arrayText ts

theorem telemetryWhole_iff (h : meshcoreLppDecode div blob maxRecords = some records) :
    TelemetryWhole (meshcoreLppToJson records 1024).1 records ↔
      (arrayText (records.map lppJsonElement)).length ≤ 1023 := by
  have hvalues := isValue_elements h
  rw [meshcoreLppToJson_buffer]
  constructor
  · rintro (hempty | ⟨ts, -, hts, hcut⟩)
    · simp [arrayText] at hempty
    · -- the cut text would be an array that begins another one
      have hjoin := take_append_drop 1023 (arrayText (records.map lppJsonElement))
      rw [hcut] at hjoin
      have hnil := append_nil_of_arrayText hts hvalues hjoin
      exact drop_eq_nil_iff.mp hnil
  · intro hfits
    refine Or.inr ⟨records.map lppJsonElement, length_map _, hvalues, ?_⟩
    exact take_of_length_le hfits

def grpDataBytes (plain : List Byte) : List Byte := (plain.drop 3).take (plain.getD 2 0).toNat

def blobRecords (div : Nat → Nat → ℚ) (blob : List Byte) : List LppRecord :=
  (meshcoreLppDecode div blob lppMaxRecords).getD []

theorem grpDataBlob_whole_iff (div : Nat → Nat → ℚ) (env : Env) (blob : List Byte) {ev : MeshEvent}
    (hev : ev.mcTelemetryJson = []) :
    TelemetryWhole (grpDataBlob { env with lppDecode := lppTelemetry div } blob ev).mcTelemetryJson
        (blobRecords div blob) ↔
      (arrayText ((blobRecords div blob).map lppJsonElement)).length ≤ 1023 := by
  simp only [grpDataBlob, lppTelemetry, blobRecords]
  cases hdecode : meshcoreLppDecode div blob lppMaxRecords with
  | none =>
    -- no telemetry: the field keeps its initial value, and the empty array is short
    constructor
    · intro _
      decide
    · intro _
      exact Or.inl hev
  | some records => exact telemetryWhole_iff hdecode

theorem grpData_telemetryJson {env : Env} {channels : Option ChannelSet} {pkt : Packet}
    {plain : List Byte} {ch : Channel} (ev : MeshEvent)
    (hopen : grpDecrypt env.crypto channels pkt = some (plain, ch)) (hlen : 3 ≤ plain.length) :
    ∃ ev' ev₀, meshcoreDecodeGrpData env channels pkt ev = some ev' ∧
      ev₀.mcTelemetryJson = ev.mcTelemetryJson ∧
      ev'.mcTelemetryJson = (grpDataBlob env (grpDataBytes plain) ev₀).mcTelemetryJson := by
  rw [meshcoreDecodeGrpData, hopen]
  dsimp only
  rw [if_neg (by omega)]
  exact ⟨_, { ev with mcDataType := rdLe16 plain, mcDataLen := (plain.getD 2 0).setWidth 16 }, rfl,
    rfl, rfl⟩

/-- **Telemetry in the event.** The JSON of a decrypted GRP_DATA message is empty or a whole array
exactly if the array takes at most 1023 bytes. -/
theorem telemetryJson_whole_iff (div : Nat → Nat → ℚ) (env : Env) (channels : Option ChannelSet)
    (pkt : Packet) (ev : MeshEvent) (plain : List Byte) (ch : Channel)
    (hopen : grpDecrypt env.crypto channels pkt = some (plain, ch)) (hlen : 3 ≤ plain.length)
    (hev : ev.mcTelemetryJson = []) :
    ∃ ev', meshcoreDecodeGrpData { env with lppDecode := lppTelemetry div } channels pkt ev =
        some ev' ∧
      (TelemetryWhole ev'.mcTelemetryJson (blobRecords div (grpDataBytes plain)) ↔
        (arrayText ((blobRecords div (grpDataBytes plain)).map lppJsonElement)).length ≤ 1023) := by
  have hopen' : grpDecrypt (Env.crypto { env with lppDecode := lppTelemetry div }) channels pkt =
      some (plain, ch) := hopen
  obtain ⟨ev', ev₀, hdecode, hev₀, hjson⟩ := grpData_telemetryJson ev hopen' hlen
  refine ⟨ev', hdecode, ?_⟩
  rw [hjson]
  exact grpDataBlob_whole_iff div env (grpDataBytes plain) (hev₀.trans hev)

def plainCrypto : Crypto where
  hmacSha256 := fun _ _ => [0xAA, 0xBB]
  aes128Decrypt := fun _ block => block
  ed25519Verify := fun _ _ _ => true
  two_le_hmac := fun _ _ => by simp
  length_aes := fun _ _ h => h

def plainEnv : Env := ⟨plainCrypto, fun _ _ _ => none, lppTelemetry exactDiv⟩

def plainChannels : ChannelSet :=
  ⟨[⟨ascii "#meteo", List.replicate 16 0x8B, 0x11⟩], by decide⟩

/-- A GRP_DATA frame with `n` temperature records. -/
def temperatureFrame (n : Nat) : List Byte :=
  [0x19, 0x00, 0x11, 0xAA, 0xBB, 0x01, 0x00, BitVec.ofNat 8 (4 * n)] ++
    (List.replicate n [0x01, 0x67, 0x00, 0xD7]).flatten

def temperaturePlain (n : Nat) : List Byte := (temperatureFrame n).drop 5

theorem temperatureFrame_opens {n : Nat} (h : n = 1 ∨ n = 16) :
    ∃ pkt, meshcorePacketParse (temperatureFrame n) = some pkt ∧
      grpDecrypt plainEnv.crypto (some plainChannels) pkt =
        some (temperaturePlain n, ⟨ascii "#meteo", replicate 16 0x8B, 0x11⟩) := by
  have hopen : ∀ n ∈ [1, 16], (meshcorePacketParse (temperatureFrame n)).map
      (grpDecrypt plainEnv.crypto (some plainChannels)) =
        some (some (temperaturePlain n, ⟨ascii "#meteo", replicate 16 0x8B, 0x11⟩)) := by
    decide
  exact map_eq_some_iff.mp (hopen n (by simpa using h))

theorem telemetryJson_whole_one :
    ∃ pkt ev', meshcorePacketParse (temperatureFrame 1) = some pkt ∧
      meshcoreDecodeGrpData plainEnv (some plainChannels) pkt {} = some ev' ∧
      TelemetryWhole ev'.mcTelemetryJson (blobRecords exactDiv (grpDataBytes (temperaturePlain 1))) := by
  obtain ⟨pkt, hparse, hopen⟩ := temperatureFrame_opens (Or.inl rfl)
  obtain ⟨ev', hdecode, hwhole⟩ := telemetryJson_whole_iff exactDiv plainEnv (some plainChannels) pkt
    {} _ _ hopen (by decide) rfl
  exact ⟨pkt, ev', hparse, hdecode, hwhole.mpr (by decide +kernel)⟩

/-- Sixteen temperatures, sixty-four bytes on the air, do not fit. -/
theorem telemetryJson_cut :
    ∃ pkt ev', meshcorePacketParse (temperatureFrame 16) = some pkt ∧
      meshcoreDecodeGrpData plainEnv (some plainChannels) pkt {} = some ev' ∧
      ¬TelemetryWhole ev'.mcTelemetryJson
        (blobRecords exactDiv (grpDataBytes (temperaturePlain 16))) := by
  obtain ⟨pkt, hparse, hopen⟩ := temperatureFrame_opens (Or.inr rfl)
  obtain ⟨ev', ev₀, hdecode, hev₀, hjson⟩ := grpData_telemetryJson {} hopen (by decide)
  refine ⟨pkt, ev', hparse, hdecode, ?_⟩
  rw [hjson]
  intro hwhole
  have hfits := (grpDataBlob_whole_iff exactDiv plainEnv (grpDataBytes (temperaturePlain 16)) hev₀).mp
    hwhole
  revert hfits
  decide +kernel

end MeshcoreSniffer.Meshcore
