import MeshcoreSniffer.Meshtastic.Envelope

/-!
# What a position decoder accepts

`mesh_decode_position` skips a value whose wire type is not the declared one, and also after a
failed read, when a varint that runs over ten bytes has moved the cursor into itself.
-/

namespace MeshcoreSniffer.Meshtastic

open Lib Lib.Wire List

/-! ## The message -/

def asVarint : Value → Option (BitVec 64)
  | .varint v => some v
  | _ => none

def asFixed32 : Value → Option (BitVec 32)
  | .fixed32 v => some v
  | _ => none

def lastOf {α : Type} (pick : Value → Option α) (number : Nat) (fields : List Field) : Option α :=
  (fields.filterMap fun f => if f.number = number then pick f.value else none).getLast?

def lastVarint (number : Nat) (fields : List Field) : Option (BitVec 64) :=
  lastOf asVarint number fields

def lastFixed32 (number : Nat) (fields : List Field) : Option (BitVec 32) :=
  lastOf asFixed32 number fields

/-- The `uint32` or `int32` a field was sent with last, or its default. -/
def lastWord (number : Nat) (fields : List Field) : BitVec 32 :=
  ((lastVarint number fields).map low32).getD 0

/-- By the numbers and types of the declaration of `Position`. -/
def Position.ofFields (fields : List Field) : Position where
  latDeg := (lastFixed32 1 fields).map degrees
  lonDeg := (lastFixed32 2 fields).map degrees
  altitudeM := (lastVarint 3 fields).map low32
  time := lastFixed32 4 fields
  locationSource := lastWord 5 fields
  altitudeSource := lastWord 6 fields
  timestamp := lastFixed32 7 fields
  timestampMillisAdjust := lastWord 8 fields
  altitudeHaeM := (lastVarint 9 fields).map fun v => pbZigzag32 (low32 v)
  altitudeGeoidalSeparationM := (lastVarint 10 fields).map fun v => pbZigzag32 (low32 v)
  pdopX100 := lastWord 11 fields
  hdopX100 := lastWord 12 fields
  vdopX100 := lastWord 13 fields
  gpsAccuracyMm := lastWord 14 fields
  groundSpeedMps := (lastVarint 15 fields).map low32
  groundTrackX100 := (lastVarint 16 fields).map low32
  fixQuality := lastWord 17 fields
  fixType := lastWord 18 fields
  satsInView := lastWord 19 fields
  sensorId := lastWord 20 fields
  nextUpdateS := lastWord 21 fields
  seqNumber := lastWord 22 fields
  precisionBits := lastWord 23 fields

def IsPosition (pos : Position) (buf : List Byte) : Prop :=
  ∃ fields, Complete fields buf ∧ pos = Position.ofFields fields

/-! ## The fold of the fields -/

theorem lastOf_snoc {α : Type} (pick : Value → Option α) (number : Nat) (fields : List Field)
    (f : Field) : lastOf pick number (fields ++ [f]) =
      (if f.number = number then pick f.value else none).or (lastOf pick number fields) := by
  rw [lastOf, filterMap_append]
  cases h : (if f.number = number then pick f.value else none) with
  | none => simp [h, lastOf]
  | some v => simp [h]

theorem Reader.apply_skip {σ : Type} (v : Value) (s : σ) : Reader.skip.apply v s = s := by
  cases v <;> rfl

variable {n fuel : Nat} {fields : List Field} {bs q p : List Byte} {s s' : Position}

theorem readerOf_position_skip (h : n = 0 ∨ 23 < n) : readerOf positionFields n = .skip := by
  have hne : ∀ k, 1 ≤ k → k ≤ 23 → (n == k) = false := by
    intro k h1 h23
    rw [beq_eq_false_iff_ne]
    omega
  simp [readerOf, positionFields, lookup, hne]

theorem applyFields_position (fields : List Field) :
    applyFields positionFields fields {} = Position.ofFields fields := by
  induction fields using reverseRecOn with
  | nil => rfl
  | append_singleton fields f ih =>
    obtain ⟨n, v⟩ := f
    rw [applyFields_snoc, ih]
    by_cases hn : n = 0 ∨ 23 < n
    · have hne : ∀ k, 1 ≤ k → k ≤ 23 → n ≠ k := by omega
      rw [readerOf_position_skip hn, Reader.apply_skip]
      simp only [Position.ofFields, lastWord, lastVarint, lastFixed32, lastOf_snoc]
      simp [hne]
    · have hpos : 1 ≤ n := by omega
      have hle : n ≤ 23 := by omega
      simp only [Position.ofFields, lastWord, lastVarint, lastFixed32, lastOf_snoc]
      interval_cases n <;> cases v <;> rfl

theorem readerOf_position_cases (n : Nat) :
    (∃ set, readerOf positionFields n = .typedVarint set) ∨
      (∃ set, readerOf positionFields n = .typedFixed32 set) ∨ readerOf positionFields n = .skip := by
  by_cases hn : n = 0 ∨ 23 < n
  · exact Or.inr (Or.inr (readerOf_position_skip hn))
  · have hpos : 1 ≤ n := by omega
    have hle : n ≤ 23 := by omega
    interval_cases n <;>
      first
      | exact Or.inl ⟨_, rfl⟩
      | exact Or.inr (Or.inl ⟨_, rfl⟩)

theorem pbMessage_position {buf : List Byte} (h : Complete fields buf) :
    pbMessage (switchOn positionFields) buf {} = (Position.ofFields fields, .done) := by
  rw [pbMessage, pbLoop_complete positionFields h ?_ (Nat.lt_succ_self _), applyFields_position]
  intro f _
  rcases readerOf_position_cases f.number with ⟨set, hr⟩ | ⟨set, hr⟩ | hr <;> rw [hr] <;> trivial

/-! ## The walk -/

/-- A number from 1 to 2²⁹ - 1, and a varint behind it ends within ten bytes. -/
def soundAt (p : List Byte) : Bool :=
  match pbReadVarint p with
  | (some tag, q) =>
    8 ≤ tag.toNat && tag.toNat < 2 ^ 32 && (tag.setWidth 3 != (0 : BitVec 3) || (pbReadVarint q).1.isSome)
  | (none, _) => false

def SoundTags (buf : List Byte) : Prop := ∀ p ∈ tagCursors (buf.length + 1) buf, soundAt p = true

theorem tagCursors_field {f : Field} (h : f.Complete bs) (rest : List Byte) (fuel : Nat) :
    tagCursors (fuel + 1) (bs ++ rest) = (bs ++ rest) :: tagCursors fuel rest ∧
      soundAt (bs ++ rest) = true ∧ rest.length < (bs ++ rest).length := by
  obtain ⟨hlegal, htag, hval⟩ := h
  rename_i tag val
  obtain ⟨number, value⟩ := f
  have hpos := htag.length_pos
  have hlen : rest.length < (tag ++ val ++ rest).length := by
    simp only [length_append]
    omega
  obtain ⟨fld, -, hread⟩ := pbReadTag_complete hlegal htag (val ++ rest)
  rw [← append_assoc] at hread
  refine ⟨?_, ?_, hlen⟩
  · rw [tagCursors, if_neg (ne_nil_of_length_pos (by omega)), hread]
    simp only [pbSkipValue_complete hval rest]
  · have hvarint : value.wireType = 0 → (pbReadVarint (val ++ rest)).1.isSome = true := by
      intro hwt
      cases hval with
      | varint hv => rw [pbReadVarint_lax hv]; rfl
      | _ => cases hwt
    have hwt := value.wireType_lt
    have hnumber := hlegal.pos
    rw [soundAt, append_assoc, pbReadVarint_lax htag]
    simp only [(tag_split hlegal).2, hlegal.toNat_tag, Bool.and_eq_true, decide_eq_true_eq,
      Bool.or_eq_true, bne_iff_ne, ne_eq]
    refine ⟨⟨?_, hlegal.tag_lt⟩, ?_⟩
    · rw [Field.tag]
      omega
    · by_cases hzero : value.wireType = 0
      · exact Or.inr (hvarint hzero)
      · refine Or.inl fun heq => hzero ?_
        have := congrArg BitVec.toNat heq
        rw [BitVec.toNat_ofNat, Nat.mod_eq_of_lt hwt] at this
        exact this

theorem soundTags_complete (h : Complete fields bs) (hfuel : bs.length < fuel) :
    ∀ p ∈ tagCursors fuel bs, soundAt p = true := by
  induction h generalizing fuel with
  | nil =>
    obtain ⟨fuel, rfl⟩ : ∃ k, fuel = k + 1 := ⟨fuel - 1, by omega⟩
    exact forall_mem_nil _
  | cons hf _ ih =>
    obtain ⟨fuel, rfl⟩ : ∃ k, fuel = k + 1 := ⟨fuel - 1, by omega⟩
    rename_i rest _
    obtain ⟨hcursors, hsound, hshort⟩ := tagCursors_field hf rest fuel
    rw [hcursors]
    exact forall_mem_cons.mpr ⟨hsound, ih (by omega)⟩

theorem pbReadFixed32_none (h : pbReadFixed32 q = (none, p)) : p = q := by
  unfold pbReadFixed32 at h
  split at h
  next => cases h
  next => exact (Prod.mk.inj h).2.symm

theorem read_position_skips {wt : BitVec 3} {rest : List Byte}
    (hvarint : wt = 0 → (pbReadVarint q).1.isSome = true)
    (h : (readerOf positionFields n).read wt q s = some (s', rest)) :
    pbSkipValue q wt = some rest := by
  have hskip : (pbSkipValue q wt).map (s, ·) = some (s', rest) → pbSkipValue q wt = some rest := by
    intro h
    obtain ⟨rest', hskip, hrest⟩ := Option.map_eq_some_iff.mp h
    cases hrest
    exact hskip
  rcases readerOf_position_cases n with ⟨set, hr⟩ | ⟨set, hr⟩ | hr
  · rw [hr, Reader.read] at h
    split at h
    next => exact hskip h
    next hwt =>
      rw [not_not] at hwt
      split at h
      next hread =>
        cases h
        simp [pbSkipValue, hwt, hread]
      next hread =>
        rw [hread] at hvarint
        cases hvarint hwt
  · rw [hr, Reader.read] at h
    split at h
    next => exact hskip h
    next hwt =>
      rw [not_not] at hwt
      split at h
      next hread =>
        cases h
        simp [pbSkipValue, hwt, hread]
      next p hread =>
        -- the failed read has not moved the cursor, so the skip fails as well
        obtain rfl := pbReadFixed32_none hread
        simp [pbSkipValue, hwt, hread] at h
  · rw [hr] at h
    exact hskip h

theorem fields_of_soundTags (h : pbLoop (switchOn positionFields) fuel p s = (s', .done))
    (hsound : ∀ c ∈ tagCursors fuel p, soundAt c = true) : ∃ fields, Complete fields p := by
  induction fuel generalizing p s with
  | zero => cases h
  | succ fuel ih =>
    rw [pbLoop] at h
    split at h
    next hp => exact ⟨[], hp ▸ .nil⟩
    next hp =>
      split at h
      next => cases h
      next fld wt q htag =>
        split at h
        next => cases h
        next s₁ rest hread =>
          rw [tagCursors, if_neg hp, htag] at hsound
          have hhead := hsound p mem_cons_self
          rw [pbReadTag] at htag
          split at htag
          next tag q' htagRead =>
            cases htag
            rw [soundAt, htagRead] at hhead
            simp only [Bool.and_eq_true, decide_eq_true_eq, Bool.or_eq_true, bne_iff_ne, ne_eq] at hhead
            obtain ⟨⟨hlo, hhi⟩, hvarint⟩ := hhead
            have hskip := read_position_skips (fun hwt => hvarint.resolve_left (not_not.mpr hwt)) hread
            simp only [hskip] at hsound
            obtain ⟨f, tb, vb, rfl, -, hlegal, htb, hv, -⟩ := field_of_reads htagRead hlo hhi hskip
            obtain ⟨fs, hfs⟩ := ih h fun c hc => hsound c (mem_cons_of_mem _ hc)
            rw [← append_assoc]
            exact ⟨f :: fs, .cons (.mk hlegal htb hv) hfs⟩
          next => cases htag

/-- **Accepted.** A string the decoder reports a position for is a complete message whose fields
give that position exactly if its tags are sound. -/
theorem position_accepted_iff (buf : List Byte) (pos : Position)
    (h : meshDecodePosition buf = some pos) : IsPosition pos buf ↔ SoundTags buf := by
  refine ⟨fun ⟨fields, hbuf, _⟩ => soundTags_complete hbuf (Nat.lt_succ_self _), fun hsound => ?_⟩
  rw [meshDecodePosition, decodeWhole] at h
  split at h
  next s hdone =>
    split at h
    next =>
      cases h
      obtain ⟨fields, hbuf⟩ := fields_of_soundTags hdone hsound
      rw [pbMessage_position hbuf] at hdone
      cases hdone
      exact ⟨fields, hbuf, rfl⟩
    next => cases h
  next => cases h

def twiceFields : List Field :=
  [ ⟨1, .fixed32 0x1D4C0000⟩, ⟨3, .varint 5⟩, ⟨2, .varint 7⟩, ⟨3, .varint 300⟩ ]

theorem position_accepted_iff_twice :
    IsPosition { latDeg := some (degrees 0x1D4C0000), altitudeM := some 300 } (encode twiceFields) := by
  refine (position_accepted_iff (encode twiceFields) _ rfl).mpr ?_
  show ∀ p ∈ tagCursors ((encode twiceFields).length + 1) (encode twiceFields), soundAt p = true
  decide +kernel

/-- **A varint of eleven bytes.** Ten bytes are refused; the rest is skipped as another value, and
the position is reported. -/
theorem position_accepts_overlong :
    (∃ pos, meshDecodePosition ([0x0D, 0, 0, 0, 0, 0x18] ++ List.replicate 10 0x80 ++ [0]) = some pos ∧
      ¬IsPosition pos ([0x0D, 0, 0, 0, 0, 0x18] ++ List.replicate 10 0x80 ++ [0])) ∧
    ¬∃ fields, Complete fields ([0x0D, 0, 0, 0, 0, 0x18] ++ List.replicate 10 0x80 ++ [0]) := by
  have hincomplete :
      ¬∃ fields, Complete fields ([0x0D, 0, 0, 0, 0, 0x18] ++ replicate 10 0x80 ++ [0]) := by
    rintro ⟨fields, h⟩
    have hsound := soundTags_complete h (Nat.lt_succ_self _) ([0x18] ++ replicate 10 0x80 ++ [0])
      (by decide)
    exact absurd hsound (by decide)
  refine ⟨⟨{ latDeg := some (degrees 0) }, rfl, ?_⟩, hincomplete⟩
  rintro ⟨fields, h, -⟩
  exact hincomplete ⟨fields, h⟩

end MeshcoreSniffer.Meshtastic
