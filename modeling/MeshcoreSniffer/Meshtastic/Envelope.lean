import MeshcoreSniffer.Meshtastic.Packet
import MeshcoreSniffer.Meshtastic.Wire

/-!
# The data envelope

`parse_data_envelope` decides whether a key was the right one. It does not compare wire types, drops
high bits and skips field numbers that do not exist; an accepted string is a message exactly when
its walk meets none of these.
-/

namespace MeshcoreSniffer.Meshtastic

open Lib List Lib.Wire

/-! ## The message -/

/-- `portnum`, `payload`, `want_response`, `request_id`, `reply_id`. -/
def dataSchema : List (Nat × Nat) := [(1, 0), (2, 2), (3, 0), (6, 5), (7, 5)]

def Declared (fields : List Field) : Prop :=
  ∀ f ∈ fields, ∀ wt, dataSchema.lookup f.number = some wt → f.value.wireType = wt

/-- An assignment of these fields, as the protocol has them. -/
structure Data where
  portnum : BitVec 64
  payload : Option (List Byte)
  wantResponse : Bool
  requestId : BitVec 32
  replyId : BitVec 32

def varintOf : Option Value → BitVec 64
  | some (.varint v) => v
  | _ => 0

def fixed32Of : Option Value → BitVec 32
  | some (.fixed32 v) => v
  | _ => 0

def bytesOf : Option Value → Option (List Byte)
  | some (.bytes content) => some content
  | _ => none

/-- The last value of each field counts. -/
def Data.ofFields (fields : List Field) : Data where
  portnum := varintOf (lastValue 1 fields)
  payload := bytesOf (lastValue 2 fields)
  wantResponse := varintOf (lastValue 3 fields) != 0
  requestId := fixed32Of (lastValue 6 fields)
  replyId := fixed32Of (lastValue 7 fields)

def IsData (d : Data) (buf : List Byte) : Prop :=
  ∃ fields, Encodes fields buf ∧ Declared fields ∧ Data.ofFields fields = d

/-- The event fields of an assignment; `portnum` is cut to 32 bits. -/
def Data.envelope (d : Data) : Envelope where
  portnum := low32 d.portnum
  payload := d.payload
  wantResponse := d.wantResponse
  requestId := d.requestId
  replyId := d.replyId

/-! ## Decoding inverts encoding -/

theorem schema_cases (n : Nat) :
    n = 1 ∨ n = 2 ∨ n = 3 ∨ n = 6 ∨ n = 7
      ∨ (n ≠ 1 ∧ n ≠ 2 ∧ n ≠ 3 ∧ n ≠ 6 ∧ n ≠ 7) ∧ readerOf envelopeFields n = .skip := by
  by_cases h : n = 1 ∨ n = 2 ∨ n = 3 ∨ n = 6 ∨ n = 7
  · omega
  · push Not at h
    obtain ⟨h1, h2, h3, h6, h7⟩ := h
    have hskip : readerOf envelopeFields n = .skip := by
      simp only [readerOf, envelopeFields, lookup_cons, beq_false_of_ne h1,
        beq_false_of_ne h2, beq_false_of_ne h3, beq_false_of_ne h6, beq_false_of_ne h7,
        lookup_nil, Option.getD_none]
    exact .inr (.inr (.inr (.inr (.inr ⟨⟨h1, h2, h3, h6, h7⟩, hskip⟩))))

theorem readerOf_expects {n wt : Nat} (h : ∀ w, dataSchema.lookup n = some w → wt = w) :
    (readerOf envelopeFields n).Expects wt := by
  rcases schema_cases n with rfl | rfl | rfl | rfl | rfl | ⟨-, hskip⟩
  · exact h 0 rfl
  · exact h 2 rfl
  · exact h 0 rfl
  · exact h 5 rfl
  · exact h 5 rfl
  · rw [hskip]
    trivial

theorem readerOf_direct (n : Nat) : (readerOf envelopeFields n).Direct := by
  rcases schema_cases n with rfl | rfl | rfl | rfl | rfl | ⟨-, hskip⟩
  on_goal 6 => rw [hskip]
  all_goals trivial

variable {wt : BitVec 3} {fields : List Field} {buf p q bs rest : List Byte} {fld : BitVec 32}
  {f : Field} {fuel : Nat}

theorem applyFields_envelope (h : Declared fields) :
    applyFields envelopeFields fields {} = (Data.ofFields fields).envelope := by
  induction fields using List.reverseRecOn with
  | nil => rfl
  | append_singleton fields f ih =>
    have hfields : Declared fields := fun g hg => h g (mem_append_left _ hg)
    have hf := h f (mem_append_right _ (mem_singleton_self f))
    obtain ⟨n, v⟩ := f
    dsimp only at hf
    rw [applyFields_snoc, ih hfields]
    simp only [Data.ofFields, lastValue_snoc]
    rcases schema_cases n with rfl | rfl | rfl | rfl | rfl | ⟨hn, hskip⟩
    · cases v with
      | varint v => rfl
      | _ => cases hf 0 rfl
    · cases v with
      | bytes v => rfl
      | _ => cases hf 2 rfl
    · cases v with
      | varint v => rfl
      | _ => cases hf 0 rfl
    · cases v with
      | fixed32 v => rfl
      | _ => cases hf 5 rfl
    · cases v with
      | fixed32 v => rfl
      | _ => cases hf 5 rfl
    · simp only [hskip, Reader.apply, hn, if_false]

theorem pbMessage_encoded (h : Encodes fields buf) (hd : Declared fields) :
    pbMessage (switchOn envelopeFields) buf {} = ((Data.ofFields fields).envelope, .done) := by
  rw [pbMessage, pbLoop_complete envelopeFields h.complete
    (fun f hf => readerOf_expects (hd f hf)) (Nat.lt_succ_self _), applyFields_envelope hd]

/-- **Decoding inverts encoding.** Every encoding of an assignment with a port number of at most
1024 is read back. -/
theorem parseDataEnvelope_encoded (d : Data) (buf : List Byte) (hport : d.portnum.toNat ≤ 1024)
    (h : IsData d buf) :
    (∃ env, parseDataEnvelope buf = some env ∧ env.portnum.toNat = d.portnum.toNat
      ∧ env.payload = d.payload ∧ env.wantResponse = d.wantResponse
      ∧ env.requestId = d.requestId ∧ env.replyId = d.replyId)
      ∧ (∀ v bs rest, IsVarint v bs → pbReadVarint (bs ++ rest) = (some v, rest))
      ∧ ∀ v rest, pbReadVarint (encodeVarint v ++ rest) = (some v, rest) := by
  obtain ⟨fields, hbuf, hd, rfl⟩ := h
  have hlow : (Data.ofFields fields).envelope.portnum.toNat
      = (Data.ofFields fields).portnum.toNat := by
    change (BitVec.setWidth 32 _).toNat = _
    rw [BitVec.toNat_setWidth]
    omega
  refine ⟨⟨(Data.ofFields fields).envelope, ?_, hlow, rfl, rfl, rfl, rfl⟩,
    fun v bs rest hv => pbReadVarint_encoded hv rest,
    fun v rest => pbReadVarint_encoded (isVarint_encodeVarint v) rest⟩
  simp only [parseDataEnvelope, decodeWhole, pbMessage_encoded hbuf hd, hlow,
    decide_eq_true_eq, if_pos hport]

/-- The port number is sent twice, and a field of a later protocol version stands in between. -/
def helloFields : List Field :=
  [ ⟨1, .varint 300⟩, ⟨6, .fixed32 0x01020304⟩, ⟨9, .varint 1⟩, ⟨2, .bytes (ascii "hi")⟩,
    ⟨1, .varint 1⟩ ]

theorem parseDataEnvelope_encoded_hello :
    (∃ env, parseDataEnvelope (encode helloFields) = some env ∧ env.portnum.toNat = 1
      ∧ env.payload = some (ascii "hi") ∧ env.wantResponse = false
      ∧ env.requestId = 0x01020304 ∧ env.replyId = 0)
      ∧ (∀ v bs rest, IsVarint v bs → pbReadVarint (bs ++ rest) = (some v, rest))
      ∧ ∀ v rest, pbReadVarint (encodeVarint v ++ rest) = (some v, rest) := by
  have hlegal : ∀ f ∈ helloFields, f.Legal ∧ f.value.Fits := by decide
  have hdecl : Declared helloFields := by
    simp [Declared, helloFields, dataSchema, Value.wireType, List.lookup]
  exact parseDataEnvelope_encoded ⟨1, some (ascii "hi"), false, 0x01020304, 0⟩ (encode helloFields)
    (by decide) ⟨helloFields, encodes_encode hlegal, hdecl, rfl⟩

/-! ## What is accepted -/

def tagCursors : Nat → List Byte → List (List Byte)
  | 0, _ => []
  | fuel + 1, p =>
    if p = [] then []
    else
      p :: match pbReadTag p with
        | none => []
        | some ((_, wt), q) =>
          match pbSkipValue q wt with
          | none => []
          | some rest => tagCursors fuel rest

/-- The tag is that of an existing field, with its wire type, and no bits past the 64th follow. -/
def tidyAt (p : List Byte) : Bool :=
  match pbReadTag p with
  | none => false
  | some ((fld, wt), q) =>
    8 ≤ varintValue p && varintValue p < 2 ^ 32
      && (dataSchema.lookup fld.toNat).all (· == wt.toNat)
      && (!(wt = 0 ∨ wt = 2) || varintValue q < 2 ^ 64)

def portnumAt (p : List Byte) : Option Nat :=
  match pbReadTag p with
  | none => none
  | some ((fld, _), q) => if fld = 1 then some (varintValue q) else none

def encodedPortnum (buf : List Byte) : Nat :=
  ((tagCursors (buf.length + 1) buf).filterMap portnumAt).getLast?.getD 0

def Tidy (buf : List Byte) : Prop :=
  (∀ p ∈ tagCursors (buf.length + 1) buf, tidyAt p = true) ∧ encodedPortnum buf < 2 ^ 32

theorem tidyAt_iff (h : pbReadTag p = some ((fld, wt), q)) :
    tidyAt p = true ↔ 8 ≤ varintValue p ∧ varintValue p < 2 ^ 32
      ∧ (∀ w, dataSchema.lookup fld.toNat = some w → wt.toNat = w)
      ∧ (wt = 0 ∨ wt = 2 → varintValue q < 2 ^ 64) := by
  simp only [tidyAt, h, Bool.and_eq_true, decide_eq_true_eq, Option.all_eq_true, beq_iff_eq,
    Bool.or_eq_true, Bool.not_eq_true', decide_eq_false_iff_not, and_assoc, imp_iff_not_or]
  simp only [eq_comm]

structure Front (f : Field) (fld : BitVec 32) (p q rest : List Byte) : Prop where
  legal : f.Legal
  number : fld.toNat = f.number
  tag : pbReadTag p = some ((fld, BitVec.ofNat 3 f.value.wireType), q)
  skip : pbSkipValue q (BitVec.ofNat 3 f.value.wireType) = some rest
  tagValue : varintValue p = f.tag
  fits : f.value.wireType = 0 ∨ f.value.wireType = 2 → varintValue q < 2 ^ 64
  value : ∀ v, f.value = .varint v → varintValue q = v.toNat
  ne_nil : p ≠ []
  shorter : rest.length < p.length

theorem front_of_encodes (hf : f.Encodes bs) (rest : List Byte) :
    ∃ fld q, Front f fld (bs ++ rest) q rest := by
  obtain ⟨hlegal, htag, hval⟩ := hf
  rename_i tag val
  obtain ⟨number, value⟩ := f
  have hpos := htag.groups.length_pos
  obtain ⟨fld, hfld, hread⟩ := pbReadTag_complete hlegal htag.lax (val ++ rest)
  rw [← append_assoc] at hread
  have hlen : rest.length < (tag ++ val ++ rest).length := by
    simp only [length_append]
    omega
  refine ⟨fld, val ++ rest, hlegal, hfld, hread, pbSkipValue_complete hval.complete rest, ?_, ?_, ?_, ?_, hlen⟩
  · rw [append_assoc, htag.groups.varintValue_append, hlegal.toNat_tag]
  · intro hwt
    cases hval with
    | varint hv => exact hv.groups.varintValue_append rest ▸ BitVec.isLt _
    | bytes hl _ =>
      rw [append_assoc, hl.groups.varintValue_append]
      exact BitVec.isLt _
    | _ => simp [Value.wireType] at hwt
  · rintro v rfl
    cases hval with
    | varint hv => exact hv.groups.varintValue_append rest
  · exact ne_nil_of_length_pos (by omega)

theorem Front.tagCursors (h : Front f fld p q rest) (fuel : Nat) :
    tagCursors (fuel + 1) p = p :: tagCursors fuel rest := by
  rw [Meshtastic.tagCursors, if_neg h.ne_nil, h.tag]
  simp only [h.skip]

theorem Front.portnumAt (h : Front f fld p q rest)
    (hd : ∀ w, dataSchema.lookup f.number = some w → f.value.wireType = w) :
    portnumAt p = if f.number = 1 then some (varintOf (some f.value)).toNat else none := by
  have hfld : fld = 1 ↔ f.number = 1 := by
    rw [← h.number]
    exact ⟨fun h => h ▸ rfl, fun h => BitVec.eq_of_toNat_eq h⟩
  simp only [Meshtastic.portnumAt, h.tag, hfld]
  split
  next hone =>
    have hwt := hd 0 (by rw [hone]; rfl)
    cases hv : f.value with
    | varint v => rw [h.value v hv, varintOf]
    | _ => simp [hv, Value.wireType] at hwt
  next => rfl

theorem Front.tidyAt (h : Front f fld p q rest)
    (hd : ∀ w, dataSchema.lookup f.number = some w → f.value.wireType = w) : tidyAt p = true := by
  have hwt : (BitVec.ofNat 3 f.value.wireType).toNat = f.value.wireType := by
    have := f.value.wireType_lt
    rw [BitVec.toNat_ofNat]
    omega
  have hpos := h.legal.pos
  rw [tidyAt_iff h.tag, h.tagValue, h.number, hwt]
  refine ⟨by rw [Field.tag]; omega, h.legal.tag_lt, hd, fun hw => h.fits ?_⟩
  rw [← hwt]
  exact hw.imp (congrArg BitVec.toNat) (congrArg BitVec.toNat)

theorem tagCursors_encoded (h : Encodes fields bs) (hd : Declared fields) (hfuel : bs.length < fuel) :
    (∀ p ∈ tagCursors fuel bs, tidyAt p = true)
      ∧ (tagCursors fuel bs).filterMap portnumAt
        = ((fields.filter (·.number == 1)).map (·.value)).map
            fun v => (varintOf (some v)).toNat := by
  induction h generalizing fuel with
  | nil =>
    obtain ⟨fuel, rfl⟩ : ∃ k, fuel = k + 1 := ⟨fuel - 1, by omega⟩
    exact ⟨forall_mem_nil _, rfl⟩
  | @cons f fs bs rest hf _ ih =>
    obtain ⟨fuel, rfl⟩ : ∃ k, fuel = k + 1 := ⟨fuel - 1, by omega⟩
    obtain ⟨fld, q, hfront⟩ := front_of_encodes hf rest
    have hdf := hd f mem_cons_self
    have hshort := hfront.shorter
    obtain ⟨htidy, hports⟩ := ih (fun g hg => hd g (mem_cons_of_mem f hg))
      (show rest.length < fuel by omega)
    rw [hfront.tagCursors]
    refine ⟨List.forall_mem_cons.mpr ⟨hfront.tidyAt hdf, htidy⟩, ?_⟩
    rw [filterMap_cons, hfront.portnumAt hdf, hports]
    by_cases hone : f.number = 1
    · simp [hone]
    · simp [hone]

theorem encodedPortnum_eq (h : Encodes fields buf) (hd : Declared fields) :
    encodedPortnum buf = (Data.ofFields fields).portnum.toNat := by
  rw [encodedPortnum, (tagCursors_encoded h hd (Nat.lt_succ_self _)).2, getLast?_map]
  change _ = (varintOf (lastValue 1 fields)).toNat
  rw [lastValue]
  cases ((fields.filter (·.number == 1)).map (·.value)).getLast? <;> rfl

theorem field_of_tidyAt (htag : pbReadTag p = some ((fld, wt), q)) (htidy : tidyAt p = true)
    (hskip : pbSkipValue q wt = some rest) :
    ∃ (f : Field) (bs : List Byte), p = bs ++ rest ∧ f.Encodes bs
      ∧ ∀ w, dataSchema.lookup f.number = some w → f.value.wireType = w := by
  obtain ⟨hlo, hhi, hdecl, hfit⟩ := (tidyAt_iff htag).mp htidy
  rw [pbReadTag] at htag
  split at htag
  next tag q' hread =>
    cases htag
    obtain ⟨tb, hp, htb⟩ := pbReadVarint_some hread
    obtain ⟨-, hval⟩ := htb.isVarint q (hp ▸ by omega)
    rw [← hp] at hval
    rw [hval] at hlo hhi
    obtain ⟨f, tb, vb, rfl, rfl, hlegal, htb, hv, hnumber, hty⟩ := field_of_reads hread hlo hhi hskip
    have hnum : ((tag >>> 3).setWidth 32).toNat = tag.toNat / 8 := by
      rw [BitVec.toNat_setWidth, BitVec.toNat_ushiftRight, Nat.shiftRight_eq_div_pow]
      omega
    have hwt : f.value.wireType = 0 ∨ f.value.wireType = 2 → varintValue (vb ++ rest) < 2 ^ 64 := by
      intro h
      refine hfit (h.imp (fun h0 => ?_) fun h2 => ?_)
      · exact BitVec.eq_of_toNat_eq ((BitVec.toNat_setWidth _ _).trans (hty.symm.trans h0))
      · exact BitVec.eq_of_toNat_eq ((BitVec.toNat_setWidth _ _).trans (hty.symm.trans h2))
    rw [hnum, ← hnumber, BitVec.toNat_setWidth] at hdecl
    refine ⟨f, tb ++ vb, by rw [append_assoc], .mk hlegal ?_ (hv.encodes rest hwt), ?_⟩
    · exact (htb.isVarint (vb ++ rest) (by rw [hval]; omega)).1
    · intro w hw
      exact hty.trans (hdecl w hw)
  next => cases htag

theorem fields_of_tidy {s s' : Envelope}
    (h : pbLoop (switchOn envelopeFields) fuel p s = (s', .done))
    (htidy : ∀ c ∈ tagCursors fuel p, tidyAt c = true) :
    ∃ fields, Encodes fields p ∧ Declared fields := by
  induction fuel generalizing p s with
  | zero => cases h
  | succ fuel ih =>
    rw [pbLoop] at h
    split at h
    next hp => exact ⟨[], hp ▸ .nil, forall_mem_nil _⟩
    next hp =>
      split at h
      next => cases h
      next fld wt q htag =>
        split at h
        next => cases h
        next s₁ rest hread =>
          rw [tagCursors, if_neg hp, htag] at htidy
          have hhead := htidy p mem_cons_self
          obtain ⟨-, -, hdecl, -⟩ := (tidyAt_iff htag).mp hhead
          have hskip := Reader.read_skips (readerOf_direct _) (readerOf_expects hdecl) hread
          simp only [hskip] at htidy
          obtain ⟨f, bs, rfl, hf, hdf⟩ := field_of_tidyAt htag hhead hskip
          obtain ⟨fs, hfs, hdfs⟩ := ih h fun c hc => htidy c (mem_cons_of_mem _ hc)
          exact ⟨f :: fs, .cons hf hfs, List.forall_mem_cons.mpr ⟨hdf, hdfs⟩⟩

/-- An encoded `Data` message whose port number is the one reported. -/
def IsDataWithPort (env : Envelope) (buf : List Byte) : Prop :=
  ∃ d, IsData d buf ∧ env.portnum.toNat = d.portnum.toNat

theorem tidy_of_isDataWithPort {env : Envelope} (h : IsDataWithPort env buf) : Tidy buf := by
  obtain ⟨d, ⟨fields, hbuf, hd, rfl⟩, hport⟩ := h
  refine ⟨(tagCursors_encoded hbuf hd (Nat.lt_succ_self _)).1, ?_⟩
  rw [encodedPortnum_eq hbuf hd, ← hport]
  exact env.portnum.isLt

/-- **What is accepted.** An accepted string is a `Data` message with the reported port number
exactly when its tags are tidy. -/
theorem accepted_iff (buf : List Byte) (env : Envelope) (h : parseDataEnvelope buf = some env) :
    IsDataWithPort env buf ↔ Tidy buf := by
  refine ⟨tidy_of_isDataWithPort, fun ⟨htidy, hport⟩ => ?_⟩
  rw [parseDataEnvelope, decodeWhole] at h
  split at h
  next s hdone =>
    split at h
    next =>
      cases h
      obtain ⟨fields, hbuf, hd⟩ := fields_of_tidy hdone htidy
      rw [pbMessage_encoded hbuf hd] at hdone
      cases hdone
      rw [encodedPortnum_eq hbuf hd] at hport
      refine ⟨Data.ofFields fields, ⟨fields, hbuf, hd, rfl⟩, ?_⟩
      change (BitVec.setWidth 32 _).toNat = _
      rw [BitVec.toNat_setWidth, Nat.mod_eq_of_lt hport]
    next => cases h
  next => cases h

theorem accepted_iff_hello :
    IsDataWithPort { portnum := 1, payload := some (ascii "hi"), requestId := 0x01020304 }
        (encode helloFields)
      ↔ Tidy (encode helloFields) :=
  accepted_iff (encode helloFields) _ rfl

/-- Two accepted strings that are no messages: a port number under the tag of a
four-byte field, and the port number 2³² + 1, reported as 1. -/
theorem accepted_malformed :
    (∃ env, parseDataEnvelope [0x0D, 0x01] = some env ∧ ¬IsDataWithPort env [0x0D, 0x01])
      ∧ ∃ env, parseDataEnvelope [0x08, 0x81, 0x80, 0x80, 0x80, 0x10] = some env
        ∧ env.portnum = 1 ∧ ¬IsDataWithPort env [0x08, 0x81, 0x80, 0x80, 0x80, 0x10] := by
  refine ⟨⟨{ portnum := 1 }, rfl, fun h => ?_⟩, ⟨{ portnum := 1 }, rfl, rfl, fun h => ?_⟩⟩
  · have htidy := (tidy_of_isDataWithPort h).1 [0x0D, 0x01] (by decide)
    exact absurd htidy (by decide)
  · have hport := (tidy_of_isDataWithPort h).2
    exact absurd hport (by decide)

end MeshcoreSniffer.Meshtastic
