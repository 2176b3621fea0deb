import MeshcoreSniffer.Meshcore.Packet

/-!
# The frame grammar

`IsFrame` is the grammar at the head of `meshcore_packet.c`. The parser accepts exactly that, what
it accepts is written back (`serialize_of_parse`), and with a cursor a read behind the end is never
made.
-/

namespace MeshcoreSniffer.Meshcore

open Lib List Option

/-! ## Writing a frame -/

def RouteType.code : RouteType → BitVec 2
  | .transportFlood => 0
  | .flood => 1
  | .direct => 2
  | .transportDirect => 3

theorem RouteType.code_ofCode (b : BitVec 2) : (RouteType.ofCode b).code = b := by
  revert b
  decide

def PayloadType.code : PayloadType → BitVec 4
  | .req => 0
  | .response => 1
  | .txtMsg => 2
  | .ack => 3
  | .advert => 4
  | .grpTxt => 5
  | .grpData => 6
  | .anonReq => 7
  | .path => 8
  | .trace => 9
  | .multipart => 10
  | .control => 11
  | .unassigned n => BitVec.ofNat 4 (12 + n)
  | .rawCustom => 15

theorem PayloadType.code_ofCode (b : BitVec 4) : (PayloadType.ofCode b).code = b := by
  revert b
  decide

def wrLe16 (v : BitVec 16) : List Byte := [v.setWidth 8, (v >>> 8).setWidth 8]

def Packet.headerByte (pkt : Packet) : Byte :=
  pkt.payloadVer ++ (pkt.payloadType.code ++ pkt.routeType.code)

def Packet.pathLenByte (pkt : Packet) : Byte :=
  BitVec.ofNat 2 (pkt.pathHashSize - 1) ++ BitVec.ofNat 6 pkt.pathHashCount

def Packet.transportBytes (pkt : Packet) : List Byte :=
  if pkt.hasTransportCodes then wrLe16 pkt.transportCode1 ++ wrLe16 pkt.transportCode2 else []

def Packet.serialize (pkt : Packet) : List Byte :=
  pkt.headerByte :: pkt.transportBytes ++ pkt.pathLenByte :: pkt.path ++ pkt.payload

/-! ## The grammar -/

def transportSize (header : Byte) : Nat :=
  if (RouteType.ofCode (header.setWidth 2)).hasTransportCodes then 4 else 0

def hashCount (pathLenByte : Byte) : Nat := (pathLenByte &&& 0x3F).toNat

def hashSize (pathLenByte : Byte) : Nat := (pathLenByte >>> 6).toNat + 1

/-- Header, transport codes when the route has them, a path-length byte with hash size 1 to 3, a
path of that many bytes and at most 64, and any payload. -/
inductive IsFrame : List Byte → Prop where
  | mk (header : Byte) (codes : List Byte) (pathLenByte : Byte) (path payload : List Byte)
      (hcodes : codes.length = transportSize header)
      (hsize : 1 ≤ hashSize pathLenByte ∧ hashSize pathLenByte ≤ 3)
      (hpath : path.length = hashCount pathLenByte * hashSize pathLenByte)
      (hcap : hashCount pathLenByte * hashSize pathLenByte ≤ maxPathSize) :
      IsFrame (header :: codes ++ pathLenByte :: path ++ payload)

theorem wrLe16_rdLe16 (a b : Byte) (rest : List Byte) :
    wrLe16 (rdLe16 (a :: b :: rest)) = [a, b] := by
  simp only [wrLe16, rdLe16, getD_cons_zero, getD_cons_succ, List.cons.injEq, and_true]
  constructor
  · apply BitVec.eq_of_getLsbD_eq
    intro i hi
    simp [hi]
  · apply BitVec.eq_of_getLsbD_eq
    intro i hi
    simp [hi, show 8 + i < 16 by omega]

theorem headerByte_bits (header : Byte) :
    (header >>> 6).setWidth 2 ++ ((header >>> 2).setWidth 4 ++ header.setWidth 2) = header := by
  revert header
  decide

theorem pathLenByte_bits (b : Byte) :
    BitVec.ofNat 2 (hashSize b - 1) ++ BitVec.ofNat 6 (hashCount b) = b := by
  revert b
  decide

/-! ## What the parser accepts -/

variable {codes raw : List Byte} {p : Nat} {pkt : Packet}

theorem readTransportCodes_append {header : Byte} (rest : List Byte)
    (hcodes : codes.length = transportSize header) : ∃ read : BitVec 16 × BitVec 16,
      readTransportCodes (RouteType.ofCode (header.setWidth 2)) (codes ++ rest) =
          some (read, rest) ∧
        (if (RouteType.ofCode (header.setWidth 2)).hasTransportCodes then
          wrLe16 read.1 ++ wrLe16 read.2 else []) = codes := by
  unfold transportSize at hcodes
  unfold readTransportCodes
  split at hcodes
  next hroute =>
    obtain ⟨a, b, c, d, rfl⟩ : ∃ a b c d, codes = [a, b, c, d] := by
      match codes, hcodes with
      | [a, b, c, d], _ => exact ⟨a, b, c, d, rfl⟩
    refine ⟨(rdLe16 [a, b], rdLe16 [c, d]), ?_, ?_⟩
    · simp [hroute, rdLe16]
    · simp [hroute, wrLe16_rdLe16]
  next hroute =>
    rw [length_eq_zero_iff] at hcodes
    subst hcodes
    exact ⟨(0, 0), by simp [hroute], by simp [hroute]⟩

theorem transportSize_of_read {header : Byte} {p rest : List Byte} {read : BitVec 16 × BitVec 16}
    (h : readTransportCodes (RouteType.ofCode (header.setWidth 2)) p = some (read, rest)) :
    ∃ codes, p = codes ++ rest ∧ codes.length = transportSize header := by
  unfold readTransportCodes at h
  unfold transportSize
  split at h
  next hroute =>
    split at h
    next => cases h
    next hlen =>
      cases h
      exact ⟨p.take 4, (take_append_drop 4 p).symm, by simp [hroute]; omega⟩
  next hroute =>
    cases h
    exact ⟨[], rfl, by simp [hroute]⟩

/-- **Completeness.** A frame of the grammar is accepted, with all its parts. -/
theorem parse_of_parts {header : Byte} {pathLenByte : Byte} {path : List Byte} (payload : List Byte)
    (hcodes : codes.length = transportSize header) (hsize : hashSize pathLenByte ≤ 3)
    (hpath : path.length = hashCount pathLenByte * hashSize pathLenByte)
    (hcap : hashCount pathLenByte * hashSize pathLenByte ≤ maxPathSize) :
    ∃ pkt, meshcorePacketParse (header :: codes ++ pathLenByte :: path ++ payload) = some pkt ∧
      pkt.headerByte = header ∧ pkt.transportBytes = codes ∧ pkt.pathLenByte = pathLenByte ∧
      pkt.path = path ∧ pkt.payload = payload.take maxPacketPayload := by
  obtain ⟨read, hread, hwrite⟩ :=
    readTransportCodes_append (pathLenByte :: (path ++ payload)) hcodes
  have htwo : ¬(header :: (codes ++ pathLenByte :: (path ++ payload))).length < 2 := by
    simp only [length_cons, length_append]
    omega
  have hfits : ¬(path ++ payload).length < hashCount pathLenByte * hashSize pathLenByte := by
    rw [length_append]
    omega
  have hrange : ¬(hashSize pathLenByte < 1 ∨ 3 < hashSize pathLenByte) := by
    have hpos : 1 ≤ hashSize pathLenByte := Nat.le_add_left 1 _
    omega
  rw [cons_append, cons_append, append_assoc, cons_append]
  unfold meshcorePacketParse
  rw [if_neg htwo]
  simp only [getD_cons_zero, List.drop_one, tail_cons, hread, bind_some]
  refine ⟨_, (if_neg hrange).trans ((dif_neg (not_lt.mpr hcap)).trans (dif_neg hfits)),
    ?_, ?_, ?_, ?_, ?_⟩
  · simp only [Packet.headerByte, RouteType.code_ofCode, PayloadType.code_ofCode, headerByte_bits]
  · exact hwrite
  · exact pathLenByte_bits pathLenByte
  · exact take_left' hpath
  · exact congrArg (List.take maxPacketPayload) (drop_left' hpath)

/-- **Soundness.** What the parser accepts is a frame of the grammar. -/
theorem isFrame_of_parse (h : meshcorePacketParse raw = some pkt) : IsFrame raw := by
  unfold meshcorePacketParse at h
  split at h
  next => cases h
  next hlen =>
    obtain ⟨header, p, rfl⟩ : ∃ header p, raw = header :: p := by
      match raw, hlen with
      | header :: p, _ => exact ⟨header, p, rfl⟩
      | [], hlen => exact absurd (by simp) hlen
    obtain ⟨⟨read, rest⟩, hread, hpath⟩ := bind_eq_some_iff.mp h
    obtain ⟨codes, hp, hcodes⟩ := transportSize_of_read hread
    obtain rfl : p = codes ++ rest := hp
    cases rest with
    | nil => cases hpath
    | cons pathLenByte rest =>
      dsimp only at hpath
      split at hpath
      next => cases hpath
      next hsize =>
        split at hpath
        next => cases hpath
        next hcap =>
          split at hpath
          next => cases hpath
          next hfits =>
            have hframe := IsFrame.mk header codes pathLenByte
              (rest.take (hashCount pathLenByte * hashSize pathLenByte))
              (rest.drop (hashCount pathLenByte * hashSize pathLenByte)) hcodes
              (by rw [not_or] at hsize; exact ⟨not_lt.mp hsize.1, not_lt.mp hsize.2⟩)
              (length_take_of_le (not_lt.mp hfits)) (not_lt.mp hcap)
            rwa [append_assoc, cons_append, cons_append, take_append_drop] at hframe

theorem meshcorePacketParse_isSome_iff (raw : List Byte) :
    (meshcorePacketParse raw).isSome ↔ IsFrame raw := by
  constructor
  · intro h
    obtain ⟨pkt, hpkt⟩ := isSome_iff_exists.mp h
    exact isFrame_of_parse hpkt
  · rintro ⟨header, codes, pathLenByte, path, payload, hcodes, hsize, hpath, hcap⟩
    obtain ⟨pkt, hpkt, -⟩ := parse_of_parts payload hcodes hsize.2 hpath hcap
    rw [hpkt]
    rfl

theorem serialize_of_parse (h : meshcorePacketParse raw = some pkt) :
    ∃ cut, raw = pkt.serialize ++ cut ∧ (cut ≠ [] → pkt.payload.length = maxPacketPayload) := by
  obtain ⟨header, codes, pathLenByte, path, payload, hcodes, hsize, hpath, hcap⟩ :=
    isFrame_of_parse h
  obtain ⟨pkt', hpkt', hheader, htransport, hlenByte, hpath', hpayload⟩ :=
    parse_of_parts payload hcodes hsize.2 hpath hcap
  obtain rfl : pkt' = pkt := some.inj (hpkt'.symm.trans h)
  refine ⟨payload.drop maxPacketPayload, ?_, ?_⟩
  · have hjoin := take_append_drop maxPacketPayload payload
    rw [Packet.serialize, hheader, htransport, hlenByte, hpath', hpayload,
      append_assoc _ (payload.take maxPacketPayload), hjoin]
  · intro hcut
    rw [hpayload, length_take]
    have hlong : maxPacketPayload < payload.length := by
      by_contra hshort
      exact hcut (drop_eq_nil_of_le (not_lt.mp hshort))
    omega

/-! ## Reading by cursor -/

/-- The frame is rejected, or a byte behind the end of the input was read. -/
inductive ParseError where
  | rejected
  | outOfBounds
  deriving DecidableEq

def readAt (raw : List Byte) (p : Nat) : Except ParseError Byte :=
  match raw[p]? with
  | some b => .ok b
  | none => .error .outOfBounds

def copyAt (raw : List Byte) (p n : Nat) : Except ParseError { bs : List Byte // bs.length = n } :=
  if h : p + n ≤ raw.length then
    .ok ⟨(raw.drop p).take n, by rw [List.length_take, List.length_drop]; omega⟩
  else .error .outOfBounds

def readLe16At (raw : List Byte) (p : Nat) : Except ParseError (BitVec 16) := do
  let lo ← readAt raw p
  let hi ← readAt raw (p + 1)
  return lo.setWidth 16 ||| (hi.setWidth 16 <<< 8)

def readCodesAt (raw : List Byte) (route : RouteType) :
    Except ParseError ((BitVec 16 × BitVec 16) × Nat) :=
  if route.hasTransportCodes then
    if raw.length - 1 < 4 then .error .rejected
    else do
      let code1 ← readLe16At raw 1
      let code2 ← readLe16At raw 3
      return ((code1, code2), 5)
  else return ((0, 0), 1)

/-- Every read goes through the bounds of the input. -/
def meshcorePacketParseAt (raw : List Byte) : Except ParseError Packet :=
  if raw.length < 2 then .error .rejected
  else do
    let header ← readAt raw 0
    let route := RouteType.ofCode (header.setWidth 2)
    let (codes, p) ← readCodesAt raw route
    if raw.length ≤ p then .error .rejected
    else
      let pathLenByte ← readAt raw p
      let p := p + 1
      let count := (pathLenByte &&& 0x3F).toNat
      let size := (pathLenByte >>> 6).toNat + 1
      if size < 1 ∨ 3 < size then .error .rejected
      else if hcap : maxPathSize < count * size then .error .rejected
      else if raw.length - p < count * size then .error .rejected
      else
        let path ← copyAt raw p (count * size)
        let p := p + count * size
        let payload ← copyAt raw p (min (raw.length - p) maxPacketPayload)
        return {
          routeType := route
          payloadType := PayloadType.ofCode ((header >>> 2).setWidth 4)
          payloadVer := (header >>> 6).setWidth 2
          transportCode1 := codes.1
          transportCode2 := codes.2
          pathHashCount := count
          pathHashSize := size
          path := path.1
          payload := payload.1
          path_length := path.2
          path_le := path.2.le.trans (not_lt.mp hcap)
          payload_le := payload.2.le.trans (Nat.min_le_right _ _) }

theorem readAt_of_lt (h : p < raw.length) : readAt raw p = .ok (raw.getD p 0) := by
  simp [readAt, h]

theorem copyAt_of_le {n : Nat} (h : p + n ≤ raw.length) : copyAt raw p n =
      .ok ⟨(raw.drop p).take n, by rw [length_take, length_drop]; omega⟩ := by
  rw [copyAt, dif_pos h]

theorem readLe16At_of_lt (h : p + 1 < raw.length) :
    readLe16At raw p = .ok (rdLe16 (raw.drop p)) := by
  rw [readLe16At, readAt_of_lt (by omega), readAt_of_lt h]
  simp [rdLe16, pure, Except.pure, bind, Except.bind, getD_eq_getElem?_getD]

theorem readCodesAt_eq (route : RouteType) (hlen : 1 ≤ raw.length) :
    match readTransportCodes route (raw.drop 1) with
    | none => readCodesAt raw route = .error .rejected
    | some (codes, rest) =>
      ∃ p, readCodesAt raw route = .ok (codes, p) ∧ rest = raw.drop p ∧ p ≤ raw.length := by
  unfold readTransportCodes readCodesAt
  by_cases hroute : route.hasTransportCodes
  · rw [if_pos hroute, if_pos hroute]
    by_cases hshort : (raw.drop 1).length < 4
    · rw [if_pos hshort]
      rw [length_drop] at hshort
      rw [if_pos hshort]
    · rw [if_neg hshort]
      rw [length_drop] at hshort
      rw [if_neg hshort, readLe16At_of_lt (by omega), readLe16At_of_lt (by omega)]
      refine ⟨5, ?_, ?_, by omega⟩
      · simp [pure, Except.pure, bind, Except.bind]
      · rw [drop_drop]
  · rw [if_neg hroute, if_neg hroute]
    exact ⟨1, rfl, rfl, hlen⟩

/-- **Refinement.** The parser by cursor never reads behind the input. -/
theorem meshcorePacketParseAt_eq (raw : List Byte) :
    meshcorePacketParseAt raw =
      match meshcorePacketParse raw with
      | some pkt => .ok pkt
      | none => .error .rejected := by
  unfold meshcorePacketParseAt meshcorePacketParse
  by_cases hlen : raw.length < 2
  · rw [if_pos hlen, if_pos hlen]
  rw [if_neg hlen, if_neg hlen, readAt_of_lt (by omega)]
  simp only [bind, Except.bind]
  have hcodes := readCodesAt_eq (RouteType.ofCode ((raw.getD 0 0).setWidth 2))
    (show 1 ≤ raw.length by omega)
  cases hread : readTransportCodes (RouteType.ofCode ((raw.getD 0 0).setWidth 2)) (raw.drop 1) with
  | none =>
    rw [hread] at hcodes
    simp only [hcodes, bind_none]
  | some found =>
    obtain ⟨codes, rest⟩ := found
    rw [hread] at hcodes
    obtain ⟨p, hcursor, rfl, hp⟩ := hcodes
    simp only [hcursor, bind_some]
    by_cases hend : raw.length ≤ p
    · rw [if_pos hend, drop_eq_nil_of_le hend]
    · have hdrop : raw.drop p = raw.getD p 0 :: raw.drop (p + 1) := by
        rw [drop_eq_getElem_cons (not_le.mp hend), getD_eq_getElem _ _ (not_le.mp hend)]
      rw [if_neg hend, readAt_of_lt (not_le.mp hend), hdrop]
      generalize raw.getD p 0 = pathLenByte
      dsimp only
      by_cases hsize : (pathLenByte >>> 6).toNat + 1 < 1 ∨ 3 < (pathLenByte >>> 6).toNat + 1
      · rw [if_pos hsize, if_pos hsize]
      rw [if_neg hsize, if_neg hsize]
      by_cases hcap : maxPathSize < (pathLenByte &&& 0x3F).toNat * ((pathLenByte >>> 6).toNat + 1)
      · rw [dif_pos hcap, dif_pos hcap]
      rw [dif_neg hcap, dif_neg hcap]
      have hleft : (raw.drop (p + 1)).length = raw.length - (p + 1) := length_drop
      by_cases hfits :
          raw.length - (p + 1) < (pathLenByte &&& 0x3F).toNat * ((pathLenByte >>> 6).toNat + 1)
      · rw [if_pos hfits, dif_pos (hleft ▸ hfits)]
      rw [if_neg hfits, dif_neg (hleft ▸ hfits), copyAt_of_le (by omega), copyAt_of_le (by omega)]
      -- the cut of the payload is the smaller of what is left and the buffer
      simp only [pure, Except.pure, drop_drop, Except.ok.injEq, Packet.mk.injEq, true_and]
      rw [← length_drop, ← take_take]
      exact take_of_length_le (length_take_le' _ _)

/-- **The parser and the grammar.** An input is accepted exactly when it is a frame of the grammar;
it is then its packet written out, less what was cut off behind a payload of 184 bytes; and the
parse by cursor gives the same answer without a read behind the end. -/
theorem packetParse_meets_grammar (raw : List Byte) :
    ((meshcorePacketParse raw).isSome ↔ IsFrame raw) ∧
      (∀ pkt, meshcorePacketParse raw = some pkt →
        ∃ cut, raw = pkt.serialize ++ cut ∧
          (cut ≠ [] → pkt.payload.length = maxPacketPayload)) ∧
      (∀ pkt, meshcorePacketParseAt raw = .ok pkt ↔ meshcorePacketParse raw = some pkt) ∧
      meshcorePacketParseAt raw ≠ .error .outOfBounds := by
  refine ⟨meshcorePacketParse_isSome_iff raw, fun pkt => serialize_of_parse, ?_, ?_⟩
  · intro pkt
    rw [meshcorePacketParseAt_eq]
    cases meshcorePacketParse raw <;> simp
  · rw [meshcorePacketParseAt_eq]
    cases meshcorePacketParse raw <;> simp

theorem packetParse_meets_grammar_ack : IsFrame [0x0D, 0x00, 0xEF, 0xBE, 0xAD, 0xDE] :=
  (packetParse_meets_grammar [0x0D, 0x00, 0xEF, 0xBE, 0xAD, 0xDE]).1.mp (by decide)

end MeshcoreSniffer.Meshcore
