import MeshcoreSniffer.Lora.Encoder

/-!
# Receiving what was sent

A hard-decision decoder is fed the bins of a `TxFrame`: exactly one frame is delivered, the payload
followed by as much of the trailer as fits into 256 bytes (`frameBytes_eq`).
-/

namespace MeshcoreSniffer.Lora

open Lib List

/-! ## Joining nibbles -/

variable {bytes : List Byte} {obs : List Obs}

theorem push_low (nib : Byte) (hroom : bytes.length < maxPayloadBytes) :
    Packer.push ⟨bytes, none⟩ nib = ⟨bytes, some nib⟩ := by
  simp [Packer.push, hroom]

theorem push_high (lo hi : Nibble) (hroom : bytes.length < maxPayloadBytes) :
    Packer.push ⟨bytes, some (TxFrame.widen lo)⟩ (TxFrame.widen hi) =
      ⟨bytes ++ [joinNibbles lo hi], none⟩ := by
  have hlow : ∀ n : Nibble, TxFrame.widen n &&& 0x0f#8 = TxFrame.widen n := by decide
  simp only [Packer.push, hroom, if_true, hlow]
  rfl

theorem push_full {pendingLo : Option Byte} (nib : Byte) (hfull : ¬ bytes.length < maxPayloadBytes) :
    Packer.push ⟨bytes, pendingLo⟩ nib = ⟨bytes, pendingLo⟩ := by
  simp [Packer.push, hfull]

theorem foldl_push_bytes (ns : List Nibble) (bytes : List Byte)
    (hlen : bytes.length ≤ maxPayloadBytes) :
    ((ns.map TxFrame.widen).foldl Packer.push ⟨bytes, none⟩).bytes =
      bytes ++ (pairUp ns).take (maxPayloadBytes - bytes.length) := by
  fun_induction pairUp ns generalizing bytes with
  | case1 lo hi rest ih =>
    rw [map_cons, map_cons, foldl_cons, foldl_cons]
    by_cases hroom : bytes.length < maxPayloadBytes
    · rw [push_low _ hroom, push_high _ _ hroom, ih _ (by simpa using hroom)]
      have hsucc : maxPayloadBytes - bytes.length =
          maxPayloadBytes - (bytes ++ [joinNibbles lo hi]).length + 1 := by
        simp only [length_append, length_singleton]
        omega
      rw [hsucc, take_succ_cons, append_assoc, singleton_append]
    · rw [push_full _ hroom, push_full _ hroom, ih _ hlen,
        show maxPayloadBytes - bytes.length = 0 by omega, take_zero, take_zero]
  | case2 ns hshort =>
    match ns, hshort with
    | [], _ => simp
    | [n], _ =>
      rw [map_cons, map_nil, foldl_cons, foldl_nil]
      by_cases hroom : bytes.length < maxPayloadBytes
      · simp [push_low _ hroom]
      · simp [push_full _ hroom]
    | lo :: hi :: rest, hshort => exact absurd rfl (hshort lo hi rest)

theorem foldl_push_mask (ns : List Nibble) (p : Packer) :
    (ns.map TxFrame.widen).foldl (fun (p : Packer) (nib : Byte) => p.push (nib &&& 0x0f#8)) p =
      (ns.map TxFrame.widen).foldl Packer.push p := by
  have hlow : ∀ n : Nibble, TxFrame.widen n &&& 0x0f#8 = TxFrame.widen n := by decide
  rw [foldl_map, foldl_map]
  simp only [hlow]

/-! ## The header symbols -/

structure SameSettings (d₀ d : Decoder) : Prop where
  sf : d.sf = d₀.sf
  bwHz : d.bwHz = d₀.bwHz
  hard : d.softDecoding = false
  bin : d.preambleBin = 0
  one : d.crcBruteforce = d₀.crcBruteforce
  two : d.crcBruteforce2bit = d₀.crcBruteforce2bit

/-- A decoder that has read the downchirps and the header symbols `vals`. -/
structure HeaderAt (d₀ : Decoder) (vals : List (BitVec 16)) (d : Decoder) : Prop
    extends SameSettings d₀ d where
  state : d.state = .header
  idx : d.headerIdx = 2 + vals.length
  syms : d.headerSyms = vals

/-- Hard decisions, both downchirps read, no header symbol yet. -/
structure Decoder.AtHeaderStart (d : Decoder) : Prop where
  hard : d.softDecoding = false
  state : d.state = .header
  idx : d.headerIdx = 2
  bin : d.preambleBin = 0
  syms : d.headerSyms = []

theorem Decoder.Reached.atHeaderStart {d : Decoder} (h : d.Reached) (hard : d.softDecoding = false)
    (hstate : d.state = .header) (hidx : d.headerIdx = 2) : d.AtHeaderStart :=
  { hard := hard
    state := hstate
    idx := hidx
    bin := h.inv.aligned (Or.inl hstate)
    syms := h.inv.header_start hstate (by omega) }

variable {d₀ d : Decoder} {vals : List (BitVec 16)}

theorem Decoder.AtHeaderStart.headerAt (h : d.AtHeaderStart) : HeaderAt d [] d :=
  { sf := rfl, bwHz := rfl, hard := h.hard, bin := h.bin, one := rfl, two := rfl
    state := h.state, idx := h.idx, syms := h.syms }

theorem HeaderAt.accumulateSnr (h : HeaderAt d₀ vals d) (o : Obs) :
    HeaderAt d₀ vals (d.accumulateSnr o) := by
  unfold Decoder.accumulateSnr
  split
  next => exact ⟨⟨h.sf, h.bwHz, h.hard, h.bin, h.one, h.two⟩, h.state, h.idx, h.syms⟩
  next => exact h

theorem HeaderAt.applyDrift (h : HeaderAt d₀ vals d) (o : Obs) :
    HeaderAt d₀ vals (d.applyDrift o) := by
  unfold Decoder.applyDrift
  split
  next => exact ⟨⟨h.sf, h.bwHz, h.hard, h.bin, h.one, h.two⟩, h.state, h.idx, h.syms⟩
  next => exact h

theorem HeaderAt.pushHeaderSymbol (h : HeaderAt d₀ vals d) (hlt : vals.length < 8) (o : Obs) :
    HeaderAt d₀ (vals ++ [demodValue d₀.sf 0 true o.sym]) (d.pushHeaderSymbol o) := by
  have hidx := h.idx
  unfold Decoder.pushHeaderSymbol
  rw [if_pos (by omega), if_neg (by simp [h.hard])]
  exact
    { sf := h.sf, bwHz := h.bwHz, hard := h.hard, bin := h.bin, one := h.one, two := h.two
      state := h.state
      idx := by
        simp only [length_append, length_singleton]
        omega
      syms := by simp only [h.syms, h.sf, h.bin] }

theorem HeaderAt.tickState_eq (h : HeaderAt d₀ vals d) (o : Obs) :
    tickState d o =
      if (d.pushHeaderSymbol o).headerIdx = 2 + 8 then decodeHeader (d.pushHeaderSymbol o)
      else (d.pushHeaderSymbol o, []) := by
  have hidx := h.idx
  simp only [tickState, h.state, tickHeader]
  rw [if_neg (by omega)]

theorem HeaderAt.tick (h : HeaderAt d₀ vals d) (hlt : vals.length < 7) (o : Obs) :
    HeaderAt d₀ (vals ++ [demodValue d₀.sf 0 true o.sym]) (stateTick d o).1 ∧
      (stateTick d o).2 = [] := by
  have hpush := (h.accumulateSnr o).pushHeaderSymbol (by omega) o
  have hidx := hpush.idx
  simp only [length_append, length_singleton] at hidx
  have hnot : ¬ ((d.accumulateSnr o).pushHeaderSymbol o).headerIdx = 2 + 8 := by omega
  simp only [stateTick, (h.accumulateSnr o).tickState_eq, if_neg hnot]
  exact ⟨hpush.applyDrift o, trivial⟩

theorem HeaderAt.run (h : HeaderAt d₀ vals d) (hlt : vals.length + obs.length < 8) :
    HeaderAt d₀ (vals ++ obs.map fun o => demodValue d₀.sf 0 true o.sym)
        (Mealy.run stateTick d obs).1 ∧
      (Mealy.run stateTick d obs).2 = [] := by
  induction obs generalizing vals d with
  | nil => simpa [Mealy.run] using h
  | cons o obs ih =>
    simp only [length_cons] at hlt
    obtain ⟨hnext, hnone⟩ := h.tick (by omega) o
    obtain ⟨hrest, hnone'⟩ := ih hnext (by simp only [length_append, length_singleton]; omega)
    refine ⟨?_, by simp [Mealy.run, hnone, hnone']⟩
    simpa [Mealy.run] using hrest

theorem HeaderAt.tick_last (h : HeaderAt d₀ vals d) (hlast : vals.length = 7) (o : Obs) :
    ∃ d', HeaderAt d₀ (vals ++ [demodValue d₀.sf 0 true o.sym]) d' ∧
      stateTick d o = ((decodeHeader d').1.applyDrift o, (decodeHeader d').2) := by
  have hpush := (h.accumulateSnr o).pushHeaderSymbol (by omega) o
  have hidx := hpush.idx
  simp only [length_append, length_singleton] at hidx
  refine ⟨_, hpush, ?_⟩
  simp only [stateTick, (h.accumulateSnr o).tickState_eq]
  rw [if_pos (by omega)]

/-! ## The payload symbols -/

/-- A decoder that has read the header of `tx` and the payload symbols `vals`. -/
structure PayloadAt (d₀ : Decoder) (tx : TxFrame) (vals : List (BitVec 16)) (d : Decoder) : Prop
    extends SameSettings d₀ d where
  state : d.state = .payload
  len : d.payloadLen = tx.payload.length
  crc : d.payloadHasCrc = tx.hasCrc
  cr : d.payloadCr = tx.cr
  ldro : d.payloadLdro = tx.ldro
  leftover : d.hdrLeftover = ((tx.headerBlock.map TxFrame.widen).take (tx.sf - 2)).drop 5
  target : d.payloadSymTarget = tx.payloadSymbols.length
  syms : d.payloadSyms = vals
  count : d.payloadSymCount = vals.length

variable {tx : TxFrame}

/-- The header of `tx` is read as it was sent. -/
theorem HeaderAt.decodeHeader_eq (h : HeaderAt d₀ (encodeBlock (tx.sf - 2) 8 tx.headerBlock) d)
    (hsf : d₀.sf = tx.sf) (hldro : ldroOf d₀.sf d₀.bwHz = tx.ldro) :
    ∃ d', PayloadAt d₀ tx [] d' ∧
      decodeHeader d = if tx.payloadSymbols = [] then deliverEmpty d' else (d', []) := by
  have hlo := tx.sf_lo
  have happ : d.sfAppHeader = tx.sf - 2 := by
    rw [Decoder.sfAppHeader, h.sf, hsf, if_neg (by omega)]
  have hnibbles : d.headerNibbles = tx.headerBlock.map TxFrame.widen := by
    rw [Decoder.headerNibbles, if_neg (by simp [h.hard]), h.syms, happ, tx.decode_headerBlock]
  have hparse := tx.parseHeader_headerBlock
  have hldro' : ldroOf d.sf d.bwHz = tx.ldro := by rw [h.sf, h.bwHz, hldro]
  have htarget : min maxPayloadSymbols
      (payloadSymbolCount d.sf tx.ldro tx.hasCrc tx.payload.length tx.cr) =
        tx.payloadSymbols.length := by
    rw [h.sf, hsf, tx.payloadSymbolCount_eq, min_eq_right tx.length_payloadSymbols_le]
  set d' := (d.setHeader (parseHeader d.headerNibbles)).startPayload d.headerNibbles with hd'
  have hat : PayloadAt d₀ tx [] d' := by
    rw [hd', hnibbles, hparse]
    exact
      { sf := h.sf, bwHz := h.bwHz, hard := h.hard, bin := h.bin, one := h.one, two := h.two
        state := rfl, len := rfl, crc := rfl, cr := rfl
        ldro := hldro'
        leftover := by
          show ((tx.headerBlock.map TxFrame.widen).take d.sfAppHeader).drop 5 = _
          rw [happ]
        target := by
          show min maxPayloadSymbols (payloadSymbolCount d.sf (ldroOf d.sf d.bwHz) _ _ _) = _
          rw [hldro']
          exact htarget
        syms := rfl
        count := rfl }
  refine ⟨d', hat, ?_⟩
  have hok : (d.setHeader (parseHeader d.headerNibbles)).frameMeta.headerCrcOk = true := by
    rw [hnibbles, hparse]
    have := tx.len_lo
    simp only [Decoder.setHeader, Bool.true_and, decide_eq_true_eq]
    omega
  have hzero : d'.payloadSymTarget = 0 ↔ tx.payloadSymbols = [] := by
    rw [hat.target, length_eq_zero_iff]
  unfold decodeHeader
  simp only [hok, Bool.not_true, Bool.false_eq_true, if_false]
  exact if_congr hzero rfl rfl

theorem PayloadAt.accumulateSnr (h : PayloadAt d₀ tx vals d) (o : Obs) :
    PayloadAt d₀ tx vals (d.accumulateSnr o) := by
  unfold Decoder.accumulateSnr
  split
  next =>
    exact ⟨⟨h.sf, h.bwHz, h.hard, h.bin, h.one, h.two⟩, h.state, h.len, h.crc, h.cr, h.ldro,
      h.leftover, h.target, h.syms, h.count⟩
  next => exact h

theorem PayloadAt.applyDrift (h : PayloadAt d₀ tx vals d) (o : Obs) :
    PayloadAt d₀ tx vals (d.applyDrift o) := by
  unfold Decoder.applyDrift
  split
  next =>
    exact ⟨⟨h.sf, h.bwHz, h.hard, h.bin, h.one, h.two⟩, h.state, h.len, h.crc, h.cr, h.ldro,
      h.leftover, h.target, h.syms, h.count⟩
  next => exact h

theorem PayloadAt.pushPayloadSymbol (h : PayloadAt d₀ tx vals d)
    (hlt : vals.length < maxPayloadSymbols) (o : Obs) :
    PayloadAt d₀ tx (vals ++ [demodValue d₀.sf 0 tx.ldro o.sym]) (d.pushPayloadSymbol o) := by
  unfold Decoder.pushPayloadSymbol
  rw [if_pos (by rw [h.count]; exact hlt), if_neg (by simp [h.hard])]
  exact
    { sf := h.sf, bwHz := h.bwHz, hard := h.hard, bin := h.bin, one := h.one, two := h.two
      state := h.state, len := h.len, crc := h.crc, cr := h.cr, ldro := h.ldro
      leftover := h.leftover, target := h.target
      syms := by simp only [h.syms, h.sf, h.bin, h.ldro]
      count := by simp only [h.count, length_append, length_singleton] }

theorem PayloadAt.tickState_eq (h : PayloadAt d₀ tx vals d) (o : Obs) :
    tickState d o =
      if (d.pushPayloadSymbol o).payloadSymTarget ≤ (d.pushPayloadSymbol o).payloadSymCount then
        deliver (d.pushPayloadSymbol o)
      else (d.pushPayloadSymbol o, []) := by
  simp only [tickState, h.state, tickPayload]

theorem PayloadAt.tick (h : PayloadAt d₀ tx vals d)
    (hlt : vals.length + 1 < tx.payloadSymbols.length) (o : Obs) :
    PayloadAt d₀ tx (vals ++ [demodValue d₀.sf 0 tx.ldro o.sym]) (stateTick d o).1 ∧
      (stateTick d o).2 = [] := by
  have hcap := tx.length_payloadSymbols_le
  have hpush := (h.accumulateSnr o).pushPayloadSymbol (by omega) o
  have hnot : ¬ ((d.accumulateSnr o).pushPayloadSymbol o).payloadSymTarget ≤
      ((d.accumulateSnr o).pushPayloadSymbol o).payloadSymCount := by
    rw [hpush.target, hpush.count, length_append, length_singleton]
    omega
  simp only [stateTick, (h.accumulateSnr o).tickState_eq, if_neg hnot]
  exact ⟨hpush.applyDrift o, trivial⟩

theorem PayloadAt.tick_last (h : PayloadAt d₀ tx vals d)
    (hlast : vals.length + 1 = tx.payloadSymbols.length) (o : Obs) :
    ∃ d', PayloadAt d₀ tx (vals ++ [demodValue d₀.sf 0 tx.ldro o.sym]) d' ∧
      (stateTick d o).2 = (deliver d').2 := by
  have hcap := tx.length_payloadSymbols_le
  have hpush := (h.accumulateSnr o).pushPayloadSymbol (by omega) o
  refine ⟨_, hpush, ?_⟩
  have hdone : ((d.accumulateSnr o).pushPayloadSymbol o).payloadSymTarget ≤
      ((d.accumulateSnr o).pushPayloadSymbol o).payloadSymCount := by
    rw [hpush.target, hpush.count, length_append, length_singleton]
    omega
  simp only [stateTick, (h.accumulateSnr o).tickState_eq, if_pos hdone]

theorem PayloadAt.run (h : PayloadAt d₀ tx vals d) (hne : obs ≠ [])
    (hlen : vals.length + obs.length = tx.payloadSymbols.length) :
    ∃ d', PayloadAt d₀ tx (vals ++ obs.map fun o => demodValue d₀.sf 0 tx.ldro o.sym) d' ∧
      (Mealy.run stateTick d obs).2 = (deliver d').2 := by
  induction obs generalizing vals d with
  | nil => exact absurd rfl hne
  | cons o obs ih =>
    simp only [length_cons] at hlen
    cases obs with
    | nil =>
      obtain ⟨d', hd', hevents⟩ := h.tick_last (by simpa using hlen) o
      exact ⟨d', by simpa using hd', by simp [Mealy.run, hevents]⟩
    | cons o' obs =>
      simp only [length_cons] at hlen
      obtain ⟨hnext, hnone⟩ := h.tick (by omega) o
      obtain ⟨d', hd', hevents⟩ := ih hnext (by simp) (by
        simp only [length_append, length_cons, length_nil]
        omega)
      refine ⟨d', by simpa using hd', ?_⟩
      rw [Mealy.run, hnone, hevents, nil_append]

/-! ## The delivered buffer -/

theorem PayloadAt.payloadBytes_eq (h : PayloadAt d₀ tx tx.payloadSymbols d) (hsf : d₀.sf = tx.sf)
    (hne : tx.payloadSymbols ≠ []) :
    ∃ padding, d.payloadBytes = (tx.wire ++ padding).take maxPayloadBytes := by
  have hcr := tx.cr_lo
  have hroom : tx.sf - 7 ≤ tx.nibbles.length := by
    rw [Ne, tx.payloadSymbols_eq_nil_iff] at hne
    omega
  have hblocks : d.payloadSymCount / d.payloadCr = tx.payloadBlocks.length := by
    rw [h.count, h.cr, TxFrame.payloadSymbols,
      length_flatMap_of_length (fun b _ => length_encodeBlock tx.sfApp tx.cr b),
      Nat.mul_div_cancel _ (by omega)]
  have happ : d.sfAppPayload = tx.sfApp := by
    rw [Decoder.sfAppPayload, h.ldro, h.sf, hsf, TxFrame.sfApp]
  have hblock : ∀ b ∈ range tx.payloadBlocks.length,
      d.payloadBlock (b * d.payloadCr) = (tx.payloadBlocks.getD b []).map TxFrame.widen := by
    intro b hb
    have hb' := mem_range.mp hb
    rw [Decoder.payloadBlock, if_neg (by simp [h.hard]), h.syms, h.cr, happ,
      tx.decode_payloadBlock hb']
    simp [hb']
  have hstream : (tx.nibbles.take (tx.sf - 7)).map TxFrame.widen ++
      ((range tx.payloadBlocks.length).flatMap fun b => d.payloadBlock (b * d.payloadCr)) =
        (padTo (tx.sf - 7 + blockCount tx.sfApp (tx.nibbles.length - (tx.sf - 7)) * tx.sfApp)
          0#4 tx.nibbles).map TxFrame.widen := by
    rw [flatMap_congr hblock, range_flatMap_getD (map TxFrame.widen),
      ← map_flatMap, flatMap_id', ← map_append, TxFrame.payloadBlocks,
      flatten_blocks _ _ tx.sfApp_pos, padTo, ← append_assoc, take_append_drop,
      length_drop, padTo]
    congr 3
    omega
  refine ⟨pairUp (replicate (tx.sf - 7 +
    blockCount tx.sfApp (tx.nibbles.length - (tx.sf - 7)) * tx.sfApp - tx.nibbles.length) 0#4), ?_⟩
  unfold Decoder.payloadBytes
  dsimp only
  rw [h.leftover, tx.leftover_headerBlock hroom, foldl_push_mask, hblocks, ← foldl_flatMap,
    ← foldl_append, hstream, foldl_push_bytes _ [] (by simp), padTo, TxFrame.nibbles,
    pairUp_flatMap_append]
  rfl

theorem PayloadAt.frameBytes_eq (h : PayloadAt d₀ tx tx.payloadSymbols d) (hsf : d₀.sf = tx.sf)
    (hne : tx.payloadSymbols ≠ []) :
    d.frameBytes = tx.payload ++ tx.trailer.take (maxPayloadBytes - tx.payload.length) := by
  have hlen := tx.len_hi
  have hmax : maxPayloadBytes = 256 := rfl
  obtain ⟨padding, hbytes⟩ := h.payloadBytes_eq hsf hne
  have htotal : d.payloadLen + (if d.payloadHasCrc then 2 else 0) = tx.wire.length := by
    rw [h.len, h.crc, tx.length_wire]
  have hcut : d.payloadBytes.take tx.wire.length =
      loraDewhiten tx.payload tx.payload.length ++
        tx.trailer.take (maxPayloadBytes - tx.payload.length) := by
    rw [hbytes, take_take, Nat.min_comm, ← take_take, take_left' rfl, TxFrame.wire,
      take_append, length_loraDewhiten, take_of_length_le (by simp; omega)]
  have hroom : ¬ tx.payload.length >
      (loraDewhiten tx.payload tx.payload.length ++
        tx.trailer.take (maxPayloadBytes - tx.payload.length)).length := by
    rw [length_append, length_loraDewhiten]
    omega
  unfold Decoder.frameBytes
  dsimp only
  rw [htotal, hcut, h.len, if_neg hroom, loraDewhiten_append _ _ (by simp),
    loraDewhiten_loraDewhiten]

/-- **One frame per transmission.** A decoder at the start of a header delivers exactly one frame.
-/
theorem run_frame (hd : d.AtHeaderStart) (hsf : d.sf = tx.sf) (hldro : ldroOf d.sf d.bwHz = tx.ldro)
    (hobs : obs.map Obs.sym = tx.headerBins ++ tx.payloadBins) :
    (tx.payloadSymbols = [] → ∃ d', PayloadAt d tx [] d' ∧
      (Mealy.run stateTick d obs).2 = (deliverEmpty d').2) ∧
    (tx.payloadSymbols ≠ [] → ∃ d', PayloadAt d tx tx.payloadSymbols d' ∧
      (Mealy.run stateTick d obs).2 = (deliver d').2) := by
  obtain ⟨hdr, pay, rfl, hhdr, hpay⟩ := map_eq_append_iff.mp hobs
  have hhdrLen : hdr.length = 8 := by
    rw [← length_map (f := Obs.sym), hhdr, tx.length_headerBins]
  obtain ⟨first, last, rfl⟩ : ∃ first last, hdr = first ++ [last] := by
    rcases eq_nil_or_concat hdr with rfl | ⟨first, last, rfl⟩
    · simp at hhdrLen
    · exact ⟨first, last, by simp⟩
  have hfirst : first.length = 7 := by simpa using hhdrLen
  -- seven stored symbols, then the one that completes the header
  have hshort : ([] : List (BitVec 16)).length + first.length < 8 := by simp [hfirst]
  obtain ⟨hat, hnone⟩ := hd.headerAt.run hshort
  obtain ⟨d₁, hd₁, htick⟩ := hat.tick_last (by simp [hfirst]) last
  have hvals : [] ++ (first.map fun o => demodValue d.sf 0 true o.sym) ++
      [demodValue d.sf 0 true last.sym] = encodeBlock (tx.sf - 2) 8 tx.headerBlock := by
    rw [← tx.demod_headerBins, ← hhdr, hsf]
    simp
  rw [hvals] at hd₁
  obtain ⟨d₂, hd₂, hdecode⟩ := hd₁.decodeHeader_eq hsf hldro
  have hpayVals : (pay.map fun o => demodValue d.sf 0 tx.ldro o.sym) = tx.payloadSymbols := by
    rw [← tx.demod_payloadBins, ← hpay, hsf, map_map]
    rfl
  have hpayLen : pay.length = tx.payloadSymbols.length := by rw [← hpayVals, length_map]
  constructor
  · intro hempty
    have hpayNil : pay = [] := by
      rw [hempty] at hpayLen
      exact length_eq_zero_iff.mp hpayLen
    rw [if_pos hempty] at hdecode
    refine ⟨d₂, hd₂, ?_⟩
    rw [hpayNil, append_nil, Mealy.run_append, hnone]
    simp [Mealy.run, htick, hdecode]
  · intro hsome
    have hpayNe : pay ≠ [] := by
      rintro rfl
      exact hsome (length_eq_zero_iff.mp hpayLen.symm)
    rw [if_neg hsome] at hdecode
    have hstart : PayloadAt d tx [] (d₂.applyDrift last) := hd₂.applyDrift last
    obtain ⟨d₃, hd₃, hevents⟩ := hstart.run hpayNe (by simpa using hpayLen)
    rw [nil_append, hpayVals] at hd₃
    refine ⟨d₃, hd₃, ?_⟩
    rw [Mealy.run_append, Mealy.run_append, hnone]
    simp [Mealy.run, htick, hdecode, hevents]

end MeshcoreSniffer.Lora
