import MeshcoreSniffer.Lib.Wire
import MeshcoreSniffer.Meshtastic.Protobuf

/-!
# The protobuf reader and the wire format

The reads of `protobuf.c` against the complete values of `Lib/Wire`, in both directions.
`pbLoop_complete` gives a decoder's result on a complete message as a fold over its fields.
-/

namespace MeshcoreSniffer.Meshtastic

open Lib Lib.Wire

/-! ## Varints -/

variable {acc v : BitVec 64} {k n fuel : Nat} {bs p rest : List Byte} {f : Field} {wt : BitVec 3}
  {σ : Type} {fields : List Field}

theorem toNat_addGroup (b : Byte) (hacc : acc.toNat < 2 ^ (7 * k)) :
    (acc ||| (b &&& 0x7F).setWidth 64 <<< (7 * k)).toNat
      = (acc.toNat + b.toNat % 128 * 2 ^ (7 * k)) % 2 ^ 64 := by
  have hgroup : ((b &&& 0x7F).setWidth 64).toNat = b.toNat % 128 := by
    have hand : b.toNat &&& 127 = b.toNat % 128 := Nat.and_two_pow_sub_one_eq_mod b.toNat 7
    simp only [BitVec.toNat_setWidth, BitVec.toNat_and]
    change (b.toNat &&& 127) % 2 ^ 64 = _
    omega
  have hor : acc.toNat ||| b.toNat % 128 * 2 ^ (7 * k) = acc.toNat + b.toNat % 128 * 2 ^ (7 * k) := by
    rw [Nat.or_comm, ← Nat.shiftLeft_eq, ← Nat.shiftLeft_add_eq_or_of_lt hacc, Nat.add_comm]
  rw [BitVec.toNat_or, BitVec.toNat_shiftLeft, hgroup, Nat.shiftLeft_eq]
  nth_rewrite 1 [← Nat.mod_eq_of_lt acc.isLt]
  rw [← Nat.or_mod_two_pow, hor]

theorem topBit_eq_zero_iff (b : Byte) : b &&& 0x80 = 0 ↔ b.toNat < 128 := by
  revert b
  decide

theorem varintLoop_groups (h : Groups n bs) (rest : List Byte) (hlen : k + bs.length ≤ 10)
    (hacc : acc.toNat < 2 ^ (7 * k)) : varintLoop (bs ++ rest) (7 * k) acc
      = (some (BitVec.ofNat 64 (acc.toNat + n * 2 ^ (7 * k))), rest) := by
  induction h generalizing k acc with
  | last b hb =>
    rw [List.cons_append, varintLoop]
    simp only [topBit_eq_zero_iff, hb, if_true, List.nil_append, Prod.mk.injEq, and_true,
      Option.some.injEq]
    apply BitVec.eq_of_toNat_eq
    rw [toNat_addGroup b hacc, BitVec.toNat_ofNat, Nat.mod_eq_of_lt hb]
  | @more b n bs hb hbs ih =>
    have hpos := hbs.length_pos
    have hk : k ≤ 8 := by
      rw [List.length_cons] at hlen
      omega
    -- below the tenth group nothing is dropped
    have hpow : (2 : Nat) ^ (7 * (k + 1)) = 128 * 2 ^ (7 * k) := by ring
    have hle : (2 : Nat) ^ (7 * (k + 1)) ≤ 2 ^ 63 := Nat.pow_le_pow_right (by omega) (by omega)
    have hsum : acc.toNat + b.toNat % 128 * 2 ^ (7 * k) < 2 ^ (7 * (k + 1)) := by
      have := Nat.mod_lt b.toNat (show 0 < 128 by omega)
      nlinarith
    have hacc' := toNat_addGroup b hacc
    rw [Nat.mod_eq_of_lt (by omega)] at hacc'
    rw [List.cons_append, varintLoop]
    simp only [topBit_eq_zero_iff, Nat.not_lt.mpr hb, if_false]
    rw [if_neg (by omega), show 7 * k + 7 = 7 * (k + 1) by ring, ih (by
      rw [List.length_cons] at hlen
      omega) (by rwa [hacc']), hacc', hpow]
    congr 3
    ring

theorem varintLoop_some (hk : k ≤ 9) (h : varintLoop p (7 * k) acc = (some v, rest)) :
    ∃ n bs, p = bs ++ rest ∧ Groups n bs ∧ k + bs.length ≤ 10 := by
  induction p generalizing k acc with
  | nil => cases h
  | cons b p ih =>
    rw [varintLoop] at h
    simp only [topBit_eq_zero_iff] at h
    split at h
    next hb =>
      obtain ⟨-, rfl⟩ := Prod.mk.inj h
      exact ⟨b.toNat, [b], rfl, .last b hb, Nat.succ_le_succ hk⟩
    next hb =>
      split at h
      next => cases h
      next hshift =>
        rw [show 7 * k + 7 = 7 * (k + 1) by ring] at h
        obtain ⟨n, bs, rfl, hbs, hlen⟩ := ih (by omega) h
        refine ⟨_, b :: bs, rfl, .more b (by omega) hbs, ?_⟩
        rw [List.length_cons]
        omega

theorem pbReadVarint_groups (h : Groups n bs) (hlen : bs.length ≤ 10) (rest : List Byte) :
    pbReadVarint (bs ++ rest) = (some (BitVec.ofNat 64 n), rest) := by
  rw [pbReadVarint, show (0 : Nat) = 7 * 0 from rfl,
    varintLoop_groups h rest (by rwa [Nat.zero_add]) (by simp)]
  simp

theorem pbReadVarint_lax (h : IsLaxVarint v bs) (rest : List Byte) :
    pbReadVarint (bs ++ rest) = (some v, rest) := by
  obtain ⟨n, hbs, hlen, rfl⟩ := h
  exact pbReadVarint_groups hbs hlen rest

/-- **Varints.** Every 64-bit number is read back, from each of its encodings. -/
theorem pbReadVarint_encoded (h : IsVarint v bs) (rest : List Byte) :
    pbReadVarint (bs ++ rest) = (some v, rest) :=
  pbReadVarint_lax h.lax rest

theorem pbReadVarint_some (h : pbReadVarint p = (some v, rest)) :
    ∃ bs, p = bs ++ rest ∧ IsLaxVarint v bs := by
  obtain ⟨n, bs, rfl, hbs, hlen⟩ := varintLoop_some (k := 0) (by omega) h
  rw [Nat.zero_add] at hlen
  rw [pbReadVarint_groups hbs hlen] at h
  exact ⟨bs, rfl, n, hbs, hlen, Option.some.inj (Prod.mk.inj h).1⟩

/-! ## Tags and values -/

theorem tag_split (h : f.Legal) : ((BitVec.ofNat 64 f.tag >>> 3).setWidth 32).toNat = f.number
      ∧ (BitVec.ofNat 64 f.tag).setWidth 3 = BitVec.ofNat 3 f.value.wireType := by
  have htag := h.toNat_tag
  have hlt := h.tag_lt
  have hwt := f.value.wireType_lt
  rw [Field.tag] at *
  constructor
  · rw [BitVec.toNat_setWidth, BitVec.toNat_ushiftRight, htag, Nat.shiftRight_eq_div_pow]
    omega
  · apply BitVec.eq_of_toNat_eq
    rw [BitVec.toNat_setWidth, htag, BitVec.toNat_ofNat]
    omega

theorem toNat_eq_iff (fld : BitVec 32) (h : n < 2 ^ 32) :
    fld = BitVec.ofNat 32 n ↔ fld.toNat = n := by
  rw [← BitVec.toNat_inj, BitVec.toNat_ofNat, Nat.mod_eq_of_lt h]

theorem pbReadTag_complete (h : f.Legal) {tag : List Byte}
    (htag : IsLaxVarint (BitVec.ofNat 64 f.tag) tag) (rest : List Byte) :
    ∃ fld, fld.toNat = f.number
      ∧ pbReadTag (tag ++ rest) = some ((fld, BitVec.ofNat 3 f.value.wireType), rest) := by
  obtain ⟨hnum, hwt⟩ := tag_split h
  refine ⟨_, hnum, ?_⟩
  simp only [pbReadTag, pbReadVarint_lax htag, hwt]

theorem pbReadLength_complete {l : BitVec 64} {content : List Byte} (h : IsLaxVarint l bs)
    (hl : content.length = l.toNat) (rest : List Byte) :
    pbReadLength (bs ++ (content ++ rest)) = (some content, rest) := by
  have hlen : ¬(content ++ rest).length < content.length := by
    rw [List.length_append]
    omega
  simp only [pbReadLength, pbReadVarint_lax h, ← hl, if_neg hlen, List.take_left,
    List.drop_left]

theorem pbReadFixed32_encoded (v : BitVec 32) (rest : List Byte) :
    pbReadFixed32 (leBytes v ++ rest) = (some v, rest) := by
  change (some (_ ++ _ ++ _ ++ _), rest) = (some v, rest)
  rw [leBytes_append]

theorem pbSkipValue_complete {v : Value} (h : v.Complete bs) (rest : List Byte) :
    pbSkipValue (bs ++ rest) (BitVec.ofNat 3 v.wireType) = some rest := by
  cases h with
  | varint hv => simp [pbSkipValue, Value.wireType, pbReadVarint_lax hv]
  | fixed64 bs => simp [pbSkipValue, Value.wireType, pbSkipFixed64]
  | bytes hl hlen => simp [pbSkipValue, Value.wireType, pbReadLength_complete hl hlen]
  | fixed32 v => simp [pbSkipValue, Value.wireType, pbReadFixed32_encoded]

theorem pbSkipValue_some (h : pbSkipValue p wt = some rest) :
    ∃ v bs, p = bs ++ rest ∧ Value.Complete v bs ∧ BitVec.ofNat 3 v.wireType = wt := by
  rw [pbSkipValue] at h
  split at h
  next hwt =>
    split at h
    next v p' hread =>
      cases h
      obtain ⟨bs, rfl, hbs⟩ := pbReadVarint_some hread
      exact ⟨.varint v, bs, rfl, .varint hbs, hwt.symm⟩
    next => cases h
  split at h
  next hwt =>
    rw [pbSkipFixed64] at h
    split at h
    next => cases h
    next hlen =>
      cases h
      exact ⟨.fixed64 ⟨(p.take 8).toArray, by simp; omega⟩, p.take 8, by simp,
        .fixed64 _, hwt.symm⟩
  split at h
  next hwt =>
    split at h
    next content p' hread =>
      cases h
      rw [pbReadLength] at hread
      split at hread
      next l q hl =>
        split at hread
        next => cases hread
        next hlen =>
          cases hread
          obtain ⟨bs, rfl, hbs⟩ := pbReadVarint_some hl
          refine ⟨.bytes (q.take l.toNat), bs ++ q.take l.toNat, by simp, .bytes hbs ?_, hwt.symm⟩
          rw [List.length_take]
          omega
      next => cases hread
    next => cases h
  split at h
  next hwt =>
    split at h
    next v p' hread =>
      cases h
      rw [pbReadFixed32.eq_def] at hread
      split at hread
      next b₀ b₁ b₂ b₃ q =>
        cases hread
        exact ⟨.fixed32 _, _, by rw [leBytes_of_append]; rfl, .fixed32 _, hwt.symm⟩
      next => cases hread
    next => cases h
  next => cases h

theorem field_of_reads {q : List Byte} {tag : BitVec 64} (htag : pbReadVarint p = (some tag, q))
    (hlo : 8 ≤ tag.toNat) (hhi : tag.toNat < 2 ^ 32)
    (hskip : pbSkipValue q (tag.setWidth 3) = some rest) :
    ∃ (f : Field) (tb vb : List Byte), p = tb ++ (vb ++ rest) ∧ q = vb ++ rest ∧ f.Legal
      ∧ IsLaxVarint (BitVec.ofNat 64 f.tag) tb ∧ f.value.Complete vb
      ∧ f.number = tag.toNat / 8 ∧ f.value.wireType = tag.toNat % 8 := by
  obtain ⟨tb, rfl, htb⟩ := pbReadVarint_some htag
  obtain ⟨v, vb, rfl, hv, hwt⟩ := pbSkipValue_some hskip
  have hty : v.wireType = tag.toNat % 8 := by
    have := congrArg BitVec.toNat hwt
    have hlt := v.wireType_lt
    rw [BitVec.toNat_ofNat, BitVec.toNat_setWidth] at this
    omega
  refine ⟨⟨tag.toNat / 8, v⟩, tb, vb, rfl, rfl, ⟨?_, ?_⟩, ?_, hv, rfl, hty⟩
  · change 1 ≤ tag.toNat / 8
    omega
  · change tag.toNat / 8 < 2 ^ 29
    omega
  · have hsum : 8 * (tag.toNat / 8) + v.wireType = tag.toNat := by omega
    rwa [Field.tag, hsum, BitVec.ofNat_toNat, BitVec.setWidth_eq]

/-! ## Table entries -/

def Reader.Expects {σ : Type} (wt : Nat) : Reader σ → Prop
  | .varint _ => wt = 0
  | .fixed32 _ => wt = 5
  | .bytes _ => wt = 2
  | .typedVarint _ | .typedFixed32 _ | .skip => True

def Reader.apply {σ : Type} (r : Reader σ) (v : Value) (s : σ) : σ :=
  match r, v with
  | .varint set, .varint v => set v s
  | .typedVarint set, .varint v => set v s
  | .fixed32 set, .fixed32 v => set v s
  | .typedFixed32 set, .fixed32 v => set v s
  | .bytes set, .bytes content => set content s
  | _, _ => s

theorem Reader.read_complete (r : Reader σ) {v : Value} (hv : v.Complete bs)
    (hr : r.Expects v.wireType) (rest : List Byte) (s : σ) :
    r.read (BitVec.ofNat 3 v.wireType) (bs ++ rest) s = some (r.apply v s, rest) := by
  have hskip := pbSkipValue_complete hv rest
  cases r with
  | varint set =>
    cases hv with
    | varint h => simp only [Reader.read, pbReadVarint_lax h, Reader.apply]
    | _ => cases hr
  | fixed32 set =>
    cases hv with
    | fixed32 v => simp only [Reader.read, pbReadFixed32_encoded, Reader.apply]
    | _ => cases hr
  | bytes set =>
    cases hv with
    | bytes h hl =>
      simp only [Reader.read, List.append_assoc, pbReadLength_complete h hl, Reader.apply]
    | _ => cases hr
  | typedVarint set =>
    cases hv with
    | varint h => simp [Reader.read, pbReadVarint_lax h, Reader.apply, Value.wireType]
    | _ =>
      rw [Reader.read, if_pos (by simp [Value.wireType]), hskip]
      rfl
  | typedFixed32 set =>
    cases hv with
    | fixed32 v => simp [Reader.read, pbReadFixed32_encoded, Reader.apply, Value.wireType]
    | _ =>
      rw [Reader.read, if_pos (by simp [Value.wireType]), hskip]
      rfl
  | skip =>
    rw [Reader.read, hskip]
    rfl

def Reader.Direct {σ : Type} : Reader σ → Prop
  | .typedVarint _ | .typedFixed32 _ => False
  | _ => True

theorem Reader.read_skips {r : Reader σ} (hd : r.Direct) (hr : r.Expects wt.toNat) {s s' : σ}
    (h : r.read wt p s = some (s', rest)) : pbSkipValue p wt = some rest := by
  cases r with
  | varint set =>
    obtain rfl : wt = 0 := BitVec.eq_of_toNat_eq hr
    rw [Reader.read] at h
    split at h
    next hread =>
      cases h
      simp [pbSkipValue, hread]
    next => cases h
  | fixed32 set =>
    obtain rfl : wt = 5 := BitVec.eq_of_toNat_eq hr
    rw [Reader.read] at h
    split at h
    next hread =>
      cases h
      simp [pbSkipValue, hread]
    next => cases h
  | bytes set =>
    obtain rfl : wt = 2 := BitVec.eq_of_toNat_eq hr
    rw [Reader.read] at h
    split at h
    next hread =>
      cases h
      simp [pbSkipValue, hread]
    next => cases h
  | typedVarint set => exact hd.elim
  | typedFixed32 set => exact hd.elim
  | skip =>
    rw [Reader.read] at h
    obtain ⟨rest', hskip, hrest⟩ := Option.map_eq_some_iff.mp h
    cases hrest
    exact hskip

/-! ## Messages -/

def readerOf {σ : Type} (table : List (Nat × Reader σ)) (number : Nat) : Reader σ :=
  (table.lookup number).getD .skip

def applyFields {σ : Type} (table : List (Nat × Reader σ)) (fields : List Field) (s : σ) : σ :=
  fields.foldl (fun s f => (readerOf table f.number).apply f.value s) s

theorem applyFields_snoc (table : List (Nat × Reader σ)) (fields : List Field) (f : Field) (s : σ) :
    applyFields table (fields ++ [f]) s
      = (readerOf table f.number).apply f.value (applyFields table fields s) := by
  rw [applyFields, List.foldl_append]
  rfl

/-- **Messages.** A loop whose body takes every field by one step uses up the bytes and leaves the
fold of the steps. -/
theorem pbLoop_steps {handler : Handler σ} (step : Field → σ → σ) (h : Complete fields bs)
    (hstep : ∀ f ∈ fields, ∀ fld val rest s, BitVec.toNat fld = f.number → f.value.Complete val → handler fld (BitVec.ofNat 3 f.value.wireType) (val ++ rest) s = some (step f s, rest))
    (hfuel : bs.length < fuel) (s : σ) :
    pbLoop handler fuel bs s = (fields.foldl (fun s f => step f s) s, .done) := by
  induction h generalizing fuel s with
  | nil =>
    obtain ⟨fuel, rfl⟩ : ∃ k, fuel = k + 1 := ⟨fuel - 1, by omega⟩
    rfl
  | @cons f fs bs rest hf _ ih =>
    obtain ⟨fuel, rfl⟩ : ∃ k, fuel = k + 1 := ⟨fuel - 1, by omega⟩
    obtain ⟨hlegal, htag, hval⟩ := hf
    rename_i tag val
    have hpos := htag.length_pos
    obtain ⟨fld, hfld, hread⟩ := pbReadTag_complete hlegal htag (val ++ rest)
    have hne : tag ++ (val ++ rest) ≠ [] := by
      intro hnil
      rw [List.append_eq_nil_iff] at hnil
      rw [hnil.1] at hpos
      exact absurd hpos (Nat.lt_irrefl 0)
    rw [List.append_assoc, pbLoop, if_neg hne, hread]
    simp only [hstep f List.mem_cons_self fld val rest s hfld hval]
    rw [List.append_assoc, List.length_append, List.length_append] at hfuel
    exact ih (fun g hg => hstep g (List.mem_cons_of_mem f hg)) (by omega) _

theorem pbLoop_complete (table : List (Nat × Reader σ)) (h : Complete fields bs)
    (hr : ∀ f ∈ fields, (readerOf table f.number).Expects f.value.wireType)
    (hfuel : bs.length < fuel) (s : σ) :
    pbLoop (switchOn table) fuel bs s = (applyFields table fields s, .done) := by
  refine pbLoop_steps (fun f => (readerOf table f.number).apply f.value) h ?_ hfuel s
  intro f hf fld val rest s hfld hval
  rw [switchOn, hfld]
  exact Reader.read_complete (readerOf table f.number) hval (hr f hf) rest s

end MeshcoreSniffer.Meshtastic
