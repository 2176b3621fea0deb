import MeshcoreSniffer.Lib.BitFlip

/-!
# The protobuf reader

`protobuf.c`, and the loop every message decoder runs. A cursor is the list of bytes in front of it;
a failed read still moves it. Every tag takes a byte, so the fuel never runs out (`pbLoop_fuel`).
-/

namespace MeshcoreSniffer.Meshtastic

open Lib

/-! ## Wire values -/

/-- The loop of `pb_read_varint`, with the cursor it leaves in either case. -/
def varintLoop : List Byte → Nat → BitVec 64 → Option (BitVec 64) × List Byte
  | [], _, _ => (none, [])
  | b :: p, shift, v =>
    let v := v ||| (b &&& 0x7F).setWidth 64 <<< shift
    if b &&& 0x80 = 0 then (some v, p)
    else if 63 < shift + 7 then (none, p)
    else varintLoop p (shift + 7) v

def pbReadVarint (p : List Byte) : Option (BitVec 64) × List Byte := varintLoop p 0 0

def pbReadTag (p : List Byte) : Option ((BitVec 32 × BitVec 3) × List Byte) :=
  match pbReadVarint p with
  | (some tag, p) => some (((tag >>> 3).setWidth 32, tag.setWidth 3), p)
  | (none, _) => none

/-- Nothing moves when it fails. -/
def pbReadFixed32 : List Byte → Option (BitVec 32) × List Byte
  | b₀ :: b₁ :: b₂ :: b₃ :: p => (some (b₃ ++ b₂ ++ b₁ ++ b₀), p)
  | p => (none, p)

def pbSkipFixed64 (p : List Byte) : Option (List Byte) :=
  if p.length < 8 then none else some (p.drop 8)

def pbReadLength (p : List Byte) : Option (List Byte) × List Byte :=
  match pbReadVarint p with
  | (some l, p) =>
    if p.length < l.toNat then (none, p) else (some (p.take l.toNat), p.drop l.toNat)
  | (none, p) => (none, p)

def pbSkipValue (p : List Byte) (wt : BitVec 3) : Option (List Byte) :=
  if wt = 0 then
    match pbReadVarint p with
    | (some _, p) => some p
    | (none, _) => none
  else if wt = 1 then pbSkipFixed64 p
  else if wt = 2 then
    match pbReadLength p with
    | (some _, p) => some p
    | (none, _) => none
  else if wt = 5 then
    match pbReadFixed32 p with
    | (some _, p) => some p
    | (none, _) => none
  else none

def pbZigzag32 (v : BitVec 32) : BitVec 32 := v >>> 1 ^^^ -(v &&& 1)

/-! ## Fields -/

inductive Reader (σ : Type) where
  | varint (set : BitVec 64 → σ → σ)
  | fixed32 (set : BitVec 32 → σ → σ)
  | bytes (set : List Byte → σ → σ)
  /-- Only for wire type 0; anything else, and a failed read, is skipped. -/
  | typedVarint (set : BitVec 64 → σ → σ)
  /-- Only for wire type 5; anything else, and a failed read, is skipped. -/
  | typedFixed32 (set : BitVec 32 → σ → σ)
  | skip

/-- `none` where the decoder returns. -/
def Reader.read {σ : Type} (wt : BitVec 3) (p : List Byte) (s : σ) :
    Reader σ → Option (σ × List Byte)
  | .varint set =>
    match pbReadVarint p with
    | (some v, p) => some (set v s, p)
    | (none, _) => none
  | .fixed32 set =>
    match pbReadFixed32 p with
    | (some v, p) => some (set v s, p)
    | (none, _) => none
  | .bytes set =>
    match pbReadLength p with
    | (some v, p) => some (set v s, p)
    | (none, _) => none
  | .typedVarint set =>
    if wt ≠ 0 then (pbSkipValue p wt).map (s, ·)
    else
      match pbReadVarint p with
      | (some v, p) => some (set v s, p)
      | (none, p) => (pbSkipValue p wt).map (s, ·)
  | .typedFixed32 set =>
    if wt ≠ 5 then (pbSkipValue p wt).map (s, ·)
    else
      match pbReadFixed32 p with
      | (some v, p) => some (set v s, p)
      | (none, p) => (pbSkipValue p wt).map (s, ·)
  | .skip => (pbSkipValue p wt).map (s, ·)

abbrev Handler (σ : Type) := BitVec 32 → BitVec 3 → List Byte → σ → Option (σ × List Byte)

inductive LoopEnd where
  | done
  | badTag
  | badField
  deriving DecidableEq

def pbLoop {σ : Type} (handler : Handler σ) : Nat → List Byte → σ → σ × LoopEnd
  | 0, _, s => (s, .badTag)
  | fuel + 1, p, s =>
    if p = [] then (s, .done)
    else
      match pbReadTag p with
      | none => (s, .badTag)
      | some ((fld, wt), p) =>
        match handler fld wt p s with
        | none => (s, .badField)
        | some (s, p) => pbLoop handler fuel p s

def pbMessage {σ : Type} (handler : Handler σ) (buf : List Byte) (s : σ) : σ × LoopEnd :=
  pbLoop handler (buf.length + 1) buf s

def switchOn {σ : Type} (table : List (Nat × Reader σ)) : Handler σ := fun fld wt p s =>
  ((table.lookup fld.toNat).getD .skip).read wt p s

/-! ## The cursor moves forward -/

theorem pbReadVarint_suffix (p : List Byte) : (pbReadVarint p).2 <:+ p.tail := by
  suffices h : ∀ shift v, (varintLoop p shift v).2 <:+ p.tail from h 0 0
  induction p with
  | nil => exact fun _ _ => List.suffix_rfl
  | cons b p ih =>
    intro shift v
    rw [varintLoop]
    split
    next => exact List.suffix_rfl
    split
    next => exact List.suffix_rfl
    next => exact (ih _ _).trans (List.tail_suffix p)

variable {p rest p' : List Byte} {wt : BitVec 3} {σ : Type} {s s' : σ}

theorem pbReadTag_suffix {tag : BitVec 32 × BitVec 3} (h : pbReadTag p = some (tag, rest)) :
    rest <:+ p.tail := by
  have hv := pbReadVarint_suffix p
  rw [pbReadTag] at h
  split at h
  next hread =>
    obtain ⟨-, rfl⟩ := Prod.mk.inj (Option.some.inj h)
    rwa [hread] at hv
  next => cases h

theorem pbReadFixed32_suffix (p : List Byte) : (pbReadFixed32 p).2 <:+ p := by
  unfold pbReadFixed32
  split
  next b₀ b₁ b₂ b₃ p => exact ⟨[b₀, b₁, b₂, b₃], rfl⟩
  next => exact List.suffix_rfl

theorem pbReadLength_suffix (p : List Byte) : (pbReadLength p).2 <:+ p.tail := by
  have hv := pbReadVarint_suffix p
  rw [pbReadLength]
  split
  next hread =>
    rw [hread] at hv
    split
    next => exact hv
    next => exact (List.drop_suffix _ _).trans hv
  next hread => rwa [hread] at hv

theorem pbReadLength_slice {slice : List Byte} (h : pbReadLength p = (some slice, rest)) :
    slice ++ rest <:+ p.tail := by
  have hv := pbReadVarint_suffix p
  rw [pbReadLength] at h
  split at h
  next hread =>
    rw [hread] at hv
    split at h
    next => cases h
    next =>
      cases h
      rwa [List.take_append_drop]
  next => cases h

theorem pbSkipFixed64_suffix (h : pbSkipFixed64 p = some rest) : rest <:+ p := by
  rw [pbSkipFixed64] at h
  split at h
  next => cases h
  next =>
    cases h
    exact List.drop_suffix _ _

theorem pbSkipValue_suffix (h : pbSkipValue p wt = some rest) : rest <:+ p := by
  have hv := (pbReadVarint_suffix p).trans (List.tail_suffix p)
  have hl := (pbReadLength_suffix p).trans (List.tail_suffix p)
  have hf := pbReadFixed32_suffix p
  rw [pbSkipValue] at h
  split at h
  next =>
    split at h
    next hread => cases h; rwa [hread] at hv
    next => cases h
  split at h
  next => exact pbSkipFixed64_suffix h
  split at h
  next =>
    split at h
    next hread => cases h; rwa [hread] at hl
    next => cases h
  split at h
  next =>
    split at h
    next hread => cases h; rwa [hread] at hf
    next => cases h
  next => cases h

def Handler.Advances {σ : Type} (handler : Handler σ) : Prop :=
  ∀ fld wt p s s' p', handler fld wt p s = some (s', p') → p' <:+ p

theorem skip_suffix (h : (pbSkipValue p wt).map (s, ·) = some (s', p')) : p' <:+ p := by
  obtain ⟨rest, hskip, hrest⟩ := Option.map_eq_some_iff.mp h
  cases hrest
  exact pbSkipValue_suffix hskip

theorem Reader.read_suffix (r : Reader σ) (h : r.read wt p s = some (s', p')) : p' <:+ p := by
  have hv := (pbReadVarint_suffix p).trans (List.tail_suffix p)
  have hl := (pbReadLength_suffix p).trans (List.tail_suffix p)
  have hf := pbReadFixed32_suffix p
  cases r with
  | varint set =>
    rw [Reader.read] at h
    split at h
    next hread => cases h; rwa [hread] at hv
    next => cases h
  | fixed32 set =>
    rw [Reader.read] at h
    split at h
    next hread => cases h; rwa [hread] at hf
    next => cases h
  | bytes set =>
    rw [Reader.read] at h
    split at h
    next hread => cases h; rwa [hread] at hl
    next => cases h
  | typedVarint set =>
    rw [Reader.read] at h
    split at h
    next => exact skip_suffix h
    split at h
    next hread => cases h; rwa [hread] at hv
    next hread =>
      rw [hread] at hv
      exact (skip_suffix h).trans hv
  | typedFixed32 set =>
    rw [Reader.read] at h
    split at h
    next => exact skip_suffix h
    split at h
    next hread => cases h; rwa [hread] at hf
    next hread =>
      rw [hread] at hf
      exact (skip_suffix h).trans hf
  | skip => exact skip_suffix h

theorem switchOn_advances (table : List (Nat × Reader σ)) : Handler.Advances (switchOn table) := by
  intro fld wt p s s' p' h
  exact Reader.read_suffix _ h

/-- The cursors at the head of the decoder's loop. -/
def cursors {σ : Type} (handler : Handler σ) : Nat → List Byte → σ → List (List Byte)
  | 0, _, _ => []
  | fuel + 1, p, s => p ::
    if p = [] then []
    else
      match pbReadTag p with
      | none => []
      | some ((fld, wt), q) =>
        match handler fld wt q s with
        | none => []
        | some (s, p) => cursors handler fuel p s

/-- From one to the next, the cursor moves on in the buffer. -/
def MovesOn (p p' : List Byte) : Prop := p' <:+ p ∧ p'.length < p.length

theorem movesOn_of_tail (hp : p ≠ []) (h : p' <:+ p.tail) : MovesOn p p' := by
  have hlen := h.length_le
  have hpos := List.length_pos_iff.mpr hp
  rw [List.length_tail] at hlen
  exact ⟨h.trans (List.tail_suffix p), by omega⟩

theorem movesOn_cursors {handler : Handler σ} (h : handler.Advances) (fuel : Nat) (p : List Byte)
    (s : σ) : (cursors handler fuel p s).IsChain MovesOn := by
  induction fuel generalizing p s with
  | zero => exact .nil
  | succ fuel ih =>
    rw [cursors]
    split
    next => exact .singleton p
    next hp =>
    split
    next => exact .singleton p
    next fld wt q htag =>
    split
    next => exact .singleton p
    next s' p' hread =>
      have hp' := (h fld wt q s s' p' hread).trans (pbReadTag_suffix htag)
      cases fuel with
      | zero => exact .singleton p
      | succ fuel =>
        have hnext := ih p' s'
        rw [cursors] at hnext ⊢
        exact hnext.cons_cons (movesOn_of_tail hp hp')

/-! ## The loop ends -/

def Handler.Shrinks {σ : Type} (handler : Handler σ) : Prop :=
  ∀ fld wt p s s' p', handler fld wt p s = some (s', p') → p'.length ≤ p.length

theorem switchOn_shrinks (table : List (Nat × Reader σ)) : Handler.Shrinks (switchOn table) := by
  intro fld wt p s s' p' h
  exact (switchOn_advances table fld wt p s s' p' h).length_le

/-- **Fuel.** More fuel than bytes changes nothing. -/
theorem pbLoop_fuel {handler : Handler σ} (h : handler.Shrinks) {n m : Nat} (hn : p.length < n)
    (hm : p.length < m) (s : σ) : pbLoop handler n p s = pbLoop handler m p s := by
  induction n generalizing m p s with
  | zero => omega
  | succ n ih =>
    obtain ⟨m, rfl⟩ : ∃ k, m = k + 1 := ⟨m - 1, by omega⟩
    rw [pbLoop, pbLoop]
    by_cases hp : p = []
    · rw [if_pos hp, if_pos hp]
    rw [if_neg hp, if_neg hp]
    have hpos := List.length_pos_iff.mpr hp
    cases htag : pbReadTag p with
    | none => rfl
    | some t =>
      obtain ⟨⟨fld, wt⟩, rest⟩ := t
      have htagLen := (pbReadTag_suffix htag).length_le
      rw [List.length_tail] at htagLen
      dsimp only
      cases hread : handler fld wt rest s with
      | none => rfl
      | some r =>
        obtain ⟨s', p'⟩ := r
        have hlen := h fld wt rest s s' p' hread
        exact ih (by omega) (by omega) s'

end MeshcoreSniffer.Meshtastic
