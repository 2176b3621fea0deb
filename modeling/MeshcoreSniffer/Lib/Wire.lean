import MeshcoreSniffer.Lib.BitFlip

/-!
# The protobuf wire format

What the bytes of a message say, as relations: `IsVarint`, `Encodes`, with `lastValue` for a field
that occurs again, `Complete`, where bits past the 64th are dropped, and `Repeats`. The retired wire
types 3 and 4 are no values.
-/

namespace MeshcoreSniffer.Lib.Wire

open Lib

/-! ## Varints -/

/-- The bytes carry `n` in groups of seven bits; only the last byte has a clear top bit. -/
inductive Groups : Nat → List Byte → Prop
  | last (b : Byte) : b.toNat < 128 → Groups b.toNat [b]
  | more (b : Byte) {n : Nat} {bs : List Byte} :
      128 ≤ b.toNat → Groups n bs → Groups (b.toNat % 128 + 128 * n) (b :: bs)

/-- An encoding of a 64-bit number, not necessarily the shortest. -/
structure IsVarint (v : BitVec 64) (bs : List Byte) : Prop where
  groups : Groups v.toNat bs
  length_le : bs.length ≤ 10

def varintValue : List Byte → Nat
  | [] => 0
  | b :: p => if b.toNat < 128 then b.toNat else b.toNat % 128 + 128 * varintValue p

/-- The shortest encoding, in at most `k + 1` groups. -/
def encodeGroups : Nat → Nat → List Byte
  | 0, n => [BitVec.ofNat 8 n]
  | k + 1, n =>
    if n < 128 then [BitVec.ofNat 8 n]
    else BitVec.ofNat 8 (128 + n % 128) :: encodeGroups k (n / 128)

def encodeVarint (v : BitVec 64) : List Byte := encodeGroups 9 v.toNat

variable {n : Nat} {bs : List Byte}

theorem Groups.length_pos (h : Groups n bs) : 0 < bs.length := by
  cases h <;> exact Nat.succ_pos _

theorem Groups.varintValue_append (h : Groups n bs) (rest : List Byte) :
    varintValue (bs ++ rest) = n := by
  induction h with
  | last b hb => exact if_pos hb
  | more b hb _ ih => rw [List.cons_append, varintValue, if_neg (by omega), ih]

theorem groups_single (h : n < 128) : Groups n [BitVec.ofNat 8 n] := by
  have hn : (BitVec.ofNat 8 n).toNat = n := by
    rw [BitVec.toNat_ofNat]
    omega
  simpa only [hn] using Groups.last (BitVec.ofNat 8 n) (by omega)

theorem groups_encodeGroups {k : Nat} (h : n < 128 ^ (k + 1)) : Groups n (encodeGroups k n) := by
  induction k generalizing n with
  | zero => exact groups_single (by omega)
  | succ k ih =>
    rw [encodeGroups]
    split
    next hlt => exact groups_single hlt
    next hge =>
      have hb : (BitVec.ofNat 8 (128 + n % 128)).toNat = 128 + n % 128 := by
        rw [BitVec.toNat_ofNat]
        omega
      have hdiv : n / 128 < 128 ^ (k + 1) := by
        rw [Nat.div_lt_iff_lt_mul (by omega)]
        rwa [pow_succ] at h
      have hmore := Groups.more (BitVec.ofNat 8 (128 + n % 128)) (by omega) (ih hdiv)
      rw [hb] at hmore
      have hsum : (128 + n % 128) % 128 + 128 * (n / 128) = n := by omega
      rwa [hsum] at hmore

theorem length_encodeGroups_le (k n : Nat) : (encodeGroups k n).length ≤ k + 1 := by
  induction k generalizing n with
  | zero => exact le_rfl
  | succ k ih =>
    rw [encodeGroups]
    split
    next => exact Nat.succ_le_succ (Nat.zero_le _)
    next => exact Nat.succ_le_succ (ih _)

theorem isVarint_encodeVarint (v : BitVec 64) : IsVarint v (encodeVarint v) :=
  ⟨groups_encodeGroups (lt_trans v.isLt (by norm_num)), length_encodeGroups_le 9 _⟩

/-! ## Values and fields -/

inductive Value where
  | varint (v : BitVec 64)
  | fixed64 (bs : Vector Byte 8)
  | bytes (content : List Byte)
  | fixed32 (v : BitVec 32)

def Value.wireType : Value → Nat
  | .varint _ => 0
  | .fixed64 _ => 1
  | .bytes _ => 2
  | .fixed32 _ => 5

def leBytes (v : BitVec 32) : List Byte :=
  [v.extractLsb' 0 8, v.extractLsb' 8 8, v.extractLsb' 16 8, v.extractLsb' 24 8]

inductive Value.Encodes : Value → List Byte → Prop
  | varint {v : BitVec 64} {bs : List Byte} : IsVarint v bs → Encodes (.varint v) bs
  | fixed64 (bs : Vector Byte 8) : Encodes (.fixed64 bs) bs.toList
  | bytes {l : BitVec 64} {bs content : List Byte} :
      IsVarint l bs → content.length = l.toNat → Encodes (.bytes content) (bs ++ content)
  | fixed32 (v : BitVec 32) : Encodes (.fixed32 v) (leBytes v)

structure Field where
  number : Nat
  value : Value

def Field.tag (f : Field) : Nat := 8 * f.number + f.value.wireType

structure Field.Legal (f : Field) : Prop where
  pos : 1 ≤ f.number
  lt : f.number < 2 ^ 29

instance (f : Field) : Decidable f.Legal :=
  decidable_of_iff (1 ≤ f.number ∧ f.number < 2 ^ 29) ⟨fun h => ⟨h.1, h.2⟩, fun h => ⟨h.pos, h.lt⟩⟩

inductive Field.Encodes (f : Field) : List Byte → Prop
  | mk {tag val : List Byte} : f.Legal → IsVarint (BitVec.ofNat 64 f.tag) tag →
      f.value.Encodes val → Encodes f (tag ++ val)

/-! ## Messages -/

inductive Encodes : List Field → List Byte → Prop
  | nil : Encodes [] []
  | cons {f : Field} {fs : List Field} {bs rest : List Byte} :
      f.Encodes bs → Encodes fs rest → Encodes (f :: fs) (bs ++ rest)

def Value.encode : Value → List Byte
  | .varint v => encodeVarint v
  | .fixed64 bs => bs.toList
  | .bytes content => encodeVarint (BitVec.ofNat 64 content.length) ++ content
  | .fixed32 v => leBytes v

def Field.encode (f : Field) : List Byte :=
  encodeVarint (BitVec.ofNat 64 f.tag) ++ f.value.encode

def encode (fields : List Field) : List Byte := fields.flatMap Field.encode

def Value.Fits : Value → Prop
  | .bytes content => content.length < 2 ^ 64
  | _ => True

instance : (v : Value) → Decidable v.Fits
  | .bytes content => inferInstanceAs (Decidable (content.length < 2 ^ 64))
  | .varint _ | .fixed64 _ | .fixed32 _ => isTrue trivial

variable {v : Value} {fields : List Field} {f : Field}

theorem Value.encodes_encode (h : v.Fits) : v.Encodes v.encode := by
  cases v with
  | varint v => exact .varint (isVarint_encodeVarint v)
  | fixed64 bs => exact .fixed64 bs
  | bytes content =>
    refine .bytes (isVarint_encodeVarint _) ?_
    rw [BitVec.toNat_ofNat, Nat.mod_eq_of_lt h]
  | fixed32 v => exact .fixed32 v

theorem encodes_encode (h : ∀ f ∈ fields, f.Legal ∧ f.value.Fits) :
    Encodes fields (encode fields) := by
  induction fields with
  | nil => exact .nil
  | cons f fields ih =>
    obtain ⟨⟨hlegal, hfits⟩, hrest⟩ := List.forall_mem_cons.mp h
    exact .cons (.mk hlegal (isVarint_encodeVarint _) (Value.encodes_encode hfits)) (ih hrest)

def lastValue (number : Nat) (fields : List Field) : Option Value :=
  ((fields.filter (·.number == number)).map (·.value)).getLast?

theorem lastValue_snoc (number : Nat) (fields : List Field) (f : Field) :
    lastValue number (fields ++ [f])
      = if f.number = number then some f.value else lastValue number fields := by
  by_cases h : f.number = number
  · simp [lastValue, h]
  · simp [lastValue, h]

theorem Value.wireType_lt (v : Value) : v.wireType < 8 := by
  cases v <;> norm_num [Value.wireType]

theorem Field.Legal.tag_lt (h : f.Legal) : f.tag < 2 ^ 32 := by
  have hlt := h.lt
  have hwt := f.value.wireType_lt
  rw [Field.tag]
  omega

theorem Field.Legal.toNat_tag (h : f.Legal) : (BitVec.ofNat 64 f.tag).toNat = f.tag := by
  have := h.tag_lt
  rw [BitVec.toNat_ofNat]
  omega

theorem leBytes_append (v : BitVec 32) :
    v.extractLsb' 24 8 ++ v.extractLsb' 16 8 ++ v.extractLsb' 8 8 ++ v.extractLsb' 0 8 = v := by
  ext i hi
  simp only [BitVec.getElem_append, BitVec.getElem_extractLsb']
  grind

theorem leBytes_of_append (b₀ b₁ b₂ b₃ : Byte) : leBytes (b₃ ++ b₂ ++ b₁ ++ b₀) = [b₀, b₁, b₂, b₃] := by
  simp only [leBytes, List.cons.injEq, and_true]
  refine ⟨?_, ?_, ?_, ?_⟩ <;> ext i hi <;>
    simp only [BitVec.getElem_extractLsb', BitVec.getLsbD_append] <;> grind

/-! ## Complete messages -/

def IsLaxVarint (v : BitVec 64) (bs : List Byte) : Prop :=
  ∃ n, Groups n bs ∧ bs.length ≤ 10 ∧ BitVec.ofNat 64 n = v

inductive Value.Complete : Value → List Byte → Prop
  | varint {v : BitVec 64} {bs : List Byte} : IsLaxVarint v bs → Complete (.varint v) bs
  | fixed64 (bs : Vector Byte 8) : Complete (.fixed64 bs) bs.toList
  | bytes {l : BitVec 64} {bs content : List Byte} :
      IsLaxVarint l bs → content.length = l.toNat → Complete (.bytes content) (bs ++ content)
  | fixed32 (v : BitVec 32) : Complete (.fixed32 v) (leBytes v)

inductive Field.Complete (f : Field) : List Byte → Prop
  | mk {tag val : List Byte} : f.Legal → IsLaxVarint (BitVec.ofNat 64 f.tag) tag →
      f.value.Complete val → Complete f (tag ++ val)

inductive Complete : List Field → List Byte → Prop
  | nil : Complete [] []
  | cons {f : Field} {fs : List Field} {bs rest : List Byte} :
      f.Complete bs → Complete fs rest → Complete (f :: fs) (bs ++ rest)

theorem IsLaxVarint.length_pos {v : BitVec 64} (h : IsLaxVarint v bs) : 0 < bs.length := by
  obtain ⟨n, hbs, -⟩ := h
  exact hbs.length_pos

theorem IsVarint.lax {v : BitVec 64} (h : IsVarint v bs) : IsLaxVarint v bs :=
  ⟨v.toNat, h.groups, h.length_le, by rw [BitVec.ofNat_toNat, BitVec.setWidth_eq]⟩

theorem IsLaxVarint.isVarint {v : BitVec 64} (h : IsLaxVarint v bs) (rest : List Byte)
    (hfit : varintValue (bs ++ rest) < 2 ^ 64) :
    IsVarint v bs ∧ varintValue (bs ++ rest) = v.toNat := by
  obtain ⟨n, hbs, hlen, rfl⟩ := h
  have hvalue := hbs.varintValue_append rest
  have hn : (BitVec.ofNat 64 n).toNat = n := by
    rw [BitVec.toNat_ofNat, Nat.mod_eq_of_lt (hvalue ▸ hfit)]
  exact ⟨⟨by rwa [hn], hlen⟩, hvalue.trans hn.symm⟩

theorem Value.Encodes.complete (h : v.Encodes bs) : v.Complete bs := by
  cases h with
  | varint hv => exact .varint hv.lax
  | fixed64 bs => exact .fixed64 bs
  | bytes hl hlen => exact .bytes hl.lax hlen
  | fixed32 v => exact .fixed32 v

theorem Value.Complete.encodes (h : v.Complete bs) (rest : List Byte)
    (hfit : v.wireType = 0 ∨ v.wireType = 2 → varintValue (bs ++ rest) < 2 ^ 64) :
    v.Encodes bs := by
  cases h with
  | varint hv => exact .varint (hv.isVarint rest (hfit (.inl rfl))).1
  | fixed64 bs => exact .fixed64 bs
  | @bytes l bs content hl hlen =>
    have hfit := hfit (.inr rfl)
    rw [List.append_assoc] at hfit
    exact .bytes (hl.isVarint (content ++ rest) hfit).1 hlen
  | fixed32 v => exact .fixed32 v

theorem Encodes.complete (h : Encodes fields bs) : Complete fields bs := by
  induction h with
  | nil => exact .nil
  | cons hf _ ih =>
    obtain ⟨hlegal, htag, hval⟩ := hf
    exact .cons (.mk hlegal htag.lax hval.complete) ih

/-! ## Repeated fields -/

/-- A packed block: the varints of the numbers one after the other. -/
inductive Packed : List (BitVec 64) → List Byte → Prop
  | nil : Packed [] []
  | cons {v : BitVec 64} {vs : List (BitVec 64)} {bs rest : List Byte} :
      IsLaxVarint v bs → Packed vs rest → Packed (v :: vs) (bs ++ rest)

/-- The numbers that one occurrence of a repeated field carries; a value of another wire
type carries none. -/
inductive Value.Carries : Value → List (BitVec 64) → Prop
  | single (v : BitVec 64) : Carries (.varint v) [v]
  | packed {vs : List (BitVec 64)} {content : List Byte} : Packed vs content → Carries (.bytes content) vs
  | fixed64 (bs : Vector Byte 8) : Carries (.fixed64 bs) []
  | fixed32 (v : BitVec 32) : Carries (.fixed32 v) []

/-- The numbers of a repeated field, with other fields in between. -/
inductive Repeats (number : Nat) : List Field → List (BitVec 64) → Prop
  | nil : Repeats number [] []
  | here {v : Value} {fs : List Field} {ws vs : List (BitVec 64)} :
      v.Carries ws → Repeats number fs vs → Repeats number (⟨number, v⟩ :: fs) (ws ++ vs)
  | other {f : Field} {fs : List Field} {vs : List (BitVec 64)} :
      f.number ≠ number → Repeats number fs vs → Repeats number (f :: fs) vs

end MeshcoreSniffer.Lib.Wire
