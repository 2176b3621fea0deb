import MeshcoreSniffer.Lib.CString

/-!
# Hexadecimal and base64

`HexOf` relates bytes to their digits, each in either letter case. `Base64.encode` is the standard
code.
-/

namespace MeshcoreSniffer.Lib

open List

/-! ## Hexadecimal -/

def hexNibble (c : Byte) : Option Byte :=
  if 0x30 ≤ c ∧ c ≤ 0x39 then some (c - 0x30)
  else if 0x61 ≤ c ∧ c ≤ 0x66 then some (c - 0x61 + 10)
  else if 0x41 ≤ c ∧ c ≤ 0x46 then some (c - 0x41 + 10)
  else none

def hexPairs : Nat → List Byte → Option (List Byte)
  | 0, _ => some []
  | n + 1, hi :: lo :: rest =>
    match hexNibble hi, hexNibble lo with
    | some h, some l => (hexPairs n rest).map (((h <<< 4) ||| l) :: ·)
    | _, _ => none
  | _ + 1, _ => none

/-- A digit of the value `v`, in either letter case. -/
def IsHexDigit (c v : Byte) : Prop :=
  c = (ascii "0123456789abcdef").getD v.toNat 0 ∨ c = (ascii "0123456789ABCDEF").getD v.toNat 0

/-- The text is the bytes written in hexadecimal, high digit first. -/
inductive HexOf : List Byte → List Byte → Prop where
  | nil : HexOf [] []
  | cons {b hi lo : Byte} {bytes text : List Byte} (high : IsHexDigit hi (b >>> 4))
      (low : IsHexDigit lo (b &&& 0xF)) (rest : HexOf bytes text) :
      HexOf (b :: bytes) (hi :: lo :: text)

theorem hexNibble_of_isHexDigit {c v : Byte} (hv : v ≤ 0xF) (h : IsHexDigit c v) :
    hexNibble c = some v := by
  have hlower : ∀ v : Byte, v ≤ 0xF →
      hexNibble ((ascii "0123456789abcdef").getD v.toNat 0) = some v := by decide
  have hupper : ∀ v : Byte, v ≤ 0xF →
      hexNibble ((ascii "0123456789ABCDEF").getD v.toNat 0) = some v := by decide
  rcases h with rfl | rfl
  · exact hlower v hv
  · exact hupper v hv

theorem halves (b : Byte) : b >>> 4 ≤ 0xF ∧ b &&& 0xF ≤ 0xF ∧ (b >>> 4) <<< 4 ||| (b &&& 0xF) = b := by
  revert b
  decide

variable {bytes text : List Byte}

theorem HexOf.length_eq (h : HexOf bytes text) : text.length = 2 * bytes.length := by
  induction h with
  | nil => rfl
  | cons _ _ _ ih =>
    rw [length_cons, length_cons, length_cons, ih]
    omega

theorem HexOf.isHexDigit (h : HexOf bytes text) : ∀ c ∈ text, ∃ v ≤ 0xF, IsHexDigit c v := by
  induction h with
  | nil => simp
  | cons high low _ ih =>
    intro c hc
    rcases mem_cons.mp hc with rfl | hc
    · exact ⟨_, (halves _).1, high⟩
    rcases mem_cons.mp hc with rfl | hc
    · exact ⟨_, (halves _).2.1, low⟩
    · exact ih c hc

theorem HexOf.forall {key : List Byte} (h : HexOf key text) {P : Byte → Prop}
    (hP : ∀ c ∈ ascii "0123456789abcdefABCDEF", P c) : ∀ c ∈ text, P c := by
  have hdigit : ∀ v : Byte, v ≤ 0xF →
      (ascii "0123456789abcdef").getD v.toNat 0 ∈ ascii "0123456789abcdefABCDEF" ∧
        (ascii "0123456789ABCDEF").getD v.toNat 0 ∈ ascii "0123456789abcdefABCDEF" := by
    decide
  intro c hc
  obtain ⟨v, hv, rfl | rfl⟩ := h.isHexDigit c hc
  · exact hP _ (hdigit v hv).1
  · exact hP _ (hdigit v hv).2

theorem hexPairs_of_hexOf (h : HexOf bytes text) : hexPairs bytes.length text = some bytes := by
  induction h with
  | nil => rfl
  | @cons b hi lo bytes text high low _ ih =>
    obtain ⟨hhigh, hlow, hjoin⟩ := halves b
    rw [length_cons, hexPairs, hexNibble_of_isHexDigit hhigh high,
      hexNibble_of_isHexDigit hlow low, ih]
    simp only [Option.map_some, hjoin]

/-! ## Base64 -/

namespace Base64

def digit (v : Nat) : Byte :=
  (ascii "ABCDEFGHIJKLMNOPQRSTUVWXYZabcdefghijklmnopqrstuvwxyz0123456789+/").getD v 0

def encodeBody : List Byte → List Byte
  | [] => []
  | [a] => [digit (a.toNat / 4), digit (a.toNat % 4 * 16)]
  | [a, b] =>
    [digit (a.toNat / 4), digit (a.toNat % 4 * 16 + b.toNat / 16), digit (b.toNat % 16 * 4)]
  | a :: b :: c :: rest =>
    [digit (a.toNat / 4), digit (a.toNat % 4 * 16 + b.toNat / 16),
      digit (b.toNat % 16 * 4 + c.toNat / 64), digit (c.toNat % 64)] ++ encodeBody rest

def padding (bytes : List Byte) : List Byte := List.replicate ((3 - bytes.length % 3) % 3) 0x3D

def encode (bytes : List Byte) : List Byte := encodeBody bytes ++ padding bytes

theorem length_encodeBody (bytes : List Byte) :
    (encodeBody bytes).length = (4 * bytes.length + 2) / 3 := by
  induction bytes using encodeBody.induct with
  | case1 => rfl
  | case2 a => simp [encodeBody]
  | case3 a b => simp [encodeBody]
  | case4 a b c rest ih =>
    simp only [encodeBody, length_append, length_cons, length_nil, ih]
    omega

theorem exists_digit_of_mem {bytes : List Byte} {c : Byte} (h : c ∈ encodeBody bytes) :
    ∃ v < 64, c = digit v := by
  induction bytes using encodeBody.induct with
  | case1 => simp [encodeBody] at h
  | case2 a =>
    simp only [encodeBody, mem_cons, not_mem_nil, or_false] at h
    rcases h with rfl | rfl
    · exact ⟨_, by omega, rfl⟩
    · exact ⟨_, by omega, rfl⟩
  | case3 a b =>
    simp only [encodeBody, mem_cons, not_mem_nil, or_false] at h
    rcases h with rfl | rfl | rfl
    · exact ⟨_, by omega, rfl⟩
    · exact ⟨_, by omega, rfl⟩
    · exact ⟨_, by omega, rfl⟩
  | case4 a b c' rest ih =>
    simp only [encodeBody, cons_append, nil_append, mem_cons] at h
    rcases h with rfl | rfl | rfl | rfl | h
    · exact ⟨_, by omega, rfl⟩
    · exact ⟨_, by omega, rfl⟩
    · exact ⟨_, by omega, rfl⟩
    · exact ⟨_, by omega, rfl⟩
    · exact ih h

end Base64

end MeshcoreSniffer.Lib
