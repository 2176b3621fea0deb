import MeshcoreSniffer.Lib.Json

/-!
# What a JSON string stands for

`Json.scanString` only recognises a string; here it is decoded, `\u` escapes to UTF-8.
`readLiteral_quoted` is the rule for writers.
-/

namespace MeshcoreSniffer.Lib.Json

open List

/-! ## The reader -/

def hexQuad (s : List Byte) : Option (Nat × List Byte) :=
  match hexPairs 2 s with
  | some [hi, lo] => some (hi.toNat * 256 + lo.toNat, s.drop 4)
  | _ => none

def utf8 (n : Nat) : List Byte :=
  if n < 0x80 then [BitVec.ofNat 8 n]
  else if n < 0x800 then [BitVec.ofNat 8 (0xC0 + n / 64), BitVec.ofNat 8 (0x80 + n % 64)]
  else if n < 0x10000 then
    [BitVec.ofNat 8 (0xE0 + n / 4096), BitVec.ofNat 8 (0x80 + n / 64 % 64),
      BitVec.ofNat 8 (0x80 + n % 64)]
  else
    [BitVec.ofNat 8 (0xF0 + n / 262144), BitVec.ofNat 8 (0x80 + n / 4096 % 64),
      BitVec.ofNat 8 (0x80 + n / 64 % 64), BitVec.ofNat 8 (0x80 + n % 64)]

/-- Behind `\u`: one code unit, or the first half of a pair with the second behind its own
escape. -/
def readUnicode (s : List Byte) : Option (List Byte × List Byte) :=
  match hexQuad s with
  | none => none
  | some (n, r) =>
    if n < 0xD800 ∨ 0xE000 ≤ n then some (utf8 n, r)
    else if n < 0xDC00 then
      match r with
      | 0x5C :: 0x75 :: r =>
        match hexQuad r with
        | some (m, r) =>
          if 0xDC00 ≤ m ∧ m < 0xE000 then
            some (utf8 (0x10000 + (n - 0xD800) * 1024 + (m - 0xDC00)), r)
          else none
        | none => none
      | _ => none
    else none

def escapeLetters : List (Byte × Byte) :=
  [ (0x22, 0x22), (0x5C, 0x5C), (0x2F, 0x2F), (0x62, 0x08), (0x66, 0x0C), (0x6E, 0x0A), (0x72, 0x0D),
    (0x74, 0x09) ]

def readChar : List Byte → Option (List Byte × List Byte)
  | [] => none
  | c :: r =>
    if c = 0x5C then
      match r with
      | [] => none
      | e :: r =>
        if e = 0x75 then readUnicode r else (escapeLetters.lookup e).map fun c => ([c], r)
    else if c = 0x22 ∨ c < 0x20 then none
    else some ([c], r)

def readChars : Nat → List Byte → Option (List Byte × List Byte)
  | 0, _ => none
  | fuel + 1, s =>
    if s.head? = some 0x22 then some ([], s.drop 1)
    else
      match readChar s with
      | none => none
      | some (c, r) => (readChars fuel r).map fun p => (c ++ p.1, p.2)

def readLiteral (t : List Byte) : Option (List Byte) :=
  if t.head? = some 0x22 then
    match readChars t.length (t.drop 1) with
    | some (s, []) => some s
    | _ => none
  else none

example : readLiteral (ascii "\"a\\u00e9\\n\\ud83d\\ude00\"") =
    some [0x61, 0xC3, 0xA9, 0x0A, 0xF0, 0x9F, 0x98, 0x80] := by
  decide +kernel

/-! ## Literals that are read back -/

/-- The encoding of `c` is read as `c`. -/
def ReadsBack (enc : Byte → List Byte) (c : Byte) : Prop := ∀ r, readChar (enc c ++ r) = some ([c], r)

variable {enc : Byte → List Byte} {c : Byte} {s : List Byte}

theorem ReadsBack.head (h : ReadsBack enc c) (r : List Byte) : (enc c ++ r).head? ≠ some 0x22 := by
  intro hquote
  have hread := h r
  cases hs : enc c ++ r with
  | nil =>
    rw [hs] at hquote
    cases hquote
  | cons b t =>
    rw [hs] at hquote hread
    obtain rfl : b = 0x22 := Option.some.inj hquote
    cases hread

theorem readChars_flatMap (h : ∀ c ∈ s, ReadsBack enc c) {fuel : Nat} (hfuel : s.length < fuel)
    (r : List Byte) : readChars fuel (s.flatMap enc ++ 0x22 :: r) = some (s, r) := by
  induction s generalizing fuel with
  | nil =>
    obtain ⟨n, rfl⟩ : ∃ n, fuel = n + 1 := ⟨fuel - 1, by omega⟩
    rfl
  | cons c s ih =>
    obtain ⟨hc, hs⟩ := forall_mem_cons.mp h
    obtain ⟨n, rfl⟩ : ∃ n, fuel = n + 1 := ⟨fuel - 1, by omega⟩
    rw [length_cons] at hfuel
    rw [flatMap_cons, append_assoc, readChars, if_neg (hc.head _), hc]
    dsimp only
    rw [ih hs (Nat.lt_of_succ_lt_succ hfuel)]
    rfl

theorem ReadsBack.ne_nil (h : ReadsBack enc c) : enc c ≠ [] := by
  intro hnil
  have hread := h []
  rw [hnil] at hread
  cases hread

theorem length_le_flatMap (h : ∀ c ∈ s, ReadsBack enc c) : s.length ≤ (s.flatMap enc).length := by
  induction s with
  | nil => exact le_rfl
  | cons c s ih =>
    obtain ⟨hc, hs⟩ := forall_mem_cons.mp h
    have hpos := length_pos_iff.mpr hc.ne_nil
    have hrest := ih hs
    rw [flatMap_cons, length_append, length_cons]
    omega

/-- **Round trip.** A string written byte by byte is read back. -/
theorem readLiteral_quoted (h : ∀ c ∈ s, ReadsBack enc c) :
    readLiteral (quoted (s.flatMap enc)) = some s := by
  have hlen := length_le_flatMap h
  have hfuel : s.length < (quoted (s.flatMap enc)).length := by
    rw [quoted, length_cons, length_append]
    omega
  have hread := readChars_flatMap h hfuel []
  have hhead : (quoted (s.flatMap enc)).head? = some 0x22 := rfl
  have hdrop : (quoted (s.flatMap enc)).drop 1 = s.flatMap enc ++ [0x22] := rfl
  rw [readLiteral, if_pos hhead, hdrop, hread]

end MeshcoreSniffer.Lib.Json
