import MeshcoreSniffer.Lib.BitFlip

/-!
# C strings

Lists of bytes without the terminator, with the library's searches and comparisons in the C locale.
`strstr_skip`: searching behind a text in which the needle does not start.
-/

namespace MeshcoreSniffer.Lib

open List

def ascii (s : String) : List Byte := s.toList.map fun c => BitVec.ofNat 8 c.toNat

theorem ascii_ofList (l : List Char) :
    ascii (String.ofList l) = l.map fun c => BitVec.ofNat 8 c.toNat := by
  rw [ascii, String.toList_ofList]

def cString (buf : List Byte) : List Byte := buf.takeWhile (· != 0)

variable {s before a b : List Byte} {c : Byte}

theorem cString_of_not_mem (h : 0 ∉ s) (rest : List Byte) :
    cString (s ++ rest) = s ++ cString rest := by
  have hall : ∀ b ∈ s, (b != 0) = true := by
    intro b hb
    simpa using fun h0 : b = 0 => h (h0 ▸ hb)
  exact takeWhile_append_of_pos hall

def behindFirst (c : Byte) (s : List Byte) : List Byte :=
  match s.findIdx? (· == c) with
  | none => s
  | some i => s.drop (i + 1)

theorem findIdx?_of_not_mem (h : c ∉ s) : s.findIdx? (· == c) = none := by
  rw [findIdx?_eq_none_iff]
  intro b hb
  rw [beq_eq_false_iff_ne]
  rintro rfl
  exact h hb

theorem findIdx?_append_cons (h : c ∉ before) (rest : List Byte) :
    (before ++ c :: rest).findIdx? (· == c) = some before.length := by
  rw [findIdx?_append, findIdx?_of_not_mem h]
  simp [findIdx?_cons]

theorem behindFirst_of_not_mem (h : c ∉ s) : behindFirst c s = s := by
  rw [behindFirst, findIdx?_of_not_mem h]

theorem behindFirst_append (h : c ∉ before) (rest : List Byte) :
    behindFirst c (before ++ c :: rest) = rest := by
  rw [behindFirst, findIdx?_append_cons h]
  rw [append_cons]
  exact drop_left' (by simp)

def isDigit (c : Byte) : Bool := 0x30 ≤ c && c ≤ 0x39

/-! ## Letter case -/

def toLower (b : Byte) : Byte := if 0x41 ≤ b ∧ b ≤ 0x5A then b + 0x20 else b

def lowered (s : List Byte) : List Byte := s.map toLower

def strcasecmp (a b : List Byte) : Bool := lowered a == lowered b

def strncasecmp (a b : List Byte) (n : Nat) : Bool := lowered (a.take n) == lowered (b.take n)

theorem strcasecmp_of_length_ne (h : a.length ≠ b.length) : strcasecmp a b = false := by
  rw [strcasecmp, beq_eq_false_iff_ne]
  intro heq
  apply h
  have hlen := congrArg length heq
  rwa [lowered, lowered, length_map, length_map] at hlen

theorem strncasecmp_of_not_mem {n : Nat} (c : Byte) (hb : c ∈ lowered (b.take n))
    (ha : ∀ x ∈ a, toLower x ≠ c) : strncasecmp a b n = false := by
  rw [strncasecmp, beq_eq_false_iff_ne]
  intro heq
  rw [← heq] at hb
  obtain ⟨x, hx, hlower⟩ := mem_map.mp hb
  exact ha x (mem_of_mem_take hx) hlower

/-! ## Blanks -/

def isBlank (b : Byte) : Bool := b == 0x20 || b == 0x09

def skipBlanks (s : List Byte) : List Byte := s.dropWhile isBlank

theorem skipBlanks_append {blanks : List Byte} (h : ∀ b ∈ blanks, isBlank b = true)
    (rest : List Byte) : skipBlanks (blanks ++ rest) = skipBlanks rest :=
  dropWhile_append_of_pos h

theorem skipBlanks_cons {b : Byte} (h : isBlank b = false) (rest : List Byte) :
    skipBlanks (b :: rest) = b :: rest :=
  dropWhile_cons_of_neg (by simp [h])

theorem exists_blanks (s : List Byte) :
    ∃ blanks, (∀ b ∈ blanks, isBlank b = true) ∧ s = blanks ++ skipBlanks s :=
  ⟨s.takeWhile isBlank, fun _ hb => mem_takeWhile_imp hb,
    takeWhile_append_dropWhile.symm⟩

/-! ## Search -/

def strstr (needle : List Byte) : List Byte → Option Nat
  | [] => if needle = [] then some 0 else none
  | b :: s => if needle <+: b :: s then some 0 else (strstr needle s).map (· + 1)

theorem strstr_of_starts {needle : List Byte} (h : needle <+: s) : strstr needle s = some 0 := by
  cases s with
  | nil => rw [strstr, if_pos (prefix_nil.mp h)]
  | cons b s => rw [strstr, if_pos h]

theorem strstr_skip (needle l rest : List Byte)
    (h : ∀ i < l.length, ¬needle <+: (l ++ rest).drop i) :
    strstr needle (l ++ rest) = (strstr needle rest).map (· + l.length) := by
  induction l with
  | nil => simp
  | cons b l ih =>
    have hfirst : ¬needle <+: b :: (l ++ rest) := h 0 (Nat.zero_lt_succ _)
    have hlater : ∀ i < l.length, ¬needle <+: (l ++ rest).drop i := by
      intro i hi
      exact h (i + 1) (Nat.succ_lt_succ hi)
    rw [cons_append, strstr, if_neg hfirst, ih hlater, Option.map_map]
    rfl

end MeshcoreSniffer.Lib
