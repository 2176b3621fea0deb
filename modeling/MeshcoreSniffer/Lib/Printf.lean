import MeshcoreSniffer.Lib.CString

/-!
# Numbers as `printf` writes them

The conversions `%u`, `%d` and `%.kf`, which rounds the exact value half to even. A floating-point
value is its exact rational with its sign, an infinity or not a number (`CFloat`).
-/

namespace MeshcoreSniffer.Lib.Printf

open List

def digit (d : Nat) : Byte := BitVec.ofNat 8 (0x30 + d)

def decimal (n : Nat) : List Byte :=
  if n = 0 then [0x30] else (Nat.digits 10 n).reverse.map digit

def signed (i : Int) : List Byte :=
  if i < 0 then 0x2D :: decimal i.natAbs else decimal i.natAbs

/-- A `float` or `double`: its sign and its exact magnitude, or none. -/
inductive CFloat where
  | fin (neg : Bool) (mag : ℚ)
  | inf (neg : Bool)
  | nan (neg : Bool)
  deriving DecidableEq

def CFloat.ofRat (q : ℚ) : CFloat := .fin (q < 0) |q|

def CFloat.ofBits (w : BitVec 32) : CFloat :=
  let neg := w.getLsbD 31
  let exponent : Nat := (w >>> 23).toNat % 256
  let mantissa : Nat := w.toNat % 2 ^ 23
  if exponent = 255 then if mantissa = 0 then .inf neg else .nan neg
  else if exponent = 0 then .fin neg ((mantissa : ℚ) / 2 ^ 149)
  else if exponent < 150 then .fin neg ((2 ^ 23 + mantissa : ℚ) / 2 ^ (150 - exponent))
  else .fin neg ((2 ^ 23 + mantissa : ℚ) * 2 ^ (exponent - 150))

def roundHalfEven (n d : Nat) : Nat :=
  if 2 * (n % d) < d then n / d
  else if d < 2 * (n % d) then n / d + 1
  else if n / d % 2 = 0 then n / d
  else n / d + 1

def lastDigits (k n : Nat) : List Byte :=
  (List.range k).map fun i => digit (n / 10 ^ (k - 1 - i) % 10)

def fixedDigits (k : Nat) (mag : ℚ) : List Byte :=
  let scaled := roundHalfEven (mag.num.natAbs * 10 ^ k) mag.den
  decimal (scaled / 10 ^ k) ++ 0x2E :: lastDigits k scaled

def withSign (neg : Bool) (text : List Byte) : List Byte := if neg then 0x2D :: text else text

def CFloat.fixed (k : Nat) : CFloat → List Byte
  | .fin neg mag => withSign neg (fixedDigits k mag)
  | .inf neg => withSign neg (ascii "inf")
  | .nan neg => withSign neg (ascii "nan")

def hexDigit (d : Nat) : Byte := if d < 10 then digit d else BitVec.ofNat 8 (0x57 + d)

def hexPadded (k n : Nat) : List Byte :=
  (List.range k).map fun i => hexDigit (n / 16 ^ (k - 1 - i) % 16)

/-! ## Digits -/

variable {d k : Nat} (n : Nat) {c : Byte}

theorem digit_toNat (h : d < 10) : (digit d).toNat = 0x30 + d := by
  rw [digit, BitVec.toNat_ofNat]
  omega

theorem isDigit_digit (h : d < 10) : isDigit (digit d) = true := by
  have hd := digit_toNat h
  rw [isDigit, Bool.and_eq_true, decide_eq_true_eq, decide_eq_true_eq, BitVec.le_def, BitVec.le_def,
    hd]
  change 0x30 ≤ 0x30 + d ∧ 0x30 + d ≤ 0x39
  omega

theorem isDigit_decimal : ∀ c ∈ decimal n, isDigit c = true := by
  intro c hc
  unfold decimal at hc
  split at hc
  next =>
    rw [mem_singleton.mp hc]
    decide
  next =>
    obtain ⟨d, hd, rfl⟩ := mem_map.mp hc
    exact isDigit_digit (Nat.digits_lt_base (by decide) (mem_reverse.mp hd))

theorem isDigit_lastDigits (k n : Nat) : ∀ c ∈ lastDigits k n, isDigit c = true := by
  intro c hc
  obtain ⟨i, -, rfl⟩ := mem_map.mp hc
  exact isDigit_digit (Nat.mod_lt _ (by decide))

theorem decimal_of_ne_zero {n : Nat} (h : n ≠ 0) :
    ∃ d rest, decimal n = digit d :: rest ∧ 1 ≤ d ∧ d < 10 := by
  have hne : Nat.digits 10 n ≠ [] := Nat.digits_ne_nil_iff_ne_zero.mpr h
  have hlast := Nat.getLast_digit_ne_zero 10 h
  have hlt : (Nat.digits 10 n).getLast hne < 10 :=
    Nat.digits_lt_base (by decide) (getLast_mem hne)
  refine ⟨(Nat.digits 10 n).getLast hne, ((Nat.digits 10 n).dropLast.reverse.map digit), ?_, ?_, hlt⟩
  · rw [decimal, if_neg h]
    conv_lhs => rw [← dropLast_append_getLast hne]
    rw [reverse_append, reverse_singleton, singleton_append, map_cons]
  · exact Nat.one_le_iff_ne_zero.mpr hlast

theorem decimal_ne_nil : decimal n ≠ [] := by
  by_cases h : n = 0
  · rw [h]
    decide
  · obtain ⟨d, rest, hd, -⟩ := decimal_of_ne_zero h
    rw [hd]
    exact cons_ne_nil _ rest

theorem length_decimal_le {n : Nat} (hk : 0 < k) (h : n < 10 ^ k) : (decimal n).length ≤ k := by
  by_cases hn : n = 0
  · rw [decimal, if_pos hn]
    exact hk
  · rw [decimal, if_neg hn, length_map, length_reverse]
    exact (Nat.digits_length_le_iff (by decide) n).mpr h

theorem length_signed_le {i : Int} (hk : 0 < k) (h : i.natAbs < 10 ^ k) :
    (signed i).length ≤ k + 1 := by
  have hdigits := length_decimal_le hk h
  rw [signed]
  split
  · rw [length_cons]
    omega
  · omega

theorem fixed_ne_nil (k : Nat) (v : CFloat) : v.fixed k ≠ [] := by
  cases v with
  | fin neg mag => cases neg <;> simp [CFloat.fixed, withSign, fixedDigits]
  | inf neg => cases neg <;> simp [CFloat.fixed, withSign, ascii]
  | nan neg => cases neg <;> simp [CFloat.fixed, withSign, ascii]

theorem signed_ne_nil (i : Int) : signed i ≠ [] := by
  unfold signed
  split
  next => exact cons_ne_nil _ _
  next => exact decimal_ne_nil _

def ofDecimal (text : List Byte) : Nat :=
  Nat.ofDigits 10 (text.map fun c => c.toNat - 0x30).reverse

theorem ofDecimal_decimal : ofDecimal (decimal n) = n := by
  unfold decimal
  split
  next h =>
    rw [h]
    rfl
  next =>
    have hback : (Nat.digits 10 n).reverse.map ((fun c : Byte => c.toNat - 0x30) ∘ digit) =
        (Nat.digits 10 n).reverse := by
      conv_rhs => rw [← map_id (Nat.digits 10 n).reverse]
      refine map_congr_left fun d hd => ?_
      have hlt : d < 10 := Nat.digits_lt_base (by decide) (mem_reverse.mp hd)
      rw [Function.comp_apply, digit_toNat hlt, id_eq]
      omega
    rw [ofDecimal, map_map, hback, reverse_reverse, Nat.ofDigits_digits]

theorem decimal_injective : Function.Injective decimal :=
  Function.LeftInverse.injective ofDecimal_decimal

/-! ## The characters of a number -/

def isPrintfChar (c : Byte) : Bool := isDigit c || (ascii "-.infa").contains c

theorem isPrintfChar_of_isDigit (h : isDigit c = true) : isPrintfChar c = true := by
  rw [isPrintfChar, h, Bool.true_or]

theorem isPrintfChar_withSign {t : List Byte} (neg : Bool) (h : ∀ c ∈ t, isPrintfChar c = true) :
    ∀ c ∈ withSign neg t, isPrintfChar c = true := by
  intro c hc
  cases neg with
  | true =>
    rcases mem_cons.mp hc with rfl | hc
    · decide
    · exact h c hc
  | false => exact h c hc

theorem isPrintfChar_decimal : ∀ c ∈ decimal n, isPrintfChar c = true :=
  fun c hc => isPrintfChar_of_isDigit (isDigit_decimal n c hc)

theorem isPrintfChar_signed (i : Int) : ∀ c ∈ signed i, isPrintfChar c = true := by
  unfold signed
  split
  · exact isPrintfChar_withSign true (isPrintfChar_decimal i.natAbs)
  · exact isPrintfChar_decimal i.natAbs

theorem isPrintfChar_fixed (k : Nat) (v : CFloat) : ∀ c ∈ v.fixed k, isPrintfChar c = true := by
  cases v with
  | fin neg mag =>
    refine isPrintfChar_withSign neg fun c hc => ?_
    rcases mem_append.mp hc with hc | hc
    · exact isPrintfChar_decimal _ c hc
    rcases mem_cons.mp hc with rfl | hc
    · decide
    · exact isPrintfChar_of_isDigit (isDigit_lastDigits k _ c hc)
  | inf neg => exact isPrintfChar_withSign neg (by decide)
  | nan neg => exact isPrintfChar_withSign neg (by decide)

/-! ## Hexadecimal -/

theorem mem_hexPadded {n : Nat} (h : c ∈ hexPadded k n) : ∃ d < 16, c = hexDigit d := by
  obtain ⟨i, -, rfl⟩ := mem_map.mp h
  exact ⟨_, Nat.mod_lt _ (by decide), rfl⟩

theorem hexDigit_injective {a b : Nat} (ha : a < 16) (hb : b < 16) (h : hexDigit a = hexDigit b) :
    a = b := by
  have hall : ∀ a < 16, ∀ b < 16, hexDigit a = hexDigit b → a = b := by decide
  exact hall a ha b hb h

theorem hexPadded_injective {n m : Nat} (hn : n < 16 ^ k) (hm : m < 16 ^ k)
    (h : hexPadded k n = hexPadded k m) : n = m := by
  have hdigit : ∀ i < k, n / 16 ^ i % 16 = m / 16 ^ i % 16 := by
    intro i hi
    have hpos := map_inj_left.mp h (k - 1 - i) (mem_range.mpr (by omega))
    rw [show k - 1 - (k - 1 - i) = i by omega] at hpos
    exact hexDigit_injective (Nat.mod_lt _ (by decide)) (Nat.mod_lt _ (by decide)) hpos
  have hlow : ∀ i ≤ k, n % 16 ^ i = m % 16 ^ i := by
    intro i
    induction i with
    | zero => intro _; rw [pow_zero, Nat.mod_one, Nat.mod_one]
    | succ i ih =>
      intro hi
      rw [Nat.mod_pow_succ, Nat.mod_pow_succ, ih (by omega), hdigit i (by omega)]
  have hall := hlow k le_rfl
  rwa [Nat.mod_eq_of_lt hn, Nat.mod_eq_of_lt hm] at hall

end MeshcoreSniffer.Lib.Printf
