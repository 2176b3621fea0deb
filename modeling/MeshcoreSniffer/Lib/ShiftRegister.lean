import Mathlib

/-!
# Galois shift registers over GF(2)

A register with feedback `poly` holds a polynomial of degree below `w`; a step multiplies it by `x`
modulo `x^w + poly`. Addition is `^^^`, never the ring structure of `BitVec`. Iterates are products
(`iterate_eq_mul`), and the period is read off values of `power`.
-/

namespace MeshcoreSniffer.Lib.ShiftRegister

open Function

variable {w : Nat} (poly : BitVec w)

/-- Shift left, folding `poly` in when the top bit falls out. -/
def step (s : BitVec w) : BitVec w :=
  if s.msb then (s <<< 1) ^^^ poly else s <<< 1

/-! ## Linearity -/

theorem step_xor (a b : BitVec w) :
    step poly (a ^^^ b) = step poly a ^^^ step poly b := by
  unfold step
  rw [BitVec.msb_xor, BitVec.shiftLeft_xor_distrib]
  cases a.msb <;> cases b.msb
  · simp
  · simp [BitVec.xor_assoc]
  · simp only [Bool.true_xor, Bool.not_false, if_true, Bool.false_eq_true, if_false]
    ac_rfl
  · -- both top bits fall out: the two copies of `poly` cancel
    simp only [Bool.xor_self, Bool.false_eq_true, if_false, if_true]
    rw [show a <<< 1 ^^^ poly ^^^ (b <<< 1 ^^^ poly)
        = a <<< 1 ^^^ b <<< 1 ^^^ (poly ^^^ poly) by ac_rfl, BitVec.xor_self, BitVec.xor_zero]

@[simp] theorem step_zero : step poly 0#w = 0#w := by
  simp [step, BitVec.msb_zero]

theorem iterate_xor (n : Nat) (a b : BitVec w) :
    (step poly)^[n] (a ^^^ b) = (step poly)^[n] a ^^^ (step poly)^[n] b := by
  induction n generalizing a b with
  | zero => rfl
  | succ n ih => simp only [iterate_succ_apply, step_xor, ih]

@[simp] theorem iterate_zero_state (n : Nat) : (step poly)^[n] 0#w = 0#w := by
  induction n with
  | zero => rfl
  | succ n ih => rw [iterate_succ_apply, step_zero, ih]

theorem step_of_msb_false {s : BitVec w} (h : s.msb = false) : step poly s = s <<< 1 := by
  simp [step, h]

/-! ## Products -/

/-- Digits `i .. i+n-1` of `v`, as a polynomial in the step, applied to `e`. -/
def mulFrom (v e : BitVec w) (i : Nat) : Nat → BitVec w
  | 0 => 0#w
  | n + 1 => (if v.getLsbD i then e else 0#w) ^^^ step poly (mulFrom v e (i + 1) n)

/-- The polynomial `v`, evaluated at the step and applied to `e`. -/
def mul (v e : BitVec w) : BitVec w := mulFrom poly v e 0 w

theorem mulFrom_iterate (v u : BitVec w) (k : Nat) :
    ∀ n i, mulFrom poly v ((step poly)^[k] u) i n = (step poly)^[k] (mulFrom poly v u i n) := by
  intro n
  induction n with
  | zero => intro i; simp [mulFrom]
  | succ n ih =>
    intro i
    simp only [mulFrom, ih, iterate_xor]
    congr 1
    · split
      · rfl
      · simp
    · rw [← iterate_succ_apply (step poly), ← iterate_succ_apply' (step poly)]

theorem mulFrom_one (v : BitVec w) : ∀ n i, i + n = w → mulFrom poly v 1#w i n = v >>> i := by
  intro n
  induction n with
  | zero =>
    intro i hi
    simp only [mulFrom]
    rw [BitVec.ushiftRight_eq_zero (by omega)]
  | succ n ih =>
    intro i hi
    have hmsb : (v >>> (i + 1)).msb = false := by
      rw [BitVec.msb_eq_getLsbD_last, BitVec.getLsbD_ushiftRight]
      exact BitVec.getLsbD_of_ge _ _ (by omega)
    simp only [mulFrom, ih (i + 1) (by omega)]
    rw [step_of_msb_false poly hmsb]
    apply BitVec.eq_of_getLsbD_eq
    intro j hj
    rw [BitVec.getLsbD_xor, BitVec.getLsbD_shiftLeft, BitVec.getLsbD_ushiftRight,
      BitVec.getLsbD_ushiftRight]
    cases j with
    | zero => cases v.getLsbD i <;> simp [hj]
    | succ j =>
      have hidx : i + 1 + j = i + (j + 1) := by omega
      cases v.getLsbD i <;> simp [hj, hidx]

theorem iterate_eq_mul (k : Nat) (v : BitVec w) :
    (step poly)^[k] v = mul poly v ((step poly)^[k] 1#w) := by
  rw [mul, mulFrom_iterate, mulFrom_one poly v w 0 (by omega), BitVec.ushiftRight_zero]

/-! ## Powers and the period -/

def ofDigits (ds : List Bool) : Nat := ds.foldl (fun n d => 2 * n + d.toNat) 0

/-- Square-and-multiply: the iterate of `1` at a binary numeral. -/
def power (ds : List Bool) : BitVec w :=
  ds.foldl (fun e d => if d then step poly (mul poly e e) else mul poly e e) 1#w

theorem power_eq_iterate (ds : List Bool) :
    power poly ds = (step poly)^[ofDigits ds] 1#w := by
  -- one more digit doubles the exponent, and `mul e e` doubles the iterate
  have digit : ∀ (ds : List Bool) (n : Nat),
      ds.foldl (fun e d => if d then step poly (mul poly e e) else mul poly e e)
          ((step poly)^[n] 1#w)
        = (step poly)^[ds.foldl (fun n d => 2 * n + d.toNat) n] 1#w := by
    intro ds
    induction ds with
    | nil => intro n; rfl
    | cons d ds ih =>
      intro n
      have square : mul poly ((step poly)^[n] 1#w) ((step poly)^[n] 1#w)
          = (step poly)^[2 * n] 1#w := by
        rw [← iterate_eq_mul, ← iterate_add_apply, two_mul]
      simp only [List.foldl_cons]
      rw [← ih]
      congr 1
      cases d with
      | false => simpa using square
      | true =>
        rw [square, if_pos rfl]
        exact (iterate_succ_apply' (step poly) (2 * n) 1#w).symm
  exact digit ds 0

theorem minimalPeriod_eq_of_prime_quotients {α : Type*} {f : α → α} {x : α} {n : Nat}
    (hper : f^[n] x = x)
    (hquot : ∀ p, p.Prime → p ∣ n → f^[n / p] x ≠ x) : minimalPeriod f x = n := by
  have hdvd : minimalPeriod f x ∣ n := IsPeriodicPt.minimalPeriod_dvd hper
  obtain ⟨q, hq⟩ := hdvd
  by_contra hne
  have hq1 : q ≠ 1 := by
    rintro rfl
    exact hne (by omega)
  obtain ⟨p, hp, r, hr⟩ := Nat.exists_prime_and_dvd hq1
  have hpn : p ∣ n := ⟨minimalPeriod f x * r, by rw [hq, hr]; ring⟩
  refine hquot p hp hpn ?_
  have hdiv : n / p = minimalPeriod f x * r := by
    apply Nat.div_eq_of_eq_mul_right hp.pos
    rw [hq, hr]
    ring
  rw [hdiv]
  exact (isPeriodicPt_minimalPeriod f x).mul_const r

/-! ## Parity -/

/-- The state at `x = 1`: the sum of its digits modulo two. -/
def parity (s : BitVec w) : ZMod 2 := ∑ i : Fin w, if s.getLsbD i then 1 else 0

theorem parity_xor (a b : BitVec w) : parity (a ^^^ b) = parity a + parity b := by
  unfold parity
  rw [← Finset.sum_add_distrib]
  refine Finset.sum_congr rfl fun i _ => ?_
  rw [BitVec.getLsbD_xor]
  cases a.getLsbD i <;> cases b.getLsbD i <;> decide

theorem parity_shiftLeft_one (s : BitVec w) :
    parity (s <<< 1) + (if s.msb then 1 else 0) = parity s := by
  cases w with
  | zero => simp [parity, BitVec.msb_eq_getLsbD_last]
  | succ n =>
    have hlow : ∀ i : Fin n, (s <<< 1).getLsbD (i.succ : Nat) = s.getLsbD (i.castSucc : Nat) := by
      intro i
      simp
    unfold parity
    rw [Fin.sum_univ_succ, Fin.sum_univ_castSucc, BitVec.msb_eq_getLsbD_last]
    simp only [hlow]
    simp

theorem parity_iterate {poly : BitVec w} (hpoly : parity poly = 1) (n : Nat) (s : BitVec w) :
    parity ((step poly)^[n] s) = parity s := by
  have hstep : ∀ s, parity (step poly s) = parity s := by
    intro s
    rw [← parity_shiftLeft_one s, step]
    split
    · rw [parity_xor, hpoly]
    · rw [add_zero]
  induction n generalizing s with
  | zero => rfl
  | succ n ih => rw [iterate_succ_apply, ih, hstep]

end MeshcoreSniffer.Lib.ShiftRegister
