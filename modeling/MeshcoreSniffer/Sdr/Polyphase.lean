import Mathlib
import MeshcoreSniffer.Lib.Blocks
import MeshcoreSniffer.Lib.Circular
import MeshcoreSniffer.Lib.Mealy

/-!
# The polyphase filterbank

`pfb.c` splits a wideband stream into `M` channels. The critically sampled path keeps a delay line
per branch, a reversed ring written twice (`CriticalInv`); the oversampled path one ring, fired
every `M / os` samples (`OversampledInv`). `polyphase` is the textbook convolution of a branch.
-/

namespace MeshcoreSniffer.Sdr

open Lib List

variable {ν R : Type*}

/-! ## Model -/

/-- The pre-shift oscillator, the FFT and the phase twiddle of a bin at a block start. -/
structure FrontEnd (ν R : Type*) where
  phasor : ν → R
  rotate : ν → ν
  fft : List R → List R
  twiddle : (m bin shift : Nat) → R

/-- `m` channels, `l` taps per branch, the oversampling factor and the taps. -/
structure Bank (R : Type*) where
  m : Nat
  l : Nat
  os : Nat
  hP : List R

structure Pfb (ν R : Type*) where
  bank : Bank R
  dly : List R
  dlyW : Nat
  sampleCount : Nat
  hist : List R
  histW : Nat
  totalIn : Nat
  warmupRemaining : Nat
  nco : ν

inductive PfbEvent (R : Type*)
  | fft (input : List R)
  | emit (bins : List R)

def ffts (events : List (PfbEvent R)) : List (List R) :=
  events.filterMap fun
    | .fft input => some input
    | .emit _ => none

def Pfb.fire (p : Pfb ν R) (fftIn bins : List R) : Pfb ν R × List (PfbEvent R) :=
  if 0 < p.warmupRemaining then
    ({ p with warmupRemaining := p.warmupRemaining - 1 }, [.fft fftIn])
  else (p, [.fft fftIn, .emit bins])

theorem fire_eq (p : Pfb ν R) (fftIn bins : List R) :
    ∃ warmup, (p.fire fftIn bins).1 = { p with warmupRemaining := warmup } := by
  unfold Pfb.fire
  split
  · exact ⟨_, rfl⟩
  · exact ⟨p.warmupRemaining, rfl⟩

theorem bank_fire (p : Pfb ν R) (fftIn bins : List R) : (p.fire fftIn bins).1.bank = p.bank := by
  obtain ⟨warmup, heq⟩ := fire_eq p fftIn bins
  rw [heq]

theorem ffts_fire (p : Pfb ν R) (fftIn bins : List R) : ffts (p.fire fftIn bins).2 = [fftIn] := by
  unfold Pfb.fire
  split <;> rfl

theorem ffts_append (a b : List (PfbEvent R)) : ffts (a ++ b) = ffts a ++ ffts b :=
  filterMap_append

variable {w m l i k stride b r j n c os : Nat} {p : Pfb ν R} {events : List (PfbEvent R)}
  {dly : List R} {x : Nat → R} {nco : ν} {sample : R}

variable [CommRing R]

def transpose (h : List R) (m l : Nat) : List R :=
  (List.range m).flatMap fun i => (List.range l).map fun k => h.getD (k * m + i) 0

def Pfb.fresh (h : List R) (m l os : Nat) (nco : ν) : Pfb ν R where
  bank := { m := m, l := l, os := os, hP := transpose h m l }
  dly := List.replicate (m * (2 * l)) 0
  dlyW := 0
  sampleCount := 0
  hist := List.replicate (m * l) 0
  histW := 0
  totalIn := 0
  warmupRemaining := ((l - 1) / 2 + 1) * os
  nco := nco

/-- `pfb_create`, with memory for everything. -/
def pfbCreate (h : List R) (m l : Nat) (nco : ν) : Option (Pfb ν R) :=
  if m < 1 ∨ l < 2 then none else some (.fresh h m l 1 nco)

def pfbCreateOs (h : List R) (m l os : Nat) (nco : ν) : Option (Pfb ν R) :=
  let os := if os < 1 then 1 else os
  if 1 < os ∧ m % os ≠ 0 then none
  else (pfbCreate h m l nco).map fun p =>
    if os = 1 then p
    else { p with
      bank := { p.bank with os := os }, warmupRemaining := ((l - 1) / 2 + 1) * os }

def fftInCritical (p : Pfb ν R) : List R :=
  let base := (p.bank.l - p.dlyW) % p.bank.l
  let stride := 2 * p.bank.l
  (List.range p.bank.m).map fun i =>
    (List.range p.bank.l).foldl (fun acc k =>
      acc + p.dly.getD (i * stride + base + k) 0 * p.bank.hP.getD (i * p.bank.l + k) 0) 0

def pfbOneCycle (fe : FrontEnd ν R) (p : Pfb ν R) : Pfb ν R × List (PfbEvent R) :=
  p.fire (fftInCritical p) (fe.fft (fftInCritical p))

def histPos (cap w back : Nat) : Nat :=
  let hpos := ((w : Int) - 1 - back).tmod cap
  (if hpos < 0 then hpos + cap else hpos).toNat

def back (m i k : Nat) : Nat := (m - 1 - i) + k * m

def fftInOs (p : Pfb ν R) : List R :=
  let cap := p.bank.m * p.bank.l
  (List.range p.bank.m).map fun i =>
    ((List.range p.bank.l).takeWhile fun k => back p.bank.m i k < cap).foldl (fun acc k =>
      acc + p.hist.getD (histPos cap p.histW (back p.bank.m i k)) 0 *
        p.bank.hP.getD (i * p.bank.l + k) 0) 0

def pfbCycleOs (fe : FrontEnd ν R) (p : Pfb ν R) : Pfb ν R × List (PfbEvent R) :=
  let out := fe.fft (fftInOs p)
  let shift := (((p.totalIn : Int) - p.bank.m) % p.bank.m).toNat
  let bins := (List.range p.bank.m).map fun b =>
    if shift ≠ 0 then out.getD b 0 * fe.twiddle p.bank.m b shift else out.getD b 0
  p.fire (fftInOs p) bins

def Pfb.mixed (fe : FrontEnd ν R) (p : Pfb ν R) (sample : R) : R := sample * fe.phasor p.nco

def Bank.hop (b : Bank R) : Nat := b.m / b.os

def Pfb.pushHist (fe : FrontEnd ν R) (p : Pfb ν R) (sample : R) : Pfb ν R :=
  { p with
    nco := fe.rotate p.nco
    hist := p.hist.set p.histW (p.mixed fe sample)
    histW := (p.histW + 1) % (p.bank.m * p.bank.l)
    totalIn := p.totalIn + 1 }

/-- A turn of the loop of `pfb_process_os`. -/
def pfbSampleOs (fe : FrontEnd ν R) (p : Pfb ν R) (sample : R) : Pfb ν R × List (PfbEvent R) :=
  let p := p.pushHist fe sample
  if p.totalIn % p.bank.hop = 0 then pfbCycleOs fe p else (p, [])

/-- A turn of the loop of `pfb_process` for a single channel, which is passed through. -/
def pfbSampleDirect (fe : FrontEnd ν R) (p : Pfb ν R) (sample : R) : Pfb ν R × List (PfbEvent R) :=
  ({ p with nco := fe.rotate p.nco }, [.emit [p.mixed fe sample]])

def Pfb.pushBranch (fe : FrontEnd ν R) (p : Pfb ν R) (sample : R) : Pfb ν R :=
  let x := p.mixed fe sample
  let rev := p.bank.l - 1 - p.dlyW
  let row := p.sampleCount * (2 * p.bank.l)
  { p with
    nco := fe.rotate p.nco
    dly := (p.dly.set (row + rev) x).set (row + rev + p.bank.l) x
    sampleCount := p.sampleCount + 1 }

def Pfb.nextCycle (p : Pfb ν R) : Pfb ν R :=
  { p with dlyW := (p.dlyW + 1) % p.bank.l, sampleCount := 0 }

/-- A turn of the loop of `pfb_process`: at the last branch a cycle. -/
def pfbSampleCritical (fe : FrontEnd ν R) (p : Pfb ν R) (sample : R) :
    Pfb ν R × List (PfbEvent R) :=
  let p := p.pushBranch fe sample
  if p.sampleCount = p.bank.m then pfbOneCycle fe p.nextCycle else (p, [])

def pfbSample (fe : FrontEnd ν R) (p : Pfb ν R) (sample : R) : Pfb ν R × List (PfbEvent R) :=
  if 1 < p.bank.os then pfbSampleOs fe p sample
  else if p.bank.m = 1 then pfbSampleDirect fe p sample
  else pfbSampleCritical fe p sample

def pfbProcess (fe : FrontEnd ν R) (p : Pfb ν R) (samples : List R) :
    Pfb ν R × List (PfbEvent R) :=
  if 1 < p.bank.os then Mealy.run (pfbSampleOs fe) p samples
  else if p.bank.m = 1 then Mealy.run (pfbSampleDirect fe) p samples
  else Mealy.run (pfbSampleCritical fe) p samples

/-! ## What the filterbank computes -/

/-- The convolution of branch `i` at cycle `c`; the stream is zero before its start. -/
def polyphase (h : List R) (m l : Nat) (x : Nat → R) (c i : Nat) : R :=
  ∑ k ∈ Finset.range l, h.getD (k * m + i) 0 * if k ≤ c then x ((c - k) * m + i) else 0

/-- The vector of all branches at cycle `c`. -/
def polyphaseVector (h : List R) (m l : Nat) (x : Nat → R) (c : Nat) : List R :=
  (List.range m).map (polyphase h m l x c)

def preShifted (fe : FrontEnd ν R) (nco : ν) (samples : List R) (n : Nat) : R :=
  samples.getD n 0 * fe.phasor (fe.rotate^[n] nco)

/-! ## Chunks -/

variable (fe : FrontEnd ν R)

theorem bank_sampleOs (p : Pfb ν R) (sample : R) : (pfbSampleOs fe p sample).1.bank = p.bank := by
  unfold pfbSampleOs
  dsimp only
  split
  · exact bank_fire _ _ _
  · rfl

theorem bank_sampleCritical (p : Pfb ν R) (sample : R) :
    (pfbSampleCritical fe p sample).1.bank = p.bank := by
  unfold pfbSampleCritical
  dsimp only
  split
  · exact bank_fire _ _ _
  · rfl

theorem pfbProcess_eq (p : Pfb ν R) (samples : List R) :
    pfbProcess fe p samples = Mealy.run (pfbSample fe) p samples := by
  unfold pfbProcess
  split
  next hos =>
    refine Mealy.run_congr (P := fun q => q.bank = p.bank) (fun q sample hq => ?_)
      (fun q sample hq => (bank_sampleOs fe q sample).trans hq) rfl samples
    rw [pfbSample, if_pos (by rw [hq]; exact hos)]
  next hos =>
    split
    next hm =>
      refine Mealy.run_congr (P := fun q => q.bank = p.bank) (fun q sample hq => ?_)
        (fun q sample hq => hq) rfl samples
      rw [pfbSample, if_neg (by rw [hq]; exact hos), if_pos (by rw [hq]; exact hm)]
    next hm =>
      refine Mealy.run_congr (P := fun q => q.bank = p.bank) (fun q sample hq => ?_)
        (fun q sample hq => (bank_sampleCritical fe q sample).trans hq) rfl samples
      rw [pfbSample, if_neg (by rw [hq]; exact hos), if_neg (by rw [hq]; exact hm)]

theorem process_chunks (p : Pfb ν R) (chunks : List (List R)) :
    Mealy.run (pfbProcess fe) p chunks = Mealy.run (pfbSample fe) p chunks.flatten := by
  rw [← Mealy.run_flatten]
  congr 1
  funext q samples
  exact pfbProcess_eq fe q samples

/-! ## Loops and arrays -/

theorem foldl_acc (f g : Nat → R) (n : Nat) :
    (range n).foldl (fun acc k => acc + f k * g k) 0 =
      ∑ k ∈ Finset.range n, g k * f k := by
  induction n with
  | zero => rfl
  | succ n ih =>
    rw [range_succ, foldl_append, ih, Finset.sum_range_succ, foldl_cons,
      foldl_nil, mul_comm (f n)]

theorem getD_zeros (n j : Nat) : (replicate n (0 : R)).getD j 0 = 0 := by
  rw [getD_eq_getElem?_getD, getElem?_replicate]
  split <;> rfl

theorem getD_transpose (h : List R) (hi : i < m) (hk : k < l) :
    (transpose h m l).getD (i * l + k) 0 = h.getD (k * m + i) 0 := by
  have hrows : (range m).drop i = i :: (range m).drop (i + 1) := by
    rw [drop_eq_getElem_cons (by rwa [length_range]), getElem_range]
  rw [getD_eq_getElem?_getD, ← getElem?_drop, transpose,
    drop_flatMap (fun _ _ => by rw [length_map, length_range]), hrows, flatMap_cons,
    getElem?_append_left (by rwa [length_map, length_range]), getElem?_map,
    getElem?_range hk]
  rfl

theorem row_column (hr : r < stride) (hj : j < stride) :
    b * stride + r = i * stride + j ↔ i = b ∧ j = r := by
  constructor
  · intro heq
    have hrow := congrArg (· / stride) heq
    have hcolumn := congrArg (· % stride) heq
    simp only [Nat.mul_add_mod_self_right, Nat.mod_eq_of_lt hr, Nat.mod_eq_of_lt hj] at hcolumn
    rw [hcolumn] at heq
    exact ⟨(Nat.eq_of_mul_eq_mul_right (by omega) (Nat.add_right_cancel heq)).symm, hcolumn.symm⟩
  · rintro ⟨rfl, rfl⟩
    rfl

theorem getD_set_row {cells : List R} (hr : r < stride) (hj : j < stride)
    (hlength : b * stride + r < cells.length) (x : R) :
    (cells.set (b * stride + r) x).getD (i * stride + j) 0 =
      if i = b ∧ j = r then x else cells.getD (i * stride + j) 0 := by
  rw [getD_eq_getElem?_getD, getElem?_set, getD_eq_getElem?_getD]
  by_cases hcell : i = b ∧ j = r
  · rw [if_pos ((row_column hr hj).mpr hcell), if_pos hlength, if_pos hcell]
    rfl
  · rw [if_neg (fun heq => hcell ((row_column hr hj).mp heq)), if_neg hcell]

/-! ## Critical sampling -/

def branchCount (m n i : Nat) : Nat := n / m + if i < n % m then 1 else 0

/-- What branch `i` got at its cycle `q`, counted after `l` cycles of silence. -/
def delayed (m l : Nat) (x : Nat → R) (i q : Nat) : R := if l ≤ q then x ((q - l) * m + i) else 0

theorem divMod_succ (hm : 0 < m) (n : Nat) :
    (n % m + 1 < m ∧ (n + 1) / m = n / m ∧ (n + 1) % m = n % m + 1) ∨
      (n % m + 1 = m ∧ (n + 1) / m = n / m + 1 ∧ (n + 1) % m = 0) := by
  have hdiv := Nat.div_add_mod n m
  have hmod : n % m < m := Nat.mod_lt n hm
  rcases Nat.lt_or_ge (n % m + 1) m with hlt | hge
  · refine .inl ⟨hlt, (Nat.div_mod_unique hm).mpr ⟨?_, hlt⟩⟩
    omega
  · refine .inr ⟨by omega, (Nat.div_mod_unique hm).mpr ⟨?_, hm⟩⟩
    rw [Nat.mul_add]
    omega

theorem branchCount_succ (hm : 0 < m) (n : Nat) (hi : i < m) :
    branchCount m (n + 1) i = branchCount m n i + if i = n % m then 1 else 0 := by
  unfold branchCount
  rcases divMod_succ hm n with ⟨-, hdiv, hmod⟩ | ⟨hwrap, hdiv, hmod⟩ <;> rw [hdiv, hmod] <;>
    split_ifs <;> omega

/-- **Invariant.** Both copies of the cell of each of the last `l` cycles hold its sample. -/
structure CriticalInv (m l : Nat) (x : Nat → R) (n : Nat) (p : Pfb ν R) : Prop where
  count : p.sampleCount = n % m
  write : p.dlyW = n / m % l
  length : p.dly.length = m * (2 * l)
  cells : ∀ i < m, ∀ q, branchCount m n i ≤ q → q < branchCount m n i + l →
    p.dly.getD (i * (2 * l) + (l - 1 - q % l)) 0 = delayed m l x i q ∧
      p.dly.getD (i * (2 * l) + (l - 1 - q % l + l)) 0 = delayed m l x i q

theorem getD_store (hlength : dly.length = m * (2 * l)) (hb : b < m) (hr : r < l) (hj : j < 2 * l)
    (v : R) : ((dly.set (b * (2 * l) + r) v).set (b * (2 * l) + r + l) v).getD (i * (2 * l) + j) 0 =
      if i = b ∧ (j = r ∨ j = r + l) then v else dly.getD (i * (2 * l) + j) 0 := by
  have hrow : (b + 1) * (2 * l) ≤ m * (2 * l) := Nat.mul_le_mul_right _ hb
  rw [Nat.succ_mul] at hrow
  rw [Nat.add_assoc (b * (2 * l)), getD_set_row (by omega) hj (by rw [length_set]; omega),
    getD_set_row (by omega) hj (by omega)]
  split_ifs <;> first | rfl | omega

theorem mod_ne_of_lt {a q : Nat} (hlt : a < q) (hnear : q < a + l) : q % l ≠ a % l := by
  intro heq
  have hzero := Nat.sub_mod_eq_zero_of_mod_eq heq
  rw [Nat.mod_eq_of_lt (by omega)] at hzero
  omega

/-- **Step.** A stored sample takes the place of the one of `l` cycles ago. -/
theorem cells_store (hm : 0 < m) (hl : 0 < l) (h : CriticalInv m l x n p) :
    ∀ i < m, ∀ q, branchCount m (n + 1) i ≤ q → q < branchCount m (n + 1) i + l →
      let dly := (p.dly.set (p.sampleCount * (2 * l) + (l - 1 - p.dlyW)) (x n)).set
        (p.sampleCount * (2 * l) + (l - 1 - p.dlyW) + l) (x n)
      dly.getD (i * (2 * l) + (l - 1 - q % l)) 0 = delayed m l x i q ∧
        dly.getD (i * (2 * l) + (l - 1 - q % l + l)) 0 = delayed m l x i q := by
  intro i hi q hlow hhigh
  have hq : q % l < l := Nat.mod_lt q hl
  have hw : n / m % l < l := Nat.mod_lt _ hl
  have hb : n % m < m := Nat.mod_lt n hm
  rw [branchCount_succ hm n hi] at hlow hhigh
  dsimp only
  rw [h.count, h.write, getD_store h.length hb (by omega) (by omega),
    getD_store h.length hb (by omega) (by omega)]
  by_cases hbranch : i = n % m
  · rw [if_pos hbranch] at hlow hhigh
    have hcount : branchCount m n i = n / m := by
      rw [branchCount, if_neg (by omega), Nat.add_zero]
    rw [hcount] at hlow hhigh
    rcases Nat.lt_or_ge q (n / m + l) with hold | hnew
    · have hne := mod_ne_of_lt (a := n / m) (q := q) (l := l) (by omega) hold
      rw [if_neg (by omega), if_neg (by omega)]
      exact h.cells i hi q (by omega) (by omega)
    · obtain rfl : q = n / m + l := by omega
      have hvalue : delayed m l x i (n / m + l) = x n := by
        rw [delayed, if_pos (by omega), Nat.add_sub_cancel, hbranch, Nat.mul_comm,
          Nat.div_add_mod]
      rw [Nat.add_mod_right, if_pos (by omega), if_pos (by omega), hvalue]
      exact ⟨rfl, rfl⟩
  · rw [if_neg hbranch] at hlow hhigh
    rw [if_neg (by omega), if_neg (by omega)]
    exact h.cells i hi q (by omega) (by omega)

theorem window_eq (hl : 0 < l)
    (hcells : ∀ i < m, ∀ q, c + 1 ≤ q → q < c + 1 + l → dly.getD (i * (2 * l) + (l - 1 - q % l)) 0 = delayed m l x i q ∧ dly.getD (i * (2 * l) + (l - 1 - q % l + l)) 0 = delayed m l x i q)
    (hi : i < m) (hk : k < l) : dly.getD (i * (2 * l) + (l - (c + 1) % l) % l + k) 0 =
      if k ≤ c then x ((c - k) * m + i) else 0 := by
  obtain ⟨hfirst, hsecond⟩ := hcells i hi (c + l - k) (by omega) (by omega)
  have hvalue : delayed m l x i (c + l - k) = if k ≤ c then x ((c - k) * m + i) else 0 := by
    unfold delayed
    split_ifs with h1 h2 h2
    · rw [show c + l - k - l = c - k by omega]
    · omega
    · omega
    · rfl
  -- the cell of the newest sample, then that of the sample `k` cycles before
  have hbase : (l - (c + 1) % l) % l = l - 1 - c % l := by
    have hc : c % l < l := Nat.mod_lt c hl
    rcases divMod_succ hl c with ⟨-, -, hmod⟩ | ⟨hwrap, -, hmod⟩
    · rw [hmod, Nat.mod_eq_of_lt (by omega)]
      omega
    · rw [hmod, Nat.sub_zero, Nat.mod_self]
      omega
  have hcell : (c + l - k) % l = if k ≤ c % l then c % l - k else c % l + l - k := by
    have hc : c % l < l := Nat.mod_lt c hl
    have hsplit := Nat.div_add_mod c l
    split
    next hle =>
      have heq : c + l - k = (c % l - k) + (c / l + 1) * l := by
        rw [Nat.add_mul, Nat.mul_comm (c / l)]
        omega
      rw [heq, Nat.add_mul_mod_self_right, Nat.mod_eq_of_lt (by omega)]
    next hgt =>
      have heq : c + l - k = (c % l + l - k) + (c / l) * l := by
        rw [Nat.mul_comm (c / l)]
        omega
      rw [heq, Nat.add_mul_mod_self_right, Nat.mod_eq_of_lt (by omega)]
  rw [← hvalue, hbase]
  have hc : c % l < l := Nat.mod_lt c hl
  split at hcell
  next hle =>
    rw [← hfirst, hcell]
    congr 1
    omega
  next hgt =>
    rw [← hsecond, hcell]
    congr 1
    omega

/-- After `n` samples of a stream: the vectors so far, and the state. -/
structure CriticalRun (fe : FrontEnd ν R) (h : List R) (m l : Nat) (nco : ν) (x : Nat → R) (n : Nat)
    (r : Pfb ν R × List (PfbEvent R)) : Prop where
  bank : r.1.bank = ⟨m, l, 1, transpose h m l⟩
  nco : r.1.nco = fe.rotate^[n] nco
  inv : CriticalInv m l x n r.1
  ffts : ffts r.2 = (List.range (n / m)).map (polyphaseVector h m l x)

theorem fftIn_critical {h : List R} (hl : 0 < l) (hbank : p.bank = ⟨m, l, 1, transpose h m l⟩)
    (hwrite : p.dlyW = (c + 1) % l)
    (hcells : ∀ i < m, ∀ q, c + 1 ≤ q → q < c + 1 + l → p.dly.getD (i * (2 * l) + (l - 1 - q % l)) 0 = delayed m l x i q ∧ p.dly.getD (i * (2 * l) + (l - 1 - q % l + l)) 0 = delayed m l x i q) :
    fftInCritical p = polyphaseVector h m l x c := by
  rw [fftInCritical, hbank, hwrite, polyphaseVector]
  apply map_congr_left
  intro i hi
  have him : i < m := mem_range.mp hi
  dsimp only
  rw [foldl_acc (fun k => p.dly.getD (i * (2 * l) + (l - (c + 1) % l) % l + k) 0)
    (fun k => (transpose h m l).getD (i * l + k) 0), polyphase]
  apply Finset.sum_congr rfl
  intro k hk
  have hkl : k < l := Finset.mem_range.mp hk
  rw [getD_transpose h him hkl, window_eq hl hcells him hkl]

theorem critical_fire {h : List R} (hl : 0 < l) (hbank : p.bank = ⟨m, l, 1, transpose h m l⟩)
    (hnco : p.nco = fe.rotate^[n] nco) (hinv : CriticalInv m l x n p) (hdiv : n / m = c + 1)
    (hmod : n % m = 0) (hffts : ffts events = (range c).map (polyphaseVector h m l x)) :
    CriticalRun fe h m l nco x n ((pfbOneCycle fe p).1, events ++ (pfbOneCycle fe p).2) := by
  have hcount : ∀ i, branchCount m n i = c + 1 := by
    intro i
    rw [branchCount, hdiv, hmod, if_neg (Nat.not_lt_zero i), Nat.add_zero]
  have hvector : fftInCritical p = polyphaseVector h m l x c := by
    apply fftIn_critical hl hbank
    · rw [hinv.write, hdiv]
    · intro i hi q hlow hhigh
      exact hinv.cells i hi q (by rw [hcount]; exact hlow) (by rw [hcount]; exact hhigh)
  obtain ⟨warmup, hfire⟩ := fire_eq p (fftInCritical p) (fe.fft (fftInCritical p))
  rw [pfbOneCycle, hfire]
  refine ⟨hbank, hnco, ⟨hinv.count, hinv.write, hinv.length, hinv.cells⟩, ?_⟩
  rw [ffts_append, hffts, ffts_fire, hvector, hdiv, range_succ, map_append]
  rfl

theorem critical_step {h : List R} (hm : 2 ≤ m) (hl : 0 < l) {r : Pfb ν R × List (PfbEvent R)}
    (hr : CriticalRun fe h m l nco x n r) (hx : sample * fe.phasor (fe.rotate^[n] nco) = x n) :
    CriticalRun fe h m l nco x (n + 1)
      ((pfbSample fe r.1 sample).1, r.2 ++ (pfbSample fe r.1 sample).2) := by
  obtain ⟨p, events⟩ := r
  obtain ⟨hbank, hnco, hinv, hffts⟩ := hr
  dsimp only at hbank hnco hinv hffts ⊢
  have hmixed : p.mixed fe sample = x n := by rw [Pfb.mixed, hnco, hx]
  have hrotate : fe.rotate p.nco = fe.rotate^[n + 1] nco := by
    rw [Function.iterate_succ_apply', hnco]
  have hcells := cells_store (by omega) hl hinv
  have hlength : ((p.dly.set (p.sampleCount * (2 * l) + (l - 1 - p.dlyW)) (x n)).set
      (p.sampleCount * (2 * l) + (l - 1 - p.dlyW) + l) (x n)).length = m * (2 * l) := by
    rw [length_set, length_set, hinv.length]
  have hloop : pfbSample fe p sample = pfbSampleCritical fe p sample := by
    rw [pfbSample, hbank]
    exact (if_neg (Nat.lt_irrefl 1)).trans (if_neg (by show m ≠ 1; omega))
  have hpushed : p.pushBranch fe sample =
      { p with
        nco := fe.rotate^[n + 1] nco
        dly := (p.dly.set (p.sampleCount * (2 * l) + (l - 1 - p.dlyW)) (x n)).set
          (p.sampleCount * (2 * l) + (l - 1 - p.dlyW) + l) (x n)
        sampleCount := p.sampleCount + 1 } := by
    rw [Pfb.pushBranch, hmixed, hrotate, hbank]
  rw [hloop, pfbSampleCritical, hpushed, hbank]
  rcases divMod_succ (show 0 < m by omega) n with ⟨hlt, hdiv, hmod⟩ | ⟨hwrap, hdiv, hmod⟩
  · rw [if_neg (show p.sampleCount + 1 ≠ m by rw [hinv.count]; omega)]
    refine ⟨rfl, rfl, ⟨?_, ?_, hlength, hcells⟩, ?_⟩
    · rw [hmod, ← hinv.count]
    · rw [hdiv, ← hinv.write]
    · rw [append_nil, hdiv]
      exact hffts
  · rw [if_pos (by rw [hinv.count]; exact hwrap)]
    have hwrite : (p.dlyW + 1) % l = (n / m + 1) % l := by
      rw [hinv.write, Nat.mod_add_mod]
    exact critical_fire fe hl rfl rfl ⟨hmod.symm, hwrite.trans (by rw [hdiv]), hlength, hcells⟩ hdiv
      hmod hffts

theorem critical_run (h : List R) (hm : 2 ≤ m) (hl : 0 < l) (nco : ν) (raw : Nat → R) (n : Nat) :
    CriticalRun fe h m l nco (fun n => raw n * fe.phasor (fe.rotate^[n] nco)) n
      (Mealy.run (pfbSample fe) (.fresh h m l 1 nco) ((range n).map raw)) := by
  induction n with
  | zero =>
    refine ⟨rfl, rfl, ⟨(Nat.zero_mod m).symm, ?_, length_replicate, ?_⟩, ?_⟩
    · rw [Nat.zero_div, Nat.zero_mod]
      rfl
    · intro i hi q _ hq
      have hcount : branchCount m 0 i = 0 := by
        rw [branchCount, Nat.zero_div, Nat.zero_mod, if_neg (Nat.not_lt_zero i)]
      rw [hcount, Nat.zero_add] at hq
      rw [delayed, if_neg (by omega)]
      exact ⟨getD_zeros _ _, getD_zeros _ _⟩
    · rw [Nat.zero_div]
      rfl
  | succ n ih =>
    rw [range_succ, map_append, Mealy.run_append]
    simpa [Mealy.run] using critical_step fe hm hl ih rfl

/-! ## Oversampling -/

/-- The branch outputs after `n` samples, from the whole stream. -/
def slidingVector (h : List R) (m l : Nat) (x : Nat → R) (n : Nat) : List R :=
  (List.range m).map fun i => ∑ k ∈ Finset.range l,
    h.getD (k * m + i) 0 * if back m i k < n then x (n - 1 - back m i k) else 0

/-- **Invariant.** The ring holds the stream after as many zeros as it has cells. -/
structure OversampledInv (m l : Nat) (x : Nat → R) (n : Nat) (p : Pfb ν R) : Prop where
  total : p.totalIn = n
  write : p.histW = n % (m * l)
  length : p.hist.length = m * l
  holds : Circular.Holds p.hist (List.replicate (m * l) 0 ++ (List.range n).map x)

theorem back_lt (hi : i < m) (hk : k < l) : back m i k < m * l := by
  have hrow : (k + 1) * m ≤ l * m := Nat.mul_le_mul_right m hk
  rw [Nat.succ_mul] at hrow
  rw [Nat.mul_comm m l, back]
  omega

theorem histPos_eq {cap : Nat} (hb : b < cap) :
    histPos cap (n % cap) b = (cap + n - 1 - b) % cap := by
  have hw : n % cap < cap := Nat.mod_lt n (by omega)
  have hsplit := Nat.div_add_mod n cap
  have hright : (cap + n - 1 - b) % cap = (cap + n % cap - 1 - b) % cap := by
    have heq : cap + n - 1 - b = (cap + n % cap - 1 - b) + cap * (n / cap) := by omega
    rw [heq, Nat.add_mul_mod_self_left]
  rw [hright, histPos]
  generalize n % cap = w at hw ⊢
  rcases Nat.lt_or_ge b w with hnear | hfar
  · have hpos : ((w : Int) - 1 - b).tmod cap = ((w - 1 - b : Nat) : Int) := by
      rw [Int.tmod_eq_of_lt (by omega) (by omega)]
      omega
    have hmod : (cap + w - 1 - b) % cap = w - 1 - b := by
      rw [show cap + w - 1 - b = (w - 1 - b) + cap by omega, Nat.add_mod_right,
        Nat.mod_eq_of_lt (by omega)]
    rw [hpos, hmod, if_neg (by omega), Int.toNat_natCast]
  · have hneg : ((w : Int) - 1 - b).tmod cap = -(((b + 1 - w) % cap : Nat) : Int) := by
      rw [show (w : Int) - 1 - b = -((b + 1 - w : Nat) : Int) by omega, Int.neg_tmod,
        Int.natCast_mod, Int.tmod_eq_emod_of_nonneg (by omega)]
    rw [hneg]
    rcases Nat.lt_or_ge (b + 1 - w) cap with hlt | hge
    · rw [Nat.mod_eq_of_lt hlt, Nat.mod_eq_of_lt (by omega), if_pos (by omega)]
      omega
    · have heq : b + 1 - w = cap := by omega
      rw [heq, Nat.mod_self, show cap + w - 1 - b = 0 by omega, Nat.zero_mod]
      rfl

theorem getD_hist (h : OversampledInv m l x n p) (hb : b < m * l) :
    p.hist.getD (histPos (m * l) p.histW b) 0 = if b < n then x (n - 1 - b) else 0 := by
  have hholds := h.holds (m * l + n - 1 - b)
  rw [h.length, length_append, length_replicate, length_map, length_range]
    at hholds
  rw [getD_eq_getElem?_getD, h.write, histPos_eq hb, hholds (by omega) (by omega)]
  split
  next hlt =>
    rw [getElem?_append_right (by rw [length_replicate]; omega), length_replicate,
      getElem?_map, getElem?_range (by omega)]
    simp only [Option.map_some, Option.getD_some]
    congr 1
    omega
  next hge =>
    rw [getElem?_append_left (by rw [length_replicate]; omega),
      getElem?_replicate, if_pos (by omega)]
    rfl

theorem fftIn_oversampled {h : List R} (hbank : p.bank = ⟨m, l, os, transpose h m l⟩)
    (hinv : OversampledInv m l x n p) : fftInOs p = slidingVector h m l x n := by
  rw [fftInOs, hbank, slidingVector]
  apply map_congr_left
  intro i hi
  have him : i < m := mem_range.mp hi
  dsimp only
  -- the history is long enough for every tap
  have hall : (range l).takeWhile (fun k => decide (back m i k < m * l)) = range l := by
    rw [takeWhile_eq_self_iff]
    intro k hk
    exact decide_eq_true (back_lt him (mem_range.mp hk))
  rw [hall, foldl_acc (fun k => p.hist.getD (histPos (m * l) p.histW (back m i k)) 0)
    (fun k => (transpose h m l).getD (i * l + k) 0)]
  apply Finset.sum_congr rfl
  intro k hk
  have hkl : k < l := Finset.mem_range.mp hk
  rw [getD_transpose h him hkl, getD_hist hinv (back_lt him hkl)]

theorem slidingVector_mul (h : List R) (x : Nat → R) (c : Nat) :
    slidingVector h m l x ((c + 1) * m) = polyphaseVector h m l x c := by
  rw [slidingVector, polyphaseVector]
  apply map_congr_left
  intro i hi
  have him : i < m := mem_range.mp hi
  apply Finset.sum_congr rfl
  intro k _
  congr 1
  rw [back, Nat.succ_mul]
  split_ifs with h1 h2 h2
  · congr 1
    rw [Nat.sub_mul]
    have hle : k * m ≤ c * m := Nat.mul_le_mul_right m h2
    omega
  · have hlt : (c + 1) * m ≤ k * m := Nat.mul_le_mul_right m (by omega)
    rw [Nat.succ_mul] at hlt
    omega
  · have hle : k * m ≤ c * m := Nat.mul_le_mul_right m h2
    omega
  · rfl

/-- After `n` samples of a stream: the vectors so far, and the state. -/
structure OversampledRun (fe : FrontEnd ν R) (h : List R) (m l os : Nat) (nco : ν) (x : Nat → R)
    (n : Nat) (r : Pfb ν R × List (PfbEvent R)) : Prop where
  bank : r.1.bank = ⟨m, l, os, transpose h m l⟩
  nco : r.1.nco = fe.rotate^[n] nco
  inv : OversampledInv m l x n r.1
  ffts : ffts r.2 = (List.range (n / (m / os))).map fun j =>
    slidingVector h m l x ((j + 1) * (m / os))

theorem OversampledInv.push (hcap : 0 < m * l) (h : OversampledInv m l x n p)
    (hmixed : p.mixed fe sample = x n) (hbank : p.bank.m * p.bank.l = m * l) :
    OversampledInv m l x (n + 1) (p.pushHist fe sample) where
  total := by
    show p.totalIn + 1 = n + 1
    rw [h.total]
  write := by
    show (p.histW + 1) % (p.bank.m * p.bank.l) = _
    rw [hbank, h.write, Nat.mod_add_mod]
  length := by
    show (p.hist.set p.histW _).length = _
    rw [length_set, h.length]
  holds := by
    have hpush := h.holds.set (by rw [h.length]; exact hcap) (x n)
    rw [length_append, length_replicate, length_map, length_range, h.length,
      Nat.add_mod_left, ← h.write, append_assoc] at hpush
    show Circular.Holds (p.hist.set p.histW (p.mixed fe sample)) _
    rw [hmixed, range_succ, map_append]
    exact hpush

theorem oversampled_step {h : List R} (hl : 0 < l) (hos : 2 ≤ os) (hhop : 0 < m / os)
    {r : Pfb ν R × List (PfbEvent R)} (hr : OversampledRun fe h m l os nco x n r)
    (hx : sample * fe.phasor (fe.rotate^[n] nco) = x n) : OversampledRun fe h m l os nco x (n + 1)
      ((pfbSample fe r.1 sample).1, r.2 ++ (pfbSample fe r.1 sample).2) := by
  obtain ⟨p, events⟩ := r
  obtain ⟨hbank, hnco, hinv, hffts⟩ := hr
  dsimp only at hbank hnco hinv hffts ⊢
  have hmixed : p.mixed fe sample = x n := by rw [Pfb.mixed, hnco, hx]
  have hinv' : OversampledInv m l x (n + 1) (p.pushHist fe sample) :=
    hinv.push fe (Nat.mul_pos (Nat.pos_of_div_pos hhop) hl) hmixed (by rw [hbank])
  have hbank' : (p.pushHist fe sample).bank = ⟨m, l, os, transpose h m l⟩ := hbank
  have hnco' : (p.pushHist fe sample).nco = fe.rotate^[n + 1] nco := by
    show fe.rotate p.nco = _
    rw [Function.iterate_succ_apply', hnco]
  have hloop : pfbSample fe p sample =
      if (n + 1) % (m / os) = 0 then pfbCycleOs fe (p.pushHist fe sample)
      else (p.pushHist fe sample, []) := by
    rw [pfbSample, if_pos (by rw [hbank]; exact hos), pfbSampleOs, hinv'.total, hbank']
    rfl
  rw [hloop]
  generalize p.pushHist fe sample = q at hinv' hbank' hnco' ⊢
  rcases divMod_succ hhop n with ⟨-, hdiv, hmod⟩ | ⟨-, hdiv, hmod⟩
  · rw [if_neg (by omega)]
    refine ⟨hbank', hnco', hinv', ?_⟩
    rw [append_nil, hdiv]
    exact hffts
  · rw [if_pos hmod, pfbCycleOs]
    generalize (range q.bank.m).map _ = bins
    have htotal : (n / (m / os) + 1) * (m / os) = n + 1 := by
      rw [← hdiv]
      exact Nat.div_mul_cancel (Nat.dvd_of_mod_eq_zero hmod)
    obtain ⟨warmup, hfire⟩ := fire_eq q (fftInOs q) bins
    rw [hfire]
    refine ⟨hbank', hnco', ⟨hinv'.total, hinv'.write, hinv'.length, hinv'.holds⟩, ?_⟩
    rw [ffts_append, hffts, ffts_fire, fftIn_oversampled hbank' hinv', hdiv, range_succ,
      map_append, map_singleton, htotal]

theorem oversampled_run (h : List R) (hl : 0 < l) (hos : 2 ≤ os) (hhop : 0 < m / os) (nco : ν)
    (raw : Nat → R) (n : Nat) :
    OversampledRun fe h m l os nco (fun n => raw n * fe.phasor (fe.rotate^[n] nco)) n
      (Mealy.run (pfbSample fe) (.fresh h m l os nco) ((range n).map raw)) := by
  induction n with
  | zero =>
    refine ⟨rfl, rfl, ⟨rfl, (Nat.zero_mod _).symm, length_replicate, ?_⟩, ?_⟩
    · intro j hj _
      rw [range_zero, map_nil, append_nil, length_replicate] at hj
      show (replicate (m * l) (0 : R))[j % (replicate (m * l) (0 : R)).length]? = _
      rw [range_zero, map_nil, append_nil, length_replicate,
        Nat.mod_eq_of_lt hj]
    · rw [Nat.zero_div]
      rfl
  | succ n ih =>
    rw [range_succ, map_append, Mealy.run_append]
    simpa [Mealy.run] using oversampled_step fe hl hos hhop ih rfl

theorem range_map_getD (samples : List R) :
    (range samples.length).map (fun n => samples.getD n 0) = samples := by
  apply ext_getElem (by simp)
  intro n _ hn
  simp [hn]

/-- **Polyphase correctness.** For every prototype, `m ≥ 2` channels, `l ≥ 1` taps, stream and
chunking, the critically sampled path feeds the FFT the convolutions of the branches with the
pre-shifted stream; and of the vectors of the oversampled path, one every `m / os` samples, each one
at a multiple of `m` samples is that of the same cycle. -/
theorem polyphase_correct (fe : FrontEnd ν R) (h : List R) {m l : Nat} (hm : 2 ≤ m) (hl : 1 ≤ l)
    (nco : ν) (chunks : List (List R)) :
    let x := preShifted fe nco chunks.flatten
    let total := chunks.flatten.length
    ffts (Mealy.run (pfbProcess fe) (.fresh h m l 1 nco) chunks).2 =
        (List.range (total / m)).map (polyphaseVector h m l x) ∧
      ∀ os, 2 ≤ os → os ∣ m →
        let out := ffts (Mealy.run (pfbProcess fe) (.fresh h m l os nco) chunks).2
        out.length = total / (m / os) ∧
          ∀ j c, j < out.length → (j + 1) * (m / os) = (c + 1) * m →
            out[j]? = some (polyphaseVector h m l x c) := by
  intro x total
  have hstream : (range total).map (fun n => chunks.flatten.getD n 0) = chunks.flatten :=
    range_map_getD chunks.flatten
  constructor
  · have hrun := critical_run fe h hm hl nco (fun n => chunks.flatten.getD n 0) total
    rw [hstream] at hrun
    rw [process_chunks]
    exact hrun.ffts
  · intro os hos hdvd out
    have hhop : 0 < m / os := Nat.div_pos (Nat.le_of_dvd (by omega) hdvd) (by omega)
    have hrun := oversampled_run fe h hl hos hhop nco (fun n => chunks.flatten.getD n 0) total
    rw [hstream, ← process_chunks] at hrun
    have hout : out = (range (total / (m / os))).map fun j =>
        slidingVector h m l x ((j + 1) * (m / os)) := hrun.ffts
    have hlength : out.length = total / (m / os) := by
      rw [hout, length_map, length_range]
    refine ⟨hlength, fun j c hj hcycle => ?_⟩
    rw [hlength] at hj
    rw [hout, getElem?_map, getElem?_range hj, Option.map_some, hcycle,
      slidingVector_mul]

theorem polyphase_correct_two :
    ffts (Mealy.run (pfbProcess (⟨fun _ => 1, id, id, fun _ _ _ => 1⟩ : FrontEnd Unit Int))
      (.fresh [1, 2, 3, 4] 2 2 1 ()) [[5], [6, 7, 8]]).2 = [[5, 12], [22, 40]] :=
  (polyphase_correct ⟨fun _ => 1, id, id, fun _ _ _ => 1⟩ [1, 2, 3, 4] le_rfl (by decide) ()
    [[5], [6, 7, 8]]).1.trans (by decide)

end MeshcoreSniffer.Sdr
