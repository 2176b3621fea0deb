import MeshcoreSniffer.Lib.Runs
import Mathlib.Data.List.Induction
import Mathlib.Data.List.Sort
import Mathlib.Data.Rat.Defs
import Mathlib.Algebra.Order.Ring.Rat

/-!
# Off-grid discovery

`run_peakfind` of `scanner.c`. The bins are in the order of the FFT, bin 0 at the tuner's centre,
while the test around the centre leaves out those at half the sample rate; powers are rationals.
-/

namespace MeshcoreSniffer.Sdr.Scanner

open Lib.Runs List

/-! ## Model -/

/-- The scanner's settings; `grid` lists the known channels with their bandwidths. -/
structure Config where
  fCenter : Int
  sampRate : Nat
  fftSize : Nat
  grid : List (Int × Nat)

abbrev Spectrum := Nat → ℚ

/-- `discovery_t`; the times are left out. -/
structure Discovery where
  fHz : Int
  hits : BitVec 32
  deriving DecidableEq

def discoveryLimit : Nat := 64

section
variable (c : Config)

def binToFreqOffsetHz (bin : Nat) : Int :=
  let idx : Int := if c.fftSize / 2 ≤ bin then (bin : Int) - c.fftSize else bin
  (idx * c.sampRate).tdiv c.fftSize

def freq (bin : Nat) : Int := c.fCenter + binToFreqOffsetHz c bin

def freqInKnownGrid (fHz : Int) : Bool :=
  c.grid.any fun g => g.1 - (g.2 / 2 : Nat) ≤ fHz ∧ fHz ≤ g.1 + (g.2 / 2 : Nat)

variable (power : Spectrum)

def noise : ℚ :=
  let nSamp := min c.fftSize 1024
  let local_ := ((List.range nSamp).map fun i => power (i * (c.fftSize / nSamp))).insertionSort (· ≤ ·)
  max (local_.getD (nSamp / 4) 0) (1 / 10 ^ 12)

def wrapBin (k j : Int) : Nat :=
  let kk := k + j
  (if kk < 0 then kk + c.fftSize else if c.fftSize ≤ kk then kk - c.fftSize else kk).toNat

def Stands (k : Nat) : Prop :=
  ¬power k < noise c power * 10 ∧ (∀ j ∈ [-2, -1, 1, 2], ¬power k ≤ power (wrapBin c k j)) ∧
    freqInKnownGrid c (freq c k) = false

def IsPeak (k : Nat) : Prop := ¬|(k : Int) - (c.fftSize / 2 : Nat)| < 8 ∧ Stands c power k

instance (k : Nat) : Decidable (Stands c power k) := inferInstanceAs (Decidable (_ ∧ _))

instance (k : Nat) : Decidable (IsPeak c power k) := inferInstanceAs (Decidable (_ ∧ _))

def skirt (k : Nat) (side : Int) : Nat :=
  ((List.range (c.fftSize / 4)).takeWhile fun j =>
    ¬power (wrapBin c k (side * (j + 1))) < power k / 10).length

/-- The bandwidth estimate of the peak at `k` is 50 kHz or more. -/
def Wide (k : Nat) : Prop :=
  50000 * c.fftSize ≤ (skirt c power k (-1) + skirt c power k 1 + 1) * c.sampRate

instance (k : Nat) : Decidable (Wide c power k) := inferInstanceAs (Decidable (_ ≤ _))

/-- The table and the index of the entry. -/
def discoveryGetOrMake (table : List Discovery) (fHz : Int) : Option (List Discovery × Nat) :=
  match table.findIdx? fun d => |fHz - d.fHz| < 50000 with
  | some i => some (table, i)
  | none =>
    if discoveryLimit ≤ table.length then none else some (table ++ [⟨fHz, 0⟩], table.length)

/-- A pass so far: the table, the hits with their bins, and the discoveries announced. -/
structure Pass where
  table : List Discovery
  found : List (Nat × Nat) := []
  announced : List Nat := []

def hitsAt (table : List Discovery) (i : Nat) : BitVec 32 := (table[i]?.map Discovery.hits).getD 0

def countPeak (p : Pass) (k : Nat) : Pass :=
  match discoveryGetOrMake p.table (freq c k) with
  | none => p
  | some (table, i) =>
    { table := table.modify i fun d => { d with hits := d.hits + 1 }
      found := p.found ++ [(i, k)]
      announced := if hitsAt table i + 1 = 3 ∧ Wide c power k then p.announced ++ [i] else p.announced }

def runPeakfind (table : List Discovery) : Pass :=
  ((List.range c.fftSize).filter fun k => IsPeak c power k).foldl (countPeak c power) { table }

end

/-! ## One pass -/

def fAt (table : List Discovery) (i : Nat) : Option Int := table[i]?.map Discovery.fHz

theorem getOrMake_cases {table table' : List Discovery} {fHz : Int} {i : Nat}
    (h : discoveryGetOrMake table fHz = some (table', i)) :
    (∃ d, table'[i]? = some d ∧ |fHz - d.fHz| < 50000) ∧
      (∀ j f, fAt table j = some f → fAt table' j = some f) ∧
      (∀ j f, fAt table' j = some f → fAt table j = some f ∨ i = j ∧ f = fHz) ∧
      ∀ j, hitsAt table' j = hitsAt table j := by
  unfold discoveryGetOrMake at h
  split at h
  next i' hfound =>
    cases h
    obtain ⟨hi, hnear, -⟩ := findIdx?_eq_some_iff_getElem.mp hfound
    exact ⟨⟨_, getElem?_eq_getElem hi, of_decide_eq_true hnear⟩, fun _ _ => id,
      fun _ _ => .inl, fun _ => rfl⟩
  next =>
    split at h
    next => cases h
    next =>
      cases h
      have hshape (j : Nat) : (table ++ [(⟨fHz, 0⟩ : Discovery)])[j]? =
          if j = table.length then some ⟨fHz, 0⟩ else table[j]? := by
        rcases Nat.lt_trichotomy j table.length with hlt | rfl | hgt
        · rw [getElem?_append_left hlt, if_neg hlt.ne]
        · simp
        · rw [if_neg hgt.ne', getElem?_eq_none (by simp; omega), getElem?_eq_none hgt.le]
      refine ⟨⟨_, getElem?_concat_length, by simp⟩, fun j f hj => ?_, fun j f hj => ?_,
        fun j => ?_⟩ <;> simp only [fAt, hitsAt, hshape] at * <;> split_ifs at * with hlast <;>
        simp_all

section
variable {c : Config} {power : Spectrum}

theorem countPeak_cases (p : Pass) (k : Nat) :
    countPeak c power p k = p ∨ ∃ i, (countPeak c power p k).found = p.found ++ [(i, k)] ∧
      (∃ f, fAt (countPeak c power p k).table i = some f ∧ |freq c k - f| < 50000) ∧
      (∀ j f, fAt p.table j = some f → fAt (countPeak c power p k).table j = some f) ∧
      (∀ j f, fAt (countPeak c power p k).table j = some f →
        fAt p.table j = some f ∨ i = j ∧ f = freq c k) ∧
      (∀ j, hitsAt (countPeak c power p k).table j = hitsAt p.table j + if i = j then 1 else 0) ∧
      (countPeak c power p k).announced =
        if hitsAt p.table i + 1 = 3 ∧ Wide c power k then p.announced ++ [i] else p.announced := by
  unfold countPeak
  cases hmake : discoveryGetOrMake p.table (freq c k) with
  | none => exact .inl rfl
  | some r =>
    obtain ⟨table, i⟩ := r
    obtain ⟨⟨d, hd, hnear⟩, hkeeps, hmade, hhits⟩ := getOrMake_cases hmake
    -- a hit leaves the frequencies alone
    have hf (j : Nat) : fAt (table.modify i fun d => { d with hits := d.hits + 1 }) j =
        fAt table j := by
      by_cases hij : i = j <;> simp [fAt, hij, Function.comp_def]
    refine .inr ⟨i, rfl, ⟨d.fHz, ?_, hnear⟩, fun j f hj => ?_, fun j f hj => ?_, fun j => ?_, ?_⟩
    · rw [hf, fAt, hd]
      rfl
    · rw [hf]
      exact hkeeps j f hj
    · rw [hf] at hj
      exact hmade j f hj
    · rw [← hhits j]
      by_cases hij : i = j
      · subst hij
        simp [hitsAt, hd]
      · simp [hitsAt, hij]
    · simp only [hhits]

/-- What a pass from `table` has done so far. -/
structure Tally (c : Config) (power : Spectrum) (table : List Discovery) (p : Pass) : Prop where
  near : ∀ x ∈ p.found, ∃ f, fAt p.table x.1 = some f ∧ |freq c x.2 - f| < 50000
  stays : ∀ j f, fAt table j = some f → fAt p.table j = some f
  made : ∀ j f, fAt p.table j = some f →
    fAt table j = some f ∨ ∃ x ∈ p.found, x.1 = j ∧ f = freq c x.2
  hits : ∀ j, hitsAt p.table j = hitsAt table j + BitVec.ofNat 32 ((p.found.map Prod.fst).count j)
  announced : (p.found.map Prod.fst).Nodup → p.announced =
    (p.found.filter fun x => hitsAt table x.1 = 2 ∧ Wide c power x.2).map Prod.fst

theorem tally_countPeak {table : List Discovery} {p : Pass} (h : Tally c power table p) (k : Nat) :
    Tally c power table (countPeak c power p k) := by
  rcases countPeak_cases p k with hsame | ⟨i, hfound, hnear, hkeeps, hmade, hhits, hannounced⟩
  · rw [hsame]
    exact h
  refine ⟨fun x hx => ?_, fun j f hj => hkeeps j f (h.stays j f hj), fun j f hj => ?_, fun j => ?_,
    fun hnodup => ?_⟩
  · rw [hfound, mem_append, mem_singleton] at hx
    rcases hx with hold | rfl
    · obtain ⟨f, hf, hclose⟩ := h.near x hold
      exact ⟨f, hkeeps _ _ hf, hclose⟩
    · exact hnear
  · rw [hfound]
    rcases hmade j f hj with hold | ⟨rfl, rfl⟩
    · rcases h.made j f hold with hbefore | ⟨x, hx, hxj⟩
      · exact .inl hbefore
      · exact .inr ⟨x, mem_append_left _ hx, hxj⟩
    · exact .inr ⟨(i, k), mem_append_right _ (mem_singleton_self _), rfl, rfl⟩
  · rw [hhits, h.hits, hfound]
    by_cases hij : i = j <;> simp [hij, BitVec.ofNat_add, BitVec.add_assoc]
  · rw [hfound, map_append, map_singleton] at hnodup
    -- the entry is hit for the first time in this pass
    have hfresh : i ∉ p.found.map Prod.fst := fun hmem =>
      (nodup_append.mp hnodup).2.2 i hmem i (mem_singleton_self i) rfl
    have hcount : hitsAt p.table i = hitsAt table i := by
      rw [h.hits, count_eq_zero.mpr hfresh]
      simp
    have hthird : hitsAt table i + 1 = 3 ↔ hitsAt table i = 2 := by
      constructor <;> intro hv <;> bv_omega
    rw [hannounced, hcount, if_congr (and_congr_left' hthird) rfl rfl, hfound,
      h.announced (nodup_append.mp hnodup).1, filter_append, map_append]
    by_cases hsecond : hitsAt table i = 2 ∧ Wide c power k
    · rw [if_pos hsecond, filter_cons_of_pos (by simpa using hsecond)]
      rfl
    · rw [if_neg hsecond, filter_cons_of_neg (by simpa using hsecond)]
      simp

theorem tally_foldl (table : List Discovery) (ks : List Nat) :
    Tally c power table (ks.foldl (countPeak c power) { table }) :=
  foldlRecOn ks _ ⟨nofun, fun _ _ => id, fun _ _ => .inl, by simp, fun _ => rfl⟩
    fun _ h k _ => tally_countPeak h k

theorem found_subset (table : List Discovery) (ks : List Nat) :
    ∀ x ∈ (ks.foldl (countPeak c power) { table }).found, x.2 ∈ ks := by
  induction ks using reverseRecOn with
  | nil => exact nofun
  | append_singleton ks k ih =>
    intro x hx
    rw [foldl_append, foldl_cons, foldl_nil] at hx
    rcases countPeak_cases (ks.foldl (countPeak c power) { table }) k with
      hsame | ⟨i, hfound, -⟩
    · rw [hsame] at hx
      exact mem_append_left _ (ih x hx)
    · rw [hfound, mem_append, mem_singleton] at hx
      rcases hx with hold | rfl
      · exact mem_append_left _ (ih x hold)
      · exact mem_append_right _ (mem_singleton_self k)

theorem isPeak_of_found {table : List Discovery} {x : Nat × Nat}
    (hx : x ∈ (runPeakfind c power table).found) : x.2 < c.fftSize ∧ IsPeak c power x.2 := by
  simpa using found_subset table _ x hx

theorem found_of_known {table : List Discovery} {k i : Nat} {f : Int} (hk : k < c.fftSize)
    (hpeak : IsPeak c power k) (hi : fAt table i = some f) (hnear : |freq c k - f| < 50000) :
    ∃ i, (i, k) ∈ (runPeakfind c power table).found := by
  unfold runPeakfind
  have hmem : k ∈ (range c.fftSize).filter fun k => IsPeak c power k := by simp [hk, hpeak]
  obtain ⟨before, after, heq⟩ := append_of_mem hmem
  rw [heq, foldl_append, foldl_cons]
  refine foldlRecOn (motive := fun p : Pass => ∃ i, (i, k) ∈ p.found) after _ ?_
    fun p hfound k' _ => ?_
  · obtain ⟨d, hd, rfl⟩ := Option.map_eq_some_iff.mp ((tally_foldl table before).stays i f hi)
    unfold countPeak discoveryGetOrMake
    split
    next hnone =>
      split at hnone
      next => cases hnone
      next hno => simpa [hnear] using findIdx?_eq_none_iff.mp hno d (mem_of_getElem? hd)
    next i' _ => exact ⟨i', by simp⟩
  · obtain ⟨i, hfound⟩ := hfound
    rcases countPeak_cases p k' with hsame | ⟨_, happend, -⟩
    · exact ⟨i, by rwa [hsame]⟩
    · exact ⟨i, by rw [happend]; exact mem_append_left _ hfound⟩

end

/-! ## The centre -/

/-- **DC region.** A pass from any table records only bins at least eight away from bin 0, round the
ends, exactly when no bin nearer is a peak by its power: the test `abs(k - N/2) < 8` is about the
other end of the spectrum. -/
theorem dc_ignored_iff (c : Config) (hsize : 32 ≤ c.fftSize) (power : Spectrum) :
    binToFreqOffsetHz c 0 = 0 ∧
    ((∀ table, ∀ x ∈ (runPeakfind c power table).found, 8 ≤ min x.2 (c.fftSize - x.2)) ↔
      ∀ k < c.fftSize, min k (c.fftSize - k) < 8 → ¬Stands c power k) := by
  constructor
  · have hpos : ¬c.fftSize / 2 ≤ 0 := by omega
    simp [binToFreqOffsetHz, hpos]
  constructor
  · intro hfar k hk hnear hstands
    have hpeak : IsPeak c power k := ⟨by rw [abs_lt]; omega, hstands⟩
    have hknown : fAt [(⟨freq c k, 0⟩ : Discovery)] 0 = some (freq c k) := rfl
    obtain ⟨i, hfound⟩ := found_of_known hk hpeak hknown (by simp)
    exact absurd (hfar _ _ hfound) (not_le.mpr hnear)
  · intro hquiet table x hx
    obtain ⟨hlt, -, hstands⟩ := isPeak_of_found hx
    by_contra hnear
    exact hquiet x.2 hlt (not_le.mp hnear) hstands

def fine : Config := ⟨910000000, 512000, 64, []⟩

def peakAt (bin : Nat) : Spectrum := fun k => if k = bin then 100 else 1

theorem dc_ignored_iff_peak : binToFreqOffsetHz fine 0 = 0 ∧
    (runPeakfind fine (peakAt 20) []).found = [(0, 20)] ∧
    ∀ table, ∀ x ∈ (runPeakfind fine (peakAt 20) table).found, 8 ≤ min x.2 (64 - x.2) :=
  have h := dc_ignored_iff fine (by decide) (peakAt 20)
  ⟨h.1, by decide +kernel, h.2.mpr (by decide +kernel)⟩

/-- A peak one bin beside the centre becomes a discovery. -/
theorem dc_recorded : (runPeakfind fine (peakAt 1) []).found = [(0, 1)] := by decide +kernel

/-! ## Announcements -/

structure Scan where
  table : List Discovery := []
  passes : List Pass := []

section
variable (c : Config)

def Scan.step (s : Scan) (power : Spectrum) : Scan :=
  ⟨(runPeakfind c power s.table).table, s.passes ++ [runPeakfind c power s.table]⟩

def Scan.shown (s : Scan) (i : Nat) : Nat :=
  s.passes.countP fun p => i ∈ p.found.map Prod.fst

def Scan.announcements (s : Scan) (i : Nat) : Nat := (s.passes.flatMap Pass.announced).count i

/-- No discovery at `f` takes both peaks. -/
def Parts (k k' : Nat) (f : Int) : Prop := ¬(|freq c k - f| < 50000 ∧ |freq c k' - f| < 50000)

instance (k k' : Nat) (f : Int) : Decidable (Parts c k k' f) := inferInstanceAs (Decidable (¬_))

/-- No two peaks lie within 50 kHz of each other or of one discovery, a peak near a discovery with
two hits is wide, and no hit counter is about to wrap. -/
def Steady (s : Scan) (power : Spectrum) : Prop :=
  (∀ k' < c.fftSize, ∀ k < k', IsPeak c power k ∧ IsPeak c power k' →
    Parts c k k' (freq c k) ∧ ∀ d ∈ s.table, Parts c k k' d.fHz) ∧
  (∀ k < c.fftSize, ∀ d ∈ s.table,
    IsPeak c power k ∧ |freq c k - d.fHz| < 50000 ∧ d.hits = 2 → Wide c power k) ∧
  ∀ d ∈ s.table, d.hits.toNat + 1 < 2 ^ 32

instance (s : Scan) (power : Spectrum) : Decidable (Steady c s power) :=
  inferInstanceAs (Decidable (_ ∧ _ ∧ _))

end

section
variable {c : Config} {power : Spectrum} {s : Scan}

theorem mem_of_fAt {table : List Discovery} {i : Nat} {f : Int} (h : fAt table i = some f) :
    ∃ d ∈ table, d.fHz = f ∧ d.hits = hitsAt table i := by
  obtain ⟨d, hd, rfl⟩ := Option.map_eq_some_iff.mp h
  exact ⟨d, mem_of_getElem? hd, rfl, by simp [hitsAt, hd]⟩

theorem nodup_found (h : Steady c s power) :
    ((runPeakfind c power s.table).found.map Prod.fst).Nodup := by
  unfold runPeakfind
  have hsorted : ((range c.fftSize).filter fun k => IsPeak c power k).Pairwise (· < ·) :=
    pairwise_lt_range.filter _
  have hall : ∀ k ∈ (range c.fftSize).filter fun k => IsPeak c power k,
      k < c.fftSize ∧ IsPeak c power k := fun k hk => by simpa using hk
  revert hsorted hall
  generalize ((range c.fftSize).filter fun k => IsPeak c power k) = ks
  induction ks using reverseRecOn with
  | nil => exact fun _ _ => nodup_nil
  | append_singleton ks k ih =>
    intro hsorted hall
    obtain ⟨hks, -, hlast⟩ := pairwise_append.mp hsorted
    have hbefore := ih hks fun k' hk' => hall k' (mem_append_left _ hk')
    rw [foldl_append, foldl_cons, foldl_nil]
    have hT : Tally c power s.table _ := tally_foldl s.table ks
    have hin := @found_subset c power s.table ks
    generalize ks.foldl (countPeak c power) { table := s.table } = p at *
    rcases countPeak_cases p k with hsame | ⟨i, hfound, ⟨f, hf, hnear⟩, -⟩
    · rwa [hsame]
    rw [hfound, map_append, nodup_append]
    refine ⟨hbefore, nodup_singleton _, fun j hj i' hi' heq => ?_⟩
    obtain ⟨x, hx, rfl⟩ := mem_map.mp hj
    obtain rfl : i' = i := mem_singleton.mp hi'
    -- two earlier hits share an entry: where does its frequency come from?
    have hT' := tally_countPeak hT k
    obtain ⟨f', hf', hnear'⟩ := hT'.near x (hfound ▸ mem_append_left _ hx)
    obtain rfl : f' = f := Option.some_injective _ (hf'.symm.trans (heq ▸ hf))
    have happart {k' : Nat} (hk' : k' ∈ ks) := h.1 k (hall k (by simp)).1 k'
      (hlast k' hk' k (mem_singleton_self k))
      ⟨(hall k' (mem_append_left _ hk')).2, (hall k (by simp)).2⟩
    rcases hT'.made _ _ hf with hold | ⟨y, hy, -, rfl⟩
    · obtain ⟨d, hd, rfl, -⟩ := mem_of_fAt hold
      exact (happart (hin x hx)).2 d hd ⟨hnear', hnear⟩
    · rw [hfound, mem_append, mem_singleton] at hy
      rcases hy with hearlier | rfl
      · exact (happart (hin y hearlier)).1 ⟨by simp, hnear⟩
      · exact (happart (hin x hx)).1 ⟨by simp, by rwa [abs_sub_comm]⟩

theorem count_announced (h : Steady c s power) (i : Nat) :
    (runPeakfind c power s.table).announced.count i =
      if i ∈ (runPeakfind c power s.table).found.map Prod.fst ∧ hitsAt s.table i = 2
      then 1 else 0 := by
  have hT : Tally c power s.table (runPeakfind c power s.table) := tally_foldl _ _
  have hnodup := nodup_found h
  have hwide : ∀ x ∈ (runPeakfind c power s.table).found,
      decide (hitsAt s.table x.1 = 2 ∧ Wide c power x.2) =
        ((fun i => decide (hitsAt s.table i = 2)) ∘ Prod.fst) x := by
    intro x hx
    refine decide_eq_decide.mpr (and_iff_left_of_imp fun htwo => ?_)
    obtain ⟨hlt, hpeak⟩ := isPeak_of_found hx
    obtain ⟨f, hf, hnear⟩ := hT.near x hx
    -- an entry with hits is one of the table before the pass
    obtain ⟨g, hg⟩ : ∃ g, fAt s.table x.1 = some g := by
      unfold fAt
      cases hd : s.table[x.1]? with
      | none => simp [hitsAt, hd] at htwo
      | some d => exact ⟨d.fHz, rfl⟩
    obtain rfl : f = g := Option.some_injective _ (hf.symm.trans (hT.stays _ _ hg))
    obtain ⟨d, hd, rfl, hhits⟩ := mem_of_fAt hg
    exact h.2.1 x.2 hlt d hd ⟨hpeak, hnear, hhits.trans htwo⟩
  rw [hT.announced hnodup, filter_congr hwide, ← filter_map,
    (hnodup.filter _).count]
  simp only [mem_filter, decide_eq_true_eq]

structure Confirmed (c : Config) (s : Scan) : Prop where
  near : ∀ p ∈ s.passes, ∀ x ∈ p.found, ∃ f, fAt s.table x.1 = some f ∧ |freq c x.2 - f| < 50000
  hits : ∀ i, (hitsAt s.table i).toNat = s.shown i
  once : ∀ i, s.announcements i = if 3 ≤ s.shown i then 1 else 0

theorem confirmed_step (h : Steady c s power) (hs : Confirmed c s) :
    Confirmed c (s.step c power) := by
  have hT : Tally c power s.table (runPeakfind c power s.table) := tally_foldl _ _
  have hshown (i : Nat) : (s.step c power).shown i = s.shown i +
      if i ∈ (runPeakfind c power s.table).found.map Prod.fst then 1 else 0 := by
    by_cases hmem : i ∈ (runPeakfind c power s.table).found.map Prod.fst <;>
      simp only [Scan.shown, Scan.step, countP_append, countP_cons, hmem] <;> rfl
  refine ⟨fun p hp x hx => ?_, fun i => ?_, fun i => ?_⟩
  · rcases mem_append.mp hp with hold | hnew
    · obtain ⟨f, hf, hnear⟩ := hs.near p hold x hx
      exact ⟨f, hT.stays _ _ hf, hnear⟩
    · obtain rfl := mem_singleton.mp hnew
      exact hT.near x hx
  · have hroom : (hitsAt s.table i).toNat + 1 < 2 ^ 32 := by
      unfold hitsAt
      cases hd : s.table[i]? with
      | none => simp
      | some d => exact h.2.2 d (mem_of_getElem? hd)
    show (hitsAt (runPeakfind c power s.table).table i).toNat = _
    rw [hT.hits, (nodup_found h).count, hshown, ← hs.hits]
    split
    · simp
      omega
    · simp
  · have hann : (s.step c power).announcements i =
        s.announcements i + (runPeakfind c power s.table).announced.count i := by
      simp [Scan.announcements, Scan.step]
    have htwo : hitsAt s.table i = 2 ↔ s.shown i = 2 := by
      rw [← hs.hits, ← BitVec.toNat_inj]
      rfl
    rw [hann, count_announced h, hshown, hs.once]
    by_cases hmem : i ∈ (runPeakfind c power s.table).found.map Prod.fst <;>
      simp only [htwo, hmem, true_and, false_and, if_true, if_false] <;> split_ifs <;> omega

end

/-- **Announcements.** In every run whose passes are steady, the peaks counted for a discovery lie
within 50 kHz of it, and it is announced once, in the third pass that shows it. -/
theorem confirmed_once (c : Config) (spectra : List Spectrum)
    (h : Along (Scan.step c) (Steady c) {} spectra) : Confirmed c (run (Scan.step c) {} spectra) :=
  along_invariant (fun _ _ hsteady hs => confirmed_step hsteady hs)
    ⟨fun _ h => absurd h List.not_mem_nil, fun _ => by simp [hitsAt, Scan.shown],
      fun _ => by simp [Scan.shown, Scan.announcements]⟩ h

def coarse : Config := ⟨910000000, 3200000, 64, []⟩

theorem confirmed_once_third : Confirmed coarse (run (Scan.step coarse) {} (.replicate 3 (peakAt 4))) ∧
    (run (Scan.step coarse) {} (.replicate 3 (peakAt 4))).announcements 0 = 1 :=
  ⟨confirmed_once _ _ (by decide +kernel), by decide +kernel⟩

def hump : Spectrum := fun k =>
  if k ∈ [10, 13, 16] then 100 else if 4 ≤ k ∧ k ≤ 22 then 20 else 1

/-- Three peaks of a single pass count as the three confirmations. -/
theorem announced_in_one_pass : (run (Scan.step fine) {} [hump]).announcements 0 = 1 ∧
    (run (Scan.step fine) {} [hump]).shown 0 = 1 := by decide +kernel

end MeshcoreSniffer.Sdr.Scanner
