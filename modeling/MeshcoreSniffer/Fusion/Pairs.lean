import MeshcoreSniffer.Fusion.Replay
import MeshcoreSniffer.Lib.Runs

/-!
# What calibration leaves in the pairs

The median of a ring (`median_robust`), the counters beside the pairs (`counters_match_iff`) and
whose pair a pair is (`pairs_isolated`), by what one call can do (`feedCluster_eq`).
-/

namespace MeshcoreSniffer.Fusion

open Lib List

/-! ## The middle of a ring -/

section Median

variable {K : Type*} [Field K] [LinearOrder K]

theorem countP_lt_middle (xs : List K) : 2 * xs.countP (· < middle xs) ≤ xs.length := by
  by_cases hne : xs = []
  · simp [hne]
  have hk : xs.length / 2 < (xs.insertionSort (· ≤ ·)).length := by
    rw [length_insertionSort]
    exact Nat.div_lt_self (length_pos_of_ne_nil hne) (by decide)
  have hsorted := (sortedLE_insertionSort (l := xs)).pairwise
  rw [middle, getD_eq_getElem _ _ hk, ← (perm_insertionSort (· ≤ ·) xs).countP_eq]
  generalize hs : xs.insertionSort (· ≤ ·) = s at hk hsorted
  have hlen : s.length = xs.length := by rw [← hs, length_insertionSort]
  -- from the middle on nothing is below it
  have hbehind : (s.drop (xs.length / 2)).countP (· < s[xs.length / 2]) = 0 := by
    rw [countP_eq_zero]
    intro x hx
    rw [drop_eq_getElem_cons hk] at hx
    have hle := (pairwise_cons.mp (drop_eq_getElem_cons hk ▸ hsorted.drop)).1
    rcases mem_cons.mp hx with rfl | hx
    · simp
    · simpa using hle x hx
  have hbefore : (s.take (xs.length / 2)).countP (· < s[xs.length / 2]) ≤ xs.length / 2 :=
    countP_le_length.trans (length_take_le _ _)
  have hsplit : (s.take (xs.length / 2) ++ s.drop (xs.length / 2)).countP (· < s[xs.length / 2]) =
      _ + _ := countP_append
  rw [take_append_drop] at hsplit
  omega

theorem countP_middle_lt {xs : List K} (hne : xs ≠ []) :
    2 * xs.countP (middle xs < ·) < xs.length := by
  have hpos := length_pos_of_ne_nil hne
  have hk : xs.length / 2 < (xs.insertionSort (· ≤ ·)).length := by
    rw [length_insertionSort]
    exact Nat.div_lt_self hpos (by decide)
  have hsorted := (sortedLE_insertionSort (l := xs)).pairwise
  rw [middle, getD_eq_getElem _ _ hk, ← (perm_insertionSort (· ≤ ·) xs).countP_eq]
  generalize hs : xs.insertionSort (· ≤ ·) = s at hk hsorted
  have hlen : s.length = xs.length := by rw [← hs, length_insertionSort]
  have hbefore : (s.take (xs.length / 2 + 1)).countP (s[xs.length / 2] < ·) = 0 := by
    rw [countP_eq_zero]
    intro x hx
    rw [take_succ_eq_append_getElem hk] at hx
    have hle := (pairwise_append.mp (take_succ_eq_append_getElem hk ▸ hsorted.take)).2.2
    rcases mem_append.mp hx with hx | hx
    · simpa using hle x hx
    · simp [mem_singleton.mp hx]
  have hbehind : (s.drop (xs.length / 2 + 1)).countP (s[xs.length / 2] < ·) ≤ _ := countP_le_length
  have hsplit : (s.take (xs.length / 2 + 1) ++ s.drop (xs.length / 2 + 1)).countP
      (s[xs.length / 2] < ·) = _ + _ := countP_append
  rw [take_append_drop] at hsplit
  rw [length_drop] at hbehind
  omega

/-- **Median.** If fewer than half of the samples were replaced, whatever by, the median lies
between two of the others; and at most half of the samples deviate from the median by more than the
MAD. -/
theorem median_robust (po : PairOffset K) :
    (∀ kept replaced, po.samples.Perm (kept ++ replaced) →
      2 * replaced.length < po.samples.length →
      (∃ lo ∈ kept, lo ≤ po.recomputeMedianMad.medianNs) ∧
        ∃ hi ∈ kept, po.recomputeMedianMad.medianNs ≤ hi) ∧
    2 * po.samples.countP (fun v => po.recomputeMedianMad.madNs <
      |v - po.recomputeMedianMad.medianNs|) ≤ po.samples.length := by
  show (∀ kept replaced, _ → _ → (∃ lo ∈ kept, lo ≤ middle po.samples) ∧
    ∃ hi ∈ kept, middle po.samples ≤ hi) ∧ 2 * po.samples.countP (fun v =>
      middle (po.samples.map fun v => |v - middle po.samples|) < |v - middle po.samples|) ≤ _
  constructor
  · intro kept replaced hperm hfew
    have hne : po.samples ≠ [] := by
      rintro h
      simp [h] at hfew
    have hlen := hperm.length_eq
    rw [length_append] at hlen
    -- a side of the middle that held every kept sample would hold more than half
    have hmost : ∀ p : K → Bool, (∀ x ∈ kept, p x) → kept.length ≤ po.samples.countP p := by
      intro p hp
      rw [hperm.countP_eq, countP_append, countP_eq_length.mpr hp]
      exact Nat.le_add_right _ _
    constructor
    · by_contra! hall
      have hcount := hmost (middle po.samples < ·) (by simpa using hall)
      have hhalf := countP_middle_lt hne
      omega
    · by_contra! hall
      have hcount := hmost (· < middle po.samples) (by simpa using hall)
      have hhalf := countP_lt_middle po.samples
      omega
  · by_cases hne : po.samples = []
    · simp [hne]
    have hdevs : (po.samples.map fun v => |v - middle po.samples|) ≠ [] := by simpa using hne
    have hhalf := countP_middle_lt hdevs
    rw [countP_map, length_map] at hhalf
    exact hhalf.le

theorem median_robust_outlier :
    let po : PairOffset ℚ := { freshPair [] [] with samples := [7, 900000, 9] }
    (∃ lo ∈ [(7 : ℚ), 9], lo ≤ po.recomputeMedianMad.medianNs) ∧
      ∃ hi ∈ [(7 : ℚ), 9], po.recomputeMedianMad.medianNs ≤ hi :=
  (median_robust _).1 [7, 9] [900000] (by decide) (by decide)

end Median

/-! ## Deleted pairs -/

section Calls

variable {K : Type*}

def touches (station : List Byte) (po : PairOffset K) : Bool := po.a == station || po.b == station

def resetPairs (stepped : List (List Byte)) (entries : List (PairOffset K)) :
    List (PairOffset K) × Nat :=
  stepped.foldl (fun r s => (r.1.filter fun po => !touches s po, r.2 + r.1.countP (touches s)))
    (entries, 0)

def PairTable.offsets (pairs : PairTable K) : List (PairOffset K) := pairs.entries.map Sigma.snd

theorem offsets_dropStations (stepped : List (List Byte)) (pairs : PairTable K) :
    (dropStations stepped pairs).offsets =
      pairs.offsets.filter fun po => ∀ station ∈ stepped, touches station po = false := by
  simp only [PairTable.offsets, dropStations, filter_map]
  congr 1
  refine filter_congr fun e _ => ?_
  rw [eq_comm, Bool.eq_iff_iff]
  simp only [Function.comp, decide_eq_true_eq, touches, Bool.or_eq_false_iff, beq_eq_false_iff_ne,
    Bool.not_eq_true', Bool.or_eq_false_iff, contains_eq_mem, decide_eq_false_iff_not]
  exact ⟨fun h => ⟨fun ha => (h _ ha).1 rfl, fun hb => (h _ hb).2 rfl⟩,
    fun h station hs => ⟨fun ha => h.1 (ha ▸ hs), fun hb => h.2 (hb ▸ hs)⟩⟩

theorem resetPairs_spec (stepped : List (List Byte)) (entries : List (PairOffset K)) :
    (resetPairs stepped entries).1 =
        entries.filter (fun po => ∀ station ∈ stepped, touches station po = false) ∧
      (resetPairs stepped entries).2 + (resetPairs stepped entries).1.length = entries.length := by
  induction stepped using reverseRecOn with
  | nil => simp [resetPairs]
  | append_singleton before s ih =>
    have hstep : resetPairs (before ++ [s]) entries =
        ((resetPairs before entries).1.filter fun po => !touches s po,
          (resetPairs before entries).2 + (resetPairs before entries).1.countP (touches s)) := by
      simp [resetPairs]
    rw [hstep]
    constructor
    · rw [ih.1, filter_filter]
      refine filter_congr fun po _ => ?_
      rw [Bool.eq_iff_iff]
      simp [or_imp, forall_and, and_comm]
    · have hsplit := length_eq_countP_add_countP (touches s) (l := (resetPairs before entries).1)
      have hrest : ((resetPairs before entries).1.filter fun po => !touches s po).length =
          (resetPairs before entries).1.countP fun po => !touches s po := countP_eq_length_filter.symm
      simp only [Bool.not_eq_true, Bool.decide_eq_false] at hsplit
      dsimp only
      omega

theorem resetPairs_deleted (stepped : List (List Byte)) (pairs : PairTable K) :
    (resetPairs stepped pairs.offsets).2 =
      pairs.entries.length - (dropStations stepped pairs).entries.length := by
  obtain ⟨hkept, hcount⟩ := resetPairs_spec stepped pairs.offsets
  rw [hkept, ← offsets_dropStations] at hcount
  have hall : pairs.offsets.length = pairs.entries.length := length_map _
  have hleft : (dropStations stepped pairs).offsets.length =
      (dropStations stepped pairs).entries.length := length_map _
  omega

/-! ## What a call does -/

variable [Field K] [LinearOrder K] [FloorRing K]

/-- The guard's findings, if the call gets to it. -/
def ClockSync.guarded (cs : ClockSync K) (c : Cluster K K) : Option (AnchorNode K × GuardState K) :=
  let usable := c.observations.filter (usableForSync cs.config)
  if c.observations.length < 2 ∨ usable.length < 2 then none
  else (cs.anchors.lookup c.frame.fromId).map fun anchor =>
    (anchor, clockGuard cs.lastAnchorObsNs usable)

def ClockSync.calibrate (m : MathFns K) (cs : ClockSync K) (now : Int) (anchor : AnchorNode K)
    (g : GuardState K) : PairTable K :=
  (pairsOf g.filtered).foldl (touchPair m cs.config anchor now) (dropStations g.stepped cs.pairs)

theorem feedCluster_eq (m : MathFns K) (cs : ClockSync K) (now : Int) (c : Cluster K K) :
    (cs.feedCluster m now c).1 =
      match cs.guarded c with
      | none => cs
      | some (anchor, g) =>
        { cs with
          lastAnchorObsNs := g.last
          pairs := if g.filtered.length < 2 then dropStations g.stepped cs.pairs
            else cs.calibrate m now anchor g } := by
  rw [ClockSync.feedCluster, ClockSync.guarded]
  by_cases hfew : c.observations.length < 2
  · rw [if_pos hfew, if_pos (.inl hfew)]
  rw [if_neg hfew]
  by_cases husable : (c.observations.filter (usableForSync cs.config)).length < 2
  · rw [if_pos (.inr husable)]
    cases cs.anchors.lookup c.frame.fromId with
    | none => rfl
    | some anchor => exact congrArg Prod.fst (if_pos husable)
  · rw [if_neg (not_or.mpr ⟨hfew, husable⟩)]
    cases cs.anchors.lookup c.frame.fromId with
    | none => rfl
    | some anchor =>
      dsimp only [Option.map_some]
      rw [if_neg husable]
      split <;> rfl

/-! ## The counters -/

def PairOffset.status (cfg : ClockSyncConfig K) (po : PairOffset K) : ClockSyncStatus :=
  pairStatusNow cfg po.lastUpdate po

/-- The clock-sync with its counters, and beside them the number of pairs ever deleted. -/
structure Counted (K : Type*) where
  cs : ClockSync K
  pairsKnown : Nat := 0
  pairsConverged : Nat := 0
  clockStepsResetPairs : Nat := 0
  deleted : Nat := 0

def Counted.feed (m : MathFns K) (s : Counted K) (feed : Int × Cluster K K) : Counted K :=
  let cs := (s.cs.feedCluster m feed.1 feed.2).1
  match s.cs.guarded feed.2 with
  | none => { s with cs := cs }
  | some (_, g) =>
    let reset := s.clockStepsResetPairs + (resetPairs g.stepped s.cs.pairs.offsets).2
    let deleted := s.deleted + (s.cs.pairs.entries.length -
      (dropStations g.stepped s.cs.pairs).entries.length)
    if g.filtered.length < 2 then
      { s with cs := cs, clockStepsResetPairs := reset, deleted := deleted }
    else
      { cs := cs
        pairsKnown := cs.pairs.entries.length
        pairsConverged := cs.pairs.offsets.countP fun po => po.status cs.config = .converged
        clockStepsResetPairs := reset
        deleted := deleted }

/-- The counters say what is held and what was deleted. -/
def Counted.Matches (s : Counted K) : Prop :=
  s.pairsKnown = s.cs.pairs.offsets.length ∧
    s.pairsConverged = s.cs.pairs.offsets.countP (fun po => po.status s.cs.config = .converged) ∧
    s.clockStepsResetPairs = s.deleted

instance (s : Counted K) : Decidable s.Matches := inferInstanceAs (Decidable (_ ∧ _ ∧ _))

/-- A call that the guard leaves with fewer than two observations deletes no pair. -/
def Settles (s : Counted K) (feed : Int × Cluster K K) : Prop :=
  ∀ found ∈ s.cs.guarded feed.2, found.2.filtered.length < 2 →
    ∀ po ∈ s.cs.pairs.offsets, ∀ station ∈ found.2.stepped, touches station po = false

instance (s : Counted K) (feed : Int × Cluster K K) : Decidable (Settles s feed) :=
  inferInstanceAs (Decidable (∀ found ∈ s.cs.guarded feed.2, _))

/-- **Counters.** Throughout a run the counters match the state exactly as long as no call deletes a
pair and is then left with fewer than two observations. -/
theorem counters_match_iff (m : MathFns K) (cs : ClockSync K) (hstart : cs.pairs.entries = [])
    (feeds : List (Int × Cluster K K)) :
    (∀ before, before <+: feeds → (Runs.run (Counted.feed m) { cs := cs } before).Matches) ↔
      Runs.Along (Counted.feed m) Settles { cs := cs } feeds := by
  refine Runs.forall_prefix_iff_along (I := Counted.Matches) (fun _ h => h) ?_ ?_ ?_ feeds
  · rintro s feed ⟨hknown, hconv, hreset⟩ hsettles
    have hcs := feedCluster_eq m s.cs feed.1 feed.2
    rw [Counted.feed]
    cases hguard : s.cs.guarded feed.2 with
    | none =>
      rw [hguard] at hcs
      dsimp only at hcs ⊢
      rw [hcs]
      exact ⟨hknown, hconv, hreset⟩
    | some found =>
      obtain ⟨anchor, g⟩ := found
      rw [hguard] at hcs
      dsimp only at hcs ⊢
      rw [resetPairs_deleted]
      by_cases hfew : g.filtered.length < 2
      · -- no pair is deleted, so the old counts stand
        rw [if_pos hfew] at hcs ⊢
        have hsame : (dropStations g.stepped s.cs.pairs).offsets = s.cs.pairs.offsets := by
          rw [offsets_dropStations, filter_eq_self]
          intro po hpo
          exact decide_eq_true (hsettles _ hguard hfew po hpo)
        rw [hcs]
        refine ⟨?_, ?_, by rw [hreset]⟩
        · show s.pairsKnown = (dropStations g.stepped s.cs.pairs).offsets.length
          rw [hsame, hknown]
        · show s.pairsConverged = (dropStations g.stepped s.cs.pairs).offsets.countP _
          rw [hsame, hconv]
      · rw [if_neg hfew]
        exact ⟨(length_map _).symm, rfl, by rw [hreset]⟩
  · intro s feed hmatch hnot hafter
    rw [Settles] at hnot
    push Not at hnot
    obtain ⟨found, hguard, hfew, po, hpo, station, hstation, htouch⟩ := hnot
    have hcs := feedCluster_eq m s.cs feed.1 feed.2
    have hknown := hafter.1
    rw [Counted.feed, Option.mem_def.mp hguard] at hknown
    rw [Option.mem_def.mp hguard] at hcs
    dsimp only at hknown hcs
    rw [if_pos hfew] at hknown hcs
    dsimp only at hknown
    rw [hcs, hmatch.1] at hknown
    have hless : (dropStations found.2.stepped s.cs.pairs).offsets.length <
        s.cs.pairs.offsets.length := by
      rw [offsets_dropStations]
      refine length_filter_lt_length_iff_exists.mpr ⟨po, hpo, ?_⟩
      simp only [decide_eq_true_eq, not_forall]
      exact ⟨station, hstation, htouch⟩
    exact hless.ne' hknown
  · simp [Counted.Matches, PairTable.offsets, hstart]

/-- Stations `a` and `b` hear two packets, and the clock of `a` goes back by two seconds in between. -/
def steppedBack : List (Int × Cluster ℚ ℚ) :=
  [(1, beaconCluster [heardAt (ascii "a") 0 3000000000, heardAt (ascii "b") 0 3000000000]),
    (2, beaconCluster [heardAt (ascii "a") 0 1000000000, heardAt (ascii "b") 0 4000000000])]

def beaconSync : ClockSync ℚ := declareAnchors (newClockSync (quickConfig 600)) [beacon]

/-- A third station joins in, and no clock goes back. -/
def goingOn : List (Int × Cluster ℚ ℚ) :=
  steppedBack.take 1 ++ [(2, beaconCluster [heardAt (ascii "a") 0 4000000000,
    heardAt (ascii "b") 0 4000000000, heardAt (ascii "c") 0 4000000000])]

theorem counters_match_iff_goingOn :
    (∀ before, before <+: goingOn →
      (Runs.run (Counted.feed atOnePlace) { cs := beaconSync } before).Matches) ∧
    (Runs.run (Counted.feed atOnePlace) { cs := beaconSync } goingOn).pairsKnown = 3 :=
  ⟨(counters_match_iff atOnePlace beaconSync (by decide +kernel) _).mpr (by decide +kernel),
    by decide +kernel⟩

/-- The pair is deleted, and the call returns before it counts again. -/
theorem counters_left_stale :
    let s := Runs.run (Counted.feed atOnePlace) { cs := beaconSync } steppedBack
    s.pairsKnown = 1 ∧ s.pairsConverged = 1 ∧ s.cs.pairs.entries = [] ∧
      s.clockStepsResetPairs = 1 := by
  decide +kernel

end Calls

/-! ## Pairs of two stations -/

section Isolation

variable {K : Type*} [Field K] [LinearOrder K] {m : MathFns K}
  {heard : List (Cluster K K)} {pairs : PairTable K} {key : List Byte} {po : PairOffset K}

def Plain (name : List Byte) : Prop := name ≠ [] ∧ 124#8 ∉ name

instance (name : List Byte) : Decidable (Plain name) := inferInstanceAs (Decidable (_ ∧ _))

/-- The pair is of the two stations its key is read as, and each sample is their offset in a cluster
that both were heard in. -/
structure Isolated (m : MathFns K) (heard : List (Cluster K K)) (key : List Byte)
    (po : PairOffset K) : Prop where
  key_eq : key = po.a ++ ascii "|" ++ po.b
  plain : Plain po.a ∧ Plain po.b
  sample : ∀ x ∈ po.samples, ∃ c ∈ heard, ∃ A ∈ c.observations, ∃ B ∈ c.observations,
    A.station = po.a ∧ B.station = po.b ∧ ∃ anchor, x = offsetOf m anchor A B
  stats : po.medianNs = middle po.samples ∧
    po.madNs = middle (po.samples.map fun v => |v - po.medianNs|)

def AllIsolated (m : MathFns K) (heard : List (Cluster K K)) (pairs : PairTable K) : Prop :=
  ∀ key po, pairs.lookup key = some po → Isolated m heard key po

omit [LinearOrder K] in
theorem neg_offsetOf (m : MathFns K) (anchor : AnchorNode K) (A B : Observation K K) :
    -offsetOf m anchor A B = offsetOf m anchor B A := by
  simp only [offsetOf]
  ring

theorem Isolated.orient (h : AllIsolated m heard pairs) {A B : Observation K K}
    (hA : Plain A.station) (hB : Plain B.station) (anchor : AnchorNode K) :
    let target := orient pairs A.station B.station (offsetOf m anchor A B)
    pairKey A.station B.station = target.1.a ++ ascii "|" ++ target.1.b ∧
      (target.1.a = A.station ∧ target.1.b = B.station ∧ target.2 = offsetOf m anchor A B ∨
        target.1.a = B.station ∧ target.1.b = A.station ∧ target.2 = offsetOf m anchor B A) ∧
      (target.1.samples = [] ∨ pairs.lookup (pairKey A.station B.station) = some target.1) := by
  have hkeys : pairKey A.station B.station = A.station ++ ascii "|" ++ B.station ∨
      pairKey A.station B.station = B.station ++ ascii "|" ++ A.station := by
    rw [pairKey]
    split
    · exact .inl rfl
    · exact .inr rfl
  rw [Fusion.orient]
  cases hlookup : pairs.lookup (pairKey A.station B.station) with
  | none =>
    dsimp only
    split
    next heq => exact ⟨heq, .inl ⟨rfl, rfl, rfl⟩, .inl rfl⟩
    next hne => exact ⟨hkeys.resolve_left hne, .inr ⟨rfl, rfl, neg_offsetOf ..⟩, .inl rfl⟩
  | some po =>
    have hpo := h _ _ hlookup
    refine ⟨hpo.key_eq, ?_, .inr rfl⟩
    dsimp only
    rcases hkeys with hkey | hkey
    · obtain ⟨ha, hb⟩ := halves_of_barFree hA.2 hB.2 (hkey.symm.trans hpo.key_eq)
      rw [if_neg (not_not.mpr ha)]
      exact .inl ⟨ha, hb, rfl⟩
    · obtain ⟨ha, hb⟩ := halves_of_barFree hB.2 hA.2 (hkey.symm.trans hpo.key_eq)
      by_cases hsame : po.a = A.station
      · rw [if_neg (not_not.mpr hsame)]
        exact .inl ⟨hsame, hb.trans (hsame.symm.trans ha), rfl⟩
      · rw [if_pos hsame]
        exact .inr ⟨ha, hb, neg_offsetOf ..⟩

variable [FloorRing K] {cfg : ClockSyncConfig K} {anchor : AnchorNode K} {now : Int}
  {c : Cluster K K} {cs : ClockSync K}

theorem AllIsolated.touchPair (h : AllIsolated m heard pairs) (hc : c ∈ heard)
    (hplain : ∀ o ∈ c.observations, Plain o.station) {ab : Observation K K × Observation K K}
    (hA : ab.1 ∈ c.observations) (hB : ab.2 ∈ c.observations) :
    AllIsolated m heard (touchPair m cfg anchor now pairs ab) := by
  refine forall_touchPair h ?_
  obtain ⟨hkey, hnames, hold⟩ := Isolated.orient h (hplain _ hA) (hplain _ hB) anchor
  generalize orient pairs ab.1.station ab.2.station (offsetOf m anchor ab.1 ab.2) = target
    at hkey hnames hold ⊢
  refine ⟨hkey, ?_, fun x hx => ?_, rfl, rfl⟩
  · show Plain target.1.a ∧ Plain target.1.b
    rcases hnames with ⟨ha, hb, -⟩ | ⟨ha, hb, -⟩
    · rw [ha, hb]
      exact ⟨hplain _ hA, hplain _ hB⟩
    · rw [ha, hb]
      exact ⟨hplain _ hB, hplain _ hA⟩
  · rcases mem_append.mp (mem_of_mem_drop (mem_of_mem_drop hx)) with hx | hx
    · rcases hold with hnone | hheld
      · rw [hnone] at hx
        exact absurd hx not_mem_nil
      · exact (h _ _ hheld).sample x hx
    · rw [mem_singleton.mp hx]
      rcases hnames with ⟨ha, hb, hoffset⟩ | ⟨ha, hb, hoffset⟩
      · exact ⟨c, hc, _, hA, _, hB, ha.symm, hb.symm, anchor, hoffset⟩
      · exact ⟨c, hc, _, hB, _, hA, ha.symm, hb.symm, anchor, hoffset⟩

theorem AllIsolated.feedCluster (h : AllIsolated m heard cs.pairs) (now : Int) (hc : c ∈ heard)
    (hplain : ∀ o ∈ c.observations, Plain o.station) :
    AllIsolated m heard (cs.feedCluster m now c).1.pairs := by
  have hdrop : ∀ stepped, AllIsolated m heard (dropStations stepped cs.pairs) :=
    fun _ key po hlookup => h key po (lookup_of_lookup_dropStations hlookup)
  rw [feedCluster_eq]
  cases hguard : cs.guarded c with
  | none => exact h
  | some found =>
    obtain ⟨anchor, g⟩ := found
    dsimp only
    split
    · exact hdrop _
    -- the observations behind the guard are the cluster's own
    have hsub : ∀ o ∈ g.filtered, o ∈ c.observations := by
      rw [ClockSync.guarded] at hguard
      split at hguard
      · cases hguard
      obtain ⟨_, -, hg⟩ := Option.map_eq_some_iff.mp hguard
      cases hg
      exact fun o ho => mem_of_mem_filter ((filtered_clockGuard_sublist _ _).subset ho)
    refine foldlRecOn (motive := AllIsolated m heard) _ _ (hdrop _) fun pairs hpairs ab hab => ?_
    obtain ⟨hA, hB⟩ := mem_of_mem_pairsOf hab
    exact hpairs.touchPair hc hplain (hsub _ hA) (hsub _ hB)

theorem held_of_mem_snapshots {rec : PairSnapshotRecord K} (h : rec ∈ (cs.feedCluster m now c).2) :
    ∃ po, (cs.feedCluster m now c).1.pairs.lookup rec.pairKey = some po ∧
      rec.medianNs = po.medianNs ∧ rec.madNs = po.madNs ∧ rec.sampleCount = po.samples.length := by
  unfold ClockSync.feedCluster at h ⊢
  by_cases hfew : c.observations.length < 2
  · simp [hfew] at h
  rw [if_neg hfew] at h ⊢
  cases hanchor : cs.anchors.lookup c.frame.fromId with
  | none => simp [hanchor] at h
  | some anchor =>
    rw [hanchor] at h
    dsimp only at h ⊢
    split at h
    · exact absurd h not_mem_nil
    next husable =>
      rw [if_neg husable]
      split at h
      · exact absurd h not_mem_nil
      next hleft =>
        rw [if_neg hleft]
        dsimp only at h ⊢
        split at h
        · exact absurd h not_mem_nil
        obtain ⟨key, -, hrec⟩ := mem_filterMap.mp h
        obtain ⟨po, hpo, rfl⟩ := Option.map_eq_some_iff.mp hrec
        exact ⟨po, hpo, rfl, rfl, rfl⟩

omit [Field K] [FloorRing K] in
theorem mem_of_mem_writes {rec : PairSnapshotRecord K} (recs : List (PairSnapshotRecord K))
    {store : SnapshotStore K} (h : rec ∈ recs.foldl writePairSnapshot store) :
    rec ∈ store ∨ rec ∈ recs := by
  induction recs generalizing store with
  | nil => exact .inl h
  | cons r rest ih =>
    rcases ih h with hmem | hmem
    · rcases mem_append.mp hmem with hold | hnew
      · exact .inl (mem_of_mem_filter hold)
      · rw [mem_singleton.mp hnew]
        exact .inr mem_cons_self
    · exact .inr (mem_cons_of_mem _ hmem)

theorem pairKeyEndpoints_joined {a b : List Byte} (ha : Plain a) (hb : Plain b) :
    pairKeyEndpoints (a ++ ascii "|" ++ b) = some (a, b) := by
  have hbar : ascii "|" = [124#8] := by decide
  have hidx : (a ++ ascii "|" ++ b).idxOf 124#8 = a.length := by
    rw [hbar, append_assoc, idxOf_append_of_notMem ha.2]
    simp
  have hpos := length_pos_of_ne_nil ha.1
  have hlen := length_pos_of_ne_nil hb.1
  rw [pairKeyEndpoints, hidx, if_neg, hbar]
  · simp
  · rw [hbar]
    simp only [length_append, length_singleton]
    omega

omit [FloorRing K] in
theorem Isolated.endpoints (h : Isolated m heard key po) : pairKeyEndpoints key = some (po.a, po.b) := by
  rw [h.key_eq, pairKeyEndpoints_joined h.plain.1 h.plain.2]

def Recorded (m : MathFns K) (heard : List (Cluster K K)) (rec : PairSnapshotRecord K) : Prop :=
  ∃ po, Isolated m heard rec.pairKey po ∧ pairKeyEndpoints rec.pairKey = some (po.a, po.b) ∧
    rec.medianNs = po.medianNs ∧ rec.madNs = po.madNs ∧ rec.sampleCount = po.samples.length

theorem isolated_flush {σ : FusionState K} (h : AllIsolated m heard σ.clockSync.pairs ∧
      ∀ rec ∈ σ.store, Recorded m heard rec) {feed : Int × Cluster K K} (hc : feed.2 ∈ heard)
    (hplain : ∀ o ∈ feed.2.observations, Plain o.station) :
    AllIsolated m heard (σ.flush m feed).1.clockSync.pairs ∧
      ∀ rec ∈ (σ.flush m feed).1.store, Recorded m heard rec := by
  have hnew := h.1.feedCluster feed.1 hc hplain
  refine ⟨hnew, fun rec hrec => ?_⟩
  rcases mem_of_mem_writes _ hrec with hold | hrec
  · exact h.2 rec hold
  · obtain ⟨po, hpo, hshown⟩ := held_of_mem_snapshots hrec
    exact ⟨po, hnew _ _ hpo, (hnew _ _ hpo).endpoints, hshown⟩

/-- **Isolation.** With station names that are not empty and have no bar, each held pair and stored
snapshot is of the two stations its key is read as, both heard in every cluster a sample comes from.
-/
theorem pairs_isolated (m : MathFns K) (cfg : ClockSyncConfig K) (anchors : List (AnchorNode K))
    (feeds : List (Int × Cluster K K))
    (hplain : ∀ feed ∈ feeds, ∀ o ∈ feed.2.observations, Plain o.station) :
    let σ := (startFusion cfg anchors).flushAll m feeds
    (∀ key po, σ.clockSync.pairs.lookup key = some po → Isolated m (feeds.map Prod.snd) key po ∧
      pairKeyEndpoints key = some (po.a, po.b)) ∧
    (∀ rec ∈ σ.store, Recorded m (feeds.map Prod.snd) rec) ∧
    ∀ a b po, Plain a → Plain b → σ.clockSync.pairs.lookup (pairKey a b) = some po →
      po.a = a ∧ po.b = b ∨ po.a = b ∧ po.b = a := by
  intro σ
  have hinv : AllIsolated m (feeds.map Prod.snd) σ.clockSync.pairs ∧
      ∀ rec ∈ σ.store, Recorded m (feeds.map Prod.snd) rec := by
    refine foldlRecOn (motive := fun σ : FusionState K => AllIsolated m (feeds.map Prod.snd)
      σ.clockSync.pairs ∧ ∀ rec ∈ σ.store, Recorded m (feeds.map Prod.snd) rec) feeds _ ?_ ?_
    · refine ⟨fun key po hlookup => ?_, fun rec hrec => absurd hrec not_mem_nil⟩
      rw [startFusion, (declareAnchors_settings anchors (newClockSync cfg)).2] at hlookup
      cases hlookup
    · exact fun σ h feed hfeed => isolated_flush h (mem_map_of_mem hfeed) (hplain feed hfeed)
  refine ⟨fun key po h => ⟨hinv.1 key po h, (hinv.1 key po h).endpoints⟩, hinv.2, ?_⟩
  intro a b po ha hb hlookup
  have hkey := (hinv.1 _ _ hlookup).key_eq
  rw [pairKey] at hkey
  split at hkey
  · exact .inl (halves_of_barFree ha.2 hb.2 hkey)
  · exact .inr (halves_of_barFree hb.2 ha.2 hkey)

/-- Two packets of the anchor, each heard by two stations. -/
def heardByTwo (a b c d : List Byte) : List (Int × Cluster ℚ ℚ) :=
  [(1, beaconCluster [heardAt a 0 1000, heardAt b 0 1005]),
    (2, beaconCluster [heardAt c 0 2000, heardAt d 0 2900])]

theorem pairs_isolated_plain :
    let σ := (startFusion (quickConfig 600) [beacon]).flushAll atOnePlace
      (heardByTwo (ascii "a") (ascii "b") (ascii "a") (ascii "c"))
    (∀ rec ∈ σ.store, Recorded atOnePlace
      ((heardByTwo (ascii "a") (ascii "b") (ascii "a") (ascii "c")).map Prod.snd) rec) ∧
    σ.store.length = 2 :=
  ⟨(pairs_isolated atOnePlace (quickConfig 600) [beacon] _ (by decide)).2.1, by decide +kernel⟩

/-- The stations `a|b` and `c` share the pair of `a` and `b|c`, and a replay takes it for that of `a`
and `b|c`. -/
theorem barred_names_share_pair :
    let σ := (startFusion (quickConfig 600) [beacon]).flushAll atOnePlace
      (heardByTwo (ascii "a|b") (ascii "c") (ascii "a") (ascii "b|c"))
    (σ.clockSync.pairs.lookup (pairKey (ascii "a|b") (ascii "c"))).map (·.samples) = some [5, -900] ∧
      pairKey (ascii "a|b") (ascii "c") = pairKey (ascii "a") (ascii "b|c") ∧
      pairKeyEndpoints (pairKey (ascii "a|b") (ascii "c")) = some (ascii "a", ascii "b|c") := by
  decide +kernel

end Isolation

end MeshcoreSniffer.Fusion
