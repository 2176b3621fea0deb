import MeshcoreSniffer.Lib.CString
import MeshcoreSniffer.Lib.Printf

/-!
# Clusters of one packet

The in-flight pool of `fusion/main.go`: frames of one `(from, packet_id)` are gathered into
clusters, one for each RF emission. The first cluster that accepts a lock is that of its emission
(`joins_iff`, `Separated.run`).
-/

namespace MeshcoreSniffer.Fusion

open Lib Lib.Printf List

/-- The fields of a sniffer event that the cluster pool reads. -/
structure Frame (T F : Type*) where
  event : List Byte
  station : List Byte
  stationLat : F
  stationLon : F
  stationAltM : F
  stationTNs : T
  stationTAccNs : Nat
  preambleLockTNs : T
  fromId : List Byte
  packetId : Nat
  snrDb : F
  rssiDb : F

structure Observation (T F : Type*) where
  station : List Byte
  stationLat : F
  stationLon : F
  stationAltM : F
  stationTNs : T
  stationTAccNs : Nat
  preambleLockTNs : T
  snrDb : F
  rssiDb : F
  atTime : Int

structure Cluster (T F : Type*) where
  key : List Byte
  baseKey : List Byte
  emissionSeq : Nat
  firstSeen : Int
  frame : Frame T F
  observations : List (Observation T F)
  minPreambleLockTNs : T
  maxPreambleLockTNs : T
  lowTrust : Bool
  stationDupesSuppressed : Nat

def clusterKey (fromId : List Byte) (pid : Nat) : List Byte := fromId ++ ascii "|" ++ decimal pid

def clusterKeyWithSeq (fromId : List Byte) (pid seq : Nat) : List Byte :=
  if seq = 0 then clusterKey fromId pid
  else fromId ++ ascii "|" ++ decimal pid ++ ascii "|" ++ decimal seq

section Model

variable {T F : Type*} [LinearOrder T] [Zero T] [Sub T] [LinearOrder F]

def observationClass (o : Observation T F) : Nat := if o.preambleLockTNs ≠ 0 then 1 else 0

def betterObservation (a b : Observation T F) : Bool :=
  if observationClass a ≠ observationClass b then
    decide (observationClass b < observationClass a)
  else decide (b.snrDb < a.snrDb)

/-- It has no lock yet, or the spread stays within the window. -/
def Cluster.joins (sameEmissionNs lock : T) (c : Cluster T F) : Bool :=
  if c.minPreambleLockTNs = 0 ∧ c.maxPreambleLockTNs = 0 then true
  else
    let lo := if lock < c.minPreambleLockTNs then lock else c.minPreambleLockTNs
    let hi := if c.maxPreambleLockTNs < lock then lock else c.maxPreambleLockTNs
    decide (hi - lo ≤ sameEmissionNs)

def latestCluster (clusters : List (Cluster T F)) : Option Nat :=
  match clusters with
  | [] => none
  | first :: rest =>
    some (rest.zipIdx.foldl
      (fun latest (c : Cluster T F × Nat) =>
        if latest.1 < c.1.emissionSeq then (c.1.emissionSeq, c.2 + 1) else latest)
      (first.emissionSeq, 0)).2

/-- `pickCluster`, as the place of the cluster in the list. -/
def pickCluster (clusters : List (Cluster T F)) (f : Frame T F) (sameEmissionNs : T) : Option Nat :=
  if f.preambleLockTNs ≠ 0 then clusters.findIdx? (·.joins sameEmissionNs f.preambleLockTNs)
  else latestCluster clusters

def widen (bounds : T × T) (o : Observation T F) : T × T :=
  if o.preambleLockTNs = 0 then bounds
  else
    (if bounds.1 = 0 ∨ o.preambleLockTNs < bounds.1 then o.preambleLockTNs else bounds.1,
      if bounds.2 < o.preambleLockTNs then o.preambleLockTNs else bounds.2)

def Cluster.recomputeLockBounds (c : Cluster T F) : Cluster T F :=
  let bounds := c.observations.foldl widen ((0, 0) : T × T)
  { c with minPreambleLockTNs := bounds.1, maxPreambleLockTNs := bounds.2 }

def Cluster.mergeObservation (c : Cluster T F) (obs : Observation T F) : Cluster T F :=
  match c.observations.findIdx? (·.station == obs.station) with
  | some i =>
    Cluster.recomputeLockBounds
      { c with
        observations := c.observations.modify i fun existing =>
          if betterObservation obs existing then obs else existing
        stationDupesSuppressed := c.stationDupesSuppressed + 1 }
  | none =>
    let bounds := widen (c.minPreambleLockTNs, c.maxPreambleLockTNs) obs
    { c with
      observations := c.observations ++ [obs]
      minPreambleLockTNs := bounds.1
      maxPreambleLockTNs := bounds.2 }

def Frame.observation (f : Frame T F) (now : Int) : Observation T F where
  station := if f.station = [] then ascii "(unnamed)" else f.station
  stationLat := f.stationLat
  stationLon := f.stationLon
  stationAltM := f.stationAltM
  stationTNs := f.stationTNs
  stationTAccNs := f.stationTAccNs
  preambleLockTNs := f.preambleLockTNs
  snrDb := f.snrDb
  rssiDb := f.rssiDb
  atTime := now

def Frame.newCluster (f : Frame T F) (seq : Nat) (now : Int) : Cluster T F where
  key := clusterKeyWithSeq f.fromId f.packetId seq
  baseKey := clusterKey f.fromId f.packetId
  emissionSeq := seq
  firstSeen := now
  frame := f
  observations := []
  minPreambleLockTNs := 0
  maxPreambleLockTNs := 0
  lowTrust := decide (f.preambleLockTNs = 0)
  stationDupesSuppressed := 0

def Frame.joinCluster (f : Frame T F) (now : Int) (c : Cluster T F) : Cluster T F :=
  Cluster.mergeObservation
    (if f.preambleLockTNs = 0 then { c with lowTrust := true } else c) (f.observation now)

/-- `pending` and `nextEmissionSeq` of the main loop. -/
structure Pool (T F : Type*) where
  pending : List Byte → List (Cluster T F)
  nextEmissionSeq : List Byte → Nat

def clustersAfter (clusters : List (Cluster T F)) (seq : Nat) (f : Frame T F) (now : Int)
    (sameEmissionNs : T) : List (Cluster T F) :=
  match pickCluster clusters f sameEmissionNs with
  | some i => clusters.modify i (f.joinCluster now)
  | none => clusters ++ [(f.newCluster seq now).mergeObservation (f.observation now)]

def Pool.step (sameEmissionNs : T) (p : Pool T F) (arrival : Frame T F × Int) : Pool T F :=
  let f := arrival.1
  if f.event ≠ [] then p
  else if f.fromId = [] ∨ f.packetId = 0 then p
  else
    let baseKey := clusterKey f.fromId f.packetId
    let seq := p.nextEmissionSeq baseKey
    { pending := Function.update p.pending baseKey
        (clustersAfter (p.pending baseKey) seq f arrival.2 sameEmissionNs)
      nextEmissionSeq :=
        match pickCluster (p.pending baseKey) f sameEmissionNs with
        | some _ => p.nextEmissionSeq
        | none => Function.update p.nextEmissionSeq baseKey (seq + 1) }

def emptyPool : Pool T F := ⟨fun _ => [], fun _ => 0⟩

end Model

/-! ## Lock bounds -/

section Bounds

variable {F : Type*}

def locksOf (os : List (Observation ℕ F)) : List ℕ :=
  (os.map (·.preambleLockTNs)).filter (· ≠ 0)

variable {os : List (Observation ℕ F)} {t : ℕ} {c : Cluster ℕ F} {obs : Observation ℕ F}

theorem mem_locksOf : t ∈ locksOf os ↔ t ≠ 0 ∧ ∃ o ∈ os, o.preambleLockTNs = t := by
  simp [locksOf, and_comm]

theorem locksOf_append_singleton (os : List (Observation ℕ F)) (o : Observation ℕ F) :
    locksOf (os ++ [o]) =
      locksOf os ++ if o.preambleLockTNs = 0 then [] else [o.preambleLockTNs] := by
  by_cases h : o.preambleLockTNs = 0
  · simp [locksOf, h]
  · simp [locksOf, h]

/-- The bounds are zero without locks and otherwise the least and greatest lock. -/
inductive Bounded (ts : List ℕ) (b : ℕ × ℕ) : Prop
  | none (hts : ts = []) (hb : b = (0, 0))
  | some (hlo : b.1 ∈ ts) (hhi : b.2 ∈ ts) (hall : ∀ t ∈ ts, b.1 ≤ t ∧ t ≤ b.2)

theorem Bounded.widen {b : ℕ × ℕ} (h : Bounded (locksOf os) b) (o : Observation ℕ F) :
    Bounded (locksOf (os ++ [o])) (widen b o) := by
  rw [locksOf_append_singleton, Fusion.widen]
  by_cases h0 : o.preambleLockTNs = 0
  · rw [if_pos h0, if_pos h0, append_nil]
    exact h
  · rw [if_neg h0, if_neg h0]
    cases h with
    | none hts hb =>
      rw [hts, hb]
      refine .some ?_ ?_ ?_
      · simp
      · simp [Nat.pos_of_ne_zero h0]
      · simp [Nat.pos_of_ne_zero h0]
    | some hlo hhi hall =>
      -- a lock is never zero, so neither is the lower bound
      have hne : b.1 ≠ 0 := (mem_locksOf.mp hlo).1
      refine .some ?_ ?_ ?_
      · dsimp only
        split
        · simp
        · exact mem_append_left _ hlo
      · dsimp only
        split
        · simp
        · exact mem_append_left _ hhi
      · intro t ht
        rw [mem_append, mem_singleton] at ht
        rcases ht with ht | rfl
        · obtain ⟨h1, h2⟩ := hall t ht
          dsimp only
          constructor
          · split <;> omega
          · split <;> omega
        · dsimp only
          constructor
          · split <;> omega
          · split <;> omega

theorem bounded_foldl_widen (os : List (Observation ℕ F)) :
    Bounded (locksOf os) (os.foldl widen (0, 0)) := by
  induction os using reverseRecOn with
  | nil => exact .none rfl rfl
  | append_singleton os o ih =>
    rw [foldl_append]
    exact ih.widen o

def Cluster.locks (c : Cluster ℕ F) : List ℕ := locksOf c.observations

def Cluster.bounds (c : Cluster ℕ F) : ℕ × ℕ := (c.minPreambleLockTNs, c.maxPreambleLockTNs)

variable [LinearOrder F]

theorem Cluster.bounded_mergeObservation (h : Bounded c.locks c.bounds) (obs : Observation ℕ F) :
    Bounded (c.mergeObservation obs).locks (c.mergeObservation obs).bounds := by
  rw [Cluster.mergeObservation]
  split
  next i hfind => exact bounded_foldl_widen _
  next hnone => exact h.widen obs

theorem Cluster.mergeObservation_cases (c : Cluster ℕ F) (obs : Observation ℕ F) :
    (∃ before existing after, c.observations = before ++ existing :: after ∧
      existing.station = obs.station ∧ (c.mergeObservation obs).observations =
        before ++ (if betterObservation obs existing then obs else existing) :: after) ∨
    (∀ o ∈ c.observations, o.station ≠ obs.station) ∧
      (c.mergeObservation obs).observations = c.observations ++ [obs] := by
  rw [Cluster.mergeObservation]
  split
  next i hfind =>
    obtain ⟨hlt, hstation, -⟩ := findIdx?_eq_some_iff_getElem.mp hfind
    refine .inl ⟨c.observations.take i, c.observations[i], c.observations.drop (i + 1), ?_,
      by simpa using hstation, modify_eq_take_cons_drop hlt⟩
    rw [getElem_cons_drop, take_append_drop]
  next hnone =>
    exact .inr ⟨fun o ho => by simpa using findIdx?_eq_none_iff.mp hnone o ho, rfl⟩

theorem lock_of_betterObservation {existing : Observation ℕ F}
    (h : betterObservation obs existing = true) (hobs : obs.preambleLockTNs = 0) :
    existing.preambleLockTNs = 0 := by
  by_contra hlock
  have h1 : observationClass existing = 1 := if_pos hlock
  have h0 : observationClass obs = 0 := if_neg (not_not.mpr hobs)
  rw [betterObservation, h1, h0] at h
  simp at h

theorem Cluster.mem_mergeObservation {o : Observation ℕ F}
    (ho : o ∈ (c.mergeObservation obs).observations) : o ∈ c.observations ∨ o = obs := by
  rcases c.mergeObservation_cases obs with ⟨before, existing, after, hc, -, heq⟩ | ⟨-, heq⟩
  · rw [heq, mem_append, mem_cons] at ho
    rw [hc, mem_append, mem_cons]
    split at ho <;> tauto
  · rw [heq, mem_append, mem_singleton] at ho
    exact ho

theorem Cluster.mem_locks_mergeObservation (ht : t ∈ (c.mergeObservation obs).locks) :
    t ∈ c.locks ∨ t = obs.preambleLockTNs := by
  obtain ⟨hne, o, ho, rfl⟩ := mem_locksOf.mp ht
  rcases Cluster.mem_mergeObservation ho with hold | rfl
  · exact .inl (mem_locksOf.mpr ⟨hne, o, hold, rfl⟩)
  · exact .inr rfl

theorem Cluster.mem_locks_of_lockFree (hobs : obs.preambleLockTNs = 0) (ht : t ∈ c.locks) :
    t ∈ (c.mergeObservation obs).locks := by
  obtain ⟨hne, o, ho, rfl⟩ := mem_locksOf.mp ht
  refine mem_locksOf.mpr ⟨hne, o, ?_, rfl⟩
  rcases c.mergeObservation_cases obs with ⟨before, existing, after, hc, -, heq⟩ | ⟨-, heq⟩
  · rw [hc, mem_append, mem_cons] at ho
    rw [heq, mem_append, mem_cons]
    rcases ho with hbefore | rfl | hafter
    · exact .inl hbefore
    · exact .inr (.inl (if_neg fun hbetter => hne (lock_of_betterObservation hbetter hobs)).symm)
    · exact .inr (.inr hafter)
  · rw [heq]
    exact mem_append_left _ ho

theorem Cluster.locks_mergeObservation_ne_nil (hobs : obs.preambleLockTNs ≠ 0) :
    (c.mergeObservation obs).locks ≠ [] := by
  suffices h : ∃ o ∈ (c.mergeObservation obs).observations, o.preambleLockTNs ≠ 0 by
    obtain ⟨o, ho, hne⟩ := h
    exact ne_nil_of_mem (mem_locksOf.mpr ⟨hne, o, ho, rfl⟩)
  rcases c.mergeObservation_cases obs with ⟨before, existing, after, -, -, heq⟩ | ⟨-, heq⟩
  · -- the slot of the station holds the new lock, or a lock that beats it
    refine ⟨_, heq ▸ mem_append_right _ mem_cons_self, ?_⟩
    split
    next => exact hobs
    next hworse =>
      intro h0
      apply hworse
      have h1 : observationClass obs = 1 := if_pos hobs
      have h2 : observationClass existing = 0 := if_neg (not_not.mpr h0)
      rw [betterObservation, h1, h2]
      rfl
  · exact ⟨obs, by simp [heq], hobs⟩

end Bounds

/-! ## Emissions -/

section Emissions

variable {F ι : Type*}

/-- The locks in `S` split into emissions: at most the window apart inside one, more between two. -/
structure Emissions (emission : ℕ → ι) (window : ℕ) (S : ℕ → Prop) : Prop where
  spread : ∀ t t', S t → S t' → emission t = emission t' → t' - t ≤ window
  gap : ∀ t t', S t → S t' → emission t ≠ emission t' → t < t' → window < t' - t

/-- Every cluster has the locks of one emission, two never share one, and a cluster without locks is
alone. -/
structure Separated (emission : ℕ → ι) (S : ℕ → Prop) (cs : List (Cluster ℕ F)) : Prop where
  known : ∀ c ∈ cs, ∀ t ∈ c.locks, S t
  bounded : ∀ c ∈ cs, Bounded c.locks c.bounds
  single : ∀ c ∈ cs, ∀ t ∈ c.locks, ∀ t' ∈ c.locks, emission t = emission t'
  apart : ∀ (i j : ℕ) (c c' : Cluster ℕ F), cs[i]? = some c → cs[j]? = some c' →
    ∀ t ∈ c.locks, ∀ t' ∈ c'.locks, emission t = emission t' → i = j
  lockFree : ∀ c ∈ cs, c.locks = [] → cs.length = 1

variable {emission : ℕ → ι} {window : ℕ} {S : ℕ → Prop} {cs : List (Cluster ℕ F)}

theorem separated_nil : Separated emission S ([] : List (Cluster ℕ F)) where
  known := by simp
  bounded := by simp
  single := by simp
  apart := by simp
  lockFree := by simp

variable {c : Cluster ℕ F} {f : Frame ℕ F} {a a' : List Byte} {p : Pool ℕ F}

theorem Cluster.joins_of_no_locks (hb : Bounded c.locks c.bounds) (hc : c.locks = []) (lock : ℕ) :
    c.joins window lock = true := by
  cases hb with
  | none _ hb =>
    obtain ⟨hlo, hhi⟩ := Prod.mk.inj hb
    rw [Cluster.joins, if_pos ⟨hlo, hhi⟩]
  | some hlo _ _ =>
    rw [hc] at hlo
    cases hlo

theorem Cluster.joins_iff (hem : Emissions emission window S) (hb : Bounded c.locks c.bounds)
    (hknown : ∀ t ∈ c.locks, S t)
    (hsingle : ∀ t ∈ c.locks, ∀ t' ∈ c.locks, emission t = emission t') (hne : c.locks ≠ [])
    {lock : ℕ} (hlock : S lock) :
    c.joins window lock = true ↔ ∀ t ∈ c.locks, emission t = emission lock := by
  cases hb with
  | none hc _ => exact absurd hc hne
  | some hlo hhi hall =>
    have hlo' : c.minPreambleLockTNs ∈ c.locks := hlo
    have hhi' : c.maxPreambleLockTNs ∈ c.locks := hhi
    have hle : c.minPreambleLockTNs ≤ c.maxPreambleLockTNs := (hall _ hlo').2
    have hnz : ¬(c.minPreambleLockTNs = 0 ∧ c.maxPreambleLockTNs = 0) :=
      fun h => (mem_locksOf.mp hlo').1 h.1
    rw [Cluster.joins, if_neg hnz, decide_eq_true_eq]
    constructor
    · intro hspread t ht
      by_contra hdiff
      -- a foreign lock is further than the window from both bounds
      have hdlo : emission c.minPreambleLockTNs ≠ emission lock := by
        rw [hsingle _ hlo' t ht]
        exact hdiff
      have hdhi : emission c.maxPreambleLockTNs ≠ emission lock := by
        rw [hsingle _ hhi' t ht]
        exact hdiff
      have h1 := hem.gap _ _ (hknown _ hlo') hlock hdlo
      have h2 := hem.gap _ _ hlock (hknown _ hhi') hdhi.symm
      have hne' : c.minPreambleLockTNs ≠ lock := fun h => hdlo (by rw [h])
      split at hspread
      next hbelow =>
        split at hspread
        next => omega
        next => omega
      next =>
        split at hspread
        next => omega
        next => omega
    · intro hsame
      have hlolock := hsame _ hlo'
      have hhilock := hsame _ hhi'
      have h1 := hem.spread _ _ (hknown _ hlo') hlock hlolock
      have h2 := hem.spread _ _ hlock (hknown _ hhi') hhilock.symm
      have h3 := hem.spread _ _ (hknown _ hlo') (hknown _ hhi') (hlolock.trans hhilock.symm)
      split
      next =>
        split
        next => omega
        next => omega
      next =>
        split
        next => omega
        next => omega

variable [LinearOrder F]

theorem Frame.locks_joinCluster (f : Frame ℕ F) (now : Int) (c : Cluster ℕ F) :
    ∃ c₀ : Cluster ℕ F, c₀.locks = c.locks ∧ c₀.bounds = c.bounds ∧
      f.joinCluster now c = c₀.mergeObservation (f.observation now) := by
  rw [Frame.joinCluster]
  split
  next => exact ⟨{ c with lowTrust := true }, rfl, rfl, rfl⟩
  next => exact ⟨c, rfl, rfl, rfl⟩

theorem Separated.join (h : Separated emission S cs) (now : Int) {i : ℕ}
    (hlock : f.preambleLockTNs ≠ 0 → S f.preambleLockTNs)
    (hown : f.preambleLockTNs ≠ 0 → ∀ c, cs[i]? = some c → ∀ t ∈ c.locks, emission t = emission f.preambleLockTNs) :
    Separated emission S (cs.modify i (f.joinCluster now)) := by
  -- the locks of every cluster after the join, from those before
  have hback : ∀ (j : ℕ) (c' : Cluster ℕ F), (cs.modify i (f.joinCluster now))[j]? = some c' →
      ∃ c, cs[j]? = some c ∧ Bounded c'.locks c'.bounds ∧
        (∀ t ∈ c'.locks, t ∈ c.locks ∨
          (i = j ∧ t = f.preambleLockTNs ∧ f.preambleLockTNs ≠ 0)) ∧
        (c'.locks = [] → c.locks = []) := by
    intro j c' hj
    rw [getElem?_modify] at hj
    obtain ⟨c, hc, heq⟩ := Option.map_eq_some_iff.mp hj
    have hb := h.bounded c (mem_of_getElem? hc)
    refine ⟨c, hc, ?_⟩
    by_cases hij : i = j
    · rw [if_pos hij] at heq
      obtain ⟨c₀, hlocks, hbounds, hjoin⟩ := f.locks_joinCluster now c
      rw [← hlocks, ← hbounds] at hb
      rw [← heq, hjoin, ← hlocks]
      refine ⟨Cluster.bounded_mergeObservation hb _, ?_, ?_⟩
      · intro t ht
        rcases Cluster.mem_locks_mergeObservation ht with hold | hnew
        · exact .inl hold
        · have hnew' : t = f.preambleLockTNs := hnew
          exact .inr ⟨hij, hnew', hnew' ▸ (mem_locksOf.mp ht).1⟩
      · intro hnil
        by_cases h0 : f.preambleLockTNs = 0
        · refine eq_nil_iff_forall_not_mem.mpr fun t ht => ?_
          have hmem : t ∈ (c₀.mergeObservation (f.observation now)).locks :=
            Cluster.mem_locks_of_lockFree h0 ht
          rw [hnil] at hmem
          cases hmem
        · exact absurd hnil (Cluster.locks_mergeObservation_ne_nil h0)
    · rw [if_neg hij] at heq
      have heq' : c = c' := heq
      subst heq'
      exact ⟨hb, fun t ht => .inl ht, fun hnil => hnil⟩
  have hmem : ∀ c' ∈ cs.modify i (f.joinCluster now), ∃ j : ℕ,
      (cs.modify i (f.joinCluster now))[j]? = some c' := fun c' hc' => mem_iff_getElem?.mp hc'
  refine ⟨?_, ?_, ?_, ?_, ?_⟩
  · intro c' hc' t ht
    obtain ⟨j, hj⟩ := hmem c' hc'
    obtain ⟨c, hc, -, hlocks, -⟩ := hback j c' hj
    rcases hlocks t ht with hold | ⟨-, rfl, hne⟩
    · exact h.known c (mem_of_getElem? hc) t hold
    · exact hlock hne
  · intro c' hc'
    obtain ⟨j, hj⟩ := hmem c' hc'
    obtain ⟨c, -, hb, -⟩ := hback j c' hj
    exact hb
  · intro c' hc' t ht t' ht'
    obtain ⟨j, hj⟩ := hmem c' hc'
    obtain ⟨c, hc, -, hlocks, -⟩ := hback j c' hj
    rcases hlocks t ht with hold | ⟨rfl, rfl, hne⟩
    · rcases hlocks t' ht' with hold' | ⟨rfl, rfl, hne⟩
      · exact h.single c (mem_of_getElem? hc) t hold t' hold'
      · exact hown hne c hc t hold
    · rcases hlocks t' ht' with hold' | ⟨-, rfl, -⟩
      · exact (hown hne c hc t' hold').symm
      · rfl
  · intro j k c₁ c₂ hj hk t ht t' ht' heq
    obtain ⟨d₁, hd₁, -, hlocks₁, -⟩ := hback j c₁ hj
    obtain ⟨d₂, hd₂, -, hlocks₂, -⟩ := hback k c₂ hk
    -- a cluster that took the lock has its emission already, or is the only cluster
    have hfirst : ∀ (a b : ℕ) (c c' : Cluster ℕ F), cs[a]? = some c → cs[b]? = some c' → i = a →
        f.preambleLockTNs ≠ 0 → ∀ u ∈ c'.locks, emission f.preambleLockTNs = emission u →
        a = b := by
      intro a b c c' ha hb hia hne u hu hemit
      subst hia
      by_cases hnil : c.locks = []
      · have hone := h.lockFree c (mem_of_getElem? ha) hnil
        have hia := (List.getElem?_eq_some_iff.mp ha).1
        have hib := (List.getElem?_eq_some_iff.mp hb).1
        omega
      · obtain ⟨v, hv⟩ := exists_mem_of_ne_nil _ hnil
        exact h.apart _ _ c c' ha hb v hv u hu ((hown hne c ha v hv).trans hemit)
    rcases hlocks₁ t ht with hold | ⟨hij, rfl, hne⟩
    · rcases hlocks₂ t' ht' with hold' | ⟨hik, rfl, hne⟩
      · exact h.apart j k d₁ d₂ hd₁ hd₂ t hold t' hold' heq
      · exact (hfirst k j d₂ d₁ hd₂ hd₁ hik hne t hold heq.symm).symm
    · rcases hlocks₂ t' ht' with hold' | ⟨hik, -, -⟩
      · exact hfirst j k d₁ d₂ hd₁ hd₂ hij hne t' hold' heq
      · rw [← hij, ← hik]
  · intro c' hc' hnil
    obtain ⟨j, hj⟩ := hmem c' hc'
    obtain ⟨c, hc, -, -, hempty⟩ := hback j c' hj
    rw [length_modify]
    exact h.lockFree c (mem_of_getElem? hc) (hempty hnil)

theorem Separated.openCluster (h : Separated emission S cs) (hem : Emissions emission window S)
    (seq : ℕ) (now : Int) (hlock : f.preambleLockTNs ≠ 0 → S f.preambleLockTNs)
    (hnone : pickCluster cs f window = none) : Separated emission S
      (cs ++ [(f.newCluster seq now).mergeObservation (f.observation now)]) := by
  set new := (f.newCluster seq now).mergeObservation (f.observation now) with hnew
  have hboot : Bounded (f.newCluster seq now).locks (f.newCluster seq now).bounds := .none rfl rfl
  have hb : Bounded new.locks new.bounds := Cluster.bounded_mergeObservation hboot _
  have hlocks : ∀ t ∈ new.locks, t = f.preambleLockTNs ∧ f.preambleLockTNs ≠ 0 := by
    intro t ht
    rcases Cluster.mem_locks_mergeObservation ht with hold | heq
    · cases hold
    · have heq' : t = f.preambleLockTNs := heq
      exact ⟨heq', heq' ▸ (mem_locksOf.mp ht).1⟩
  -- no cluster has the emission of the lock, and with a lock none is without locks
  have hother : f.preambleLockTNs ≠ 0 → ∀ c ∈ cs, c.locks ≠ [] ∧
      ∀ t ∈ c.locks, emission t ≠ emission f.preambleLockTNs := by
    intro hne c hc
    have hrefuse : c.joins window f.preambleLockTNs = false := by
      rw [pickCluster, if_pos hne] at hnone
      exact findIdx?_eq_none_iff.mp hnone c hc
    have hcne : c.locks ≠ [] := by
      intro hnil
      rw [Cluster.joins_of_no_locks (h.bounded c hc) hnil] at hrefuse
      cases hrefuse
    refine ⟨hcne, fun t ht heq => ?_⟩
    have hjoins := (Cluster.joins_iff hem (h.bounded c hc) (h.known c hc) (h.single c hc) hcne
      (hlock hne)).mpr fun t' ht' => (h.single c hc t' ht' t ht).trans heq
    rw [hrefuse] at hjoins
    cases hjoins
  have hcase : ∀ (j : ℕ) (c : Cluster ℕ F), (cs ++ [new])[j]? = some c →
      (cs[j]? = some c) ∨ (j = cs.length ∧ c = new) := by
    intro j c hj
    rw [getElem?_append] at hj
    split at hj
    next => exact .inl hj
    next hge =>
      obtain ⟨hlt, heq⟩ := List.getElem?_eq_some_iff.mp hj
      simp only [length_singleton, Nat.lt_one_iff] at hlt
      refine .inr ⟨by omega, ?_⟩
      rw [← heq]
      simp [hlt]
  refine ⟨?_, ?_, ?_, ?_, ?_⟩
  · intro c hc t ht
    rcases mem_append.mp hc with hc | hc
    · exact h.known c hc t ht
    · rw [mem_singleton.mp hc] at ht
      obtain ⟨rfl, hne⟩ := hlocks t ht
      exact hlock hne
  · intro c hc
    rcases mem_append.mp hc with hc | hc
    · exact h.bounded c hc
    · rw [mem_singleton.mp hc]
      exact hb
  · intro c hc t ht t' ht'
    rcases mem_append.mp hc with hc | hc
    · exact h.single c hc t ht t' ht'
    · rw [mem_singleton.mp hc] at ht ht'
      rw [(hlocks t ht).1, (hlocks t' ht').1]
  · intro i j c c' hi hj t ht t' ht' heq
    rcases hcase i c hi with hi | ⟨hilast, rfl⟩
    · rcases hcase j c' hj with hj | ⟨-, rfl⟩
      · exact h.apart i j c c' hi hj t ht t' ht' heq
      · obtain ⟨rfl, hne⟩ := hlocks t' ht'
        exact absurd heq ((hother hne c (mem_of_getElem? hi)).2 t ht)
    · obtain ⟨rfl, hne⟩ := hlocks t ht
      rcases hcase j c' hj with hj | ⟨hjlast, rfl⟩
      · exact absurd heq.symm ((hother hne c' (mem_of_getElem? hj)).2 t' ht')
      · rw [hilast, hjlast]
  · intro c hc hnil
    by_cases h0 : f.preambleLockTNs = 0
    · -- without a lock a cluster is opened only when there is none
      have hcs : cs = [] := by
        rw [pickCluster, if_neg (not_not.mpr h0), latestCluster.eq_def] at hnone
        split at hnone
        next => rfl
        next => cases hnone
      simp [hcs]
    · rcases mem_append.mp hc with hc | hc
      · exact absurd hnil (hother h0 c hc).1
      · rw [mem_singleton.mp hc] at hnil
        exact absurd hnil (Cluster.locks_mergeObservation_ne_nil h0)

theorem Separated.step (h : Separated emission S cs) (hem : Emissions emission window S) (seq : ℕ)
    (now : Int) (hlock : f.preambleLockTNs ≠ 0 → S f.preambleLockTNs) :
    Separated emission S (clustersAfter cs seq f now window) := by
  rw [clustersAfter]
  split
  next i hpick =>
    refine h.join now hlock fun hne c hc t ht => ?_
    -- the cluster picked accepts the lock
    rw [pickCluster, if_pos hne] at hpick
    obtain ⟨hlt, hjoins, -⟩ := findIdx?_eq_some_iff_getElem.mp hpick
    rw [getElem?_eq_getElem hlt, Option.some.injEq] at hc
    subst hc
    have hmem : cs[i] ∈ cs := getElem_mem hlt
    exact (Cluster.joins_iff hem (h.bounded _ hmem) (h.known _ hmem) (h.single _ hmem)
      (ne_nil_of_mem ht) (hlock hne)).mp hjoins t ht
  next hnone => exact h.openCluster hem seq now hlock hnone

theorem append_cons_inj_of_not_mem {x : Byte} {d d' : List Byte} (hd : x ∉ d) (hd' : x ∉ d')
    (h : a ++ x :: d = a' ++ x :: d') : a = a' ∧ d = d' := by
  have hrev := congrArg reverse h
  simp only [reverse_append, reverse_cons, append_assoc, singleton_append] at hrev
  have htake : ∀ {u v : List Byte}, x ∉ u → (u.reverse ++ x :: v).takeWhile (· != x) = u.reverse := by
    intro u v hu
    rw [takeWhile_append_of_pos]
    · simp
    · intro b hb
      simp only [mem_reverse] at hb
      simp only [bne_iff_ne, ne_eq]
      rintro rfl
      exact hu hb
  have hdd : d = d' := by
    have := congrArg (takeWhile (· != x)) hrev
    rw [htake hd, htake hd'] at this
    exact reverse_injective this
  subst hdd
  exact ⟨append_cancel_right h, rfl⟩

theorem clusterKey_injective {n n' : ℕ} (h : clusterKey a n = clusterKey a' n') :
    a = a' ∧ n = n' := by
  have hbar : ∀ n : ℕ, (0x7C : Byte) ∉ decimal n := fun n hmem =>
    absurd (isDigit_decimal n _ hmem) (by decide)
  have hsplit : ∀ (a : List Byte) (n : ℕ), clusterKey a n = a ++ 0x7C :: decimal n := by
    intro a n
    rw [clusterKey, append_assoc]
    rfl
  rw [hsplit, hsplit] at h
  obtain ⟨ha, hn⟩ := append_cons_inj_of_not_mem (hbar n) (hbar n') h
  exact ⟨ha, decimal_injective hn⟩

variable {fromId : List Byte} {pid : ℕ}

theorem Separated.pool (h : Separated emission S (p.pending (clusterKey fromId pid)))
    (hem : Emissions emission window S) {arrival : Frame ℕ F × Int}
    (hlock : arrival.1.fromId = fromId → arrival.1.packetId = pid → arrival.1.preambleLockTNs ≠ 0 → S arrival.1.preambleLockTNs) :
    Separated emission S ((p.step window arrival).pending (clusterKey fromId pid)) := by
  rw [Pool.step]
  split
  · exact h
  · split
    · exact h
    · by_cases hkey : clusterKey fromId pid = clusterKey arrival.1.fromId arrival.1.packetId
      · obtain ⟨hfrom, hpid⟩ := clusterKey_injective hkey
        dsimp only
        rw [hkey, Function.update_self]
        rw [hkey] at h
        exact h.step hem _ _ (hlock hfrom.symm hpid.symm)
      · dsimp only
        rw [Function.update_of_ne hkey]
        exact h

theorem Separated.run (h : Separated emission S (p.pending (clusterKey fromId pid)))
    (hem : Emissions emission window S) {arrivals : List (Frame ℕ F × Int)}
    (hlock : ∀ a ∈ arrivals, a.1.fromId = fromId → a.1.packetId = pid → a.1.preambleLockTNs ≠ 0 → S a.1.preambleLockTNs) :
    Separated emission S ((arrivals.foldl (Pool.step window) p).pending (clusterKey fromId pid)) := by
  induction arrivals generalizing p with
  | nil => exact h
  | cons a arrivals ih =>
    exact ih (h.pool hem (hlock a mem_cons_self))
      fun b hb => hlock b (mem_cons_of_mem _ hb)

def LockOf (arrivals : List (Frame ℕ F × Int)) (fromId : List Byte) (pid t : ℕ) : Prop :=
  ∃ a ∈ arrivals, (a.1.fromId = fromId ∧ a.1.packetId = pid) ∧ a.1.preambleLockTNs ≠ 0 ∧
    a.1.preambleLockTNs = t

/-- **Clusters are emissions, in every order.** Let the locks of a packet split into emissions. Then
in whatever order its frames arrive, with whatever frames without a lock or of other packets in
between, a cluster has the locks of one emission and an emission those of one cluster. -/
theorem clusters_match_emissions {arrivals : List (Frame ℕ F × Int)}
    (hem : Emissions emission window (LockOf arrivals fromId pid)) :
    (∀ c ∈ (arrivals.foldl (Pool.step window) emptyPool).pending (clusterKey fromId pid),
      ∀ o ∈ c.observations, ∀ o' ∈ c.observations, o.preambleLockTNs ≠ 0 →
        o'.preambleLockTNs ≠ 0 → emission o.preambleLockTNs = emission o'.preambleLockTNs) ∧
    ∀ (i j : ℕ) (c c' : Cluster ℕ F),
      ((arrivals.foldl (Pool.step window) emptyPool).pending (clusterKey fromId pid))[i]? = some c →
      ((arrivals.foldl (Pool.step window) emptyPool).pending (clusterKey fromId pid))[j]? = some c' →
      ∀ o ∈ c.observations, ∀ o' ∈ c'.observations, o.preambleLockTNs ≠ 0 →
        o'.preambleLockTNs ≠ 0 → emission o.preambleLockTNs = emission o'.preambleLockTNs →
        i = j := by
  have hboot : Separated emission (LockOf arrivals fromId pid)
      ((emptyPool : Pool ℕ F).pending (clusterKey fromId pid)) := separated_nil
  have hsep := hboot.run hem fun a ha haf hap hne => ⟨a, ha, ⟨haf, hap⟩, hne, rfl⟩
  constructor
  · intro c hc o ho o' ho' hne hne'
    exact hsep.single c hc _ (mem_locksOf.mpr ⟨hne, o, ho, rfl⟩) _
      (mem_locksOf.mpr ⟨hne', o', ho', rfl⟩)
  · intro i j c c' hi hj o ho o' ho' hne hne' heq
    exact hsep.apart i j c c' hi hj _ (mem_locksOf.mpr ⟨hne, o, ho, rfl⟩) _
      (mem_locksOf.mpr ⟨hne', o', ho', rfl⟩) heq

end Emissions

def heardBy (station : String) (lockTNs snrDb : ℕ) : Frame ℕ ℕ × Int :=
  ({ event := [], station := ascii station, stationLat := 1, stationLon := 1, stationAltM := 0
     stationTNs := lockTNs + 1, stationTAccNs := 0, preambleLockTNs := lockTNs
     fromId := ascii "!aa", packetId := 42, snrDb := snrDb, rssiDb := 0 }, 0)

/-- An emission and its relay half a second later, out of order, a frame without a lock and a
stronger duplicate. -/
def relayedPacket : List (Frame ℕ ℕ × Int) :=
  [heardBy "c" 0 3, heardBy "b" 1500000100 8, heardBy "a" 1000000000 10, heardBy "a" 1500000000 4,
    heardBy "b" 1000005000 8, heardBy "b" 1000005200 9]

theorem clusters_match_emissions_relayedPacket :
    let cs := (relayedPacket.foldl (Pool.step 200000000) emptyPool).pending (clusterKey (ascii "!aa") 42)
    cs.length = 2 ∧ ∀ c ∈ cs, ∀ o ∈ c.observations, ∀ o' ∈ c.observations, o.preambleLockTNs ≠ 0 →
      o'.preambleLockTNs ≠ 0 → o.preambleLockTNs / 500000000 = o'.preambleLockTNs / 500000000 := by
  have hem : Emissions (· / 500000000) 200000000 (LockOf relayedPacket (ascii "!aa") 42) := by
    constructor
    · rintro _ _ ⟨a, ha, -, hane, rfl⟩ ⟨b, hb, -, hbne, rfl⟩
      revert a b
      decide
    · rintro _ _ ⟨a, ha, -, hane, rfl⟩ ⟨b, hb, -, hbne, rfl⟩
      revert a b
      decide
  exact ⟨by decide, (clusters_match_emissions hem).1⟩

end MeshcoreSniffer.Fusion
