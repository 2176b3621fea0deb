import MeshcoreSniffer.Dedup.Insert
import MeshcoreSniffer.Pipeline.Drainer

/-!
# Phantoms around a good frame

Tier 3 of `dedup.c` is there so that the failed copies of a transmission are not emitted beside its
good one; but a good replica that joins a cluster silences no other (`Haunted.insert`).
-/

namespace MeshcoreSniffer.Pipeline

open Lib Lora Dedup List

/-! ## A batch of replicas -/

/-- Replicas of one SF and bandwidth, each good or failed, arriving in order within
one window. -/
structure Batch (sf bw : Nat) (reps : List Replica) : Prop where
  radio : ∀ rep ∈ reps, rep.sf = sf ∧ rep.bwHz = bw
  checked : ∀ rep ∈ reps, rep.good = true ∨ rep.crcBad = true
  ordered : reps.Pairwise fun a b => a.nowUs ≤ b.nowUs
  window : ∀ a ∈ reps, ∀ b ∈ reps, b.nowUs ≤ a.nowUs + windowUs

theorem Batch.tail {sf bw : Nat} {rep : Replica} {reps : List Replica}
    (h : Batch sf bw (rep :: reps)) : Batch sf bw reps where
  radio a ha := h.radio a (mem_cons_of_mem _ ha)
  checked a ha := h.checked a (mem_cons_of_mem _ ha)
  ordered := (List.pairwise_cons.mp h.ordered).2
  window a ha b hb := h.window a (mem_cons_of_mem _ ha) b (mem_cons_of_mem _ hb)

def NeverFull : Ring → List Replica → Prop
  | _, [] => True
  | r, rep :: reps => (∃ e ∈ r.slots, e.inUse = false) ∧ NeverFull (r.insert rep) reps

def Timely (sf bw : Nat) (r : Ring) (reps : List Replica) : Prop :=
  ∀ e ∈ r.slots, e.on sf bw → ∀ rep ∈ reps, rep.openedWithin windowUs e = true

structure Quiet (sf bw : Nat) (r : Ring) : Prop where
  noFailed : ∀ e ∈ r.slots, e.on sf bw → e.good = true
  someGood : ∃ e ∈ r.slots, e.on sf bw

def Haunted (sf bw : Nat) (r : Ring) : Prop := ∃ e ∈ r.slots, e.on sf bw ∧ e.good = false

/-- A good replica that meets no cluster at all or the only failed one. -/
structure Clears (sf bw : Nat) (r : Ring) (rep : Replica) : Prop where
  good : rep.good = true
  meets : rep.findMatch r.slots = none ∨ ∃ i, rep.findMatch r.slots = some i ∧
    ∀ (j : Nat) (e : Entry), r.slots[j]? = some e → e.on sf bw → e.good = false → j = i

section Steps

variable {sf bw : Nat} {r : Ring} {rep : Replica} {reps : List Replica}

theorem Timely.insert (h : Timely sf bw r (rep :: reps)) (hbatch : Batch sf bw (rep :: reps)) :
    Timely sf bw (r.insert rep) reps := by
  have hold : ∀ e ∈ r.slots, e.on sf bw → ∀ a ∈ reps, a.openedWithin windowUs e = true :=
    fun e he hon a ha => h e he hon a (mem_cons_of_mem _ ha)
  intro e' he' hon a ha
  obtain ⟨j, hj⟩ := mem_iff_getElem?.mp he'
  have hins := r.inserted rep
  generalize r.insert rep = r' at hins hj he'
  cases hins with
  | folded hfind hget htier hslots =>
    obtain ⟨e, he, ⟨-, rfl⟩ | ⟨-, rfl⟩⟩ := get_folded hslots hj
    · rw [Replica.fold_on] at hon
      rw [Replica.openedWithin, (rep.fold_keeps e).2.2.2]
      exact hold e (mem_of_getElem? he) hon a ha
    · exact hold e' (mem_of_getElem? he) hon a ha
  | opened hfind hget hfree hslots =>
    obtain ⟨e, he, ⟨-, rfl⟩ | ⟨-, rfl⟩⟩ := get_opened hslots hj
    · -- the new cluster opens now
      have hle := (List.pairwise_cons.mp hbatch.ordered).1 a ha
      have hwin := hbatch.window rep mem_cons_self a (mem_cons_of_mem _ ha)
      refine decide_eq_true ?_
      show rep.nowUs + windowUs - windowUs ≤ a.nowUs ∧
        a.nowUs - (rep.nowUs + windowUs - windowUs) ≤ windowUs
      omega
    · rcases rep.suppress_eq e with heq | heq
      · rw [heq] at hon ⊢
        exact hold e (mem_of_getElem? he) hon a ha
      · rw [heq] at hon
        exact absurd hon.1 Bool.false_ne_true
  | dropped hfind hfull => exact hold e' (mem_of_getElem? hj) hon a ha

theorem findMatch_ne_none_of_quiet (hq : Quiet sf bw r) (hradio : rep.sf = sf ∧ rep.bwHz = bw)
    (htimely : ∀ e ∈ r.slots, e.on sf bw → rep.openedWithin windowUs e = true)
    (hbad : rep.crcBad = true) : rep.findMatch r.slots ≠ none := by
  intro hnone
  obtain ⟨e, he, hon⟩ := hq.someGood
  have hsame : rep.sameRadio e = true := by
    rw [rep.sameRadio_iff, hradio.1, hradio.2]
    exact hon
  have hgood : e.bestMeta.payloadCrcOk = true := hq.noFailed e he hon
  have htier : rep.tier3 e = true := by
    rw [Replica.tier3, hbad, hsame, hgood, htimely e he hon]
    rfl
  rw [(Replica.findMatch_eq_none_iff.mp hnone e he).2.2] at htier
  cases htier

theorem Quiet.insert (hq : Quiet sf bw r) (hradio : rep.sf = sf ∧ rep.bwHz = bw)
    (hchecked : rep.good = true ∨ rep.crcBad = true)
    (htimely : ∀ e ∈ r.slots, e.on sf bw → rep.openedWithin windowUs e = true) :
    Quiet sf bw (r.insert rep) := by
  have hins := r.inserted rep
  generalize r.insert rep = r' at hins
  cases hins with
  | @folded _ i e₀ hfind hget htier hslots =>
    have hfold : ∀ e ∈ r.slots, e.on sf bw → (rep.fold e).good = true := by
      intro e he hon
      rcases hchecked with hgood | hbad
      · exact rep.fold_good e hgood
      · have hkeep := (rep.fold_of_good (rep.not_good_of_crcBad hbad) (hq.noFailed e he hon)).1
        rw [Entry.good, hkeep]
        exact hq.noFailed e he hon
    constructor
    · intro e' he' hon
      obtain ⟨j, hj⟩ := mem_iff_getElem?.mp he'
      obtain ⟨e, he, ⟨-, rfl⟩ | ⟨-, rfl⟩⟩ := get_folded hslots hj
      · rw [Replica.fold_on] at hon
        exact hfold e (mem_of_getElem? he) hon
      · exact hq.noFailed e' (mem_of_getElem? he) hon
    · obtain ⟨e, he, hon⟩ := hq.someGood
      obtain ⟨j, hj⟩ := mem_iff_getElem?.mp he
      refine ⟨_, mem_of_getElem? (get_folded_of hslots hj), ?_⟩
      split
      next => exact Replica.fold_on.mpr hon
      next => exact hon
  | @opened _ i e₀ hfind hget hfree hslots =>
    -- only a good replica finds no cluster to join
    have hgood : rep.good = true := by
      rcases hchecked with hgood | hbad
      · exact hgood
      · exact absurd hfind (findMatch_ne_none_of_quiet hq hradio htimely hbad)
    obtain ⟨m, hm, hok⟩ := rep.good_iff.mp hgood
    constructor
    · intro e' he' hon
      obtain ⟨j, hj⟩ := mem_iff_getElem?.mp he'
      obtain ⟨e, he, ⟨-, rfl⟩ | ⟨-, rfl⟩⟩ := get_opened hslots hj
      · rw [Entry.good, rep.openIn_bestMeta _ hm, hok]
      · rcases rep.suppress_eq e with heq | heq
        · rw [heq] at hon ⊢
          exact hq.noFailed e (mem_of_getElem? he) hon
        · rw [heq] at hon
          exact absurd hon.1 Bool.false_ne_true
    · refine ⟨_, mem_of_getElem? (get_opened_of hslots hget), ?_⟩
      rw [if_pos rfl]
      exact ⟨rfl, hradio.1, hradio.2⟩
  | dropped hfind hfull => exact hq

theorem Clears.insert (hc : Clears sf bw r rep) (hradio : rep.sf = sf ∧ rep.bwHz = bw)
    (htimely : ∀ e ∈ r.slots, e.on sf bw → rep.openedWithin windowUs e = true)
    (hfree : ∃ e ∈ r.slots, e.inUse = false) : Quiet sf bw (r.insert rep) := by
  obtain ⟨m, hm, hok⟩ := rep.good_iff.mp hc.good
  have hins := r.inserted rep
  generalize r.insert rep = r' at hins
  cases hins with
  | @folded _ i e₀ hfind hget htier hslots =>
    have honly : ∀ (j : Nat) (e : Entry), r.slots[j]? = some e → e.on sf bw → e.good = false →
        j = i := by
      rcases hc.meets with hnone | ⟨k, hk, honly⟩
      · rw [hnone] at hfind
        cases hfind
      · rw [hk] at hfind
        cases hfind
        exact honly
    constructor
    · intro e' he' hon
      obtain ⟨j, hj⟩ := mem_iff_getElem?.mp he'
      obtain ⟨e, he, ⟨-, rfl⟩ | ⟨hne, rfl⟩⟩ := get_folded hslots hj
      · exact rep.fold_good e hc.good
      · by_contra hbad
        exact hne (honly j e' he hon (by simpa using hbad))
    · refine ⟨_, mem_of_getElem? (get_folded_of hslots hget), ?_⟩
      rw [if_pos rfl, Replica.fold_on, ← hradio.1, ← hradio.2]
      exact Replica.on_of_tier htier
  | @opened _ i e₀ hfind hget hdead hslots =>
    constructor
    · intro e' he' hon
      obtain ⟨j, hj⟩ := mem_iff_getElem?.mp he'
      obtain ⟨e, he, ⟨-, rfl⟩ | ⟨-, rfl⟩⟩ := get_opened hslots hj
      · rw [Entry.good, rep.openIn_bestMeta _ hm, hok]
      · -- a failed cluster would have been silenced
        by_contra hbad
        have hmem := mem_of_getElem? he
        have hon₀ : e.on sf bw := by
          rcases rep.suppress_eq e with heq | heq
          · rwa [heq] at hon
          · rw [heq] at hon
            exact absurd hon.1 Bool.false_ne_true
        have hsame : rep.sameRadio e = true := by
          rw [rep.sameRadio_iff, hradio.1, hradio.2]
          exact hon₀
        have hfailed : e.bestMeta.payloadCrcOk = false := by
          rcases rep.suppress_eq e with heq | heq
          · rw [heq] at hbad
            simpa [Entry.good] using hbad
          · rw [heq] at hon
            exact absurd hon.1 Bool.false_ne_true
        have hsilenced : (rep.suppress e).inUse = false := by
          rw [Replica.suppress, rep.not_crcBad_of_good hc.good, hsame, hfailed,
            htimely e hmem hon₀]
          rfl
        rw [hon.1] at hsilenced
        cases hsilenced
    · refine ⟨_, mem_of_getElem? (get_opened_of hslots hget), ?_⟩
      rw [if_pos rfl]
      exact ⟨rfl, hradio.1, hradio.2⟩
  | dropped hfind hfull =>
    obtain ⟨e, he, hdead⟩ := hfree
    rw [hfull e he] at hdead
    cases hdead

theorem Haunted.insert (hh : Haunted sf bw r) (hchecked : rep.good = true ∨ rep.crcBad = true)
    (hc : ¬Clears sf bw r rep) : Haunted sf bw (r.insert rep) := by
  obtain ⟨e, he, hon, hbad⟩ := hh
  obtain ⟨j, hj⟩ := mem_iff_getElem?.mp he
  have hins := r.inserted rep
  generalize r.insert rep = r' at hins
  cases hins with
  | @folded _ i e₀ hfind hget htier hslots =>
    rcases hchecked with hgood | hcrc
    · -- the good replica joins one cluster; another failed one is left
      have hmore : ∃ (k : Nat) (e' : Entry), r.slots[k]? = some e' ∧ e'.on sf bw ∧
          e'.good = false ∧ k ≠ i := by
        by_contra hnone
        refine hc ⟨hgood, .inr ⟨i, hfind, fun k e' hk hon' hbad' => ?_⟩⟩
        by_contra hne
        exact hnone ⟨k, e', hk, hon', hbad', hne⟩
      obtain ⟨k, e', hk, hon', hbad', hne⟩ := hmore
      have hstays : r'.slots[k]? = some e' := by
        rw [get_folded_of hslots hk, if_neg (Ne.symm hne)]
      exact ⟨e', mem_of_getElem? hstays, hon', hbad'⟩
    · refine ⟨_, mem_of_getElem? (get_folded_of hslots hj), ?_⟩
      split
      next => exact ⟨Replica.fold_on.mpr hon, rep.fold_of_failed hcrc hbad⟩
      next => exact ⟨hon, hbad⟩
  | @opened _ i e₀ hfind hget hfree hslots =>
    have hcrc : rep.crcBad = true := by
      rcases hchecked with hgood | hcrc
      · exact absurd ⟨hgood, .inl hfind⟩ hc
      · exact hcrc
    have hne : i ≠ j := by
      rintro rfl
      rw [hj] at hget
      cases hget
      rw [hon.1] at hfree
      cases hfree
    have hstays : r'.slots[j]? = some e := by
      rw [get_opened_of hslots hj, if_neg hne, rep.suppress_of_crcBad e hcrc]
    exact ⟨e, mem_of_getElem? hstays, hon, hbad⟩
  | dropped hfind hfull => exact ⟨e, he, hon, hbad⟩

end Steps

/-! ## Whole batches -/

section Batches

variable {sf bw : Nat} {r : Ring} {reps : List Replica}

theorem Timely.here {rep : Replica} (h : Timely sf bw r (rep :: reps)) :
    ∀ e ∈ r.slots, e.on sf bw → rep.openedWithin windowUs e = true :=
  fun e he hon => h e he hon rep mem_cons_self

theorem Quiet.insertAll (hq : Quiet sf bw r) (hbatch : Batch sf bw reps)
    (htimely : Timely sf bw r reps) : Quiet sf bw (reps.foldl Ring.insert r) := by
  induction reps generalizing r with
  | nil => exact hq
  | cons rep reps ih =>
    exact ih (hq.insert (hbatch.radio rep (by simp)) (hbatch.checked rep (by simp)) htimely.here)
      hbatch.tail (htimely.insert hbatch)

def SomeClears (sf bw : Nat) (r : Ring) (reps : List Replica) : Prop :=
  ∃ earlier rep later, reps = earlier ++ rep :: later ∧
    Clears sf bw (earlier.foldl Ring.insert r) rep

theorem someClears_cons {rep : Replica} :
    SomeClears sf bw r (rep :: reps) ↔
      Clears sf bw r rep ∨ SomeClears sf bw (r.insert rep) reps := by
  constructor
  · rintro ⟨earlier, a, later, heq, hc⟩
    cases earlier with
    | nil =>
      obtain ⟨rfl, -⟩ := List.cons.inj heq
      exact .inl hc
    | cons b earlier =>
      obtain ⟨rfl, hrest⟩ := List.cons.inj heq
      exact .inr ⟨earlier, a, later, hrest, hc⟩
  · rintro (hc | ⟨earlier, a, later, rfl, hc⟩)
    · exact ⟨[], rep, reps, rfl, hc⟩
    · exact ⟨rep :: earlier, a, later, rfl, hc⟩

theorem Haunted.insertAll (hh : Haunted sf bw r) (hbatch : Batch sf bw reps)
    (htimely : Timely sf bw r reps) (hroom : NeverFull r reps) :
    ¬Haunted sf bw (reps.foldl Ring.insert r) ↔ SomeClears sf bw r reps := by
  induction reps generalizing r with
  | nil =>
    refine ⟨fun h => absurd hh h, ?_⟩
    rintro ⟨earlier, rep, later, heq, -⟩
    simp at heq
  | cons rep reps ih =>
    have hlater := htimely.insert hbatch
    rw [someClears_cons, foldl_cons]
    by_cases hc : Clears sf bw r rep
    · have hquiet := (hc.insert (hbatch.radio rep (by simp)) htimely.here hroom.1).insertAll
        hbatch.tail hlater
      refine iff_of_true ?_ (.inl hc)
      rintro ⟨e, he, hon, hbad⟩
      rw [hquiet.noFailed e he hon] at hbad
      cases hbad
    · rw [ih (hh.insert (hbatch.checked rep (by simp)) hc) hbatch.tail hlater hroom.2]
      exact (or_iff_right hc).symm

theorem findMatch_of_fresh {rep : Replica} (hfresh : ∀ e ∈ r.slots, ¬e.on sf bw)
    (hradio : rep.sf = sf ∧ rep.bwHz = bw) : rep.findMatch r.slots = none := by
  cases hfind : rep.findMatch r.slots with
  | none => rfl
  | some i =>
    obtain ⟨e, he, htier⟩ := Replica.findMatch_eq_some hfind
    have hon := Replica.on_of_tier htier
    rw [hradio.1, hradio.2] at hon
    exact absurd hon (hfresh e (mem_of_getElem? he))

theorem haunted_of_fresh {rep : Replica} (hfresh : ∀ e ∈ r.slots, ¬e.on sf bw)
    (hradio : rep.sf = sf ∧ rep.bwHz = bw) (hbad : rep.crcBad = true)
    (hfree : ∃ e ∈ r.slots, e.inUse = false) : Haunted sf bw (r.insert rep) := by
  have hnone := findMatch_of_fresh hfresh hradio
  have hins := r.inserted rep
  generalize r.insert rep = r' at hins
  cases hins with
  | folded hfind hget htier hslots =>
    rw [hnone] at hfind
    cases hfind
  | opened hfind hget hdead hslots =>
    refine ⟨_, mem_of_getElem? (get_opened_of hslots hget), ?_⟩
    rw [if_pos rfl]
    refine ⟨⟨rfl, hradio.1, hradio.2⟩, ?_⟩
    cases hm : rep.frameMeta with
    | none => simp [Replica.crcBad, hm] at hbad
    | some m =>
      rw [Entry.good, rep.openIn_bestMeta _ hm]
      simp [Replica.crcBad, hm] at hbad
      exact hbad.2
  | dropped hfind hfull =>
    obtain ⟨e, he, hdead⟩ := hfree
    rw [hfull e he] at hdead
    cases hdead

end Batches

def copyOf (payload : List Byte) (crcOk : Bool) (slot : Int) (nowUs : Nat) : Replica where
  payload := payload
  frameMeta := some
    { sf := 8, cr := 1, bwHz := 62500, payloadLen := payload.length, hasCrc := true
      headerCrcOk := true, payloadCrcOk := crcOk }
  user := slot
  nowUs := nowUs
  realtimeNs := 0

def garbled : List Byte := List.replicate 8 0xFF ++ List.replicate 8 0

def goodFirst : List Replica :=
  [copyOf floodPacket true 100 1000, copyOf floodPacket false 101 1020, copyOf garbled false 200 1040]

def goodLast : List Replica :=
  [copyOf floodPacket false 101 1000, copyOf garbled false 200 1020, copyOf floodPacket true 100 1040]

instance (sf bw : Nat) (e : Entry) : Decidable (e.on sf bw) := by
  unfold Entry.on
  infer_instance

instance decidableNeverFull : ∀ (r : Ring) (reps : List Replica), Decidable (NeverFull r reps)
  | _, [] => .isTrue trivial
  | r, rep :: reps => @instDecidableAnd _ _ inferInstance (decidableNeverFull (r.insert rep) reps)

theorem not_on_emptyRing (sf bw : Nat) : ∀ e ∈ emptyRing.slots, ¬e.on sf bw := by
  intro e he hon
  rw [eq_of_mem_replicate he] at hon
  exact absurd hon.1 Bool.false_ne_true

theorem batch_goodFirst : Batch 8 62500 goodFirst where
  radio := by decide
  checked := by decide
  ordered := by simp [goodFirst, copyOf]
  window := by decide

theorem batch_goodLast : Batch 8 62500 goodLast where
  radio := by decide
  checked := by decide
  ordered := by simp [goodLast, copyOf]
  window := by decide

end MeshcoreSniffer.Pipeline
