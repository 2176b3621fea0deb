import MeshcoreSniffer.Dedup.Ring

/-!
# One insertion into the dedup ring

What `dedup_buffer` can do to the ring (`Inserted`), slot by slot. A good replica makes its cluster
good, a failed one never spoils it, and silencing spares good clusters.
-/

namespace MeshcoreSniffer.Dedup

open Lib Lora List Option

/-! ## What an insertion can do -/

/-- The outcomes of the part of `dedup_buffer` under the mutex. -/
inductive Inserted (r : Ring) (rep : Replica) : Ring → Prop
  | folded {r' : Ring} {i : Nat} {e : Entry} (hfind : rep.findMatch r.slots = some i)
      (hget : r.slots[i]? = some e)
      (htier : rep.tier1 e = true ∨ rep.tier2 e = true ∨ rep.tier3 e = true)
      (hslots : r'.slots = r.slots.modify i rep.fold) : Inserted r rep r'
  | opened {r' : Ring} {i : Nat} {e : Entry} (hfind : rep.findMatch r.slots = none)
      (hget : r.slots[i]? = some e) (hfree : e.inUse = false)
      (hslots : r'.slots = (r.slots.map rep.suppress).modify i rep.openIn) : Inserted r rep r'
  | dropped (hfind : rep.findMatch r.slots = none) (hfull : ∀ e ∈ r.slots, e.inUse = true) :
      Inserted r rep r

theorem Replica.findMatch_eq_some {rep : Replica} {slots : List Entry} {i : Nat}
    (h : rep.findMatch slots = some i) : ∃ e, slots[i]? = some e ∧
      (rep.tier1 e = true ∨ rep.tier2 e = true ∨ rep.tier3 e = true) := by
  have hget : ∀ tier : Entry → Bool, slots.findIdx? tier = some i →
      ∃ e, slots[i]? = some e ∧ tier e = true := by
    intro tier hfind
    obtain ⟨hlt, htier, -⟩ := findIdx?_eq_some_iff_getElem.mp hfind
    exact ⟨slots[i], getElem?_eq_getElem hlt, htier⟩
  rw [Replica.findMatch, or_eq_some_iff, or_eq_some_iff] at h
  rcases h with h | ⟨-, h | ⟨-, h⟩⟩
  · obtain ⟨e, he, htier⟩ := hget _ h
    exact ⟨e, he, .inl htier⟩
  · obtain ⟨e, he, htier⟩ := hget _ h
    exact ⟨e, he, .inr (.inl htier)⟩
  · obtain ⟨e, he, htier⟩ := hget _ h
    exact ⟨e, he, .inr (.inr htier)⟩

theorem Replica.findMatch_eq_none_iff {rep : Replica} {slots : List Entry} :
    rep.findMatch slots = none ↔
      ∀ e ∈ slots, rep.tier1 e = false ∧ rep.tier2 e = false ∧ rep.tier3 e = false := by
  simp only [Replica.findMatch, or_eq_none_iff, findIdx?_eq_none_iff]
  constructor
  · rintro ⟨h1, h2, h3⟩ e he
    exact ⟨h1 e he, h2 e he, h3 e he⟩
  · intro h
    exact ⟨fun e he => (h e he).1, fun e he => (h e he).2.1, fun e he => (h e he).2.2⟩

theorem Ring.inserted (r : Ring) (rep : Replica) : Inserted r rep (r.insert rep) := by
  rw [Ring.insert]
  split
  next i hfind =>
    obtain ⟨e, hget, htier⟩ := Replica.findMatch_eq_some hfind
    exact .folded hfind hget htier rfl
  next hfind =>
    split
    next i hfree =>
      obtain ⟨hlt, hdead, -⟩ := findIdx?_eq_some_iff_getElem.mp hfree
      exact .opened hfind (getElem?_eq_getElem hlt) (by simpa using hdead) rfl
    next hnone =>
      refine .dropped hfind fun e he => ?_
      simpa using findIdx?_eq_none_iff.mp hnone e he

/-! ## What folding keeps -/

namespace Replica

variable (rep : Replica) (e : Entry)

theorem fold_keeps : (rep.fold e).inUse = e.inUse ∧ (rep.fold e).sf = e.sf ∧
    (rep.fold e).bwHz = e.bwHz ∧ (rep.fold e).emitAtUs = e.emitAtUs := by
  simp only [Replica.fold, Replica.widenSlots, Replica.crown]
  split <;> split <;> exact ⟨rfl, rfl, rfl, rfl⟩

theorem fold_bestMeta : (rep.fold e).bestMeta =
    if rep.wins { e with replicaCount := e.replicaCount + 1 } then rep.frameMeta.getD e.bestMeta
    else e.bestMeta := by
  simp only [Replica.fold, Replica.widenSlots, Replica.crown]
  split <;> split <;> rfl

theorem fold_bestPayload : (rep.fold e).bestPayload =
    if rep.wins { e with replicaCount := e.replicaCount + 1 } then rep.payload
    else e.bestPayload := by
  simp only [Replica.fold, Replica.widenSlots, Replica.crown]
  split <;> split <;> rfl

theorem good_iff : rep.good = true ↔ ∃ m, rep.frameMeta = some m ∧ m.payloadCrcOk = true := by
  cases h : rep.frameMeta with
  | none => simp [good, h]
  | some m => simp [good, h]

theorem fold_good (h : rep.good = true) : (rep.fold e).bestMeta.payloadCrcOk = true := by
  obtain ⟨m, hm, hok⟩ := rep.good_iff.mp h
  rw [fold_bestMeta]
  split
  next => rw [hm, getD_some, hok]
  next hwins =>
    -- it loses only against another good one
    rw [wins, h] at hwins
    by_contra hbad
    rw [Bool.not_eq_true] at hbad
    simp [hbad] at hwins

theorem fold_of_good {e : Entry} (hrep : rep.good = false)
    (he : e.bestMeta.payloadCrcOk = true) :
    (rep.fold e).bestMeta = e.bestMeta ∧ (rep.fold e).bestPayload = e.bestPayload := by
  have hwins : rep.wins { e with replicaCount := e.replicaCount + 1 } = false := by
    simp [wins, hrep, he]
  rw [fold_bestMeta, fold_bestPayload, hwins]
  exact ⟨rfl, rfl⟩

theorem fold_of_failed {e : Entry} (hrep : rep.crcBad = true)
    (he : e.bestMeta.payloadCrcOk = false) : (rep.fold e).bestMeta.payloadCrcOk = false := by
  rw [fold_bestMeta]
  split
  next =>
    cases hm : rep.frameMeta with
    | none => simp [crcBad, hm] at hrep
    | some m =>
      simp [crcBad, hm] at hrep
      exact hrep.2
  next => exact he

theorem not_crcBad_of_good (h : rep.good = true) : rep.crcBad = false := by
  obtain ⟨m, hm, hok⟩ := rep.good_iff.mp h
  simp [crcBad, hm, hok]

theorem not_good_of_crcBad (h : rep.crcBad = true) : rep.good = false := by
  cases hg : rep.good with
  | false => rfl
  | true =>
    rw [rep.not_crcBad_of_good hg] at h
    cases h

theorem suppress_eq : rep.suppress e = e ∨ rep.suppress e = { e with inUse := false } := by
  rw [suppress]
  split
  · exact .inr rfl
  · exact .inl rfl

theorem suppress_of_good {e : Entry} (he : e.bestMeta.payloadCrcOk = true) : rep.suppress e = e := by
  simp [suppress, he]

theorem suppress_of_crcBad (h : rep.crcBad = true) : rep.suppress e = e := by
  simp [suppress, h]

theorem openIn_bestMeta {m : FrameMeta} (hm : rep.frameMeta = some m) :
    (rep.openIn e).bestMeta = m := by
  rw [openIn, hm, getD_some]

end Replica

/-! ## Clusters of one SF and bandwidth -/

def Entry.good (e : Entry) : Bool := e.bestMeta.payloadCrcOk

def Entry.on (sf bw : Nat) (e : Entry) : Prop := e.inUse = true ∧ e.sf = sf ∧ e.bwHz = bw

theorem Replica.sameRadio_iff (rep : Replica) (e : Entry) :
    rep.sameRadio e = true ↔ e.on rep.sf rep.bwHz := by
  simp [Replica.sameRadio, Entry.on, and_assoc]

theorem Replica.on_of_tier {rep : Replica} {e : Entry}
    (h : rep.tier1 e = true ∨ rep.tier2 e = true ∨ rep.tier3 e = true) : e.on rep.sf rep.bwHz := by
  rw [← rep.sameRadio_iff]
  rcases h with h | h | h
  · rw [tier1, Bool.and_eq_true] at h
    exact h.1
  · simp only [tier2, Bool.and_eq_true] at h
    exact h.1.1.1.2
  · simp only [tier3, Bool.and_eq_true] at h
    exact h.1.1.2

theorem Replica.fold_on {rep : Replica} {e : Entry} {sf bw : Nat} :
    (rep.fold e).on sf bw ↔ e.on sf bw := by
  obtain ⟨huse, hsf, hbw, -⟩ := rep.fold_keeps e
  rw [Entry.on, Entry.on, huse, hsf, hbw]

section Slots

variable {r r' : Ring} {rep : Replica} {i j : Nat} {e e' : Entry}

theorem get_modified {slots : List Entry} {f : Entry → Entry} (h : (slots.modify i f)[j]? = some e') :
    ∃ e, slots[j]? = some e ∧ ((j = i ∧ e' = f e) ∨ (j ≠ i ∧ e' = e)) := by
  rw [getElem?_modify] at h
  obtain ⟨e, he, heq⟩ := map_eq_some_iff.mp h
  refine ⟨e, he, ?_⟩
  by_cases hij : i = j
  · rw [if_pos hij] at heq
    exact .inl ⟨hij.symm, heq.symm⟩
  · rw [if_neg hij] at heq
    exact .inr ⟨Ne.symm hij, heq.symm⟩

theorem get_folded (hslots : r'.slots = r.slots.modify i rep.fold)
    (h : r'.slots[j]? = some e') : ∃ e, r.slots[j]? = some e ∧
      ((j = i ∧ e' = rep.fold e) ∨ (j ≠ i ∧ e' = e)) :=
  get_modified (hslots ▸ h)

theorem get_folded_of (hslots : r'.slots = r.slots.modify i rep.fold)
    (h : r.slots[j]? = some e) : r'.slots[j]? = some (if i = j then rep.fold e else e) := by
  rw [hslots, getElem?_modify, h]
  by_cases hij : i = j
  · simp [hij]
  · simp [hij]

theorem get_opened (hslots : r'.slots = (r.slots.map rep.suppress).modify i rep.openIn)
    (h : r'.slots[j]? = some e') : ∃ e, r.slots[j]? = some e ∧
      ((j = i ∧ e' = rep.openIn (rep.suppress e)) ∨ (j ≠ i ∧ e' = rep.suppress e)) := by
  obtain ⟨e₁, he₁, hcases⟩ := get_modified (hslots ▸ h)
  rw [getElem?_map] at he₁
  obtain ⟨e, he, rfl⟩ := map_eq_some_iff.mp he₁
  exact ⟨e, he, hcases⟩

theorem get_opened_of (hslots : r'.slots = (r.slots.map rep.suppress).modify i rep.openIn)
    (h : r.slots[j]? = some e) :
    r'.slots[j]? = some (if i = j then rep.openIn (rep.suppress e) else rep.suppress e) := by
  rw [hslots, getElem?_modify, getElem?_map, h]
  by_cases hij : i = j
  · simp [hij]
  · simp [hij]

end Slots

end MeshcoreSniffer.Dedup
