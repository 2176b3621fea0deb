import Mathlib

/-!
# Open addressing

A table searched from a key's hash to the first slot that is free or holds the key; nothing is
removed. `lookup_set`: writing at the end of a search changes that key's lookup alone.
-/

namespace MeshcoreSniffer.Lib.OpenAddressing

open List Option

variable {κ β : Type*} [DecidableEq κ] (hash : κ → Nat)

def path (size : Nat) (key : κ) : List Nat :=
  (List.range size).map fun probe => (hash key % size + probe) % size

def ends (slots : List (Option (κ × β))) (key : κ) (j : Nat) : Bool :=
  match slots[j]? with
  | some (some entry) => entry.1 == key
  | _ => true

def find (slots : List (Option (κ × β))) (key : κ) : Option Nat :=
  (path hash slots.length key).find? (ends slots key)

def entryAt (slots : List (Option (κ × β))) (j : Nat) : Option (κ × β) := slots[j]?.join

def lookup (slots : List (Option (κ × β))) (key : κ) : Option β :=
  ((find hash slots key).bind (entryAt slots)).map Prod.snd

def Settled (slots : List (Option (κ × β))) : Prop :=
  ∀ j entry, entryAt slots j = some entry → find hash slots entry.1 = some j

variable {hash} {slots : List (Option (κ × β))} {key : κ} {j : Nat}

omit [DecidableEq κ] in
theorem entryAt_eq_some {entry : κ × β} :
    entryAt slots j = some entry ↔ slots[j]? = some (some entry) := by
  rw [entryAt, join_eq_some_iff]

theorem Settled.unique (h : Settled hash slots) {j' : Nat} {v v' : β}
    (hj : entryAt slots j = some (key, v)) (hj' : entryAt slots j' = some (key, v')) : j = j' :=
  some.inj ((h j (key, v) hj).symm.trans (h j' (key, v') hj'))

theorem settled_replicate (size : Nat) :
    Settled hash (replicate size (none : Option (κ × β))) := by
  intro j entry hentry
  rw [entryAt_eq_some] at hentry
  exact absurd (eq_of_mem_replicate (mem_of_getElem? hentry)) (by simp)

theorem find_lt (hfind : find hash slots key = some j) : j < slots.length := by
  obtain ⟨probe, hprobe, rfl⟩ := mem_map.mp (mem_of_find?_eq_some hfind)
  exact Nat.mod_lt _ (Nat.zero_lt_of_lt (mem_range.mp hprobe))

theorem entryAt_of_find (hfind : find hash slots key = some j) {entry : κ × β}
    (hentry : entryAt slots j = some entry) : entry.1 = key := by
  have hends := find?_some hfind
  rw [ends, entryAt_eq_some.mp hentry] at hends
  exact beq_iff_eq.mp hends

theorem lookup_of_entryAt (h : Settled hash slots) {v : β} (hj : entryAt slots j = some (key, v)) :
    lookup hash slots key = some v := by
  rw [lookup, h j _ hj, bind_some, hj]
  rfl

theorem entryAt_of_lookup {v : β} (hlookup : lookup hash slots key = some v) :
    ∃ j, entryAt slots j = some (key, v) := by
  obtain ⟨entry, hbind, rfl⟩ := map_eq_some_iff.mp hlookup
  obtain ⟨j, hfind, hentry⟩ := bind_eq_some_iff.mp hbind
  refine ⟨j, ?_⟩
  rw [hentry, ← entryAt_of_find hfind hentry]

theorem lookup_replicate (size : Nat) (key : κ) :
    lookup hash (replicate size (none : Option (κ × β))) key = none := by
  rw [eq_none_iff_forall_ne_some]
  intro v hv
  obtain ⟨j, hj⟩ := entryAt_of_lookup hv
  rw [entryAt_eq_some] at hj
  exact absurd (eq_of_mem_replicate (mem_of_getElem? hj)) (by simp)

/-! ## Writing at the end of a search -/

omit [DecidableEq κ] in
theorem entryAt_set (hj : j < slots.length) (entry : κ × β) (i : Nat) :
    entryAt (slots.set j (some entry)) i = if i = j then some entry else entryAt slots i := by
  rw [entryAt, entryAt, getElem?_set]
  by_cases hij : j = i
  · subst hij
    simp [hj]
  · simp [hij, Ne.symm hij]

theorem find_set (hfind : find hash slots key = some j) (v : β) {key' : κ} {j' : Nat}
    (hfind' : find hash slots key' = some j')
    (hheld : key' = key ∨ ∃ w, entryAt slots j' = some (key', w)) :
    find hash (slots.set j (some (key, v))) key' = some j' := by
  have hother : ∀ i, i ≠ j → ends (slots.set j (some (key, v))) key' i = ends slots key' i := by
    intro i hi
    rw [ends, ends, getElem?_set_ne (Ne.symm hi)]
  obtain ⟨hends, before, after, hpath, hbefore⟩ := find?_eq_some_iff_append.mp hfind'
  rw [find, length_set]
  refine find?_eq_some_iff_append.mpr ⟨?_, before, after, hpath, fun i hi => ?_⟩
  · by_cases hj : j' = j
    · subst hj
      have hkey : key' = key := by
        rcases hheld with rfl | ⟨w, hw⟩
        · rfl
        · exact entryAt_of_find hfind hw
      rw [ends, getElem?_set_self (find_lt hfind), hkey]
      exact beq_self_eq_true key
    · rw [hother j' hj]
      exact hends
  · -- a slot passed over was taken by another key, so it is not the one written
    have hpassed := hbefore i hi
    rw [Bool.not_eq_true'] at hpassed ⊢
    by_cases hij : i = j
    · subst hij
      rw [ends] at hpassed
      split at hpassed
      next entry hentry =>
        have hheld' : entryAt slots i = some entry := entryAt_eq_some.mpr hentry
        have hkey := entryAt_of_find hfind hheld'
        rw [ends, getElem?_set_self (find_lt hfind)]
        rw [hkey] at hpassed
        exact hpassed
      next => cases hpassed
    · rw [hother i hij]
      exact hpassed

theorem Settled.set (h : Settled hash slots) (hfind : find hash slots key = some j) (v : β) :
    Settled hash (slots.set j (some (key, v))) := by
  intro i entry hentry
  rw [entryAt_set (find_lt hfind)] at hentry
  split at hentry
  next hij =>
    obtain rfl := some.inj hentry
    subst hij
    exact find_set hfind v hfind (Or.inl rfl)
  next => exact find_set hfind v (h i entry hentry) (Or.inr ⟨entry.2, hentry⟩)

theorem lookup_set (h : Settled hash slots) (hfind : find hash slots key = some j) (v : β) (key' : κ) :
    lookup hash (slots.set j (some (key, v))) key' =
      if key' = key then some v else lookup hash slots key' := by
  have hsettled := h.set hfind v
  have hnew := entryAt_set (find_lt hfind) (key, v)
  split
  next hkey =>
    subst hkey
    exact lookup_of_entryAt hsettled ((hnew j).trans (if_pos rfl))
  next hkey =>
    refine ext fun w => ⟨fun hw => ?_, fun hw => ?_⟩
    · obtain ⟨i, hi⟩ := entryAt_of_lookup hw
      rw [hnew] at hi
      split at hi
      next => exact absurd (congrArg Prod.fst (some.inj hi)).symm hkey
      next => exact lookup_of_entryAt h hi
    · obtain ⟨i, hi⟩ := entryAt_of_lookup hw
      refine lookup_of_entryAt hsettled (j := i) ?_
      rw [hnew, if_neg, hi]
      rintro rfl
      exact hkey (entryAt_of_find hfind hi)

end MeshcoreSniffer.Lib.OpenAddressing
