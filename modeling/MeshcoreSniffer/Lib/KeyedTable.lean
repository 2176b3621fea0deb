import Mathlib

/-!
# Tables of keyed rows

`put` overwrites the first row with the key, appends when there is none, and refuses when the table
is full (`put_cases`); it keeps every row exactly when it overwrites no other (`subset_put_iff`).
-/

namespace MeshcoreSniffer.Lib.KeyedTable

open List

variable {α κ : Type*} [DecidableEq κ] (key : α → κ) (cap : Nat)

def put (rows : List α) (x : α) : Option (List α) :=
  match rows.findIdx? fun y => key y == key x with
  | some i => some (rows.set i x)
  | none => if rows.length < cap then some (rows ++ [x]) else none

variable {key cap} {rows rows' : List α} {x : α}

theorem put_absent (h : ∀ y ∈ rows, key y ≠ key x) :
    put key cap rows x = if rows.length < cap then some (rows ++ [x]) else none := by
  have hnone : rows.findIdx? (fun y => key y == key x) = none := by
    rw [findIdx?_eq_none_iff]
    intro y hy
    simpa using h y hy
  rw [put, hnone]

theorem put_present (cap : Nat) {y : α} (hy : y ∈ rows) (hkey : key y = key x) :
    ∃ before old after, rows = before ++ old :: after ∧ key old = key x ∧
      (∀ z ∈ before, key z ≠ key x) ∧ put key cap rows x = some (before ++ x :: after) := by
  obtain ⟨i, hi⟩ : ∃ i, rows.findIdx? (fun y => key y == key x) = some i := by
    rw [← Option.isSome_iff_exists, findIdx?_isSome, any_eq_true]
    exact ⟨y, hy, by simpa using hkey⟩
  obtain ⟨hlt, hfound, hbefore⟩ := List.findIdx?_eq_some_iff_getElem.mp hi
  refine ⟨rows.take i, rows[i], rows.drop (i + 1), ?_, by simpa using hfound, ?_, ?_⟩
  · rw [getElem_cons_drop, take_append_drop]
  · intro z hz
    obtain ⟨j, hj, rfl⟩ := getElem_of_mem hz
    rw [length_take] at hj
    rw [getElem_take]
    simpa using hbefore j (by omega)
  · rw [put, hi]
    dsimp only
    rw [set_eq_take_append_cons_drop, if_pos hlt]

theorem put_cases (h : put key cap rows x = some rows') :
    (∃ before old after, rows = before ++ old :: after ∧ key old = key x ∧
      rows' = before ++ x :: after) ∨
    ((∀ y ∈ rows, key y ≠ key x) ∧ rows' = rows ++ [x]) := by
  by_cases hknown : ∃ y ∈ rows, key y = key x
  · obtain ⟨y, hy, hkey⟩ := hknown
    obtain ⟨before, old, after, hrows, hold, -, hput⟩ := put_present cap hy hkey
    rw [h] at hput
    exact Or.inl ⟨before, old, after, hrows, hold, Option.some.inj hput⟩
  · have habsent : ∀ y ∈ rows, key y ≠ key x := fun y hy hkey => hknown ⟨y, hy, hkey⟩
    rw [put_absent habsent] at h
    split at h
    · exact Or.inr ⟨habsent, (Option.some.inj h).symm⟩
    · cases h

theorem find?_put (key : α → κ) (x : α) (hroom : rows.length < cap) :
    ∃ rows', put key cap rows x = some rows' ∧ rows'.find? (fun y => key y = key x) = some x := by
  by_cases hknown : ∃ y ∈ rows, key y = key x
  · obtain ⟨y, hy, hkey⟩ := hknown
    obtain ⟨before, old, after, -, -, hbefore, hput⟩ := put_present cap hy hkey
    refine ⟨_, hput, ?_⟩
    have hnone : before.find? (fun y => key y = key x) = none := by
      simpa using hbefore
    rw [find?_append, hnone, Option.none_or, find?_cons_of_pos (by simp)]
  · have habsent : ∀ y ∈ rows, key y ≠ key x := fun y hy hkey => hknown ⟨y, hy, hkey⟩
    refine ⟨_, (put_absent habsent).trans (if_pos hroom), ?_⟩
    have hnone : rows.find? (fun y => key y = key x) = none := by
      simpa using habsent
    rw [find?_append, hnone, Option.none_or, find?_cons_of_pos (by simp)]

theorem nodup_put (hrows : (rows.map key).Nodup) (h : put key cap rows x = some rows') :
    (rows'.map key).Nodup := by
  obtain ⟨before, old, after, rfl, hold, rfl⟩ | ⟨habsent, rfl⟩ := put_cases h
  · rw [map_append, map_cons, hold] at hrows
    rwa [map_append, map_cons]
  · rw [map_append, map_singleton, nodup_append]
    refine ⟨hrows, nodup_singleton _, ?_⟩
    intro k hk k' hk' heq
    obtain ⟨y, hy, rfl⟩ := List.mem_map.mp hk
    exact habsent y hy (heq.trans (List.mem_singleton.mp hk'))

theorem subset_put_iff (hrows : (rows.map key).Nodup) (h : put key cap rows x = some rows') :
    rows ⊆ rows' ↔ ∀ y ∈ rows, key y = key x → y = x := by
  have hdistinct := nodup_put hrows h
  have hmem : x ∈ rows' := by
    obtain ⟨before, old, after, rfl, hold, rfl⟩ | ⟨habsent, rfl⟩ := put_cases h
    · exact mem_append_right _ mem_cons_self
    · exact mem_append_right _ (mem_singleton_self x)
  constructor
  · intro hsub y hy hkey
    exact inj_on_of_nodup_map hdistinct (hsub hy) hmem hkey
  · intro hsame
    obtain ⟨before, old, after, rfl, hold, rfl⟩ | ⟨habsent, rfl⟩ := put_cases h
    · rw [hsame old (mem_append_right _ mem_cons_self) hold]
      exact List.Subset.refl _
    · exact subset_append_left _ _

end MeshcoreSniffer.Lib.KeyedTable
