import Mathlib

/-!
# Bounded searches

`tryEach` keeps the first accepted of self-inverse actions (`tryEach_eq_find`). `findPair` finds a
pair with a given exclusive or of values if there is one.
-/

namespace MeshcoreSniffer.Lib.Search

open List Function Option

section TryEach

variable {ι σ : Type*} (act : ι → σ → σ) (ok : σ → Bool)

def tryEach : List ι → σ → Bool × σ
  | [], s => (false, s)
  | i :: is, s =>
    let s' := act i s
    if ok s' then (true, s') else tryEach is (act i s')

def keep (s : σ) : Option ι → Bool × σ
  | none => (false, s)
  | some i => (true, act i s)

theorem tryEach_eq_find (hundo : ∀ i s, act i (act i s) = s) (is : List ι) (s : σ) :
    tryEach act ok is s = keep act s (is.find? fun i => ok (act i s)) := by
  induction is with
  | nil => rfl
  | cons i is ih =>
    unfold tryEach
    by_cases h : ok (act i s) = true
    · simp [h, keep]
    · simp [h, hundo, ih]

end TryEach

section FindPair

variable {w : Nat} (value : Nat → BitVec w)

/-- The table of first indices of the values below `n`, built left to right. -/
def firstIndex (n : Nat) : BitVec w → Option Nat :=
  (List.range n).foldl
    (fun seen i => if (seen (value i)).isNone then Function.update seen (value i) (some i) else seen)
    fun _ => none

/-- The first index whose partner under `target` the table knows. -/
def findPair (n : Nat) (target : BitVec w) : Option (Nat × Nat) :=
  (List.range n).findSome? fun i =>
    match firstIndex value n (value i ^^^ target) with
    | some j => if j ≠ i then some (i, j) else none
    | none => none

theorem firstIndex_succ (n : Nat) :
    firstIndex value (n + 1) =
      if (firstIndex value n (value n)).isNone then
        update (firstIndex value n) (value n) (some n)
      else firstIndex value n := by
  simp [firstIndex, range_succ, foldl_append]

variable {n j i : Nat} {v target : BitVec w}

theorem firstIndex_some (h : firstIndex value n v = some j) : j < n ∧ value j = v := by
  induction n with
  | zero => simp [firstIndex] at h
  | succ n ih =>
    rw [firstIndex_succ] at h
    split at h
    · by_cases hv : v = value n
      · subst hv
        simp only [update_self, some.injEq] at h
        subst h
        exact ⟨by omega, rfl⟩
      · rw [update_of_ne hv] at h
        exact ⟨by have := (ih h).1; omega, (ih h).2⟩
    · exact ⟨by have := (ih h).1; omega, (ih h).2⟩

theorem firstIndex_isSome (hi : i < n) : (firstIndex value n (value i)).isSome := by
  induction n with
  | zero => omega
  | succ n ih =>
    rw [firstIndex_succ]
    split
    next hnone =>
      by_cases hv : value i = value n
      · simp [hv]
      · have hin : i ≠ n := fun h => hv (by rw [h])
        rw [update_of_ne hv]
        exact ih (by omega)
    next hsome =>
      rcases Nat.lt_succ_iff_lt_or_eq.mp hi with hlt | rfl
      · exact ih hlt
      · exact isSome_iff_ne_none.mpr (by simpa using hsome)

theorem firstIndex_min (h : firstIndex value n v = some j) : ∀ i < j, value i ≠ v := by
  induction n with
  | zero => simp [firstIndex] at h
  | succ n ih =>
    rw [firstIndex_succ] at h
    split at h
    next hnone =>
      by_cases hv : v = value n
      · subst hv
        rw [update_self, some.injEq] at h
        subst h
        intro i hi heq
        have hsome := firstIndex_isSome value hi
        rw [heq, isNone_iff_eq_none.mp hnone] at hsome
        cases hsome
      · rw [update_of_ne hv] at h
        exact ih h
    next => exact ih h

theorem findPair_some (h : findPair value n target = some (i, j)) :
    i < n ∧ j < n ∧ i ≠ j ∧ value i ^^^ value j = target := by
  obtain ⟨k, hk, hbody⟩ := exists_of_findSome?_eq_some h
  cases htab : firstIndex value n (value k ^^^ target) with
  | none => simp [htab] at hbody
  | some l =>
    simp only [htab] at hbody
    split at hbody
    next hne =>
      simp only [some.injEq, Prod.mk.injEq] at hbody
      obtain ⟨rfl, rfl⟩ := hbody
      obtain ⟨hj, hval⟩ := firstIndex_some value htab
      refine ⟨mem_range.mp hk, hj, fun h => hne h.symm, ?_⟩
      rw [hval, ← BitVec.xor_assoc, BitVec.xor_self, BitVec.zero_xor]
    next => simp at hbody

theorem findPair_isSome_iff (h0 : target ≠ 0) : (findPair value n target).isSome ↔
      ∃ i j, i < n ∧ j < n ∧ i ≠ j ∧ value i ^^^ value j = target := by
  constructor
  · intro h
    obtain ⟨⟨i, j⟩, hij⟩ := isSome_iff_exists.mp h
    exact ⟨i, j, findPair_some value hij⟩
  · rintro ⟨i, j, hi, hj, -, hval⟩
    by_contra hnone
    rw [not_isSome_iff_eq_none, findPair, findSome?_eq_none_iff] at hnone
    have hbody := hnone i (mem_range.mpr hi)
    have hpartner : value i ^^^ target = value j := by
      rw [← hval, ← BitVec.xor_assoc, BitVec.xor_self, BitVec.zero_xor]
    obtain ⟨l, hl⟩ := isSome_iff_exists.mp (firstIndex_isSome value hj)
    simp only [hpartner, hl] at hbody
    split at hbody
    next => simp at hbody
    next hli =>
      -- the first index of the partner's value is `i` itself: then the target is zero
      have hli : l = i := by simpa using hli
      have hvi := (firstIndex_some value hl).2
      rw [hli] at hvi
      exact h0 (by rw [← hval, hvi, BitVec.xor_self]; rfl)

theorem findPair_first (h0 : target ≠ 0) (h : findPair value n target = some (i, j)) :
    (∀ i' < i, ∀ j' < n, value i' ^^^ value j' ≠ target) ∧
      ∀ j' < j, value i ^^^ value j' ≠ target := by
  have hpartner : ∀ a b, value a ^^^ value b = target → value a ^^^ target = value b := by
    intro a b hab
    rw [← hab, ← BitVec.xor_assoc, BitVec.xor_self, BitVec.zero_xor]
  obtain ⟨before, k, after, hsplit, hbody, hnone⟩ := findSome?_eq_some_iff.mp h
  have hsorted := @List.pairwise_lt_range n
  rw [hsplit] at hsorted
  have hafter := (pairwise_cons.mp (pairwise_append.mp hsorted).2.1).1
  have hkn : k < n := mem_range.mp (by simp [hsplit])
  cases htab : firstIndex value n (value k ^^^ target) with
  | none => simp [htab] at hbody
  | some l =>
    simp only [htab] at hbody
    split at hbody
    next =>
      simp only [some.injEq, Prod.mk.injEq] at hbody
      obtain ⟨rfl, rfl⟩ := hbody
      refine ⟨fun i' hi' j' hj' hsum => ?_, fun j' hj' hsum => ?_⟩
      · -- an earlier index was visited and had no partner
        have hmem : i' ∈ before := by
          have hin : i' ∈ range n := mem_range.mpr (by omega)
          rw [hsplit, mem_append, mem_cons] at hin
          rcases hin with hin | rfl | hin
          · exact hin
          · omega
          · have := hafter i' hin
            omega
        have hvisited := hnone i' hmem
        obtain ⟨m, hm⟩ := isSome_iff_exists.mp (firstIndex_isSome value hj')
        rw [hpartner i' j' hsum, hm] at hvisited
        by_cases hmi : m = i'
        · have hvalue := (firstIndex_some value hm).2
          rw [hmi] at hvalue
          exact h0 (by rw [← hsum, hvalue, BitVec.xor_self]; rfl)
        · simp [hmi] at hvisited
      · exact firstIndex_min value htab j' hj' (hpartner _ _ hsum).symm
    next => simp at hbody

end FindPair

theorem findSome?_of_unique {α β : Type*} {f : α → Option β} {l : List α} {a : α} {b : β}
    (hmem : a ∈ l) (hfound : f a = some b) (hother : ∀ a' ∈ l, a' ≠ a → f a' = none) :
    l.findSome? f = some b := by
  induction l with
  | nil => cases hmem
  | cons a' l ih =>
    rw [findSome?_cons]
    by_cases hsame : a' = a
    · rw [hsame, hfound]
    · rw [hother a' (mem_cons_self) hsame]
      have hmem' : a ∈ l := (mem_cons.mp hmem).resolve_left fun h => hsame h.symm
      exact ih hmem' fun a'' ha'' => hother a'' (mem_cons_of_mem _ ha'')

end MeshcoreSniffer.Lib.Search
