import Mathlib.Data.List.Basic

/-!
# Scans over a table of slots

`collect` copies out the first `k` entries that are due and retires each in place.
-/

namespace MeshcoreSniffer.Lib.Slots

open List

variable {α : Type*} (due : α → Bool) (retire : α → α)

def collect : Nat → List α → List α × List α
  | 0, slots => (slots, [])
  | _ + 1, [] => ([], [])
  | k + 1, e :: slots =>
    if due e then
      let rest := collect k slots
      (retire e :: rest.1, e :: rest.2)
    else
      let rest := collect (k + 1) slots
      (e :: rest.1, rest.2)

-- built here once, ahead of the proofs that go by it
attribute [elab_as_elim] collect.induct_unfolding

theorem length_collect (k : Nat) (slots : List α) :
    (collect due retire k slots).1.length = slots.length := by
  fun_induction collect due retire k slots with
  | case1 => rfl
  | case2 => rfl
  | case3 k e slots hdue rest ih => simp [rest, ih]
  | case4 k e slots hdue rest ih => simp [rest, ih]

theorem collect_snd (k : Nat) (slots : List α) :
    (collect due retire k slots).2 = (slots.filter due).take k := by
  fun_induction collect due retire k slots with
  | case1 => rfl
  | case2 => rfl
  | case3 k e slots hdue rest ih => simp [rest, ih, hdue]
  | case4 k e slots hdue rest ih => simp [rest, ih, hdue]

variable {slots : List α} {e : α} {β : Type*} {f : α → α} {i : Nat} {live : α → Bool}

theorem mem_collect (k : Nat) (he : e ∈ slots) :
    e ∈ (collect due retire k slots).1 ∨ e ∈ (collect due retire k slots).2 := by
  fun_induction collect due retire k slots with
  | case1 => exact .inl he
  | case2 => cases he
  | case3 k x slots hdue rest ih =>
    rcases mem_cons.mp he with rfl | hmem
    · exact .inr mem_cons_self
    · rcases ih hmem with hstay | hout
      · exact .inl (mem_cons_of_mem _ hstay)
      · exact .inr (mem_cons_of_mem _ hout)
  | case4 k x slots hdue rest ih =>
    rcases mem_cons.mp he with rfl | hmem
    · exact .inl mem_cons_self
    · rcases ih hmem with hstay | hout
      · exact .inl (mem_cons_of_mem _ hstay)
      · exact .inr hout

theorem eq_or_retired_of_mem_collect (k : Nat) (he : e ∈ (collect due retire k slots).1) :
    e ∈ slots ∨ ∃ x ∈ slots, due x = true ∧ e = retire x := by
  fun_induction collect due retire k slots with
  | case1 => exact .inl he
  | case2 => cases he
  | case3 k x slots hdue rest ih =>
    rcases mem_cons.mp he with rfl | hmem
    · exact .inr ⟨x, mem_cons_self, hdue, rfl⟩
    · rcases ih hmem with hstay | ⟨y, hy, hyd, rfl⟩
      · exact .inl (mem_cons_of_mem _ hstay)
      · exact .inr ⟨y, mem_cons_of_mem _ hy, hyd, rfl⟩
  | case4 k x slots hdue rest ih =>
    rcases mem_cons.mp he with rfl | hmem
    · exact .inl mem_cons_self
    · rcases ih hmem with hstay | ⟨y, hy, hyd, rfl⟩
      · exact .inl (mem_cons_of_mem _ hstay)
      · exact .inr ⟨y, mem_cons_of_mem _ hy, hyd, rfl⟩

theorem collect_fst_of_length_le {k : Nat} (h : (slots.filter due).length ≤ k) :
    (collect due retire k slots).1 = slots.map fun e => if due e then retire e else e := by
  fun_induction collect due retire k slots with
  | case1 slots =>
    have hnone := filter_eq_nil_iff.mp (eq_nil_of_length_eq_zero (Nat.le_zero.mp h))
    refine (map_id slots).symm.trans (map_congr_left fun e he => ?_)
    rw [if_neg (hnone e he), id]
  | case2 => rfl
  | case3 k e slots hdue rest ih =>
    rw [filter_cons_of_pos hdue, length_cons] at h
    simp [rest, ih (Nat.le_of_succ_le_succ h), hdue]
  | case4 k e slots hdue rest ih =>
    rw [filter_cons_of_neg hdue] at h
    simp [rest, ih h, hdue]

theorem map_collect (f : β → α) {retire' : β → β} (hretire : ∀ b, f (retire' b) = retire (f b))
    (k : Nat) (slots : List β) :
    (collect (due ∘ f) retire' k slots).1.map f = (collect due retire k (slots.map f)).1 ∧
      (collect (due ∘ f) retire' k slots).2.map f = (collect due retire k (slots.map f)).2 := by
  fun_induction collect (due ∘ f) retire' k slots with
  | case1 slots => simp [collect]
  | case2 => simp [collect]
  | case3 k e slots hdue rest ih =>
    have he : due (f e) = true := hdue
    simp [rest, collect, he, ih, hretire]
  | case4 k e slots hdue rest ih =>
    have he : ¬due (f e) = true := hdue
    simp [rest, collect, he, ih]

theorem map_modify (f : β → α) {g : α → α} {g' : β → β} (hg : ∀ b, f (g' b) = g (f b)) (i : Nat)
    (slots : List β) : (slots.modify i g').map f = (slots.map f).modify i g := by
  induction slots generalizing i with
  | nil => simp
  | cons b slots ih =>
    cases i with
    | zero => simp [hg]
    | succ i => simp [ih]

theorem perm_flatMap_collect (contents : α → List β) (hretire : ∀ e, contents (retire e) = [])
    (k : Nat) (slots : List α) : ((collect due retire k slots).1.flatMap contents ++
      (collect due retire k slots).2.flatMap contents).Perm (slots.flatMap contents) := by
  fun_induction collect due retire k slots with
  | case1 slots => simp
  | case2 => simp
  | case3 k e slots hdue rest ih =>
    simp only [rest, flatMap_cons, hretire, nil_append]
    refine List.Perm.trans ?_ (ih.append_left (contents e))
    rw [← append_assoc, ← append_assoc]
    exact perm_append_comm.append_right _
  | case4 k e slots hdue rest ih =>
    simp only [rest, flatMap_cons, append_assoc]
    exact ih.append_left (contents e)

theorem perm_flatMap_modify {contents : α → List β} (hget : slots[i]? = some e) {extra : List β}
    (hf : contents (f e) = contents e ++ extra) :
    ((slots.modify i f).flatMap contents).Perm (slots.flatMap contents ++ extra) := by
  induction slots generalizing i with
  | nil => cases hget
  | cons x slots ih =>
    cases i with
    | zero =>
      obtain rfl := Option.some.inj hget
      rw [modify_zero_cons, flatMap_cons, flatMap_cons, hf, append_assoc,
        append_assoc]
      exact perm_append_comm.append_left _
    | succ i =>
      rw [modify_succ_cons, flatMap_cons, flatMap_cons, append_assoc]
      exact (ih hget).append_left _

theorem filter_collect (hdue : ∀ e, due e = true → live e = true)
    (hretire : ∀ e, live (retire e) = false) (k : Nat) (slots : List α) :
    (collect due retire k slots).1.filter live =
      (collect due retire k (slots.filter live)).1.filter live := by
  fun_induction collect due retire k slots with
  | case1 slots => simp [collect]
  | case2 => rfl
  | case3 k e slots he rest ih =>
    simp [rest, ih, hdue e he, collect, he, hretire]
  | case4 k e slots he rest ih =>
    by_cases hlive : live e = true
    · simp [rest, ih, hlive, collect, he]
    · simp [rest, ih, hlive]

theorem filter_modify_of_dead (hdead : ∀ e ∈ slots, live e = false) (hi : i < slots.length)
    (hf : live (f slots[i]) = true) : (slots.modify i f).filter live = [f slots[i]] := by
  induction slots generalizing i with
  | nil => simp at hi
  | cons e slots ih =>
    have hrest : slots.filter live = [] :=
      filter_eq_nil_iff.mpr fun x hx => by simp [hdead x (mem_cons_of_mem _ hx)]
    cases i with
    | zero =>
      have hfe : live (f e) = true := hf
      simp [List.modify, hfe, hrest]
    | succ i =>
      have hi' : i < slots.length := by simpa using hi
      have := ih (fun x hx => hdead x (mem_cons_of_mem _ hx)) hi' hf
      simp [modify_succ_cons, hdead e mem_cons_self, this]

end MeshcoreSniffer.Lib.Slots
