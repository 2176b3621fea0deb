import Mathlib.Data.List.Basic

/-!
# Round-robin tables

`write` overwrites the slot under the cursor and moves on. Read from the cursor round to it again
(`inOrder`), a write is one shift (`inOrder_write`).
-/

namespace MeshcoreSniffer.Lib.RoundRobin

open List

variable {α : Type*}

structure Table (α : Type*) where
  slots : List α
  next : Nat
  inside : next < slots.length

namespace Table

def write (t : Table α) (e : α) : Table α where
  slots := t.slots.set t.next e
  next := (t.next + 1) % t.slots.length
  inside := by
    rw [List.length_set]
    exact Nat.mod_lt _ (Nat.zero_lt_of_lt t.inside)

def modify (t : Table α) (i : Nat) (f : α → α) : Table α where
  slots := t.slots.modify i f
  next := t.next
  inside := by
    rw [List.length_modify]
    exact t.inside

def inOrder (t : Table α) : List α := t.slots.drop t.next ++ t.slots.take t.next

variable (t : Table α)

theorem length_slots_write (e : α) : (t.write e).slots.length = t.slots.length :=
  length_set

theorem length_inOrder : t.inOrder.length = t.slots.length := by
  simp [inOrder]
  omega

theorem mem_inOrder {t : Table α} {e : α} : e ∈ t.inOrder ↔ e ∈ t.slots := by
  rw [inOrder, mem_append, or_comm, ← mem_append, take_append_drop]

theorem inOrder_write (e : α) : (t.write e).inOrder = t.inOrder.tail ++ [e] := by
  obtain ⟨slots, next, inside⟩ := t
  simp only [write, inOrder]
  have hdrop : slots.drop next = slots[next] :: slots.drop (next + 1) :=
    drop_eq_getElem_cons inside
  rw [hdrop, cons_append, tail_cons]
  rcases Nat.lt_or_ge (next + 1) slots.length with hlt | hge
  · rw [Nat.mod_eq_of_lt hlt, drop_set_of_lt (Nat.lt_succ_self next),
      take_add_one, take_set_of_le (Nat.le_refl next)]
    simp [inside, append_assoc]
  · -- the cursor wraps: the new entry sits in the last slot
    have hlen : next + 1 = slots.length := by omega
    rw [hlen, Nat.mod_self, drop_zero, take_zero, append_nil,
      drop_length, nil_append, set_eq_take_append_cons_drop, if_pos inside,
      hlen, drop_length]

theorem inOrder_foldl_write (es : List α) :
    (es.foldl write t).inOrder = (t.inOrder ++ es).drop es.length := by
  induction es generalizing t with
  | nil => simp
  | cons e es ih =>
    have hne : t.inOrder ≠ [] := by
      intro hnil
      have hlen := t.length_inOrder
      rw [hnil] at hlen
      have := t.inside
      simp at hlen
      omega
    obtain ⟨x, xs, hx⟩ := exists_cons_of_ne_nil hne
    rw [foldl_cons, ih, inOrder_write, hx]
    simp

theorem inOrder_foldl_write_full {es : List α} (h : es.length = t.slots.length) :
    (es.foldl write t).inOrder = es := by
  rw [inOrder_foldl_write, h, ← t.length_inOrder, drop_left]

end Table

end MeshcoreSniffer.Lib.RoundRobin
