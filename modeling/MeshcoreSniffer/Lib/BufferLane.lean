import Mathlib

/-!
# A lane of recycled buffers

A producer swaps its active buffer for a free one and submits it; a worker reads submitted buffers
in order and gives each back. `Lane.Sound` is what every interleaving of the moves preserves.
-/

namespace MeshcoreSniffer.Lib

open List Function

variable {α : Type*}

/-- The first `n` cells of a buffer, on their way to the worker. -/
structure Parcel where
  buf : Nat
  n : Nat
  deriving DecidableEq

/-- The buffers and where they are, with what was emitted and what was delivered so far. -/
structure Lane (α : Type*) where
  bufs : Nat → List α
  active : Nat
  count : Nat
  free : List Nat
  submitting : List Parcel
  queued : List Parcel
  calling : List Parcel
  returning : List Nat
  emitted : List α
  delivered : List (List α)

namespace Lane

def contents (bufs : Nat → List α) (x : Parcel) : List α := (bufs x.buf).take x.n

def path (l : Lane α) : List Parcel := l.calling ++ l.queued ++ l.submitting

def transit (l : Lane α) : List α :=
  l.path.flatMap (contents l.bufs) ++ (l.bufs l.active).take l.count

def places (l : Lane α) : List Nat :=
  l.active :: l.free ++ l.submitting.map Parcel.buf ++ l.queued.map Parcel.buf ++
    (l.calling.map Parcel.buf ++ l.returning)

/-- Before anything is emitted: the first of `ring` buffers is active, the others are free. -/
def fresh (ring : Nat) (bufs : Nat → List α) : Lane α where
  bufs := bufs
  active := 0
  count := 0
  free := ((List.range ring).drop 1).reverse
  submitting := []
  queued := []
  calling := []
  returning := []
  emitted := []
  delivered := []

/-- The moves of the producer (`emit`, `swap`, `enqueue`) and of the worker. -/
inductive Step (cap : Nat) : Lane α → Lane α → Prop
  | emit (l : Lane α) (y : α) (hroom : l.count < cap) :
      Step cap l { l with
        bufs := Function.update l.bufs l.active ((l.bufs l.active).set l.count y)
        count := l.count + 1
        emitted := l.emitted ++ [y] }
  | swap (l : Lane α) (b : Nat) (free : List Nat) (hfree : l.free = b :: free)
      (hsubmitting : l.submitting = []) :
      Step cap l { l with
        active := b, free := free, count := 0, submitting := [⟨l.active, l.count⟩] }
  | enqueue (l : Lane α) (x : Parcel) (hsubmitting : l.submitting = [x]) :
      Step cap l { l with submitting := [], queued := l.queued ++ [x] }
  | dequeue (l : Lane α) (x : Parcel) (rest : List Parcel) (hqueued : l.queued = x :: rest)
      (hcalling : l.calling = []) : Step cap l { l with calling := [x], queued := rest }
  | call (l : Lane α) (x : Parcel) (hcalling : l.calling = [x]) (hreturning : l.returning = []) :
      Step cap l { l with
        calling := [], returning := [x.buf], delivered := l.delivered ++ [contents l.bufs x] }
  | giveBack (l : Lane α) (b : Nat) (hreturning : l.returning = [b]) :
      Step cap l { l with returning := [], free := b :: l.free }

/-- Nothing is lost, repeated or reordered, and every buffer is in one place. -/
structure Sound (cap ring : Nat) (l : Lane α) : Prop where
  stream : l.emitted = l.delivered.flatten ++ l.transit
  partitioned : l.places.Perm (List.range ring)
  lengths : ∀ b, (l.bufs b).length = cap

variable {cap ring : Nat} {l : Lane α}

theorem sound_fresh (hring : 0 < ring) {bufs : Nat → List α} (hbufs : ∀ b, (bufs b).length = cap) :
    (fresh ring bufs).Sound cap ring where
  stream := rfl
  partitioned := by
    have hsplit : range ring = 0 :: (range ring).drop 1 := by
      obtain ⟨n, rfl⟩ := Nat.exists_eq_succ_of_ne_zero hring.ne'
      rw [range_succ_eq_map]
      rfl
    have hplaces : (fresh ring bufs).places = 0 :: ((range ring).drop 1).reverse := by
      simp [places, fresh]
    rw [hplaces]
    conv_rhs => rw [hsplit]
    exact (reverse_perm _).cons 0
  lengths := hbufs

theorem take_set_succ {cells : List α} {n : Nat} (hn : n < cells.length) (y : α) :
    (cells.set n y).take (n + 1) = cells.take n ++ [y] := by
  have hlt : n < (cells.set n y).length := by rwa [length_set]
  rw [take_succ_eq_append_getElem hlt, getElem_set_self, take_set_of_le (le_refl n)]

theorem Sound.active_ne (h : l.Sound cap ring) {x : Parcel} (hx : x ∈ l.path) :
    x.buf ≠ l.active := by
  have hnodup : l.places.Nodup := h.partitioned.nodup_iff.mpr nodup_range
  intro heq
  have hmem : l.active ∈ l.free ++ l.submitting.map Parcel.buf ++ l.queued.map Parcel.buf ++
      (l.calling.map Parcel.buf ++ l.returning) := by
    simp only [path, mem_append] at hx
    simp only [mem_append, mem_map]
    rcases hx with (hc | hq) | hs
    · exact .inr (.inl ⟨x, hc, heq⟩)
    · exact .inl (.inr ⟨x, hq, heq⟩)
    · exact .inl (.inl (.inr ⟨x, hs, heq⟩))
  exact (nodup_cons.mp hnodup).1 hmem

theorem Sound.emit (h : l.Sound cap ring) (y : α) (hroom : l.count < cap) : ({ l with
      bufs := update l.bufs l.active ((l.bufs l.active).set l.count y)
      count := l.count + 1
      emitted := l.emitted ++ [y] } : Lane α).Sound cap ring where
  stream := by
    have hlength : l.count < (l.bufs l.active).length := by rwa [h.lengths]
    have hparcels : l.path.flatMap (contents
        (update l.bufs l.active ((l.bufs l.active).set l.count y))) =
          l.path.flatMap (contents l.bufs) := by
      refine flatMap_congr fun x hx => ?_
      rw [contents, contents, update_of_ne (h.active_ne hx)]
    show l.emitted ++ [y] = l.delivered.flatten ++ (l.path.flatMap (contents
      (update l.bufs l.active ((l.bufs l.active).set l.count y))) ++
        (update l.bufs l.active ((l.bufs l.active).set l.count y) l.active).take
          (l.count + 1))
    rw [hparcels, update_self, take_set_succ hlength, h.stream, transit]
    simp only [append_assoc]
  partitioned := h.partitioned
  lengths := by
    intro b
    show (update l.bufs l.active _ b).length = cap
    by_cases hb : b = l.active
    · subst hb
      rw [update_self, length_set, h.lengths]
    · rw [update_of_ne hb, h.lengths]

theorem Sound.step {l' : Lane α} (h : l.Sound cap ring) (hstep : Step cap l l') :
    l'.Sound cap ring := by
  have hstream := h.stream
  have hplaces := perm_iff_count.mp h.partitioned
  cases hstep with
  | emit y hroom => exact h.emit y hroom
  | swap b free hfree hsubmitting =>
    refine ⟨?_, perm_iff_count.mpr fun c => ?_, h.lengths⟩
    · rw [hstream]
      simp [transit, path, contents, hsubmitting]
    · have hc := hplaces c
      simp only [places, hfree, hsubmitting, map_nil, map_cons, count_append,
        count_cons, count_nil, cons_append] at hc ⊢
      omega
  | enqueue x hsubmitting =>
    refine ⟨?_, perm_iff_count.mpr fun c => ?_, h.lengths⟩
    · rw [hstream]
      simp [transit, path, contents, hsubmitting]
    · have hc := hplaces c
      simp only [places, hsubmitting, map_nil, map_cons, map_append,
        count_append, count_cons, count_nil, cons_append] at hc ⊢
      omega
  | dequeue x rest hqueued hcalling =>
    refine ⟨?_, perm_iff_count.mpr fun c => ?_, h.lengths⟩
    · rw [hstream]
      simp [transit, path, contents, hqueued, hcalling]
    · have hc := hplaces c
      simp only [places, hqueued, hcalling, map_nil, map_cons, count_append,
        count_cons, count_nil, cons_append] at hc ⊢
      omega
  | call x hcalling hreturning =>
    refine ⟨?_, perm_iff_count.mpr fun c => ?_, h.lengths⟩
    · rw [hstream]
      simp [transit, path, contents, hcalling]
    · have hc := hplaces c
      simp only [places, hcalling, hreturning, map_nil, map_cons, count_append,
        count_cons, count_nil, cons_append] at hc ⊢
      omega
  | giveBack b hreturning =>
    refine ⟨hstream, perm_iff_count.mpr fun c => ?_, h.lengths⟩
    have hc := hplaces c
    simp only [places, hreturning, count_append, count_cons, count_nil,
      cons_append] at hc ⊢
    omega

theorem Sound.delivered_of_quiet (h : l.Sound cap ring) (hpath : l.path = []) (hcount : l.count = 0) :
    l.delivered.flatten = l.emitted := by
  rw [h.stream, transit, hpath, hcount]
  simp

end Lane

end MeshcoreSniffer.Lib
