import Mathlib.Data.List.Basic

/-!
# A stream in a circular buffer

Entry `i` of a stream is kept in cell `i % capacity`. `Holds`: every retained entry stands in its
cell; a write at the end appends (`holds_writeAt`), a read inside is a slice (`Holds.readAt`).
-/

namespace MeshcoreSniffer.Lib.Circular

open List

variable {α : Type*}

/-! ## Copies -/

def memcpy (dst : List α) (pos : Nat) (src : List α) : List α :=
  dst.take pos ++ src ++ dst.drop (pos + src.length)

variable {dst src cells stream : List α} {pos k n : Nat}

theorem length_memcpy (h : pos + src.length ≤ dst.length) :
    (memcpy dst pos src).length = dst.length := by
  simp only [memcpy, length_append, length_take, length_drop]
  omega

theorem getElem?_memcpy (h : pos + src.length ≤ dst.length) (j : Nat) : (memcpy dst pos src)[j]? =
      if pos ≤ j ∧ j < pos + src.length then src[j - pos]? else dst[j]? := by
  have hpos : (dst.take pos).length = pos := by
    rw [length_take]
    omega
  rw [memcpy, getElem?_append, length_append, hpos, getElem?_append, hpos,
    getElem?_drop]
  rcases Nat.lt_or_ge j pos with hlt | hge
  · rw [if_pos (by omega), if_pos hlt, if_neg (by omega), getElem?_take, if_pos hlt]
  · rcases Nat.lt_or_ge j (pos + src.length) with hin | hout
    · rw [if_pos hin, if_neg (by omega), if_pos ⟨hge, hin⟩]
    · rw [if_neg (by omega), if_neg (by omega)]
      congr 1
      omega

/-- `src` written from the cell of index `first` on, round the end. -/
def writeAt (cells : List α) (first : Nat) (src : List α) : List α :=
  let pos := first % cells.length
  let chunk := min (cells.length - pos) src.length
  let cells := memcpy cells pos (src.take chunk)
  if chunk < src.length then memcpy cells 0 (src.drop chunk) else cells

/-- `n` cells read from the one of index `first` on, round the end. -/
def readAt (cells : List α) (first n : Nat) : List α :=
  let pos := first % cells.length
  let chunk := min (cells.length - pos) n
  (cells.drop pos).take chunk ++ if chunk < n then cells.take (n - chunk) else []

variable (first : Nat)

theorem cell_add {cap : Nat} (hk : k < cap) :
    (first + k) % cap = if first % cap + k < cap then first % cap + k
      else first % cap + k - cap := by
  have hpos : first % cap < cap := Nat.mod_lt _ (by omega)
  rw [Nat.add_mod, Nat.mod_eq_of_lt hk]
  split
  next h => exact Nat.mod_eq_of_lt h
  next h =>
    rw [Nat.mod_eq_sub_mod (by omega)]
    exact Nat.mod_eq_of_lt (by omega)

theorem length_writeAt (hsrc : src.length ≤ cells.length) :
    (writeAt cells first src).length = cells.length := by
  rcases Nat.eq_zero_or_pos cells.length with hzero | hcap
  · obtain rfl := eq_nil_of_length_eq_zero hzero
    obtain rfl := eq_nil_of_length_eq_zero (Nat.le_zero.mp hsrc)
    simp [writeAt, memcpy]
  · have hpos : first % cells.length < cells.length := Nat.mod_lt _ hcap
    have hfirst : (memcpy cells (first % cells.length)
        (src.take (min (cells.length - first % cells.length) src.length))).length =
          cells.length := by
      apply length_memcpy
      rw [length_take]
      omega
    simp only [writeAt]
    split
    · rw [length_memcpy, hfirst]
      rw [hfirst, length_drop]
      omega
    · exact hfirst

theorem getElem?_writeAt (hsrc : src.length ≤ cells.length) (hk : k < cells.length) :
    (writeAt cells first src)[(first + k) % cells.length]? =
      if k < src.length then src[k]? else cells[(first + k) % cells.length]? := by
  have hpos : first % cells.length < cells.length := Nat.mod_lt _ (by omega)
  rw [cell_add first hk]
  simp only [writeAt]
  generalize first % cells.length = pos at *
  have htake : (src.take (min (cells.length - pos) src.length)).length =
      min (cells.length - pos) src.length := by
    rw [length_take]
    omega
  have hfits : pos + (src.take (min (cells.length - pos) src.length)).length ≤ cells.length := by
    rw [htake]
    omega
  split
  next hwrap =>
    -- the source goes round the end: its rest stands in the first cells
    rw [getElem?_memcpy (by
      rw [length_memcpy hfits, length_drop]
      omega), getElem?_memcpy hfits, htake, length_drop, Nat.zero_add, Nat.sub_zero]
    split
    next hlow =>
      rw [if_neg (by omega)]
      rcases Nat.lt_or_ge k src.length with hin | hout
      · rw [if_pos (by omega), if_pos hin, getElem?_take, if_pos (by omega)]
        congr 1
        omega
      · rw [if_neg (by omega), if_neg (by omega)]
    next hhigh =>
      rcases Nat.lt_or_ge k src.length with hin | hout
      · rw [if_pos (by omega), if_pos hin, getElem?_drop]
        congr 1
        omega
      · rw [if_neg (by omega), if_neg (by omega), if_neg (by omega)]
  next hstraight =>
    rw [getElem?_memcpy hfits, htake]
    split
    next hlow =>
      rcases Nat.lt_or_ge k src.length with hin | hout
      · rw [if_pos (by omega), if_pos hin, getElem?_take, if_pos (by omega)]
        congr 1
        omega
      · rw [if_neg (by omega), if_neg (by omega)]
    next hhigh =>
      rw [if_neg (by omega), if_neg (by omega)]

theorem length_readAt (hn : n ≤ cells.length) : (readAt cells first n).length = n := by
  rcases Nat.eq_zero_or_pos n with rfl | hpositive
  · simp [readAt]
  · have hpos : first % cells.length < cells.length := Nat.mod_lt _ (by omega)
    simp only [readAt, length_append, length_take, length_drop]
    split
    · rw [length_take]
      omega
    · rw [length_nil]
      omega

theorem getElem?_readAt (hn : n ≤ cells.length) (hk : k < n) :
    (readAt cells first n)[k]? = cells[(first + k) % cells.length]? := by
  have hpos : first % cells.length < cells.length := Nat.mod_lt _ (by omega)
  rw [cell_add first (by omega)]
  simp only [readAt]
  generalize first % cells.length = pos at *
  have hhead : ((cells.drop pos).take (min (cells.length - pos) n)).length =
      min (cells.length - pos) n := by
    rw [length_take, length_drop]
    omega
  rw [getElem?_append, hhead]
  split
  next hin =>
    rw [getElem?_take, if_pos hin, getElem?_drop, if_pos (by omega)]
  next hout =>
    rw [if_pos (by omega), getElem?_take, if_pos (by omega), if_neg (by omega)]
    congr 1
    omega

/-! ## The stream -/

/-- The last entries of `stream`, as many as there are cells, each in its cell. -/
def Holds (cells stream : List α) : Prop :=
  ∀ i, i < stream.length → stream.length ≤ i + cells.length →
    cells[i % cells.length]? = stream[i]?

theorem holds_nil (cells : List α) : Holds cells [] := fun _ h => absurd h (Nat.not_lt_zero _)

theorem holds_writeAt (hsrc : src.length ≤ cells.length)
    (h : src.length < cells.length → Holds cells stream) :
    Holds (writeAt cells stream.length src) (stream ++ src) := by
  intro i hi hretained
  rw [length_writeAt _ hsrc] at hretained ⊢
  rw [length_append] at hi hretained
  rcases Nat.lt_or_ge i stream.length with hold | hnew
  · -- an old entry: as a place behind the end of the stream it lies behind the write
    have hcell : i % cells.length =
        (stream.length + (i + cells.length - stream.length)) % cells.length := by
      rw [show stream.length + (i + cells.length - stream.length) = i + cells.length by omega,
        Nat.add_mod_right]
    rw [hcell, getElem?_writeAt _ hsrc (by omega), if_neg (by omega), ← hcell,
      getElem?_append_left hold]
    exact h (by omega) i hold (by omega)
  · obtain ⟨k, rfl⟩ : ∃ k, i = stream.length + k := ⟨i - stream.length, by omega⟩
    rw [getElem?_writeAt _ hsrc (by omega), if_pos (by omega),
      getElem?_append_right (by omega)]
    congr 1
    omega

theorem writeAt_singleton (hcap : 0 < cells.length) (first : Nat) (x : α) :
    writeAt cells first [x] = cells.set (first % cells.length) x := by
  have hpos : first % cells.length < cells.length := Nat.mod_lt _ hcap
  have hchunk : min (cells.length - first % cells.length) [x].length = [x].length := by
    rw [length_singleton]
    omega
  rw [writeAt]
  simp only [hchunk, take_length, Nat.lt_irrefl, if_false]
  rw [memcpy, set_eq_take_append_cons_drop, if_pos hpos, append_assoc,
    singleton_append, length_singleton]

theorem Holds.set (h : Holds cells stream) (hcap : 0 < cells.length) (x : α) :
    Holds (cells.set (stream.length % cells.length) x) (stream ++ [x]) := by
  rw [← writeAt_singleton hcap]
  exact holds_writeAt hcap fun _ => h

theorem Holds.readAt (h : Holds cells stream) {first : Nat} (hend : first + n ≤ stream.length)
    (hretained : stream.length ≤ first + cells.length) :
    readAt cells first n = (stream.drop first).take n := by
  have hn : n ≤ cells.length := by omega
  apply ext_getElem?
  intro k
  rcases Nat.lt_or_ge k n with hk | hk
  · rw [getElem?_readAt first hn hk, getElem?_take, if_pos hk, getElem?_drop]
    exact h (first + k) (by omega) (by omega)
  · rw [getElem?_eq_none (by rw [length_readAt first hn]; exact hk),
      getElem?_take, if_neg (by omega)]

end MeshcoreSniffer.Lib.Circular
