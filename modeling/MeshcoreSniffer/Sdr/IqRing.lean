import MeshcoreSniffer.Lib.Circular

/-!
# The ring of raw samples

`iq_ring.c` keeps the last samples of the radio under their absolute indices (`IqRing.Streams`),
natural numbers here, as no radio comes to the end of 64 bits.
-/

namespace MeshcoreSniffer.Sdr

open Lib List

variable {α : Type*}

structure IqRing (α : Type*) where
  capacity : Nat
  data : List α
  totalWritten : Nat
  capacity_pos : 0 < capacity
  length_data : data.length = capacity

/-- `iq_ring_create`, over what `malloc` left in the block. -/
def iqRingCreate (block : Nat → α) (capacity : Nat) : Option (IqRing α) :=
  if h : capacity = 0 then none
  else some
    { capacity := capacity
      data := (List.range capacity).map block
      totalWritten := 0
      capacity_pos := Nat.pos_of_ne_zero h
      length_data := by rw [List.length_map, List.length_range] }

namespace IqRing

def oldest (r : IqRing α) : Nat :=
  if r.capacity < r.totalWritten then r.totalWritten - r.capacity else 0

theorem oldest_eq (r : IqRing α) : r.oldest = r.totalWritten - r.capacity := by
  unfold oldest
  split <;> omega

end IqRing

def srcSkip (capacity n : Nat) : Nat := if capacity < n then n - capacity else 0

theorem srcSkip_eq (capacity n : Nat) : srcSkip capacity n = n - capacity := by
  unfold srcSkip
  split <;> omega

/-- Of a batch larger than the ring only the end is stored. -/
def iqRingAppend (r : IqRing α) (samples : List α) : Nat × IqRing α :=
  if samples.length = 0 then (r.totalWritten, r)
  else
    let startIdx := r.totalWritten
    let skip := srcSkip r.capacity samples.length
    (startIdx,
      { r with
        data := Circular.writeAt r.data (startIdx + skip) (samples.drop skip)
        totalWritten := startIdx + samples.length
        length_data := by
          have hskip : skip = samples.length - r.capacity := srcSkip_eq _ _
          rw [Circular.length_writeAt, r.length_data]
          rw [List.length_drop, r.length_data]
          omega })

/-- `[start, stop)` cut to what the ring holds. -/
def windowBounds (oldest total start stop : Nat) : Nat × Nat :=
  let stop := if total < stop then total else stop
  let start := if start < oldest then oldest else start
  if stop ≤ start then (start, 0) else (start, stop - start)

theorem windowBounds_eq (oldest total start stop : Nat) :
    windowBounds oldest total start stop =
      (max start oldest, min stop total - max start oldest) := by
  have hstop : (if total < stop then total else stop) = min stop total := by
    split <;> omega
  have hstart : (if start < oldest then oldest else start) = max start oldest := by
    split <;> omega
  simp only [windowBounds, hstop, hstart]
  split
  next hnone => rw [Nat.sub_eq_zero_of_le hnone]
  next => rfl

def iqRingGetWindow (r : IqRing α) (start n : Nat) : List α :=
  if n = 0 then []
  else
    let bounds := windowBounds r.oldest r.totalWritten start (start + n)
    Circular.readAt r.data bounds.1 bounds.2

def iqRingLiveRange (r : IqRing α) : Nat × Nat := (r.oldest, r.totalWritten)

/-! ## The ring and the stream -/

def slice (stream : List α) (first stop : Nat) : List α := (stream.take stop).drop first

/-- The ring counts the samples of `stream` and holds its end. -/
structure IqRing.Streams (r : IqRing α) (stream : List α) : Prop where
  total : r.totalWritten = stream.length
  holds : Circular.Holds r.data stream

variable {r : IqRing α} {stream : List α}

theorem streams_create {block : Nat → α} {capacity : Nat} (h : iqRingCreate block capacity = some r) :
    r.Streams [] ∧ r.capacity = capacity := by
  unfold iqRingCreate at h
  split at h
  next => cases h
  next =>
    obtain rfl := Option.some.inj h
    exact ⟨⟨rfl, Circular.holds_nil _⟩, rfl⟩

theorem capacity_append (r : IqRing α) (samples : List α) :
    (iqRingAppend r samples).2.capacity = r.capacity := by
  unfold iqRingAppend
  split <;> rfl

/-- **Step.** An append extends the stream by the whole batch. -/
theorem streams_append (h : r.Streams stream) (samples : List α) :
    (iqRingAppend r samples).2.Streams (stream ++ samples) := by
  unfold iqRingAppend
  split
  next hempty =>
    obtain rfl := eq_nil_of_length_eq_zero hempty
    rw [append_nil]
    exact h
  next =>
    refine ⟨by rw [length_append, ← h.total], ?_⟩
    have hskip := srcSkip_eq r.capacity samples.length
    show Circular.Holds (Circular.writeAt r.data
      (r.totalWritten + srcSkip r.capacity samples.length)
      (samples.drop (srcSkip r.capacity samples.length))) _
    generalize srcSkip r.capacity samples.length = skip at hskip ⊢
    -- the skipped samples count as written before
    have hsplit : stream ++ samples = (stream ++ samples.take skip) ++ samples.drop skip := by
      rw [append_assoc, take_append_drop]
    have hfirst : r.totalWritten + skip = (stream ++ samples.take skip).length := by
      rw [length_append, length_take, h.total]
      omega
    rw [hsplit, hfirst]
    apply Circular.holds_writeAt
    · rw [length_drop, r.length_data]
      omega
    · intro hroom
      rw [length_drop, r.length_data] at hroom
      have hzero : skip = 0 := by omega
      rw [hzero, take_zero, append_nil]
      exact h.holds

/-- **Run.** After any appends the ring holds the end of their concatenation. -/
theorem streams_run (h : r.Streams stream) (appends : List (List α)) :
    (appends.foldl (fun r samples => (iqRingAppend r samples).2) r).Streams
        (stream ++ appends.flatten) ∧
      (appends.foldl (fun r samples => (iqRingAppend r samples).2) r).capacity = r.capacity := by
  induction appends generalizing r stream with
  | nil =>
    rw [flatten_nil, append_nil]
    exact ⟨h, rfl⟩
  | cons samples appends ih =>
    obtain ⟨hstreams, hcapacity⟩ := ih (streams_append h samples)
    rw [flatten_cons, ← append_assoc]
    exact ⟨hstreams, hcapacity.trans (capacity_append r samples)⟩

theorem window_of_streams (h : r.Streams stream) (start n : Nat) : iqRingGetWindow r start n =
      slice stream (max start r.oldest) (min (start + n) stream.length) := by
  have holdest := r.oldest_eq
  have htotal := h.total
  -- with nothing to copy the slice is empty
  have hslice : min (start + n) stream.length ≤ max start r.oldest →
      slice stream (max start r.oldest) (min (start + n) stream.length) = [] := by
    intro hle
    apply drop_eq_nil_of_le
    rw [length_take]
    omega
  unfold iqRingGetWindow
  split
  next hzero => rw [hslice (by omega)]
  next =>
    simp only [windowBounds_eq]
    rw [← htotal]
    rcases Nat.lt_or_ge (max start r.oldest) (min (start + n) r.totalWritten) with hsome | hnone
    · rw [Circular.Holds.readAt h.holds (by omega) (by rw [r.length_data]; omega), slice,
        drop_take]
    · rw [htotal] at hnone ⊢
      rw [hslice hnone, Nat.sub_eq_zero_of_le hnone]
      simp [Circular.readAt]

/-- **Windows are exact.** A window has the samples of the whole stream from the later of its start
and the oldest retained index up to the earlier of its end and the newest one. -/
theorem window_of_appends (block : Nat → α) (capacity : Nat) {r : IqRing α}
    (hcreate : iqRingCreate block capacity = some r) (appends : List (List α)) (start n : Nat) :
    let ring := appends.foldl (fun r samples => (iqRingAppend r samples).2) r
    let stream := appends.flatten
    let oldest := stream.length - min stream.length capacity
    iqRingLiveRange ring = (oldest, stream.length) ∧
      iqRingGetWindow ring start n =
        slice stream (max start oldest) (min (start + n) stream.length) := by
  obtain ⟨hempty, hcapacity⟩ := streams_create hcreate
  obtain ⟨hstreams, hkept⟩ := streams_run hempty appends
  rw [nil_append] at hstreams
  intro ring stream oldest
  have holdest : ring.oldest = oldest := by
    rw [ring.oldest_eq, hstreams.total, hkept, hcapacity]
    show stream.length - capacity = stream.length - min stream.length capacity
    omega
  constructor
  · rw [iqRingLiveRange, holdest, hstreams.total]
  · rw [window_of_streams hstreams, holdest]

theorem window_of_appends_wrapped :
    let ring := [[0, 1, 2, 3, 4, 5, 6], [7, 8]].foldl
      (fun r samples => (iqRingAppend r samples).2)
      (⟨3, [9, 9, 9], 0, by decide, rfl⟩ : IqRing Nat)
    iqRingLiveRange ring = (6, 9) ∧ iqRingGetWindow ring 2 6 = [6, 7] :=
  window_of_appends (fun _ => 9) 3 rfl [[0, 1, 2, 3, 4, 5, 6], [7, 8]] 2 6

end MeshcoreSniffer.Sdr
