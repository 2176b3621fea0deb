import MeshcoreSniffer.Pipeline.Publish

/-!
# The SNR history of a channel

A ring of 288 buckets of five minutes, whose head moves on with the clock and clears what it comes
to. A last bucket of zero stands for a channel that had no frame yet, and a bucket counts with 16
bits.

`Kept` is the invariant of one channel: the cells tell its trusted frames by age. `Kept.step` keeps
it over a frame, `kept_foldl` over a run, and `history_exact` reads it off. A frame from the bucket
that the sentinel takes, or the frame 65536 of a bucket, breaks it (`history_merges_and_wraps`).
-/

namespace MeshcoreSniffer.Pipeline.SnrHistory

open List Function

variable {F : Type*} [Add F] [Zero F]

/-- What `dedup_emit_locked` reads of a cluster, and the time in seconds it reads. -/
structure Emitted (F : Type*) where
  channelId : Int
  hasCrc : Bool
  payloadCrcOk : Bool
  snrDb : F
  time : Nat

def Emitted.trusted (f : Emitted F) : Bool := !f.hasCrc || f.payloadCrcOk

abbrev chanSnrHistoryBuckets : Nat := 288

def chanSnrBucketSecs : Nat := 300

def Emitted.bucket (f : Emitted F) : Nat := f.time / chanSnrBucketSecs

/-- A cell is an entry of `snr_history_sum` and of `snr_history_count`. -/
structure History (F : Type*) where
  cells : Fin chanSnrHistoryBuckets → F × Nat
  head : Fin chanSnrHistoryBuckets
  lastBucket : Nat

def empty : History F where
  cells := fun _ => (0, 0)
  head := 0
  lastBucket := 0

def History.skip (h : History F) : History F :=
  { h with cells := Function.update h.cells (h.head + 1) (0, 0), head := h.head + 1 }

def History.advance (h : History F) (nowBucket : Nat) : History F :=
  if h.lastBucket = 0 then { h with lastBucket := nowBucket }
  else if h.lastBucket < nowBucket then
    let skipped := nowBucket - h.lastBucket
    if chanSnrHistoryBuckets ≤ skipped then { empty with lastBucket := nowBucket }
    else { History.skip^[skipped] h with lastBucket := nowBucket }
  else h

def History.add (h : History F) (snrDb : F) : History F :=
  let cell := h.cells h.head
  { h with cells := Function.update h.cells h.head (cell.1 + snrDb, (cell.2 + 1) % 2 ^ 16) }

/-- What `dedup_emit_locked` does to the histories. What it decodes and publishes is
`Pipeline.dedupEmitLocked`. -/
def countSnr (stats : Nat → History F) (f : Emitted F) : Nat → History F :=
  if 0 ≤ f.channelId ∧ f.channelId < channelizerMaxChannels ∧ f.trusted then
    Function.update stats f.channelId.toNat ((stats f.channelId.toNat).advance f.bucket |>.add f.snrDb)
  else stats

/-- The cell `k` places behind the head. -/
def History.behind (h : History F) (k : Fin chanSnrHistoryBuckets) : F × Nat := h.cells (h.head - k)

def tally (frames : List (Emitted F)) : F × Nat :=
  (frames.foldl (fun sum f => sum + f.snrDb) 0, frames.length)

/-- Seen from bucket `b`, the cells tell the frames by how many buckets they lie back. -/
def Shows (h : History F) (heard : List (Emitted F)) (b : Nat) : Prop :=
  ∀ k, h.behind k = tally (heard.filter fun f => f.bucket + k.val = b)

variable {h : History F} {heard : List (Emitted F)} {f : Emitted F} {b : Nat}

theorem shows_of_before (hzero : ∀ k, h.behind k = (0, 0)) (hpast : ∀ f ∈ heard, f.bucket + chanSnrHistoryBuckets ≤ b) :
    Shows h heard b := by
  intro k
  have hnone : heard.filter (fun f => f.bucket + k.val = b) = [] := by
    rw [filter_eq_nil_iff]
    intro f hf
    have hpast := hpast f hf
    have hk := k.isLt
    simp only [decide_eq_true_eq]
    omega
  rw [hnone, hzero]
  rfl

theorem Shows.skip (hshow : Shows h heard b) (hpast : ∀ f ∈ heard, f.bucket ≤ b) :
    Shows h.skip heard (b + 1) := by
  intro k
  rw [History.behind, History.skip]
  dsimp only
  by_cases hk : k = 0
  · have hnone : heard.filter (fun f => f.bucket + k.val = b + 1) = [] := by
      rw [filter_eq_nil_iff]
      intro f hf
      have hpast := hpast f hf
      simp only [hk, decide_eq_true_eq, Fin.val_zero]
      omega
    rw [hnone, hk, sub_zero, update_self]
    rfl
  · have hne : h.head + 1 - k ≠ h.head + 1 := by simpa [sub_eq_self] using hk
    have hpred := Fin.val_sub_one_of_ne_zero hk
    have hpos : k.val ≠ 0 := fun hzero => hk (Fin.ext hzero)
    rw [update_of_ne hne, ← sub_sub_eq_add_sub]
    refine (hshow (k - 1)).trans ?_
    congr 1
    refine filter_congr fun f _ => decide_eq_decide.mpr ?_
    omega

theorem Shows.advance (hshow : Shows h heard h.lastBucket) (hpast : ∀ f ∈ heard, f.bucket ≤ h.lastBucket)
    (hfirst : h.lastBucket = 0 → heard = []) (hb : h.lastBucket ≤ b) :
    Shows (h.advance b) heard b ∧ (h.advance b).lastBucket = b := by
  rw [History.advance]
  split
  next hzero =>
    rw [hfirst hzero] at hshow ⊢
    exact ⟨fun k => hshow k, rfl⟩
  next =>
    split
    next hlt =>
      dsimp only
      split
      next hwipe =>
        refine ⟨shows_of_before (fun k => rfl) fun f hf => ?_, rfl⟩
        have hpast := hpast f hf
        omega
      next =>
        refine ⟨?_, rfl⟩
        have hskips : ∀ s, Shows (History.skip^[s] h) heard (h.lastBucket + s) := by
          intro s
          induction s with
          | zero => exact hshow
          | succ s ih =>
            rw [iterate_succ_apply']
            exact ih.skip fun f hf => (hpast f hf).trans (Nat.le_add_right _ _)
        have hnow := hskips (b - h.lastBucket)
        rw [Nat.add_sub_cancel' hb] at hnow
        exact hnow
    next hge =>
      have heq : h.lastBucket = b := by omega
      exact ⟨heq ▸ hshow, heq⟩

theorem Shows.add (hshow : Shows h heard f.bucket)
    (hfew : (heard.filter fun g => g.bucket = f.bucket).length + 1 < 2 ^ 16) :
    Shows (h.add f.snrDb) (heard ++ [f]) f.bucket := by
  intro k
  rw [History.behind, History.add]
  dsimp only
  rw [filter_append]
  by_cases hk : k = 0
  · have hzero := hshow 0
    rw [History.behind, sub_zero] at hzero
    rw [hk, sub_zero, update_self, hzero]
    simp only [tally, Fin.val_zero, Nat.add_zero, filter_cons, decide_true, if_true, filter_nil,
      foldl_append, foldl_cons, foldl_nil, length_append, length_singleton]
    rw [Nat.mod_eq_of_lt hfew]
  · have hne : h.head - k ≠ h.head := by simpa [sub_eq_self] using hk
    have hpos : k.val ≠ 0 := fun hzero => hk (Fin.ext hzero)
    have hnew : [f].filter (fun g => g.bucket + k.val = f.bucket) = [] := by
      simp [hpos]
    rw [update_of_ne hne, hnew, append_nil]
    exact hshow k

def heardOn (c : Nat) (frames : List (Emitted F)) : List (Emitted F) :=
  frames.filter fun f => f.channelId = c ∧ f.trusted

structure Kept (h : History F) (heard : List (Emitted F)) : Prop where
  shows : Shows h heard h.lastBucket
  past : ∀ f ∈ heard, 0 < f.bucket ∧ f.bucket ≤ h.lastBucket
  last : h.lastBucket = (heard.getLast?.map Emitted.bucket).getD 0

theorem Kept.step (hkept : Kept h heard) (hpos : 0 < f.bucket) (hle : h.lastBucket ≤ f.bucket)
    (hfew : ((heard ++ [f]).filter fun g => g.bucket = f.bucket).length < 2 ^ 16) :
    Kept ((h.advance f.bucket).add f.snrDb) (heard ++ [f]) := by
  have hfirst : h.lastBucket = 0 → heard = [] := by
    intro hzero
    rw [eq_nil_iff_forall_not_mem]
    intro g hg
    have hpast := hkept.past g hg
    omega
  obtain ⟨hshow, hlast⟩ := hkept.shows.advance (fun g hg => (hkept.past g hg).2) hfirst hle
  have hlast : ((h.advance f.bucket).add f.snrDb).lastBucket = f.bucket := hlast
  constructor
  · rw [hlast]
    refine hshow.add ?_
    simpa [filter_append] using hfew
  · intro g hg
    rw [hlast]
    rcases mem_append.mp hg with hg | hg
    · exact ⟨(hkept.past g hg).1, (hkept.past g hg).2.trans hle⟩
    · rw [mem_singleton.mp hg]
      exact ⟨hpos, Nat.le_refl _⟩
  · rw [hlast, getLast?_append_of_ne_nil _ (cons_ne_nil _ _)]
    rfl

theorem kept_foldl (frames : List (Emitted F)) (htime : frames.Pairwise (·.time ≤ ·.time)) (c : Nat)
    (hc : (c : Int) < channelizerMaxChannels)
    (hclock : ∀ f ∈ heardOn c frames, chanSnrBucketSecs ≤ f.time)
    (hfew : ∀ b, ((heardOn c frames).filter fun f => f.bucket = b).length < 2 ^ 16) :
    Kept (frames.foldl countSnr (fun _ => empty) c) (heardOn c frames) := by
  induction frames using reverseRecOn with
  | nil => exact ⟨fun _ => rfl, fun f hf => absurd hf not_mem_nil, rfl⟩
  | append_singleton frames f ih =>
    obtain ⟨hbefore, -, horder⟩ := pairwise_append.mp htime
    have hsplit : heardOn c (frames ++ [f]) = heardOn c frames ++ heardOn c [f] := filter_append ..
    rw [hsplit] at hclock hfew ⊢
    have ih := ih hbefore (fun f hf => hclock f (mem_append_left _ hf)) fun b =>
      ((sublist_append_left _ _).filter _).length_le.trans_lt (hfew b)
    rw [foldl_append, foldl_cons, foldl_nil, countSnr]
    by_cases hmine : f.channelId = c ∧ f.trusted
    · have hone : heardOn c [f] = [f] := by simp [heardOn, hmine]
      rw [hone] at hclock hfew ⊢
      rw [if_pos ⟨by omega, by omega, hmine.2⟩, hmine.1, Int.toNat_natCast, update_self]
      refine ih.step (Nat.div_pos (hclock f (by simp)) (by decide)) ?_ (hfew _)
      rw [ih.last]
      cases hlast : (heardOn c frames).getLast? with
      | none => exact Nat.zero_le _
      | some g =>
        have hg : g ∈ frames := (mem_filter.mp (mem_of_getLast? hlast)).1
        exact Nat.div_le_div_right (horder g hg f (mem_singleton_self f))
    · have hnone : heardOn c [f] = [] := by simpa [heardOn] using hmine
      rw [hnone, append_nil]
      split
      next hin =>
        have hne : c ≠ f.channelId.toNat := fun heq => hmine ⟨by omega, hin.2.2⟩
        rw [update_of_ne hne]
        exact ih
      next => exact ih

/-- **History.** In every run whose trusted frames come after the first five minutes of 1970, and
fewer than 65536 in a bucket, a channel shows sum and number of its trusted frames by the buckets
they lie before the last. -/
theorem history_exact (frames : List (Emitted F)) (htime : frames.Pairwise (·.time ≤ ·.time))
    (c : Nat) (hc : (c : Int) < channelizerMaxChannels)
    (hclock : ∀ f ∈ heardOn c frames, chanSnrBucketSecs ≤ f.time)
    (hfew : ∀ b, ((heardOn c frames).filter fun f => f.bucket = b).length < 2 ^ 16) (last : Emitted F)
    (hlast : (heardOn c frames).getLast? = some last) :
    Shows (frames.foldl countSnr (fun _ => empty) c) (heardOn c frames) last.bucket := by
  have hkept := kept_foldl frames htime c hc hclock hfew
  have hbucket := hkept.last
  rw [hlast] at hbucket
  have hshow := hkept.shows
  rw [hbucket] at hshow
  exact hshow

/-- Two trusted frames of channel 0 with a bucket between them; one that failed its CRC and one of
channel 1 fall into it. -/
def withGap : List (Emitted ℤ) :=
  [⟨0, false, false, 5, 310⟩, ⟨0, true, false, 2, 610⟩, ⟨1, true, true, 9, 620⟩, ⟨0, true, true, 7, 910⟩]

theorem history_exact_withGap :
    (withGap.foldl countSnr (fun _ => empty) 0).behind 0 = (7, 1) ∧
      (withGap.foldl countSnr (fun _ => empty) 0).behind 1 = (0, 0) ∧
      (withGap.foldl countSnr (fun _ => empty) 0).behind 2 = (5, 1) := by
  have hshow := history_exact withGap (by simp [withGap]) 0 (by decide) (by decide)
    (fun b => (length_filter_le _ _).trans_lt (by decide)) ⟨0, true, true, 7, 910⟩ rfl
  exact ⟨hshow 0, hshow 1, hshow 2⟩

theorem Kept.wraps (hkept : Kept h heard) (hpos : 0 < f.bucket) (hsame : h.lastBucket = f.bucket)
    (hfull : (heard.filter fun g => g.bucket = f.bucket).length + 1 = 2 ^ 16) :
    (((h.advance f.bucket).add f.snrDb).behind 0).2 = 0 := by
  have hstay : h.advance f.bucket = h := by
    rw [History.advance, hsame, if_neg hpos.ne', if_neg (Nat.lt_irrefl _)]
  have hhead := hkept.shows 0
  rw [hsame, History.behind, sub_zero] at hhead
  rw [hstay, History.behind, History.add]
  dsimp only
  rw [sub_zero, update_self, hhead]
  simp only [tally, Fin.val_zero, Nat.add_zero, hfull]
  exact Nat.mod_self _

def atEpoch : List (Emitted ℤ) := [⟨0, false, false, 5, 10⟩, ⟨0, false, false, 5, 310⟩]

def busy : Emitted ℤ := ⟨0, false, false, 5, 310⟩

theorem heardOn_busy (n : Nat) : heardOn 0 (replicate n busy) = replicate n busy :=
  filter_eq_self.mpr fun f hf => by rw [eq_of_mem_replicate hf]; rfl

theorem busy_bucket (n : Nat) :
    (replicate n busy).filter (fun f => f.bucket = 1) = replicate n busy :=
  filter_eq_self.mpr fun f hf => by rw [eq_of_mem_replicate hf]; rfl

theorem busy_count {n : Nat} (hn : n = 2 ^ 16) :
    ((replicate n busy).foldl countSnr (fun _ => empty) 0 |>.behind 0).2 = 0 := by
  obtain ⟨n, rfl⟩ : ∃ m, n = m + 1 := ⟨n - 1, by omega⟩
  have hkept := kept_foldl (replicate n busy) (pairwise_replicate.mpr (.inr (Nat.le_refl _))) 0
    (by decide)
    (fun f hf => by
      rw [heardOn_busy] at hf
      rw [eq_of_mem_replicate hf]
      decide)
    (fun b => by
      rw [heardOn_busy]
      refine (length_filter_le _ _).trans_lt ?_
      rw [length_replicate]
      omega)
  rw [heardOn_busy] at hkept
  rw [replicate_succ', foldl_append, foldl_cons, foldl_nil, countSnr, if_pos (by decide)]
  refine hkept.wraps (f := busy) (by decide) ?_ ?_
  · rw [hkept.last, getLast?_replicate, if_neg (by omega)]
    rfl
  · rw [show busy.bucket = 1 from rfl, busy_bucket, length_replicate, hn]

theorem history_merges_and_wraps :
    ¬Shows (atEpoch.foldl countSnr (fun _ => empty) 0) (heardOn 0 atEpoch) 1 ∧
      ¬Shows ((replicate (2 ^ 16) busy).foldl countSnr (fun _ => empty) 0)
        (heardOn 0 (replicate (2 ^ 16) busy)) 1 := by
  refine ⟨fun hshow => absurd (hshow 0) (by decide), fun hshow => ?_⟩
  have hcount := congrArg Prod.snd (hshow 0)
  rw [busy_count rfl, heardOn_busy, tally] at hcount
  simp only [Fin.val_zero, Nat.add_zero, busy_bucket, length_replicate] at hcount
  omega

end MeshcoreSniffer.Pipeline.SnrHistory
