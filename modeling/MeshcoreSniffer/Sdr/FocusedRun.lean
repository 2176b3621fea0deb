import MeshcoreSniffer.Sdr.FocusedWorker

/-!
# Gaps in a focus run

`focused_thread` drops its run if the writer has passed its cursor, then reads its window in a
second critical section. `Unpassed`: the writer has not passed it in between; otherwise a read is
mislabelled (`chunk_across_gap`). `tracks_work` ties the cursor to the log, step by step, and
`focus_run_gap_free` is the result for whole runs.
-/

namespace MeshcoreSniffer.Sdr

open Lib List

variable {α : Type*}

/-! ## Runs in a log -/

/-- The index of the next sample of the run. The log has its newest entry first. -/
def position : List (FocusEvent α) → Option Nat
  | [] => none
  | .anchored cursor :: _ => some cursor
  | .chunk start samples :: _ => some (start + samples.length)
  | .idle :: _ => none

/-- Every chunk is the stream from its label on and, inside a run, goes on where the run
stood. -/
def GapFree (stream : List α) : List (FocusEvent α) → Prop
  | [] => True
  | .chunk start samples :: earlier =>
    samples <+: stream.drop start ∧
      (position earlier = none ∨ position earlier = some start) ∧ GapFree stream earlier
  | .anchored _ :: earlier => GapFree stream earlier
  | .idle :: earlier => GapFree stream earlier

theorem GapFree.append {stream : List α} {log : List (FocusEvent α)} (h : GapFree stream log)
    (samples : List α) : GapFree (stream ++ samples) log := by
  induction log with
  | nil => trivial
  | cons event earlier ih =>
    cases event with
    | anchored cursor => exact ih h
    | idle => exact ih h
    | chunk start got =>
      obtain ⟨hexact, hposition, hearlier⟩ := h
      refine ⟨hexact.trans ?_, hposition, ih hearlier⟩
      exact (prefix_append stream samples).drop start

/-! ## Where the worker stands -/

/-- The cursor is where the run of the log stands, except on the way to IDLE or to a new anchor. -/
structure Tracks (w : Worker) (log : List (FocusEvent α)) : Prop where
  idle : w.state = .idle → position log = none
  waiting : w.stage = .idling ∨ w.stage = .launch → position log = none
  cursor : w.stage = .failed ∨ w.stage = .anchored ∨ position log = none ∨
    position log = some w.cursor

def Stage.reads : Stage → Bool
  | .read _ _ | .drainCheck | .drainRead _ => true
  | _ => false

def Focus.Unpassed (s : Focus α) : FocusStep α → Prop
  | .work _ => s.worker.stage.reads = true → s.ring.oldest ≤ s.worker.cursor
  | _ => True

instance (s : Focus α) : (x : FocusStep α) → Decidable (s.Unpassed x)
  | .work _ => inferInstanceAs (Decidable (_ → _))
  | .append _ | .armSlot _ _ | .arm _ | .advance _ | .stop => isTrue trivial

namespace Tracks

variable {w : Worker} {log : List (FocusEvent α)}

theorem outside (hposition : position log = none) :
    Tracks w log := ⟨fun _ => hposition, fun _ => hposition, .inr (.inr (.inl hposition))⟩

theorem inside (hposition : position log = some w.cursor) (hstate : w.state ≠ .idle)
    (hstage : w.stage ≠ .idling ∧ w.stage ≠ .launch) : Tracks w log where
  idle := fun hidle => absurd hidle hstate
  waiting := fun hwait => by
    rcases hwait with hwait | hwait
    · exact absurd hwait hstage.1
    · exact absurd hwait hstage.2
  cursor := .inr (.inr (.inr hposition))

theorem leaving (h : w.state = .idle → position log = none)
    (hstage : w.stage = .failed ∨ w.stage = .anchored) : Tracks w log where
  idle := h
  waiting := fun hwait => by
    rcases hstage with hstage | hstage <;> rcases hwait with hwait | hwait <;>
      rw [hstage] at hwait <;> cases hwait
  cursor := hstage.elim .inl fun hanchored => .inr (.inl hanchored)

theorem goOn (h : Tracks w log) (stage : Stage) (hfrom : w.stage ≠ .failed ∧ w.stage ≠ .anchored)
    (hto : stage ≠ .idling ∧ stage ≠ .launch) : Tracks { w with stage := stage } log := by
  rcases h.cursor with hfailed | hanchored | hposition | hposition
  · exact absurd hfailed hfrom.1
  · exact absurd hanchored hfrom.2
  · exact outside hposition
  · refine inside hposition (fun hidle => ?_) hto
    rw [h.idle hidle] at hposition
    cases hposition

end Tracks

variable {ring : IqRing α} {w : Worker} {log : List (FocusEvent α)} {o : Outcome} {start : Nat}
  {stream : List α} {s : Focus α} {steps : List (FocusStep α)}

/-- **Step of the worker.** The cursor and the run of the log move together. -/
theorem tracks_work (o : Outcome) (h : Tracks w log) (hbusy : w.stage.Busy → w.state ≠ .idle)
    (hdrain : w.stage = .drainCheck → ring.oldest ≤ w.cursor) :
    Tracks (workerStep ring o w).1 ((workerStep ring o w).2 ++ log) := by
  cases hstage : w.stage with
  | launch =>
    have hposition := h.waiting (.inr hstage)
    by_cases hstate : w.state = .idle
    · simp only [workerStep, hstage, if_pos hstate]
      exact .outside hposition
    · simp only [workerStep, hstage, if_neg hstate]
      exact .inside rfl hstate ⟨by simp, by simp⟩
  | top =>
    have hfrom : w.stage ≠ .failed ∧ w.stage ≠ .anchored := by simp [hstage]
    simp only [workerStep, hstage]
    split
    · split
      · have hgo := h.goOn .armed hfrom (by simp)
        exact ⟨hgo.idle, hgo.waiting, hgo.cursor⟩
      · exact h.goOn .load hfrom (by simp)
    · exact h.goOn .drain hfrom (by simp)
  | armed =>
    have hfrom : w.stage ≠ .failed ∧ w.stage ≠ .anchored := by simp [hstage]
    simp only [workerStep, hstage]
    split
    · split
      · have hgo := h.goOn .applied hfrom (by simp)
        exact ⟨hgo.idle, hgo.waiting, hgo.cursor⟩
      · exact .leaving h.idle (.inl rfl)
    · exact h.goOn .applied hfrom (by simp)
  | failed =>
    simp only [workerStep, hstage]
    exact .outside rfl
  | applied =>
    simp only [workerStep, hstage]
    exact .leaving h.idle (.inr rfl)
  | anchored =>
    simp only [workerStep, hstage]
    exact .inside rfl (by simp) (by simp)
  | load =>
    simp only [workerStep, hstage]
    split
    next hidle => exact .outside (h.idle hidle)
    next => exact h.goOn _ (by simp [hstage]) (by simp)
  | idling =>
    simp only [workerStep, hstage]
    exact .outside (h.waiting (.inl hstage))
  | check st =>
    simp only [workerStep, hstage]
    split
    · exact .leaving h.idle (.inl rfl)
    · split
      · exact h.goOn _ (by simp [hstage]) (by simp)
      · exact h.goOn _ (by simp [hstage]) (by simp)
  | read st want =>
    have hstate : w.state ≠ .idle := hbusy (by rw [hstage]; trivial)
    simp only [workerStep, hstage]
    split
    · exact .inside rfl (by simpa using hstate) (by simp)
    · exact h.goOn _ (by simp [hstage]) (by simp)
  | hysteresis st =>
    have hfrom : w.stage ≠ .failed ∧ w.stage ≠ .anchored := by simp [hstage]
    simp only [workerStep, hstage]
    split
    · cases st with
      | decoding =>
        have hgo := h.goOn .top hfrom (by simp)
        exact ⟨by simp, hgo.waiting, hgo.cursor⟩
      | holdDown => exact .outside rfl
      | idle => exact h.goOn .top hfrom (by simp)
    · exact h.goOn .top hfrom (by simp)
  | drain =>
    simp only [workerStep, hstage]
    split
    next => exact h.goOn .done (by simp [hstage]) (by simp)
    next => exact h.goOn .drainCheck (by simp [hstage]) (by simp)
  | drainCheck =>
    simp only [workerStep, hstage, iqRingLiveRange, if_neg (not_lt.mpr (hdrain hstage))]
    split
    · exact h.goOn .done (by simp [hstage]) (by simp)
    · exact h.goOn _ (by simp [hstage]) (by simp)
  | drainRead want =>
    have hstate : w.state ≠ .idle := hbusy (by rw [hstage]; trivial)
    simp only [workerStep, hstage]
    split
    · exact h.goOn .done (by simp [hstage]) (by simp)
    · exact .inside rfl (by simpa using hstate) (by simp)
  | done =>
    simp only [workerStep, hstage]
    exact h

/-- **Chunks of the worker.** The label of a chunk is the cursor. -/
theorem chunk_of_workerStep {samples : List α}
    (h : FocusEvent.chunk start samples ∈ (workerStep ring o w).2) : start = w.cursor ∧
      ∃ want, samples = iqRingGetWindow ring w.cursor want ∧ 0 < samples.length ∧
        ((∃ st, w.stage = .read st want) ∨ w.stage = .drainRead want) := by
  cases hstage : w.stage with
  | read st want =>
    simp only [workerStep, hstage] at h
    split at h
    next hgot =>
      obtain ⟨rfl, rfl⟩ := FocusEvent.chunk.inj (List.mem_singleton.mp h)
      exact ⟨rfl, want, rfl, hgot, .inl ⟨st, rfl⟩⟩
    next => cases h
  | drainRead want =>
    simp only [workerStep, hstage] at h
    split at h
    next => cases h
    next hgot =>
      obtain ⟨rfl, rfl⟩ := FocusEvent.chunk.inj (List.mem_singleton.mp h)
      exact ⟨rfl, want, rfl, Nat.pos_of_ne_zero hgot, .inr rfl⟩
  | hysteresis st =>
    simp only [workerStep, hstage] at h
    cases st <;> split at h <;> simp at h
  | launch =>
    by_cases hstate : w.state = .idle <;> simp [workerStep, hstage, hstate] at h
  | failed | applied | anchored | idling | done => simp [workerStep, hstage] at h
  | top | armed | load | check st | drain | drainCheck =>
    simp only [workerStep, hstage] at h
    repeat' split at h
    all_goals simp at h

theorem length_workerStep_log (ring : IqRing α) (o : Outcome) (w : Worker) :
    (workerStep ring o w).2.length ≤ 1 := by
  cases hstage : w.stage with
  | hysteresis st =>
    simp only [workerStep, hstage]
    cases st <;> split <;> simp
  | launch =>
    by_cases hstate : w.state = .idle <;> simp [workerStep, hstage, hstate]
  | failed | applied | anchored | idling | done => simp [workerStep, hstage]
  | top | armed | load | check st | read st want | drain | drainCheck | drainRead want =>
    simp only [workerStep, hstage]
    repeat' split
    all_goals simp

theorem window_prefix (h : ring.Streams stream) (hlive : ring.oldest ≤ start) (want : Nat) :
    iqRingGetWindow ring start want <+: stream.drop start := by
  rw [window_of_streams h, Nat.max_eq_left hlive, slice, drop_take]
  exact take_prefix _ _

/-! ## The system -/

def FocusStep.samples : FocusStep α → List α
  | .append samples => samples
  | .armSlot _ _ | .arm _ | .advance _ | .work _ | .stop => []

/-- The ring holds the stream, and the worker and its log agree about the run. -/
structure Following (s : Focus α) (stream : List α) : Prop where
  streams : s.ring.Streams stream
  tracks : Tracks s.worker s.log
  busy : s.worker.stage.Busy → s.worker.state ≠ .idle
  gapFree : GapFree stream s.log

theorem tracks_armStore (h : Tracks w log) (call : ArmCall) : Tracks (armStore w call).1 log := by
  cases call with
  | storeStart startSample => exact ⟨h.idle, h.waiting, h.cursor⟩
  | storeState => exact ⟨by simp [armStore], h.waiting, h.cursor⟩
  | storePending => exact ⟨h.idle, h.waiting, h.cursor⟩

/-- It is the stream from its label on, the sample at its label is still there, and a run goes on
with it. -/
theorem chunk_of_unpassed (h : Following s stream) (hunpassed : s.Unpassed (.work o))
    {samples : List α} (hmem : FocusEvent.chunk start samples ∈ (workerStep s.ring o s.worker).2) :
    s.ring.oldest ≤ start ∧ samples <+: stream.drop start ∧
      (position s.log = none ∨ position s.log = some start) := by
  obtain ⟨rfl, want, rfl, -, hstage⟩ := chunk_of_workerStep hmem
  have hlive : s.ring.oldest ≤ s.worker.cursor := by
    apply hunpassed
    rcases hstage with ⟨st, hstage⟩ | hstage <;> rw [hstage] <;> rfl
  refine ⟨hlive, window_prefix h.streams hlive want, ?_⟩
  rcases h.tracks.cursor with hfailed | hanchored | hposition
  · rcases hstage with ⟨st, hstage⟩ | hstage <;> rw [hstage] at hfailed <;> cases hfailed
  · rcases hstage with ⟨st, hstage⟩ | hstage <;> rw [hstage] at hanchored <;> cases hanchored
  · exact hposition

theorem gapFree_work (h : Following s stream) (hunpassed : s.Unpassed (.work o)) :
    GapFree stream ((workerStep s.ring o s.worker).2 ++ s.log) := by
  have hlength := length_workerStep_log s.ring o s.worker
  match hevents : (workerStep s.ring o s.worker).2 with
  | [] => exact h.gapFree
  | [.anchored cursor] => exact h.gapFree
  | [.idle] => exact h.gapFree
  | [.chunk start samples] =>
    obtain ⟨-, hexact, hposition⟩ :=
      chunk_of_unpassed h hunpassed (hevents ▸ mem_singleton_self _)
    exact ⟨hexact, hposition, h.gapFree⟩
  | _ :: _ :: _ =>
    rw [hevents] at hlength
    simp at hlength

theorem following_step (h : Following s stream) {x : FocusStep α} (hunpassed : s.Unpassed x) :
    Following (s.step x) (stream ++ x.samples) := by
  cases x with
  | append samples =>
    exact ⟨streams_append h.streams samples, h.tracks, h.busy, h.gapFree.append samples⟩
  | work o =>
    rw [FocusStep.samples, append_nil]
    refine ⟨h.streams, tracks_work o h.tracks h.busy fun hstage => hunpassed ?_,
      busy_workerStep s.ring o h.busy, gapFree_work h hunpassed⟩
    rw [hstage]
    rfl
  | advance i =>
    rw [FocusStep.samples, append_nil, Focus.step]
    split
    next => exact h
    next call _ =>
      exact ⟨h.streams, tracks_armStore h.tracks call, busy_armStore h.busy call, h.gapFree⟩
  | armSlot request startSample =>
    rw [FocusStep.samples, append_nil]
    exact ⟨h.streams, ⟨h.tracks.idle, h.tracks.waiting, h.tracks.cursor⟩, h.busy, h.gapFree⟩
  | arm startSample =>
    rw [FocusStep.samples, append_nil]
    exact ⟨h.streams, h.tracks, h.busy, h.gapFree⟩
  | stop =>
    rw [FocusStep.samples, append_nil]
    exact ⟨h.streams, ⟨h.tracks.idle, h.tracks.waiting, h.tracks.cursor⟩, h.busy, h.gapFree⟩

theorem following_run (h : Following s stream) (hunpassed : s.Along Focus.Unpassed steps) :
    Following (s.run steps) (stream ++ steps.flatMap FocusStep.samples) := by
  induction steps generalizing s stream with
  | nil =>
    rw [flatMap_nil, append_nil]
    exact h
  | cons x steps ih =>
    rw [flatMap_cons, ← append_assoc]
    exact ih (following_step h hunpassed.1) hunpassed.2

theorem log_step (s : Focus α) (x : FocusStep α) :
    (∃ o, x = .work o ∧ (s.step x).log = (workerStep s.ring o s.worker).2 ++ s.log) ∨
      (s.step x).log = s.log := by
  cases x with
  | work o => exact .inl ⟨o, rfl, rfl⟩
  | advance i =>
    refine .inr ?_
    rw [Focus.step]
    split <;> rfl
  | append samples => exact .inr rfl
  | armSlot request startSample => exact .inr rfl
  | arm startSample => exact .inr rfl
  | stop => exact .inr rfl

theorem log_run (s : Focus α) (steps : List (FocusStep α)) :
    ∃ new, (s.run steps).log = new ++ s.log := by
  induction steps generalizing s with
  | nil => exact ⟨[], rfl⟩
  | cons x steps ih =>
    obtain ⟨new, hnew⟩ := ih (s.step x)
    rcases log_step s x with ⟨o, -, hlog⟩ | hlog
    · exact ⟨new ++ (workerStep s.ring o s.worker).2, by rw [append_assoc, ← hlog]; exact hnew⟩
    · exact ⟨new, by rw [← hlog]; exact hnew⟩

theorem oldest_step (s : Focus α) (x : FocusStep α) : s.ring.oldest ≤ (s.step x).ring.oldest := by
  cases x with
  | append samples =>
    show s.ring.oldest ≤ (iqRingAppend s.ring samples).2.oldest
    rw [IqRing.oldest_eq, IqRing.oldest_eq, capacity_append]
    have htotal : s.ring.totalWritten ≤ (iqRingAppend s.ring samples).2.totalWritten := by
      unfold iqRingAppend
      split
      · exact le_rfl
      · exact Nat.le_add_right _ _
    omega
  | advance i =>
    rw [Focus.step]
    split <;> exact le_rfl
  | armSlot request startSample => exact le_rfl
  | arm startSample => exact le_rfl
  | work o => exact le_rfl
  | stop => exact le_rfl

theorem lost_run (h : Following s stream) {next : Nat} (hposition : position s.log = some next)
    (hlost : next < s.ring.oldest) (hunpassed : s.Along Focus.Unpassed steps) :
    ∃ new, (s.run steps).log = new ++ s.log ∧
      ∀ start samples, new.getLast? ≠ some (.chunk start samples) := by
  induction steps generalizing s stream with
  | nil => exact ⟨[], rfl, by simp⟩
  | cons x steps ih =>
    have hquiet : (s.step x).log = s.log → _ := fun hlog =>
      ih (following_step h hunpassed.1) (hlog ▸ hposition)
        (hlost.trans_le (oldest_step s x)) hunpassed.2
    rcases log_step s x with ⟨o, rfl, hlog⟩ | hlog
    · match hevents : (workerStep s.ring o s.worker).2 with
      | [] =>
        rw [hevents, nil_append] at hlog
        obtain ⟨new, hnew, hlast⟩ := hquiet hlog
        exact ⟨new, hlog ▸ hnew, hlast⟩
      | [event] =>
        -- a chunk would have been read behind the writer
        obtain ⟨new, hnew⟩ := log_run (s.step (.work o)) steps
        refine ⟨new ++ [event], ?_, ?_⟩
        · rw [append_assoc, ← hevents, ← hlog]
          exact hnew
        · intro start samples heq
          rw [getLast?_concat] at heq
          obtain rfl := Option.some.inj heq
          obtain ⟨hlive, -, hnone | hsome⟩ :=
            chunk_of_unpassed h hunpassed.1 (hevents ▸ mem_singleton_self _)
          · rw [hposition] at hnone
            cases hnone
          · rw [hposition] at hsome
            obtain rfl := Option.some.inj hsome
            exact absurd hlive (not_le.mpr hlost)
      | _ :: _ :: _ =>
        have hlength := length_workerStep_log s.ring o s.worker
        rw [hevents] at hlength
        simp at hlength
    · obtain ⟨new, hnew, hlast⟩ := hquiet hlog
      exact ⟨new, hlog ▸ hnew, hlast⟩

theorem following_start {past : List α} (hring : ring.Streams past) (hfresh : w.Fresh)
    (startSample : Nat) (sticky : Bool) :
    Following (Focus.start ring w startSample sticky) past where
  streams := hring
  tracks := .outside rfl
  busy := fun hbusy => by
    rw [show (Focus.start ring w startSample sticky).worker.stage = .launch from hfresh.stage]
      at hbusy
    exact hbusy.elim
  gapFree := trivial

/-- **No gap in a focus run.** In every interleaving in which the writer has not passed the cursor
whenever a window is read, every chunk is the stream from its label on, and goes on where its run
stood; and once the next sample is lost, the worker logs IDLE or a new anchor next. -/
theorem focus_run_gap_free (sampRate : ℚ) (cfg : Slot) (decoderOk : Bool) {w : Worker}
    (hcreate : focusedWorkerCreate sampRate cfg decoderOk = some w) {ring : IqRing α}
    {past : List α} (hring : ring.Streams past) (startSample : Nat) (sticky : Bool)
    {steps : List (FocusStep α)}
    (hunpassed : (Focus.start ring w startSample sticky).Along Focus.Unpassed steps) :
    GapFree (past ++ steps.flatMap FocusStep.samples)
        ((Focus.start ring w startSample sticky).run steps).log ∧
      ∀ before after next, steps = before ++ after →
        position ((Focus.start ring w startSample sticky).run before).log = some next →
        next < ((Focus.start ring w startSample sticky).run before).ring.oldest →
        ∃ new, ((Focus.start ring w startSample sticky).run steps).log =
            new ++ ((Focus.start ring w startSample sticky).run before).log ∧
          ∀ start samples, new.getLast? ≠ some (.chunk start samples) := by
  have hstart := following_start hring (fresh_create hcreate) startSample sticky
  refine ⟨(following_run hstart hunpassed).gapFree, ?_⟩
  rintro before after next rfl hposition hlost
  rw [Focus.along_append] at hunpassed
  rw [Focus.run_append]
  exact lost_run (following_run hstart hunpassed.1) hposition hlost hunpassed.2

def droppedRun : List (FocusStep Nat) :=
  .append [0, 1, 2, 3] :: works 5 ++ .append [4, 5, 6, 7, 8] :: works 5

theorem focus_run_gap_free_dropped :
    GapFree ([] ++ droppedRun.flatMap FocusStep.samples)
        ((Focus.start quietRing manualWorker 0 true).run droppedRun).log ∧
      ((Focus.start quietRing manualWorker 0 true).run droppedRun).log =
        [.idle, .chunk 0 [0, 1, 2, 3], .anchored 0] :=
  ⟨(focus_run_gap_free 2000000 longFast true (by decide +kernel)
    ⟨rfl, Circular.holds_nil _⟩ 0 true (by decide +kernel)).1, by decide +kernel⟩

/-- Two samples come to a full ring of four between the look at the live range and the read. -/
def passedRun : List (FocusStep Nat) :=
  .append [0, 1, 2, 3] :: works 4 ++ .append [4, 5] :: works 6

/-- The window is the samples two and three under the label zero, and they come again. -/
theorem chunk_across_gap :
    let log := ((Focus.start quietRing manualWorker 0 true).run passedRun).log
    log = [.chunk 2 [2, 3, 4, 5], .chunk 0 [2, 3], .anchored 0] ∧
      ¬GapFree [0, 1, 2, 3, 4, 5] log := by
  have hlog : ((Focus.start quietRing manualWorker 0 true).run passedRun).log =
      [.chunk 2 [2, 3, 4, 5], .chunk 0 [2, 3], .anchored 0] := by decide +kernel
  refine ⟨hlog, ?_⟩
  rw [hlog]
  rintro ⟨-, -, hexact, -⟩
  exact absurd hexact (by decide)

end MeshcoreSniffer.Sdr
