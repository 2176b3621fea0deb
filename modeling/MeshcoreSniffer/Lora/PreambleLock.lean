import MeshcoreSniffer.Lora.Decoder

/-!
# The preamble callback

`lora.h` promises one callback per preamble run; the decoder keeps a flag for it, cleared with every
return to idle.
-/

namespace MeshcoreSniffer.Lora

open Lib List

def locks (events : List Event) : Nat :=
  events.countP fun
    | .preambleLock .. => true
    | .frame _ => false

theorem locks_append (a b : List Event) : locks (a ++ b) = locks a + locks b :=
  countP_append

structure Decoder.LockInv (d : Decoder) : Prop where
  hunting : d.state = .preambleOk → d.preambleLockedOnce = decide (preambleMin ≤ d.preambleCount)
  past : d.state = .header ∨ d.state = .payload → d.preambleLockedOnce = true

def Decoder.locked (d : Decoder) : Nat := if d.state = .idle then 0 else d.preambleLockedOnce.toNat

variable {d d' : Decoder} {inputs : List Input}

theorem Decoder.LockInv.idle (h : d.state = .idle) : d.LockInv where
  hunting hstate := by
    rw [h] at hstate
    cases hstate
  past hstate := by
    rw [h] at hstate
    rcases hstate with hstate | hstate <;> cases hstate

theorem Decoder.locked_of_idle (h : d.state = .idle) : d.locked = 0 := if_pos h

theorem Decoder.locked_of_past (h : d.LockInv) (hstate : d.state = .header ∨ d.state = .payload) :
    d.locked = 1 := by
  rw [Decoder.locked, h.past hstate, if_neg]
  · rfl
  · intro hidle
    rw [hidle] at hstate
    rcases hstate with hstate | hstate <;> cases hstate

/-! ## One tick -/

structure LockStep (d : Decoder) (next : Decoder × List Event) : Prop where
  inv : next.1.LockInv
  /-- Callbacks are what the flag gains, unless the decoder is idle again. -/
  gained : next.1.state ≠ .idle → next.1.locked = d.locked + locks next.2
  silent : next.1.state = .idle → locks next.2 = 0
  delivered : ∀ f, Event.frame f ∈ next.2 → d.locked = 1 ∧ next.1.state = .idle
  entered : next.1.state = .header → next.1.locked = 1

theorem LockStep.toIdle {events : List Event} (hidle : d'.state = .idle)
    (hsilent : locks events = 0) (hframe : ∀ f, Event.frame f ∈ events → d.locked = 1) :
    LockStep d (d', events) where
  inv := .idle hidle
  gained hne := absurd hidle hne
  silent _ := hsilent
  delivered f hf := ⟨hframe f hf, hidle⟩
  entered hheader := by
    rw [hidle] at hheader
    cases hheader

theorem LockStep.quiet (hinv : d'.LockInv) (hlocked : d'.locked = d.locked) :
    LockStep d (d', []) where
  inv := hinv
  gained _ := hlocked
  silent _ := rfl
  delivered _ hf := nomatch hf
  entered hheader := Decoder.locked_of_past hinv (Or.inl hheader)

theorem lockStep_tickIdle (hstate : d.state = .idle) (o : Obs) : LockStep d (tickIdle d o, []) := by
  rw [tickIdle]
  split
  next => exact .toIdle hstate rfl fun f hf => nomatch hf
  next =>
    refine .quiet ⟨fun _ => ?_, fun h => ?_⟩ ?_
    · rfl
    · rcases h with h | h <;> cases h
    · rw [Decoder.locked_of_idle hstate]
      rfl

theorem lockStep_matchUpchirp (h : d.LockInv) (hstate : d.state = .preambleOk) (o : Obs) :
    LockStep d (matchUpchirp d o) := by
  have hflag := h.hunting hstate
  have hcount : (d.countUpchirp o).preambleCount =
      if d.preambleCount < preambleMin + 4 then d.preambleCount + 1 else d.preambleCount := rfl
  have hlocked : d.locked = d.preambleLockedOnce.toNat := by
    rw [Decoder.locked, if_neg (by rw [hstate]; exact fun h => nomatch h)]
  have hlive : (d.countUpchirp o).state = .preambleOk := hstate
  rw [matchUpchirp]
  have hkept : (d.countUpchirp o).preambleLockedOnce = d.preambleLockedOnce := rfl
  rw [hkept]
  split
  next hlock =>
    rw [Bool.and_eq_true, decide_eq_true_eq, Bool.not_eq_true'] at hlock
    have hnew : (lockPreamble (d.countUpchirp o) o).1.state = .preambleOk := hstate
    refine ⟨⟨fun _ => ?_, fun hpast => ?_⟩, fun _ => ?_, fun hidle => ?_, ?_, fun hheader => ?_⟩
    · exact (decide_eq_true hlock.1).symm
    · rw [hnew] at hpast
      rcases hpast with hpast | hpast <;> cases hpast
    · rw [hlocked, hlock.2, Decoder.locked, if_neg (by rw [hnew]; exact fun h => nomatch h)]
      rfl
    · rw [hnew] at hidle
      cases hidle
    · intro f hf
      cases mem_singleton.mp hf
    · rw [hnew] at hheader
      cases hheader
  next hnot =>
    refine .quiet ⟨fun _ => ?_, fun hpast => ?_⟩ ?_
    · rw [hkept]
      rw [Bool.and_eq_true, decide_eq_true_eq, Bool.not_eq_true', not_and] at hnot
      -- the flag was set before, or the count is still short
      by_cases hreached : preambleMin ≤ (d.countUpchirp o).preambleCount
      · rw [decide_eq_true hreached]
        exact eq_true_of_ne_false (hnot hreached)
      · rw [decide_eq_false hreached, hflag]
        refine decide_eq_false fun hold => hreached ?_
        rw [hcount]
        split <;> omega
    · rw [hlive] at hpast
      rcases hpast with hpast | hpast <;> cases hpast
    · rw [Decoder.locked, Decoder.locked, hlive, hstate, hkept]

theorem lockStep_tickPreambleOk (h : d.LockInv) (hstate : d.state = .preambleOk) (o : Obs) :
    LockStep d (tickPreambleOk d o) := by
  rw [tickPreambleOk]
  split
  next => exact .toIdle rfl rfl fun f hf => nomatch hf
  next =>
    split
    next => exact lockStep_matchUpchirp h hstate o
    next =>
      split
      next hcount =>
        have hset : d.preambleLockedOnce = true := by
          rw [h.hunting hstate]
          exact decide_eq_true hcount
        refine .quiet ⟨(fun hhunt => by cases hhunt), fun _ => hset⟩ ?_
        rw [Decoder.locked, Decoder.locked, hstate]
        rfl
      next => exact .toIdle rfl rfl fun f hf => nomatch hf

theorem lockStep_tickHeader (h : d.LockInv) (hstate : d.state = .header) (o : Obs) :
    LockStep d (tickHeader d o) := by
  have hset := h.past (Or.inl hstate)
  have hone := Decoder.locked_of_past h (Or.inl hstate)
  have hpast : ∀ d' : Decoder, d'.state = .header ∨ d'.state = .payload →
      d'.preambleLockedOnce = true → LockStep d (d', []) := by
    intro d' hst hlock
    have hinv : d'.LockInv := by
      refine ⟨fun hhunt => ?_, fun _ => hlock⟩
      rw [hhunt] at hst
      rcases hst with hst | hst <;> cases hst
    exact .quiet hinv (by rw [hone, Decoder.locked_of_past hinv hst])
  have hpush : (d.pushHeaderSymbol o).preambleLockedOnce = true := by
    rw [Decoder.pushHeaderSymbol]
    split
    · split <;> exact hset
    · exact hset
  rw [tickHeader]
  split
  next => exact hpast _ (Or.inl hstate) hset
  next =>
    dsimp only
    split
    next =>
      rw [decodeHeader]
      dsimp only
      split
      next => exact .toIdle rfl rfl fun f hf => nomatch hf
      next =>
        split
        next => exact .toIdle rfl rfl fun f _ => hone
        next => exact hpast _ (Or.inr rfl) hpush
    next => exact hpast _ (Or.inl ((state_pushHeaderSymbol d o).trans hstate)) hpush

theorem lockStep_tickPayload (h : d.LockInv) (hstate : d.state = .payload) (o : Obs) :
    LockStep d (tickPayload d o) := by
  have hset := h.past (Or.inr hstate)
  have hone := Decoder.locked_of_past h (Or.inr hstate)
  have hpush : (d.pushPayloadSymbol o).state = .payload ∧
      (d.pushPayloadSymbol o).preambleLockedOnce = true := by
    rw [Decoder.pushPayloadSymbol]
    split
    · split <;> exact ⟨hstate, hset⟩
    · exact ⟨hstate, hset⟩
  rw [tickPayload]
  split
  next => exact .toIdle rfl rfl fun f _ => hone
  next =>
    have hinv : (d.pushPayloadSymbol o).LockInv := by
      refine ⟨fun hhunt => ?_, fun _ => hpush.2⟩
      rw [hpush.1] at hhunt
      cases hhunt
    exact .quiet hinv (by rw [hone, Decoder.locked_of_past hinv (Or.inr hpush.1)])

theorem lockStep_tickState (h : d.LockInv) (o : Obs) : LockStep d (tickState d o) := by
  rw [tickState]
  split
  next hstate => exact lockStep_tickIdle hstate o
  next hstate => exact lockStep_tickPreambleOk h hstate o
  next hstate => exact lockStep_tickHeader h hstate o
  next hstate => exact lockStep_tickPayload h hstate o

/-! ## Steps and runs -/

/-- **Step.** Whatever happens to a decoder, its flag accounts for the callbacks. -/
theorem step_locks (h : d.LockInv) (i : Input) : LockStep d (d.step i) := by
  -- inputs other than ticks touch neither the state nor the flag
  have hsame : ∀ d' : Decoder, d'.state = d.state → d'.preambleLockedOnce = d.preambleLockedOnce →
      d'.preambleCount = d.preambleCount → LockStep d (d', []) := by
    intro d' hstate hflag hcount
    refine .quiet ⟨fun hhunt => ?_, fun hpast => ?_⟩ ?_
    · rw [hflag, hcount]
      exact h.hunting (hstate ▸ hhunt)
    · rw [hflag]
      exact h.past (hstate ▸ hpast)
    · rw [Decoder.locked, Decoder.locked, hstate, hflag]
  cases i with
  | moveSampler s => exact hsame _ rfl rfl rfl
  | setCrcBruteforce enable => exact hsame _ rfl rfl rfl
  | setCrcBruteforce2bit enable => exact hsame _ rfl rfl rfl
  | tick o =>
    have hacc : (d.accumulateSnr o).state = d.state ∧
        (d.accumulateSnr o).preambleLockedOnce = d.preambleLockedOnce ∧
        (d.accumulateSnr o).preambleCount = d.preambleCount := by
      rw [Decoder.accumulateSnr]
      split <;> exact ⟨rfl, rfl, rfl⟩
    have hlocked : (d.accumulateSnr o).locked = d.locked := by
      rw [Decoder.locked, Decoder.locked, hacc.1, hacc.2.1]
    have htick := lockStep_tickState (hsame _ hacc.1 hacc.2.1 hacc.2.2).inv o
    rw [Decoder.step, stateTick]
    generalize tickState (d.accumulateSnr o) o = next at htick ⊢
    have hdrift : (next.1.applyDrift o).state = next.1.state ∧
        (next.1.applyDrift o).preambleLockedOnce = next.1.preambleLockedOnce ∧
        (next.1.applyDrift o).preambleCount = next.1.preambleCount := by
      rw [Decoder.applyDrift]
      split <;> exact ⟨rfl, rfl, rfl⟩
    have hdriftLocked : (next.1.applyDrift o).locked = next.1.locked := by
      rw [Decoder.locked, Decoder.locked, hdrift.1, hdrift.2.1]
    refine ⟨⟨fun hhunt => ?_, fun hpast => ?_⟩, ?_, ?_, ?_, ?_⟩
    · dsimp only
      rw [hdrift.2.1, hdrift.2.2]
      exact htick.inv.hunting (hdrift.1 ▸ hhunt)
    · dsimp only
      rw [hdrift.2.1]
      exact htick.inv.past (hdrift.1 ▸ hpast)
    · dsimp only
      rw [hdrift.1, hdriftLocked, ← hlocked]
      exact htick.gained
    · dsimp only
      rw [hdrift.1]
      exact htick.silent
    · dsimp only
      rw [hdrift.1, ← hlocked]
      exact htick.delivered
    · dsimp only
      rw [hdrift.1, hdriftLocked]
      exact htick.entered

theorem Decoder.LockInv.fresh (h : d.Fresh) : d.LockInv := by
  obtain ⟨sf, cr, bwHz, osFactor, soft, hcreate⟩ := h
  rw [loraDecoderCreateOs] at hcreate
  split at hcreate
  next => cases hcreate
  next =>
    split at hcreate
    next => cases hcreate
    next =>
      cases hcreate
      exact .idle rfl

theorem Decoder.Reached.lockInv (h : d.Reached) : d.LockInv :=
  Mealy.Reachable.invariant h (fun _ => Decoder.LockInv.fresh) fun _ i hd => (step_locks hd i).inv

def NoReturn (d : Decoder) (inputs : List Input) : Prop :=
  ∀ pre i suf, inputs = pre ++ i :: suf → (Mealy.run Decoder.step d pre).1.state ≠ .idle →
    (Mealy.run Decoder.step d (pre ++ [i])).1.state ≠ .idle

theorem run_snoc (d : Decoder) (inputs : List Input) (i : Input) :
    Mealy.run Decoder.step d (inputs ++ [i]) =
      (((Mealy.run Decoder.step d inputs).1.step i).1,
        (Mealy.run Decoder.step d inputs).2 ++ ((Mealy.run Decoder.step d inputs).1.step i).2) := by
  rw [Mealy.run_append]
  simp only [Mealy.run, append_nil]

theorem NoReturn.of_append {i : Input} (h : NoReturn d (inputs ++ [i])) : NoReturn d inputs := by
  intro pre j suf hsplit hlive
  refine h pre j (suf ++ [i]) ?_ hlive
  rw [hsplit, append_assoc]
  rfl

/-- **Run.** From idle, without a return, the flag counts the callbacks. -/
theorem run_locks (hinv : d.LockInv) (hidle : d.state = .idle) (inputs : List Input)
    (hstay : NoReturn d inputs) : (Mealy.run Decoder.step d inputs).1.LockInv ∧
      locks (Mealy.run Decoder.step d inputs).2 = (Mealy.run Decoder.step d inputs).1.locked := by
  induction inputs using reverseRecOn with
  | nil => exact ⟨hinv, (Decoder.locked_of_idle hidle).symm⟩
  | append_singleton inputs i ih =>
    obtain ⟨hinv', hcount⟩ := ih hstay.of_append
    have hstep := step_locks hinv' i
    have hnext := hstay inputs i [] rfl
    rw [run_snoc] at hnext ⊢
    refine ⟨hstep.inv, ?_⟩
    rw [locks_append, hcount]
    by_cases hback : ((Mealy.run Decoder.step d inputs).1.step i).1.state = .idle
    · -- it never left idle
      have hstill : (Mealy.run Decoder.step d inputs).1.state = .idle :=
        by_contra fun hlive => hnext hlive hback
      rw [Decoder.locked_of_idle hstill, Decoder.locked_of_idle hback, hstep.silent hback]
    · exact (hstep.gained hback).symm

/-- **Lock discipline.** From idle, through inputs that do not bring the decoder back to idle and
one more, the preamble callback fires at most once; if that one enters the header, exactly once; and
if it delivers a frame, exactly once before. -/
theorem preamble_lock_discipline {d : Decoder} (hd : d.Reached) (hidle : d.state = .idle)
    (inputs : List Input) (hstay : NoReturn d inputs) (i : Input) :
    locks (Mealy.run Decoder.step d (inputs ++ [i])).2 ≤ 1 ∧
      ((Mealy.run Decoder.step d (inputs ++ [i])).1.state = .header →
        locks (Mealy.run Decoder.step d (inputs ++ [i])).2 = 1) ∧
      ∀ f, Event.frame f ∈ ((Mealy.run Decoder.step d inputs).1.step i).2 →
        locks (Mealy.run Decoder.step d inputs).2 = 1 := by
  obtain ⟨hinv, hcount⟩ := run_locks hd.lockInv hidle inputs hstay
  have hstep := step_locks hinv i
  have hlocked : ∀ d : Decoder, d.locked ≤ 1 := by
    intro d
    rw [Decoder.locked]
    split
    · exact Nat.zero_le 1
    · exact Bool.toNat_le _
  rw [run_snoc]
  rw [locks_append, hcount]
  refine ⟨?_, fun hheader => ?_, fun f hf => (hstep.delivered f hf).1⟩
  · by_cases hback : ((Mealy.run Decoder.step d inputs).1.step i).1.state = .idle
    · rw [hstep.silent hback]
      exact hlocked _
    · rw [← hstep.gained hback]
      exact hlocked _
  · rw [← hstep.gained (by rw [hheader]; exact fun h => nomatch h)]
    exact hstep.entered hheader

theorem noReturn_of_take
    (h : ∀ k < inputs.length, (Mealy.run Decoder.step d (inputs.take k)).1.state ≠ .idle → (Mealy.run Decoder.step d (inputs.take (k + 1))).1.state ≠ .idle) :
    NoReturn d inputs := by
  rintro pre i suf rfl
  have hk := h pre.length (by simp)
  rwa [take_left, show pre ++ i :: suf = (pre ++ [i]) ++ suf by simp,
    take_left' (by simp)] at hk

def freshDecoder : Decoder where
  sf := 7
  cr := 5
  bwHz := 62500
  osFactor := 1
  softDecoding := false
  frameMeta := { sf := 7, cr := 5, bwHz := 62500 }

def lineAt (sym : Nat) : Input :=
  .tick { sym := sym, peak := 10, noise := 1, snrDb := 20, trimInput := 0, sfoShift := 0, llrs := [] }

theorem preamble_lock_discipline_fiveUpchirps :
    (Mealy.run Decoder.step freshDecoder (List.replicate 5 (lineAt 10) ++ [lineAt 40])).1.state =
        .header ∧
      locks (Mealy.run Decoder.step freshDecoder (List.replicate 5 (lineAt 10) ++ [lineAt 40])).2 =
        1 := by
  have hfresh : freshDecoder.Reached := ⟨freshDecoder, [], ⟨7, 5, 62500, 1, false, rfl⟩, rfl⟩
  have hstay : NoReturn freshDecoder (replicate 5 (lineAt 10)) :=
    noReturn_of_take (by decide +kernel)
  have hheader : (Mealy.run Decoder.step freshDecoder
      (replicate 5 (lineAt 10) ++ [lineAt 40])).1.state = .header := by decide +kernel
  exact ⟨hheader, (preamble_lock_discipline hfresh rfl _ hstay (lineAt 40)).2.1 hheader⟩

end MeshcoreSniffer.Lora
