import Mathlib
import MeshcoreSniffer.Lib.Runs
import MeshcoreSniffer.Sdr.IqRing

/-!
# Focused workers

A thread of `focused.c` reads the sample ring from a cursor on and decodes one slot; other threads
arm it. `Stage` cuts `focused_thread` at every access to shared state, and an interleaving is a list
of `FocusStep`s. Mixer, filter and decoder are an entry in the log.
-/

namespace MeshcoreSniffer.Sdr

open Lib

variable {α : Type*}

inductive FocusState
  | idle
  | decoding
  | holdDown
  deriving DecidableEq, Repr

/-- What a worker is tuned to. Zero in a request keeps the field. -/
structure Slot where
  channelHz : ℚ
  bwHz : Int
  sf : Int
  cr : Int
  osFactor : Int
  deriving DecidableEq

def Slot.key (s : Slot) : ℚ × Int × Int × Int := (s.channelHz, s.bwHz, s.sf, s.cr)

def Slot.Full (s : Slot) : Prop := 0 < s.channelHz ∧ 0 < s.bwHz ∧ 0 < s.sf ∧ 0 < s.cr ∧ 0 < s.osFactor

instance (s : Slot) : Decidable s.Full := inferInstanceAs (Decidable (_ ∧ _))

def supportedOs (os : Int) : Int := if os = 1 ∨ os = 2 ∨ os = 4 ∨ os = 8 then os else 1

def Slot.applied (s : Slot) : Slot := { s with osFactor := supportedOs s.osFactor }

/-- `(int)(sr / (double)(os * bw) + 0.5)`: the cast cuts towards zero. -/
def focusedDecim (sampRate : ℚ) (os bw : Int) : Int :=
  let q := sampRate / (os * bw : Int) + 1 / 2
  if 0 ≤ q then ⌊q⌋ else ⌈q⌉

inductive Stage
  | launch
  /-- The head of the loop, before the exchange of `arm_pending`. -/
  | top
  /-- The flag is taken, the slot lock is not. -/
  | armed
  /-- About to store IDLE and go back to the head. -/
  | failed
  /-- The slot lock is released, the cursor is still the old one. -/
  | applied
  /-- About to store DECODING. -/
  | anchored
  | load
  | idling
  | check (st : FocusState)
  | read (st : FocusState) (want : Nat)
  | hysteresis (st : FocusState)
  | drain
  | drainCheck
  | drainRead (want : Nat)
  | done
  deriving DecidableEq

/-- What the slot lock guards, and the configuration it is read with. -/
structure SlotState where
  sampRate : ℚ
  cfgOsFactor : Int
  cur : Slot
  curSet : Bool
  pending : Slot
  pendingSlotChange : Bool
  deriving DecidableEq

/-- `state`, `armPending` and `run` are atomics, the cursor and the stage are the thread's own. -/
structure Worker where
  slots : SlotState
  state : FocusState
  armPending : Bool
  run : Bool
  sticky : Bool
  startSample : Nat
  cursor : Nat
  stage : Stage
  deriving DecidableEq

def focusedBatchSamples : Nat := 16384

/-- A run anchored at a sample, a chunk under its label, or IDLE stored. -/
inductive FocusEvent (α : Type*)
  | anchored (cursor : Nat)
  | chunk (start : Nat) (samples : List α)
  | idle
  deriving DecidableEq

/-- What the worker meets outside: is there memory for a decoder, has a timer expired, does a frame
come out of the chunk. -/
structure Outcome where
  decoderOk : Bool
  expired : Bool
  frameSeen : Bool

/-! ## Slots -/

def pendingOs (d : SlotState) : Int :=
  supportedOs (if 0 < d.pending.osFactor then d.pending.osFactor else d.cfgOsFactor)

/-- A rate that does not fit is refused before anything changes, a missing decoder is found at the
end. -/
def applySlotLocked (d : SlotState) (decoderOk : Bool) : SlotState × Bool :=
  if focusedDecim d.sampRate (pendingOs d) d.pending.bwHz ≤ 0 then (d, false)
  else ({ d with cur := { d.pending with osFactor := pendingOs d }, curSet := true }, decoderOk)

def fillSlot (d : SlotState) (request : Slot) : Slot where
  channelHz := if 0 < request.channelHz then request.channelHz else d.cur.channelHz
  bwHz := if 0 < request.bwHz then request.bwHz else d.cur.bwHz
  sf := if 0 < request.sf then request.sf else d.cur.sf
  cr := if 0 < request.cr then request.cr else d.cur.cr
  osFactor := if 0 < request.osFactor then request.osFactor
    else if d.curSet then d.cur.osFactor else d.cfgOsFactor

/-- The request is compared with the slot that is applied. -/
def armSlotLocked (d : SlotState) (request : Slot) : SlotState :=
  let next := fillSlot d request
  let slotChanged := !d.curSet || next ≠ d.cur
  if slotChanged then { d with pending := next, pendingSlotChange := true } else d

/-- The start sample first, `arm_pending` last. -/
inductive ArmCall
  | storeStart (startSample : Nat)
  | storeState
  | storePending
  deriving DecidableEq

/-- The next store of `focused_worker_arm`. -/
def armStore (w : Worker) : ArmCall → Worker × Option ArmCall
  | .storeStart startSample => ({ w with startSample := startSample }, some .storeState)
  | .storeState => ({ w with state := .decoding }, some .storePending)
  | .storePending => ({ w with armPending := true }, none)

/-! ## The thread -/

def wanted (w : Worker) (newest : Nat) : Nat :=
  if focusedBatchSamples < newest - w.cursor then focusedBatchSamples else newest - w.cursor

def anchor (w : Worker) (oldest newest : Nat) : Nat :=
  if w.startSample = 0 ∨ w.startSample < oldest then oldest
  else if newest < w.startSample then newest
  else w.startSample

/-- A frame during HOLD_DOWN snaps the worker back into DECODING. -/
def focusedFrameTrampoline (o : Outcome) (st : FocusState) : FocusState :=
  if o.frameSeen ∧ st = .holdDown then .decoding else st

@[simp] theorem focusedFrameTrampoline_eq_idle {o : Outcome} {st : FocusState} :
    focusedFrameTrampoline o st = .idle ↔ st = .idle := by
  rw [focusedFrameTrampoline]
  split
  next hsnap => simp [hsnap.2]
  next => rfl

/-- From one access to shared state to the next. -/
def workerStep (ring : IqRing α) (o : Outcome) (w : Worker) : Worker × List (FocusEvent α) :=
  let (oldest, newest) := iqRingLiveRange ring
  match w.stage with
  | .launch =>
    let cursor := if w.startSample < oldest then oldest else w.startSample
    ({ w with cursor := cursor, stage := .top },
      if w.state = .idle then [] else [.anchored cursor])
  | .top =>
    if w.run then
      if w.armPending then ({ w with armPending := false, stage := .armed }, [])
      else ({ w with stage := .load }, [])
    else ({ w with stage := .drain }, [])
  | .armed =>
    if w.slots.pendingSlotChange then
      let (d, ok) := applySlotLocked w.slots o.decoderOk
      ({ w with
          slots := { d with pendingSlotChange := false }
          stage := if ok then .applied else .failed }, [])
    else ({ w with stage := .applied }, [])
  | .failed => ({ w with state := .idle, stage := .top }, [.idle])
  | .applied => ({ w with cursor := anchor w oldest newest, stage := .anchored }, [])
  | .anchored => ({ w with state := .decoding, stage := .load }, [.anchored w.cursor])
  | .load =>
    if w.state = .idle then ({ w with stage := .idling }, [])
    else ({ w with stage := .check w.state }, [])
  | .idling => ({ w with cursor := newest, stage := .top }, [])
  | .check st =>
    -- the samples between the cursor and the oldest one are gone: the run is dropped
    if w.cursor < oldest then ({ w with cursor := newest, stage := .failed }, [])
    else if w.cursor < newest then ({ w with stage := .read st (wanted w newest) }, [])
    else ({ w with stage := .hysteresis st }, [])
  | .read st want =>
    let got := iqRingGetWindow ring w.cursor want
    if 0 < got.length then
      ({ w with
          cursor := w.cursor + got.length
          state := focusedFrameTrampoline o w.state
          stage := .hysteresis st }, [.chunk w.cursor got])
    else ({ w with stage := .hysteresis st }, [])
  | .hysteresis st =>
    if !w.sticky && o.expired then
      match st with
      | .decoding => ({ w with state := .holdDown, stage := .top }, [])
      | .holdDown => ({ w with state := .idle, stage := .top }, [.idle])
      | .idle => ({ w with stage := .top }, [])
    else ({ w with stage := .top }, [])
  | .drain =>
    if w.state = .idle then ({ w with stage := .done }, [])
    else ({ w with stage := .drainCheck }, [])
  | .drainCheck =>
    let w := if w.cursor < oldest then { w with cursor := oldest } else w
    if newest ≤ w.cursor then ({ w with stage := .done }, [])
    else ({ w with stage := .drainRead (wanted w newest) }, [])
  | .drainRead want =>
    let got := iqRingGetWindow ring w.cursor want
    if got.length = 0 then ({ w with stage := .done }, [])
    else
      ({ w with
          cursor := w.cursor + got.length
          state := focusedFrameTrampoline o w.state
          stage := .drainCheck }, [.chunk w.cursor got])
  | .done => (w, [])

/-! ## Creation -/

def emptySlots (sampRate : ℚ) (osFactor : Int) : SlotState where
  sampRate := sampRate
  cfgOsFactor := osFactor
  cur := ⟨0, 0, 0, 0, 0⟩
  curSet := false
  pending := ⟨0, 0, 0, 0, 0⟩
  pendingSlotChange := false

/-- Without a configured slot the worker waits for its first arm. -/
def focusedWorkerCreate (sampRate : ℚ) (cfg : Slot) (decoderOk : Bool) : Option Worker :=
  if cfg.osFactor < 1 ∨ 4 < cfg.osFactor then none
  else
    let w : Worker :=
      { slots := emptySlots sampRate cfg.osFactor
        state := .idle, armPending := false, run := false, sticky := false
        startSample := 0, cursor := 0, stage := .launch }
    if 0 < cfg.bwHz ∧ 7 ≤ cfg.sf ∧ cfg.sf ≤ 12 ∧ 5 ≤ cfg.cr ∧ cfg.cr ≤ 8 ∧ 0 < cfg.channelHz then
      let (d, ok) := applySlotLocked { w.slots with pending := cfg } decoderOk
      if ok then some { w with slots := d } else none
    else some w

def focusedWorkerStart (w : Worker) (startSample : Nat) (sticky : Bool) : Worker :=
  { w with
    startSample := startSample, sticky := sticky, run := true
    state := if sticky then .decoding else .idle }

/-! ## The system -/

/-- With the arm calls in flight and the log of the worker, newest entry first. -/
structure Focus (α : Type*) where
  ring : IqRing α
  worker : Worker
  calls : List ArmCall
  log : List (FocusEvent α)

inductive FocusStep (α : Type*)
  | append (samples : List α)
  /-- The critical section of `focused_worker_arm_slot_os`. -/
  | armSlot (request : Slot) (startSample : Nat)
  /-- `focused_worker_arm` without a slot. -/
  | arm (startSample : Nat)
  /-- The next store of the arm call at this place. -/
  | advance (call : Nat)
  | work (o : Outcome)
  | stop

namespace Focus

def step (s : Focus α) : FocusStep α → Focus α
  | .append samples => { s with ring := (iqRingAppend s.ring samples).2 }
  | .armSlot request startSample =>
    { s with
      worker := { s.worker with slots := armSlotLocked s.worker.slots request }
      calls := s.calls ++ [.storeStart startSample] }
  | .arm startSample => { s with calls := s.calls ++ [.storeStart startSample] }
  | .advance i =>
    match s.calls[i]? with
    | none => s
    | some call =>
      let (w, rest) := armStore s.worker call
      { s with
        worker := w
        calls := match rest with
          | none => s.calls.eraseIdx i
          | some call => s.calls.set i call }
  | .work o =>
    let (w, events) := workerStep s.ring o s.worker
    { s with worker := w, log := events ++ s.log }
  | .stop => { s with worker := { s.worker with run := false } }

def run (s : Focus α) (steps : List (FocusStep α)) : Focus α := Runs.run step s steps

def Along (s : Focus α) (P : Focus α → FocusStep α → Prop) (steps : List (FocusStep α)) : Prop :=
  Runs.Along step P s steps

instance (s : Focus α) (P : Focus α → FocusStep α → Prop) [∀ s x, Decidable (P s x)]
    (steps : List (FocusStep α)) : Decidable (s.Along P steps) :=
  inferInstanceAs (Decidable (Runs.Along step P s steps))

theorem run_append (s : Focus α) (before after : List (FocusStep α)) :
    s.run (before ++ after) = (s.run before).run after := Runs.run_append s before after

theorem along_append {P : Focus α → FocusStep α → Prop} {s : Focus α}
    {before after : List (FocusStep α)} :
    s.Along P (before ++ after) ↔ s.Along P before ∧ (s.run before).Along P after :=
  Runs.along_append

/-- A worker fresh from `focused_worker_create` and `focused_worker_start` on a ring. -/
def start (ring : IqRing α) (w : Worker) (startSample : Nat) (sticky : Bool) : Focus α :=
  { ring := ring, worker := focusedWorkerStart w startSample sticky, calls := [], log := [] }

end Focus

/-! ## What a step of the worker can do -/

/-- **Step of the worker, as the arms see it.** -/
theorem workerStep_slots (ring : IqRing α) (o : Outcome) (w : Worker) :
    let w' := (workerStep ring o w).1
    (w.stage = .top ∧ w.armPending = true ∧
        w'.slots = w.slots ∧ w'.armPending = false ∧ w'.stage = .armed) ∨
      (w.stage = .armed ∧ w.slots.pendingSlotChange = true ∧
        w'.slots = { (applySlotLocked w.slots o.decoderOk).1 with pendingSlotChange := false } ∧
        w'.armPending = w.armPending ∧
        w'.stage = if (applySlotLocked w.slots o.decoderOk).2 then .applied else .failed) ∨
      (w'.slots = w.slots ∧ w'.armPending = w.armPending ∧ w'.stage ≠ .armed ∧
        (w.stage = .armed → w.slots.pendingSlotChange = false ∧ w'.stage = .applied)) := by
  cases hstage : w.stage with
  | top =>
    simp only [workerStep, hstage]
    split
    · split
      next hpending => exact .inl ⟨trivial, hpending, rfl, rfl, rfl⟩
      next => simp
    · simp
  | armed =>
    simp only [workerStep, hstage]
    split
    next hchange => exact .inr (.inl ⟨trivial, hchange, rfl, rfl, rfl⟩)
    next hchange => simp [hchange]
  | hysteresis st =>
    simp only [workerStep, hstage]
    cases st <;> split <;> simp
  | drainCheck =>
    simp only [workerStep, hstage]
    split <;> split <;> simp
  | launch | failed | applied | anchored | idling | done => simp [workerStep, hstage]
  | load | check st | read st want | drain | drainRead want =>
    simp only [workerStep, hstage]
    repeat' split
    all_goals simp

def Stage.Busy : Stage → Prop
  | .check _ | .read _ _ | .hysteresis _ | .drainCheck | .drainRead _ => True
  | _ => False

theorem busy_workerStep (ring : IqRing α) (o : Outcome) {w : Worker}
    (h : w.stage.Busy → w.state ≠ .idle) :
    (workerStep ring o w).1.stage.Busy → (workerStep ring o w).1.state ≠ .idle := by
  cases hstage : w.stage with
  | check st | read st want | drainCheck | drainRead want =>
    have hbusy : w.state ≠ .idle := h (by rw [hstage]; trivial)
    simp only [workerStep, hstage]
    repeat' split
    all_goals simp [Stage.Busy, hbusy]
  | hysteresis st =>
    simp only [workerStep, hstage]
    cases st <;> split <;> simp [Stage.Busy]
  | load =>
    simp only [workerStep, hstage]
    split
    next => simp [Stage.Busy]
    next hstate => exact fun _ => hstate
  | armed =>
    simp only [workerStep, hstage]
    split
    · split <;> simp [Stage.Busy]
    · simp [Stage.Busy]
  | drain =>
    simp only [workerStep, hstage]
    split
    next => simp [Stage.Busy]
    next hstate => exact fun _ => hstate
  | top =>
    simp only [workerStep, hstage]
    repeat' split
    all_goals simp [Stage.Busy]
  | launch | failed | applied | anchored | idling | done =>
    simp [workerStep, hstage, Stage.Busy]

theorem slots_armStore (w : Worker) (call : ArmCall) : (armStore w call).1.slots = w.slots := by
  cases call <;> rfl

theorem busy_armStore {w : Worker} (h : w.stage.Busy → w.state ≠ .idle) (call : ArmCall) :
    (armStore w call).1.stage.Busy → (armStore w call).1.state ≠ .idle := by
  cases call with
  | storeState => simp [armStore]
  | storeStart startSample => exact h
  | storePending => exact h

/-! ## Where the slots are heading -/

namespace SlotState

def heading (d : SlotState) : Option Slot :=
  if d.pendingSlotChange then some d.pending.applied
  else if d.curSet then some d.cur
  else none

def current (d : SlotState) : Option Slot := if d.curSet then some d.cur else none

/-- The oversampling factors in the slots are those an arm and an application leave. -/
structure Sound (d : SlotState) : Prop where
  cfg_pos : 0 < d.cfgOsFactor
  pending_pos : d.pendingSlotChange = true → 0 < d.pending.osFactor
  cur_pos : d.curSet = true → 0 < d.cur.osFactor
  cur_applied : d.curSet = true → d.cur.applied = d.cur

theorem heading_of_not_pending {d : SlotState} (h : d.pendingSlotChange = false) :
    d.heading = d.current := by
  rw [heading, h]
  rfl

end SlotState

theorem supportedOs_pos (os : Int) : 0 < supportedOs os := by
  unfold supportedOs
  split
  next h => omega
  next => exact Int.one_pos

theorem supportedOs_supportedOs (os : Int) : supportedOs (supportedOs os) = supportedOs os := by
  by_cases h : os = 1 ∨ os = 2 ∨ os = 4 ∨ os = 8
  · have heq : supportedOs os = os := if_pos h
    rw [heq, heq]
  · have heq : supportedOs os = 1 := if_neg h
    rw [heq]
    rfl

theorem pendingOs_eq {d : SlotState} (h : 0 < d.pending.osFactor) :
    pendingOs d = supportedOs d.pending.osFactor := by
  rw [pendingOs, if_pos h]

theorem applySlotLocked_eq {d : SlotState} (hos : 0 < d.pending.osFactor)
    (hdecim : 0 < focusedDecim d.sampRate (supportedOs d.pending.osFactor) d.pending.bwHz)
    (decoderOk : Bool) :
    applySlotLocked d decoderOk =
      ({ d with cur := d.pending.applied, curSet := true }, decoderOk) := by
  rw [applySlotLocked, pendingOs_eq hos]
  exact if_neg (not_le.mpr hdecim)

theorem decim_pos_of_apply {d : SlotState} (hos : 0 < d.pending.osFactor) {decoderOk : Bool}
    (h : (applySlotLocked d decoderOk).2 = true) :
    0 < focusedDecim d.sampRate (supportedOs d.pending.osFactor) d.pending.bwHz := by
  by_contra hle
  rw [applySlotLocked, pendingOs_eq hos, if_pos (not_lt.mp hle)] at h
  cases h

namespace SlotState

variable {d : SlotState} {request : Slot}

theorem heading_apply (hsound : d.Sound) (hpending : d.pendingSlotChange = true)
    (hdecim : 0 < focusedDecim d.sampRate (supportedOs d.pending.osFactor) d.pending.bwHz)
    (decoderOk : Bool) :
    ({ (applySlotLocked d decoderOk).1 with pendingSlotChange := false } : SlotState).heading =
      d.heading := by
  rw [applySlotLocked_eq (hsound.pending_pos hpending) hdecim, heading, heading, hpending]
  rfl

theorem armSlotLocked_full (hfull : request.Full) : armSlotLocked d request =
      if d.current = some request then d
      else { d with pending := request, pendingSlotChange := true } := by
  obtain ⟨hch, hbw, hsf, hcr, hos⟩ := hfull
  have hfill : fillSlot d request = request := by
    rw [fillSlot, if_pos hch, if_pos hbw, if_pos hsf, if_pos hcr, if_pos hos]
  rw [armSlotLocked, hfill, current]
  cases d.curSet with
  | false => simp
  | true =>
    by_cases heq : d.cur = request
    · simp [heq]
    · have hne : request ≠ d.cur := fun h => heq h.symm
      simp [heq, hne]

theorem heading_arm (hfull : request.Full) : (armSlotLocked d request).heading =
      if d.current = some request then d.heading else some request.applied := by
  rw [armSlotLocked_full hfull]
  split
  · rfl
  · rfl

theorem Sound.arm (h : d.Sound) (request : Slot) : (armSlotLocked d request).Sound := by
  have hos : 0 < (fillSlot d request).osFactor := by
    show 0 < (if 0 < request.osFactor then request.osFactor
      else if d.curSet then d.cur.osFactor else d.cfgOsFactor)
    split
    next hos => exact hos
    next =>
      split
      next hset => exact h.cur_pos hset
      next => exact h.cfg_pos
  unfold armSlotLocked
  dsimp only
  split
  · exact ⟨h.cfg_pos, fun _ => hos, h.cur_pos, h.cur_applied⟩
  · exact h

theorem Sound.apply (h : d.Sound) (decoderOk : Bool) :
    ({ (applySlotLocked d decoderOk).1 with pendingSlotChange := false } : SlotState).Sound := by
  unfold applySlotLocked
  split
  · exact ⟨h.cfg_pos, by simp, h.cur_pos, h.cur_applied⟩
  · refine ⟨h.cfg_pos, by simp, fun _ => supportedOs_pos _, fun _ => ?_⟩
    show ({ d.pending with osFactor := supportedOs (pendingOs d) } : Slot) = _
    rw [pendingOs, supportedOs_supportedOs]

end SlotState

theorem sound_workerStep (ring : IqRing α) (o : Outcome) {w : Worker} (h : w.slots.Sound) :
    (workerStep ring o w).1.slots.Sound := by
  rcases workerStep_slots ring o w with ⟨-, -, hslots, -⟩ | ⟨-, -, hslots, -⟩ | ⟨hslots, -⟩
  · rw [hslots]
    exact h
  · rw [hslots]
    exact h.apply o.decoderOk
  · rw [hslots]
    exact h

/-- A fresh worker: nothing pending, the slots sound, the thread at its first line. -/
structure Worker.Fresh (w : Worker) : Prop where
  sound : w.slots.Sound
  none_pending : w.slots.pendingSlotChange = false
  not_armed : w.armPending = false
  stage : w.stage = .launch

theorem fresh_create {sampRate : ℚ} {cfg : Slot} {decoderOk : Bool} {w : Worker}
    (h : focusedWorkerCreate sampRate cfg decoderOk = some w) : w.Fresh := by
  unfold focusedWorkerCreate at h
  split at h
  next => cases h
  next hos =>
    have hcfg : 0 < cfg.osFactor := by omega
    dsimp only at h
    split at h
    next =>
      split at h
      next hok =>
        obtain rfl := Option.some.inj h
        have hinit : ({ emptySlots sampRate cfg.osFactor with pending := cfg } : SlotState).Sound :=
          ⟨hcfg, by simp [emptySlots], by simp [emptySlots], by simp [emptySlots]⟩
        have hsound := hinit.apply decoderOk
        rw [applySlotLocked_eq hcfg (decim_pos_of_apply hcfg hok)] at hsound ⊢
        exact ⟨hsound, rfl, rfl, rfl⟩
      next => cases h
    next =>
      obtain rfl := Option.some.inj h
      exact ⟨⟨hcfg, by simp [emptySlots], by simp [emptySlots], by simp [emptySlots]⟩, rfl, rfl, rfl⟩

/-! ## A small setting -/

def quietRing : IqRing Nat := ⟨4, [0, 0, 0, 0], 0, by decide, rfl⟩

def longFast : Slot := ⟨906875000, 250000, 11, 5, 1⟩

def shortTurbo : Slot := ⟨908750000, 500000, 7, 5, 1⟩

def idleWorker : Worker :=
  { slots := emptySlots 2000000 1, state := .idle, armPending := false, run := false
    sticky := false, startSample := 0, cursor := 0, stage := .launch }

def manualWorker : Worker :=
  { idleWorker with
    slots := { emptySlots 2000000 1 with cur := longFast, curSet := true, pending := longFast } }

def works (n : Nat) : List (FocusStep Nat) := List.replicate n (.work ⟨true, false, false⟩)

end MeshcoreSniffer.Sdr
