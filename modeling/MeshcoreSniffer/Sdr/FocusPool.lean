import MeshcoreSniffer.Sdr.FocusedWorker

/-!
# The pool of focused workers

`promote_to_pool` arms the worker already on a slot again, or an idle one, and reads the workers
while they run (`dispatch`). A worker is assigned to the slot it has applied and to the one it has
pending, and between an arm and its application to both.

`PoolInv` says that workers not idle, or about not to be (`Engaged`), share no slot. A step of a
worker only takes assignments away (`follows_workerStep`), so the invariant rests on the step that
arms. It needs two things that `promote_to_pool` does not look at (`Pool.Caught`): pending slots,
and the slot an idle worker has kept (`coalescing_missed`).
-/

namespace MeshcoreSniffer.Sdr

open Lib Function Option

variable {α : Type*} {n : Nat}

/-! ## Model -/

/-- `focus_os_for_slot`, with `g_focus_os_factor` as `forced`. -/
def focusOsForSlot (forced bwHz sf : Int) : Int :=
  if forced = 1 ∨ forced = 2 ∨ forced = 4 ∨ forced = 8 then forced
  else if bwHz = 500000 then 2
  else if bwHz = 250000 then
    if 10 ≤ sf then 8 else if sf = 7 ∨ sf = 9 then 4 else 1
  else if bwHz = 125000 ∧ 11 ≤ sf then 8
  else if bwHz ≤ 125000 then 2
  else 1

/-- Where a promotion stands: the two loops over the pool, then the arm call. -/
inductive PromotePhase (n : Nat)
  | matchSlot (i : Nat)
  | matchState (i : Fin n)
  | findIdle (i : Nat)
  | arm (i : Fin n)
  | storing (i : Fin n) (call : ArmCall)

structure Promotion (n : Nat) where
  slot : Slot
  start : Nat
  phase : PromotePhase n

structure Pool (α : Type*) (n : Nat) where
  ring : IqRing α
  workers : Fin n → Worker
  promoter : Option (Promotion n)

/-- What `main.c` sets once: the forced oversampling factor and the rewind in samples. -/
structure PoolConfig where
  osFactor : Int
  rewind : Nat

namespace Pool

def setWorker (p : Pool α n) (i : Fin n) (w : Worker) : Pool α n :=
  { p with workers := Function.update p.workers i w }

def dispatch (p : Pool α n) (pr : Promotion n) : Pool α n :=
  match pr.phase with
  | .matchSlot i =>
    if h : i < n then
      if (p.workers ⟨i, h⟩).slots.current.map Slot.key = some pr.slot.key then
        { p with promoter := some { pr with phase := .matchState ⟨i, h⟩ } }
      else { p with promoter := some { pr with phase := .matchSlot (i + 1) } }
    else { p with promoter := some { pr with phase := .findIdle 0 } }
  | .matchState i =>
    if (p.workers i).state ≠ .idle then { p with promoter := some { pr with phase := .arm i } }
    else { p with promoter := some { pr with phase := .matchSlot (i + 1) } }
  | .findIdle i =>
    if h : i < n then
      if (p.workers ⟨i, h⟩).state = .idle then
        { p with promoter := some { pr with phase := .arm ⟨i, h⟩ } }
      else { p with promoter := some { pr with phase := .findIdle (i + 1) } }
    else { p with promoter := none }
  | .arm i =>
    let w := p.workers i
    { p.setWorker i { w with slots := armSlotLocked w.slots pr.slot } with
      promoter := some { pr with phase := .storing i (.storeStart pr.start) } }
  | .storing i call =>
    let (w, rest) := armStore (p.workers i) call
    { p.setWorker i w with
      promoter := rest.map fun call => { pr with phase := .storing i call } }

end Pool

inductive PoolStep (α : Type*) (n : Nat)
  | append (samples : List α)
  /-- `promote_to_pool` takes the mutex. -/
  | promote (freqHz : ℚ) (bwHz sf cr : Int) (now : Nat)
  | dispatch
  | work (i : Fin n) (o : Outcome)
  | stop (i : Fin n)

namespace Pool

def promotion (cfg : PoolConfig) (freqHz : ℚ) (bwHz sf cr : Int) (now : Nat) : Promotion n where
  slot := ⟨freqHz, bwHz, sf, cr, focusOsForSlot cfg.osFactor bwHz sf⟩
  start := if cfg.rewind < now then now - cfg.rewind else 0
  phase := .matchSlot 0

def step (cfg : PoolConfig) (p : Pool α n) : PoolStep α n → Pool α n
  | .append samples => { p with ring := (iqRingAppend p.ring samples).2 }
  | .promote freqHz bwHz sf cr now =>
    match p.promoter with
    | none => { p with promoter := some (promotion cfg freqHz bwHz sf cr now) }
    | some _ => p
  | .dispatch =>
    match p.promoter with
    | none => p
    | some pr => p.dispatch pr
  | .work i o => p.setWorker i (workerStep p.ring o (p.workers i)).1
  | .stop i => p.setWorker i { p.workers i with run := false }

def run (cfg : PoolConfig) (p : Pool α n) (steps : List (PoolStep α n)) : Pool α n :=
  Runs.run (step cfg) p steps

def start (ring : IqRing α) (workers : Fin n → Worker) : Pool α n where
  ring := ring
  workers := fun i => focusedWorkerStart (workers i) 0 false
  promoter := none

end Pool

/-- The key of the applied slot, which is also that of a worker that went idle. -/
def Worker.applied (w : Worker) : Option (ℚ × Int × Int × Int) := w.slots.current.map Slot.key

def Worker.Assigned (w : Worker) (key : ℚ × Int × Int × Int) : Prop :=
  w.applied = some key ∨ w.slots.pendingSlotChange = true ∧ w.slots.pending.key = key

instance (w : Worker) (key : ℚ × Int × Int × Int) : Decidable (w.Assigned key) :=
  inferInstanceAs (Decidable (_ ∨ _ ∧ _))

def Pool.Coalesced (p : Pool α n) : Prop :=
  ∀ i j, i ≠ j → (p.workers i).state ≠ .idle → (p.workers j).state ≠ .idle →
    ∀ key, (p.workers i).Assigned key → ¬(p.workers j).Assigned key

/-! ## Workers under steps of their own -/

def Stage.handling : Stage → Bool
  | .armed | .applied | .anchored => true
  | _ => false

structure Worker.Quiet (w : Worker) : Prop where
  armPending : w.armPending = false
  pendingSlotChange : w.slots.pendingSlotChange = false
  stage : w.stage.handling = false

instance (w : Worker) : Decidable w.Quiet :=
  decidable_of_iff (w.armPending = false ∧ w.slots.pendingSlotChange = false ∧ w.stage.handling = false)
    ⟨fun h => ⟨h.1, h.2.1, h.2.2⟩, fun h => ⟨h.1, h.2, h.3⟩⟩

def Worker.Roused (w : Worker) : Prop :=
  w.state ≠ .idle ∨ w.armPending = true ∨ w.stage.handling = true

def Worker.Kept (w : Worker) : Prop := w.stage.Busy → w.state ≠ .idle

variable {w : Worker} {ring : IqRing α} {o : Outcome} {p : Pool α n} {pr : Promotion n} {i : Fin n}
  {key : ℚ × Int × Int × Int}

theorem Worker.Quiet.assigned_iff (h : w.Quiet) : w.Assigned key ↔ w.applied = some key := by
  simp [Worker.Assigned, h.pendingSlotChange]

theorem assigned_armSlot {slot : Slot} (hfull : slot.Full)
    (h : Worker.Assigned { w with slots := armSlotLocked w.slots slot } key) :
    w.Assigned key ∨ key = slot.key := by
  rw [Worker.Assigned, Worker.applied, SlotState.armSlotLocked_full hfull] at h
  split at h
  next => exact .inl h
  next =>
    rcases h with happlied | ⟨-, hpending⟩
    · exact .inl (.inl happlied)
    · exact .inr hpending.symm

theorem Worker.Quiet.roused_iff (h : w.Quiet) : w.Roused ↔ w.state ≠ .idle := by
  simp [Worker.Roused, h.armPending, h.stage]

theorem handling_workerStep (h : (workerStep ring o w).1.stage.handling = true) :
    w.stage.handling = true ∨ w.armPending = true := by
  cases hstage : w.stage with
  | armed | applied | anchored => exact .inl rfl
  | top =>
    simp only [workerStep, hstage] at h
    split at h
    · split at h
      next harm => exact .inr harm
      next => cases h
    · cases h
  | hysteresis st =>
    simp only [workerStep, hstage] at h
    cases st <;> split at h <;> cases h
  | launch | failed | idling | done => simp [workerStep, hstage, Stage.handling] at h
  | load | check st | read st want | drain | drainCheck | drainRead want =>
    simp only [workerStep, hstage] at h
    repeat' split at h
    all_goals cases h

theorem quiet_workerStep (o : Outcome) (h : w.Quiet) :
    (workerStep ring o w).1.Quiet ∧ (workerStep ring o w).1.slots = w.slots := by
  have hhandling : (workerStep ring o w).1.stage.handling = false := by
    rw [← Bool.not_eq_true]
    intro hhandling
    rcases handling_workerStep hhandling with hstage | harm
    · rw [h.stage] at hstage
      cases hstage
    · rw [h.armPending] at harm
      cases harm
  rcases workerStep_slots ring o w with ⟨-, harm, -⟩ | ⟨hstage, -⟩ | ⟨hslots, harm, -⟩
  · rw [h.armPending] at harm
    cases harm
  · have hfalse := h.stage
    rw [hstage] at hfalse
    cases hfalse
  · exact ⟨⟨harm.trans h.armPending, hslots ▸ h.pendingSlotChange, hhandling⟩, hslots⟩

theorem state_workerStep (hbusy : w.stage.Busy → w.state ≠ .idle)
    (h : (workerStep ring o w).1.state ≠ .idle) : w.state ≠ .idle ∨ w.stage.handling = true := by
  cases hstage : w.stage with
  | armed | applied | anchored => exact .inr rfl
  | check st | read st want | hysteresis st | drainCheck | drainRead want =>
    exact .inl (hbusy (by rw [hstage]; trivial))
  | launch | idling | done => exact .inl (by simpa [workerStep, hstage] using h)
  | failed => simp [workerStep, hstage] at h
  | top | load | drain =>
    simp only [workerStep, hstage] at h
    refine .inl ?_
    repeat' split at h
    all_goals exact h

theorem roused_workerStep (hkept : w.Kept) (h : (workerStep ring o w).1.Roused) : w.Roused := by
  rcases h with hstate | harm | hhandling
  · rcases state_workerStep hkept hstate with hstate | hhandling
    · exact .inl hstate
    · exact .inr (.inr hhandling)
  · rcases workerStep_slots ring o w with ⟨-, -, -, hfalse, -⟩ | ⟨-, -, -, hsame, -⟩ | ⟨-, hsame, -⟩
    · rw [hfalse] at harm
      cases harm
    · exact .inr (.inl (hsame ▸ harm))
    · exact .inr (.inl (hsame ▸ harm))
  · rcases handling_workerStep hhandling with hhandling | harm
    · exact .inr (.inr hhandling)
    · exact .inr (.inl harm)

theorem assigned_workerStep (o : Outcome) (h : (workerStep ring o w).1.Assigned key) :
    w.Assigned key := by
  rw [Worker.Assigned, Worker.applied] at h
  rcases workerStep_slots ring o w with ⟨-, -, hslots, -⟩ | ⟨-, hpending, hslots, -⟩ | ⟨hslots, -⟩
  · rwa [hslots] at h
  · rw [hslots, applySlotLocked] at h
    split at h
    next =>
      rcases h with happlied | ⟨hfalse, -⟩
      · exact .inl happlied
      · cases hfalse
    next =>
      -- the pending slot has become the applied one
      rcases h with happlied | ⟨hfalse, -⟩
      · exact .inr ⟨hpending, some.inj happlied⟩
      · cases hfalse
  · rwa [hslots] at h

/-! ## The pool -/

def Pool.Storing (p : Pool α n) (i : Fin n) : Prop :=
  ∃ pr call, p.promoter = some pr ∧ pr.phase = .storing i call

def Pool.Engaged (p : Pool α n) (i : Fin n) : Prop := (p.workers i).Roused ∨ p.Storing i

def Pool.Found (p : Pool α n) (pr : Promotion n) : Prop :=
  let free (j : Fin n) := (p.workers j).Roused → ¬(p.workers j).Assigned pr.slot.key
  match pr.phase with
  | .matchSlot i => (∀ j, (p.workers j).Quiet) ∧ ∀ j : Fin n, j < i → free j
  | .matchState i =>
    (∀ j, (p.workers j).Quiet) ∧ (p.workers i).applied = some pr.slot.key ∧ ∀ j, j < i → free j
  | .findIdle _ => (∀ j, (p.workers j).Quiet) ∧ ∀ j, free j
  | .arm i => (∀ j, (p.workers j).Quiet) ∧ ∀ j, j ≠ i → free j
  | .storing _ _ => True

/-- **Invariant.** Engaged workers are assigned to different slots. -/
structure PoolInv (p : Pool α n) : Prop where
  kept : ∀ i, (p.workers i).Kept
  distinct : ∀ i j, i ≠ j → p.Engaged i → p.Engaged j →
    ∀ key, (p.workers i).Assigned key → ¬(p.workers j).Assigned key
  promoted : ∀ pr, p.promoter = some pr → pr.slot.Full ∧ p.Found pr

theorem PoolInv.coalesced (h : PoolInv p) : p.Coalesced :=
  fun i j hne hi hj => h.distinct i j hne (.inl (.inl hi)) (.inl (.inl hj))

structure Worker.Follows (w w' : Worker) : Prop where
  kept : w.Kept → w'.Kept
  assigned : ∀ key, w'.Assigned key → w.Assigned key
  roused : w.Kept → w'.Roused → w.Roused
  quiet : w.Quiet → w'.Quiet ∧ w'.slots = w.slots

theorem Worker.Follows.refl (w : Worker) : w.Follows w :=
  ⟨id, fun _ => id, fun _ => id, fun h => ⟨h, rfl⟩⟩

theorem follows_workerStep (ring : IqRing α) (o : Outcome) (w : Worker) :
    w.Follows (workerStep ring o w).1 where
  kept := busy_workerStep ring o
  assigned := fun _ => assigned_workerStep o
  roused := roused_workerStep
  quiet := quiet_workerStep o

/-- **Step of a worker.** What is known of the pool stays true. -/
theorem PoolInv.follow {p' : Pool α n} (h : PoolInv p) (hpromoter : p'.promoter = p.promoter)
    (hworkers : ∀ i, (p.workers i).Follows (p'.workers i)) : PoolInv p' := by
  have hroused : ∀ i, (p'.workers i).Roused → (p.workers i).Roused :=
    fun i => (hworkers i).roused (h.kept i)
  have hengaged : ∀ i, p'.Engaged i → p.Engaged i := by
    intro i hi
    rcases hi with hi | ⟨pr, call, hpr, hphase⟩
    · exact .inl (hroused i hi)
    · exact .inr ⟨pr, call, hpromoter ▸ hpr, hphase⟩
  refine ⟨fun i => (hworkers i).kept (h.kept i), ?_, ?_⟩
  · intro i j hne hi hj key hkey hkey'
    exact h.distinct i j hne (hengaged i hi) (hengaged j hj) key ((hworkers i).assigned key hkey)
      ((hworkers j).assigned key hkey')
  · intro pr hpr
    obtain ⟨hfull, hfound⟩ := h.promoted pr (hpromoter ▸ hpr)
    refine ⟨hfull, ?_⟩
    have hquiet : (∀ i, (p.workers i).Quiet) → ∀ i, (p'.workers i).Quiet :=
      fun hquiet i => ((hworkers i).quiet (hquiet i)).1
    have hfree : ∀ i, ((p.workers i).Roused → ¬(p.workers i).Assigned pr.slot.key) →
        (p'.workers i).Roused → ¬(p'.workers i).Assigned pr.slot.key :=
      fun i hfree hi hkey => hfree (hroused i hi) ((hworkers i).assigned _ hkey)
    unfold Pool.Found at hfound ⊢
    dsimp only at hfound ⊢
    split at hfound
    next => exact ⟨hquiet hfound.1, fun j hj => hfree j (hfound.2 j hj)⟩
    next =>
      refine ⟨hquiet hfound.1, ?_, fun j hj => hfree j (hfound.2.2 j hj)⟩
      rw [Worker.applied, ((hworkers _).quiet (hfound.1 _)).2]
      exact hfound.2.1
    next => exact ⟨hquiet hfound.1, fun j => hfree j (hfound.2 j)⟩
    next => exact ⟨hquiet hfound.1, fun j hj => hfree j (hfound.2 j hj)⟩
    next => trivial

theorem PoolInv.setWorker (h : PoolInv p) {w : Worker} (hw : (p.workers i).Follows w) :
    PoolInv (p.setWorker i w) := by
  refine h.follow rfl fun j => ?_
  show (p.workers j).Follows (update p.workers i w j)
  by_cases hj : j = i
  · rw [hj, update_self]
    exact hw
  · rw [update_of_ne hj]
    exact .refl _

/-- **A read of the promotion.** Only its place and what it knows change. -/
theorem PoolInv.scan (h : PoolInv p) (hpr : p.promoter = some pr) {phase : PromotePhase n}
    (hphase : ∀ i call, phase ≠ .storing i call) (hfound : p.Found { pr with phase := phase }) :
    PoolInv { p with promoter := some { pr with phase := phase } } := by
  have hengaged : ∀ i, Pool.Engaged { p with promoter := some { pr with phase := phase } } i →
      p.Engaged i := by
    intro i hi
    rcases hi with hi | ⟨pr', call, hpr', hstoring⟩
    · exact .inl hi
    · obtain rfl := some.inj hpr'
      exact absurd hstoring (hphase i call)
  refine ⟨h.kept, fun i j hne hi hj => h.distinct i j hne (hengaged i hi) (hengaged j hj), ?_⟩
  intro pr' hpr'
  obtain rfl := some.inj hpr'
  exact ⟨(h.promoted pr hpr).1, hfound⟩

theorem PoolInv.release (h : PoolInv p) : PoolInv { p with promoter := none } := by
  refine ⟨h.kept, fun i j hne hi hj => h.distinct i j hne ?_ ?_, fun pr hpr => by cases hpr⟩
  · rcases hi with hi | ⟨pr, call, hpr, -⟩
    · exact .inl hi
    · cases hpr
  · rcases hj with hj | ⟨pr, call, hpr, -⟩
    · exact .inl hj
    · cases hpr

/-- **An arm.** The armed worker keeps its applied slot beside the new one, so that slot must not be
another's. -/
theorem PoolInv.arm (h : PoolInv p) (hpr : p.promoter = some pr) (hphase : pr.phase = .arm i)
    (hkeeps : ∀ j, j ≠ i → (p.workers j).state ≠ .idle → (p.workers i).applied ≠ none →
      (p.workers j).applied ≠ (p.workers i).applied) :
    PoolInv (p.dispatch pr) := by
  obtain ⟨hfull, hfound⟩ := h.promoted pr hpr
  rw [Pool.Found, hphase] at hfound
  obtain ⟨hquiet, hfree⟩ := hfound
  have hdispatch : p.dispatch pr =
      { p.setWorker i { p.workers i with slots := armSlotLocked (p.workers i).slots pr.slot } with
        promoter := some { pr with phase := .storing i (.storeStart pr.start) } } := by
    rw [Pool.dispatch, hphase]
  have hself : (p.dispatch pr).workers i =
      { p.workers i with slots := armSlotLocked (p.workers i).slots pr.slot } := by
    rw [hdispatch]
    exact update_self i _ p.workers
  have hothers : ∀ j, j ≠ i → (p.dispatch pr).workers j = p.workers j := by
    intro j hj
    rw [hdispatch]
    exact update_of_ne hj _ p.workers
  have hroused : ∀ j, j ≠ i → (p.dispatch pr).Engaged j → (p.workers j).Roused := by
    intro j hj hengaged
    rcases hengaged with hroused | ⟨pr', call, hpr', hstoring⟩
    · rw [hothers j hj] at hroused
      exact hroused
    · rw [hdispatch] at hpr'
      obtain rfl := some.inj hpr'
      exact absurd (PromotePhase.storing.inj hstoring).1.symm hj
  have hclear : ∀ j, j ≠ i → (p.dispatch pr).Engaged j → ∀ key,
      ((p.dispatch pr).workers i).Assigned key → ¬(p.workers j).Assigned key := by
    intro j hj hengaged key hkey hkey'
    have hroused := hroused j hj hengaged
    rw [hself] at hkey
    rcases assigned_armSlot hfull hkey with hold | rfl
    · have happlied := (hquiet i).assigned_iff.mp hold
      refine hkeeps j hj ((hquiet j).roused_iff.mp hroused) ?_ ?_
      · rw [happlied]
        exact some_ne_none key
      · rw [happlied, (hquiet j).assigned_iff.mp hkey']
    · exact hfree j hj hroused hkey'
  refine ⟨fun j => ?_, fun a b hne ha hb key hkey hkey' => ?_, fun pr' hpr' => ?_⟩
  · by_cases hj : j = i
    · rw [hj, hself]
      exact h.kept i
    · rw [hothers j hj]
      exact h.kept j
  · by_cases hai : a = i
    · subst hai
      rw [hothers b hne.symm] at hkey'
      exact hclear b hne.symm hb key hkey hkey'
    · rw [hothers a hai] at hkey
      by_cases hbi : b = i
      · subst hbi
        exact hclear a hai ha key hkey' hkey
      · rw [hothers b hbi] at hkey'
        exact h.distinct a b hne (.inl (hroused a hai ha)) (.inl (hroused b hbi hb)) key hkey hkey'
  · rw [hdispatch] at hpr'
    obtain rfl := some.inj hpr'
    exact ⟨hfull, trivial⟩

theorem PoolInv.store (h : PoolInv p) (hpr : p.promoter = some pr) {call : ArmCall}
    (hphase : pr.phase = .storing i call) : PoolInv (p.dispatch pr) := by
  have hdispatch : p.dispatch pr =
      { p.setWorker i (armStore (p.workers i) call).1 with
        promoter := (armStore (p.workers i) call).2.map fun call =>
          { pr with phase := .storing i call } } := by
    rw [Pool.dispatch, hphase]
  have hassigned : ∀ j, ((p.dispatch pr).workers j).Assigned = (p.workers j).Assigned := by
    intro j
    have hslots : ((p.dispatch pr).workers j).slots = (p.workers j).slots := by
      rw [hdispatch]
      show (update p.workers i _ j).slots = _
      by_cases hj : j = i
      · rw [hj, update_self, slots_armStore]
      · rw [update_of_ne hj]
    funext key
    rw [Worker.Assigned, Worker.Assigned, Worker.applied, Worker.applied, hslots]
  have hengaged : ∀ j, (p.dispatch pr).Engaged j → p.Engaged j := by
    intro j hengaged
    by_cases hj : j = i
    · exact .inr ⟨pr, call, hpr, hj ▸ hphase⟩
    · rw [hdispatch] at hengaged
      rcases hengaged with hroused | ⟨pr', call', hpr', hstoring⟩
      · change (update p.workers i _ j).Roused at hroused
        rw [update_of_ne hj] at hroused
        exact .inl hroused
      · obtain ⟨call'', -, rfl⟩ := map_eq_some_iff.mp hpr'
        exact absurd (PromotePhase.storing.inj hstoring).1.symm hj
  refine ⟨fun j => ?_, fun a b hne ha hb => ?_, fun pr' hpr' => ?_⟩
  · rw [hdispatch]
    show (update p.workers i _ j).Kept
    by_cases hj : j = i
    · rw [hj, update_self]
      exact busy_armStore (h.kept i) call
    · rw [update_of_ne hj]
      exact h.kept j
  · rw [hassigned, hassigned]
    exact h.distinct a b hne (hengaged a ha) (hengaged b hb)
  · rw [hdispatch] at hpr'
    obtain ⟨call', -, rfl⟩ := map_eq_some_iff.mp hpr'
    exact ⟨(h.promoted pr hpr).1, trivial⟩

/-- The worker that the next step of a promotion arms. -/
def Promotion.target (pr : Promotion n) : Option (Fin n) :=
  match pr.phase with
  | .arm i => some i
  | _ => none

/-- A promotion finds every earlier arm handled, and its slot is given in full; the worker it arms
has no slot applied that a worker not idle has applied too. -/
def Pool.Caught (cfg : PoolConfig) (p : Pool α n) : PoolStep α n → Prop
  | .promote freqHz bwHz sf cr now =>
    p.promoter = none → (∀ i, (p.workers i).Quiet) ∧
      (promotion (n := n) cfg freqHz bwHz sf cr now).slot.Full
  | .dispatch =>
    ∀ i, p.promoter.bind Promotion.target = some i → ∀ j, j ≠ i → (p.workers j).state ≠ .idle →
      (p.workers i).applied ≠ none → (p.workers j).applied ≠ (p.workers i).applied
  | _ => True

instance (cfg : PoolConfig) (p : Pool α n) : (x : PoolStep α n) → Decidable (p.Caught cfg x)
  | .promote .. => inferInstanceAs (Decidable (_ → _ ∧ _))
  | .dispatch => inferInstanceAs (Decidable (∀ _, _ → ∀ _, _ → _ → _ → _))
  | .append _ | .work _ _ | .stop _ => .isTrue trivial

theorem poolInv_dispatch {cfg : PoolConfig} (h : PoolInv p) (hpr : p.promoter = some pr)
    (hcaught : p.Caught cfg .dispatch) : PoolInv (p.dispatch pr) := by
  obtain ⟨hfull, hfound⟩ := h.promoted pr hpr
  cases hphase : pr.phase with
  | matchSlot i =>
    rw [Pool.Found, hphase] at hfound
    obtain ⟨hquiet, hfree⟩ := hfound
    rw [Pool.dispatch, hphase]
    dsimp only
    split
    next hi =>
      split
      next hmatch =>
        exact h.scan hpr (by simp) ⟨hquiet, hmatch, hfree⟩
      next hmatch =>
        refine h.scan hpr (by simp) ⟨hquiet, fun j hj hroused => ?_⟩
        rcases Nat.lt_succ_iff_lt_or_eq.mp hj with hlt | heq
        · exact hfree j hlt hroused
        · obtain rfl : j = ⟨i, hi⟩ := Fin.ext heq
          exact fun hkey => hmatch ((hquiet _).assigned_iff.mp hkey)
    next hi =>
      exact h.scan hpr (by simp) ⟨hquiet, fun j => hfree j (by omega)⟩
  | matchState i =>
    rw [Pool.Found, hphase] at hfound
    obtain ⟨hquiet, happlied, hfree⟩ := hfound
    rw [Pool.dispatch, hphase]
    dsimp only
    split
    next hstate =>
      -- the worker is engaged with this slot, so no other one is
      refine h.scan hpr (by simp) ⟨hquiet, fun j hj hroused => ?_⟩
      exact h.distinct i j hj.symm (.inl (.inl hstate)) (.inl hroused) _ (.inl happlied)
    next hstate =>
      refine h.scan hpr (by simp) ⟨hquiet, fun j hj hroused => ?_⟩
      rcases Nat.lt_succ_iff_lt_or_eq.mp hj with hlt | heq
      · exact hfree j hlt hroused
      · obtain rfl : j = i := Fin.ext heq
        exact absurd ((hquiet j).roused_iff.mp hroused) hstate
  | findIdle i =>
    rw [Pool.Found, hphase] at hfound
    obtain ⟨hquiet, hfree⟩ := hfound
    rw [Pool.dispatch, hphase]
    dsimp only
    split
    next hi =>
      split
      · exact h.scan hpr (by simp) ⟨hquiet, fun j _ => hfree j⟩
      · exact h.scan hpr (by simp) ⟨hquiet, hfree⟩
    next => exact h.release
  | arm i =>
    refine h.arm hpr hphase (hcaught i ?_)
    rw [hpr, bind_some, Promotion.target, hphase]
  | storing i call => exact h.store hpr hphase

theorem poolInv_step {cfg : PoolConfig} (h : PoolInv p) {x : PoolStep α n}
    (hcaught : p.Caught cfg x) : PoolInv (p.step cfg x) := by
  cases x with
  | append samples => exact h.follow rfl fun i => .refl _
  | promote freqHz bwHz sf cr now =>
    rw [Pool.step]
    split
    next hnone =>
      obtain ⟨hquiet, hfull⟩ := hcaught hnone
      have hengaged : ∀ i, Pool.Engaged { p with
          promoter := some (Pool.promotion cfg freqHz bwHz sf cr now) } i → p.Engaged i := by
        rintro i (hi | ⟨pr, call, hpr, hstoring⟩)
        · exact .inl hi
        · obtain rfl := some.inj hpr
          cases hstoring
      refine ⟨h.kept, fun i j hne hi hj => h.distinct i j hne (hengaged i hi) (hengaged j hj), ?_⟩
      intro pr hpr
      obtain rfl := some.inj hpr
      exact ⟨hfull, hquiet, fun j hj => absurd hj (Nat.not_lt_zero _)⟩
    next => exact h
  | dispatch =>
    rw [Pool.step]
    split
    next => exact h
    next pr hpr => exact poolInv_dispatch h hpr hcaught
  | work i o => exact h.setWorker (follows_workerStep p.ring o _)
  | stop i =>
    exact h.setWorker ⟨id, fun _ => id, fun _ => id,
      fun hquiet => ⟨⟨hquiet.armPending, hquiet.pendingSlotChange, hquiet.stage⟩, rfl⟩⟩

theorem poolInv_start {sampRate : ℚ} {cfg : Slot} {decoderOk : Bool} {workers : Fin n → Worker}
    (hcreate : ∀ i, focusedWorkerCreate sampRate cfg decoderOk = some (workers i))
    (ring : IqRing α) : PoolInv (Pool.start ring workers) := by
  have hidle : ∀ i, ¬(Pool.start ring workers).Engaged i := by
    rintro i (hroused | ⟨pr, call, hpr, -⟩)
    · have hfresh := fresh_create (hcreate i)
      rcases hroused with hstate | harm | hhandling
      · exact hstate rfl
      · exact absurd harm (by simp [Pool.start, focusedWorkerStart, hfresh.not_armed])
      · exact absurd hhandling
          (by simp [Pool.start, focusedWorkerStart, hfresh.stage, Stage.handling])
    · cases hpr
  refine ⟨fun i => ?_, fun i _ _ hi => absurd hi (hidle i), fun pr hpr => by cases hpr⟩
  have hstage := (fresh_create (hcreate i)).stage
  exact fun hbusy => absurd hbusy (by simp [Pool.start, focusedWorkerStart, hstage, Stage.Busy])

/-- **Coalescing.** In every interleaving in which each promotion finds every earlier arm handled
and arms a worker that keeps no slot of another one, no two workers that are not idle are assigned
to one slot, applied or pending. -/
theorem pool_coalesced (sampRate : ℚ) (slot : Slot) (decoderOk : Bool) {workers : Fin n → Worker}
    (hcreate : ∀ i, focusedWorkerCreate sampRate slot decoderOk = some (workers i))
    (ring : IqRing α) (cfg : PoolConfig) (before after : List (PoolStep α n))
    (hcaught : Runs.Along (Pool.step cfg) (Pool.Caught cfg) (Pool.start ring workers)
      (before ++ after)) :
    ((Pool.start ring workers).run cfg before).Coalesced := by
  have hbefore := (Runs.along_append.mp hcaught).1
  exact (Runs.along_invariant (I := PoolInv) (fun _ _ hcaught h => poolInv_step h hcaught)
    (poolInv_start hcreate ring) hbefore).coalesced

/-! ## Two workers -/

def twoWorkers : Pool Nat 2 := Pool.start quietRing fun _ => idleWorker

/-- A preamble lock on a channel, and `m` steps of the dispatcher. -/
def locked (slot : Slot) (m : Nat) : List (PoolStep Nat 2) :=
  .promote slot.channelHz slot.bwHz slot.sf slot.cr 0 :: List.replicate m .dispatch

/-- `m` steps of a worker, whose timers expire or do not. -/
def workOf (i : Fin 2) (m : Nat) (expired : Bool) : List (PoolStep Nat 2) :=
  List.replicate m (.work i ⟨true, expired, false⟩)

/-- Each worker handles its arm before the next lock; the third lock is again on the first slot. -/
def handledLocks : List (PoolStep Nat 2) :=
  locked longFast 8 ++ workOf 0 5 false ++ locked shortTurbo 9 ++ workOf 1 5 false ++ locked longFast 6

theorem pool_coalesced_handledLocks :
    let p := twoWorkers.run ⟨1, 0⟩ handledLocks
    p.Coalesced ∧ (p.workers 0).state = .decoding ∧ (p.workers 1).state = .decoding ∧
      (p.workers 0).Assigned longFast.key ∧ (p.workers 1).Assigned shortTurbo.key := by
  refine ⟨?_, by decide +kernel⟩
  exact pool_coalesced 2000000 ⟨0, 0, 0, 0, 1⟩ true (fun _ => rfl) quietRing ⟨1, 0⟩ handledLocks []
    (by decide +kernel)

/-- The first worker times out on one slot and the second on another; the first takes the second's
slot and the second, which still has it, a third. -/
def staleSlot : List (PoolStep Nat 2) :=
  locked shortTurbo 8 ++ workOf 0 5 false ++ locked longFast 9 ++ workOf 1 5 false ++
    workOf 0 7 true ++ workOf 1 7 true ++ locked longFast 9 ++ workOf 0 4 false ++ locked shortTurbo 9

/-- A second lock comes before the first worker has looked at its flag, and the dispatcher takes the
second worker; and an idle worker is armed that still has the slot of another. -/
theorem coalescing_missed :
    ¬(twoWorkers.run ⟨1, 0⟩ (locked longFast 8 ++ locked longFast 9)).Coalesced ∧
      ¬(twoWorkers.run ⟨1, 0⟩ staleSlot).Coalesced :=
  ⟨fun h => h 0 1 (by decide) (by decide +kernel) (by decide +kernel) longFast.key (by decide +kernel)
      (by decide +kernel),
    fun h => h 0 1 (by decide) (by decide +kernel) (by decide +kernel) longFast.key (by decide +kernel)
      (by decide +kernel)⟩

end MeshcoreSniffer.Sdr
