import MeshcoreSniffer.Sdr.FocusedWorker

/-!
# Which arm wins

Arm calls on a focused worker overwrite each other's pending slot; the change detection compares
with the applied slot only. So the last arm call decides, unless it asks for the applied slot while
another one is pending.
-/

namespace MeshcoreSniffer.Sdr

open Lib

variable {α : Type*}

namespace Focus

def Applies (s : Focus α) : FocusStep α → Prop
  | .work o =>
    s.worker.stage = .armed → s.worker.slots.pendingSlotChange = true →
      (applySlotLocked s.worker.slots o.decoderOk).2 = true
  | _ => True

instance (s : Focus α) : (x : FocusStep α) → Decidable (s.Applies x)
  | .work _ => inferInstanceAs (Decidable (_ → _ → _))
  | .append _ | .armSlot _ _ | .arm _ | .advance _ | .stop => isTrue trivial

def NoArmSlot (_ : Focus α) (x : FocusStep α) : Prop := ∀ request start, x ≠ .armSlot request start

/-- No arm call is under way and the worker has taken the last flag and the slot behind it. -/
structure Settled (s : Focus α) : Prop where
  calls : s.calls = []
  armPending : s.worker.armPending = false
  stage : s.worker.stage ≠ .armed

def Flagged (s : Focus α) : Prop :=
  s.worker.slots.pendingSlotChange = true →
    s.worker.armPending = true ∨ s.calls ≠ [] ∨ s.worker.stage = .armed

variable {s : Focus α}

theorem sound_step (h : s.worker.slots.Sound) (x : FocusStep α) :
    (s.step x).worker.slots.Sound := by
  cases x with
  | append samples => exact h
  | armSlot request start => exact h.arm request
  | arm start => exact h
  | advance i =>
    rw [step]
    split
    next => exact h
    next call _ =>
      show (armStore s.worker call).1.slots.Sound
      rw [slots_armStore]
      exact h
  | work o => exact sound_workerStep s.ring o h
  | stop => exact h

theorem flagged_step (h : s.Flagged) (x : FocusStep α) : (s.step x).Flagged := by
  cases x with
  | append samples => exact h
  | armSlot request start => exact fun _ => .inr (.inl (by simp [step]))
  | arm start => exact fun _ => .inr (.inl (by simp [step]))
  | advance i =>
    rw [step]
    split
    next => exact h
    next call hcall =>
      have hcalls : s.calls ≠ [] := by
        intro hnil
        rw [hnil] at hcall
        cases hcall
      intro _
      cases call with
      | storeStart start => exact .inr (.inl (by simpa [armStore] using hcalls))
      | storeState => exact .inr (.inl (by simpa [armStore] using hcalls))
      | storePending => exact .inl rfl
  | work o =>
    intro hpending
    change (workerStep s.ring o s.worker).1.slots.pendingSlotChange = true at hpending
    show (workerStep s.ring o s.worker).1.armPending = true ∨ s.calls ≠ [] ∨
      (workerStep s.ring o s.worker).1.stage = .armed
    rcases workerStep_slots s.ring o s.worker with
      ⟨-, -, -, -, hstage⟩ | ⟨-, -, hslots, -, -⟩ | ⟨hslots, harm, -, harmed⟩
    · exact .inr (.inr hstage)
    · rw [hslots] at hpending
      cases hpending
    · rw [hslots] at hpending
      rw [harm]
      rcases h hpending with hflag | hcalls | hstage
      · exact .inl hflag
      · exact .inr (.inl hcalls)
      · rw [(harmed hstage).1] at hpending
        cases hpending
  | stop => exact h

/-- **Step.** Only an arm call turns the slots. -/
theorem heading_step (hsound : s.worker.slots.Sound) {x : FocusStep α} (hno : s.NoArmSlot x)
    (happlies : s.Applies x) : (s.step x).worker.slots.heading = s.worker.slots.heading := by
  cases x with
  | append samples => rfl
  | armSlot request start => exact absurd rfl (hno request start)
  | arm start => rfl
  | advance i =>
    rw [step]
    split
    next => rfl
    next call _ =>
      show (armStore s.worker call).1.slots.heading = _
      rw [slots_armStore]
  | work o =>
    show (workerStep s.ring o s.worker).1.slots.heading = _
    rcases workerStep_slots s.ring o s.worker with
      ⟨-, -, hslots, -⟩ | ⟨hstage, hpending, hslots, -⟩ | ⟨hslots, -⟩
    · rw [hslots]
    · have hok := happlies hstage hpending
      rw [hslots]
      exact SlotState.heading_apply hsound hpending
        (decim_pos_of_apply (hsound.pending_pos hpending) hok) o.decoderOk
    · rw [hslots]
  | stop => rfl

/-- **Run.** The slots keep their heading through every interleaving without an arm call. -/
theorem heading_run (hsound : s.worker.slots.Sound) {steps : List (FocusStep α)}
    (hno : ∀ request start, FocusStep.armSlot request start ∉ steps)
    (happlies : s.Along Applies steps) :
    (s.run steps).worker.slots.heading = s.worker.slots.heading := by
  induction steps generalizing s with
  | nil => rfl
  | cons x steps ih =>
    have hhead : s.NoArmSlot x := fun request start heq =>
      hno request start (heq ▸ List.mem_cons_self)
    rw [← heading_step hsound hhead happlies.1]
    exact ih (sound_step hsound x)
      (fun request start hmem => hno request start (List.mem_cons_of_mem x hmem)) happlies.2

theorem sound_run (h : s.worker.slots.Sound) (steps : List (FocusStep α)) :
    (s.run steps).worker.slots.Sound :=
  Runs.run_invariant (I := fun s : Focus α => s.worker.slots.Sound) (fun _ x h => sound_step h x) h steps

theorem flagged_run (h : s.Flagged) (steps : List (FocusStep α)) : (s.run steps).Flagged :=
  Runs.run_invariant (I := Flagged) (fun _ x h => flagged_step h x) h steps

theorem current_of_settled (hflagged : s.Flagged) (h : s.Settled) :
    s.worker.slots.current = s.worker.slots.heading := by
  cases hpending : s.worker.slots.pendingSlotChange with
  | false => exact (SlotState.heading_of_not_pending hpending).symm
  | true =>
    rcases hflagged hpending with harm | hcalls | hstage
    · rw [h.armPending] at harm
      cases harm
    · exact absurd h.calls hcalls
    · exact absurd hstage h.stage

def Masked (s : Focus α) (slot : Slot) : Prop :=
  s.worker.slots.current = some slot ∧ s.worker.slots.pendingSlotChange = true ∧
    s.worker.slots.pending.applied ≠ slot

end Focus

/-- **The last arm call.** Through every interleaving in which every application succeeds, once
nothing is under way the worker has the slot of the last arm call exactly if that call did not find
its slot applied with another one pending. -/
theorem last_arm_wins_iff (sampRate : ℚ) (cfg : Slot) (decoderOk : Bool) {w : Worker}
    (hcreate : focusedWorkerCreate sampRate cfg decoderOk = some w) (ring : IqRing α)
    (startSample : Nat) (sticky : Bool) (before after : List (FocusStep α)) {slot : Slot}
    (hfull : slot.Full) (start : Nat)
    (hlast : ∀ request start, FocusStep.armSlot request start ∉ after)
    (happlies : (Focus.start ring w startSample sticky).Along Focus.Applies
      (before ++ .armSlot slot start :: after))
    (hsettled : ((Focus.start ring w startSample sticky).run
      (before ++ .armSlot slot start :: after)).Settled) :
    ((Focus.start ring w startSample sticky).run
        (before ++ .armSlot slot start :: after)).worker.slots.current = some slot.applied ↔
      ¬((Focus.start ring w startSample sticky).run before).Masked slot := by
  have hfresh := fresh_create hcreate
  have hsound : ((Focus.start ring w startSample sticky).run before).worker.slots.Sound :=
    Focus.sound_run hfresh.sound before
  have hflagged : ((Focus.start ring w startSample sticky).run
      (before ++ .armSlot slot start :: after)).Flagged := by
    apply Focus.flagged_run
    intro hpending
    rw [show (Focus.start ring w startSample sticky).worker.slots.pendingSlotChange = false from
      hfresh.none_pending] at hpending
    cases hpending
  rw [Focus.along_append] at happlies
  rw [Focus.current_of_settled hflagged hsettled, Focus.run_append]
  generalize (Focus.start ring w startSample sticky).run before = s at hsound happlies ⊢
  -- the heading after the last arm call is the heading at the end
  show ((s.step (.armSlot slot start)).run after).worker.slots.heading = _ ↔ _
  rw [Focus.heading_run (Focus.sound_step hsound _) hlast happlies.2.2]
  show (armSlotLocked s.worker.slots slot).heading = _ ↔ _
  rw [SlotState.heading_arm hfull, Focus.Masked]
  by_cases hcur : s.worker.slots.current = some slot
  · have hset : s.worker.slots.curSet = true ∧ s.worker.slots.cur = slot := by
      rw [SlotState.current] at hcur
      split at hcur
      next hset => exact ⟨hset, Option.some.inj hcur⟩
      next => cases hcur
    have happlied : slot.applied = slot := by
      rw [← hset.2]
      exact hsound.cur_applied hset.1
    rw [if_pos hcur, happlied, SlotState.heading]
    cases hpending : s.worker.slots.pendingSlotChange with
    | false => simp [hset.1, hset.2]
    | true => simp [hcur]
  · rw [if_neg hcur]
    exact iff_of_true rfl fun hmasked => hcur hmasked.1

/-! ## Two arms before the worker looks -/

def finishCall : List (FocusStep Nat) := [.advance 0, .advance 0, .advance 0]

/-- The worker takes the first slot. -/
def firstArm : List (FocusStep Nat) := .armSlot longFast 0 :: finishCall ++ works 3

theorem last_arm_wins_iff_second :
    ((Focus.start quietRing idleWorker 0 false).run
        (firstArm ++ .armSlot shortTurbo 0 :: (finishCall ++ works 7))).worker.slots.current =
      some shortTurbo.applied := by
  have hmain := last_arm_wins_iff (w := idleWorker) 2000000 ⟨0, 0, 0, 0, 1⟩ true rfl quietRing 0
    false firstArm (finishCall ++ works 7) (by decide : shortTurbo.Full) 0 (by simp [finishCall, works])
    (by decide +kernel) ⟨by decide +kernel, by decide +kernel, by decide +kernel⟩
  refine hmain.mpr fun hmasked => ?_
  exact absurd hmasked.2.1 (by decide +kernel)

/-- Armed for a second slot and for the first one again, the worker ends on the second. -/
def maskedArms : List (FocusStep Nat) := firstArm ++ .armSlot shortTurbo 0 :: finishCall

theorem masked_arm_loses :
    let s := (Focus.start quietRing idleWorker 0 false).run
      (maskedArms ++ .armSlot longFast 0 :: (finishCall ++ works 7))
    (Focus.start quietRing idleWorker 0 false).Along Focus.Applies
        (maskedArms ++ .armSlot longFast 0 :: (finishCall ++ works 7)) ∧
      s.Settled ∧ s.worker.slots.current = some shortTurbo := by
  refine ⟨by decide +kernel, ⟨?_, ?_, ?_⟩, ?_⟩ <;> decide +kernel

end MeshcoreSniffer.Sdr
