import MeshcoreSniffer.Lib.Runs

/-!
# The end of a capture

`CaptureConfig.Run` moves observations from the subscriber's channel into the database until its
context is cancelled; its `select` may then leave while the channel still holds some.
-/

namespace MeshcoreSniffer.Wardrive

open Lib.Runs

inductive Loop
  | selecting
  | ending
  | returned
  deriving DecidableEq

/-- The subscriber with the observation it offers, the channel, the context, the sniffer and the
loop; `put` is what ever was on the channel. -/
structure Capture (α : Type*) where
  hand : Option α := none
  subscribed : Bool := true
  channel : List α := []
  cancelled : Bool := false
  snifferDone : Bool := false
  closedSeen : Bool := false
  loop : Loop := .selecting
  put : List α := []
  inserted : List α := []
  deriving DecidableEq

/-- The subscriber gets an event, puts it, or returns; the context is cancelled, the sniffer exits;
the loop takes a case, or gets the sniffer's result. -/
inductive CaptureStep (α : Type*)
  | event (o : α)
  | put
  | unsubscribe
  | cancel
  | exit
  | take
  | done
  | finish
  deriving DecidableEq

variable {α : Type*}

/-- A step that is not enabled does nothing; the run ends where `Run` returns. -/
def Capture.step (c : Capture α) (x : CaptureStep α) : Capture α :=
  if c.loop = .returned then c
  else
    match x with
    | .event o => if c.subscribed && c.hand.isNone then { c with hand := some o } else c
    | .put =>
      match c.hand with
      | none => c
      | some o =>
        if c.channel.length < 256 then
          { c with hand := none, channel := c.channel ++ [o], put := c.put ++ [o] }
        else c
    | .unsubscribe =>
      if c.hand.isNone || c.cancelled then { c with hand := none, subscribed := false } else c
    | .cancel => { c with cancelled := true }
    | .exit => { c with snifferDone := true }
    | .take =>
      if c.loop = .ending || c.closedSeen then c
      else
        match c.channel with
        | o :: rest => { c with channel := rest, inserted := c.inserted ++ [o] }
        | [] => if c.subscribed then c else { c with closedSeen := true, cancelled := true }
    | .done => if c.cancelled then { c with loop := .ending } else c
    | .finish => if c.loop = .ending && c.snifferDone then { c with loop := .returned } else c

structure Accounted (c : Capture α) : Prop where
  put : c.put = c.inserted ++ c.channel
  hand : c.subscribed = false → c.hand = none
  closed : c.closedSeen = true → c.subscribed = false ∧ c.channel = []
  ending : c.loop ≠ .selecting → c.closedSeen = true

/-- The loop leaves through the cancellation only once it has seen the channel closed. -/
def Drains (c : Capture α) (x : CaptureStep α) : Prop := x = .done → c.closedSeen = true

instance [DecidableEq α] (c : Capture α) (x : CaptureStep α) : Decidable (Drains c x) :=
  inferInstanceAs (Decidable (x = .done → c.closedSeen = true))

theorem Accounted.step {c : Capture α} (h : Accounted c) {x : CaptureStep α} (hx : Drains c x) :
    Accounted (c.step x) := by
  obtain ⟨hput, hhand, hclosed, hending⟩ := h
  unfold Capture.step
  split
  next => exact ⟨hput, hhand, hclosed, hending⟩
  next =>
    cases x with
    | event o =>
      dsimp only
      split
      next hgets =>
        have hon : c.subscribed = true := (Bool.and_eq_true _ _ ▸ hgets).1
        exact ⟨hput, fun hoff => absurd (hon.symm.trans hoff) (by decide), hclosed, hending⟩
      next => exact ⟨hput, hhand, hclosed, hending⟩
    | put =>
      dsimp only
      split
      next => exact ⟨hput, hhand, hclosed, hending⟩
      next o ho =>
        split
        next =>
          refine ⟨?_, fun _ => rfl, fun hseen => ?_, hending⟩
          · rw [hput, List.append_assoc]
          · -- with an observation in hand the subscriber has not closed the channel
            have hnone := hhand (hclosed hseen).1
            cases ho.symm.trans hnone
        next => exact ⟨hput, hhand, hclosed, hending⟩
    | unsubscribe =>
      dsimp only
      split
      · exact ⟨hput, fun _ => rfl, fun hseen => ⟨rfl, (hclosed hseen).2⟩, hending⟩
      · exact ⟨hput, hhand, hclosed, hending⟩
    | cancel => exact ⟨hput, hhand, hclosed, hending⟩
    | exit => exact ⟨hput, hhand, hclosed, hending⟩
    | take =>
      dsimp only
      split
      next => exact ⟨hput, hhand, hclosed, hending⟩
      next hopen =>
        have hseen : c.closedSeen ≠ true := fun hseen => hopen (by simp [hseen])
        split
        next o rest hchannel =>
          refine ⟨?_, hhand, fun h => absurd h hseen, hending⟩
          rw [hput, hchannel, List.append_assoc, List.singleton_append]
        next hchannel =>
          split
          next => exact ⟨hput, hhand, hclosed, hending⟩
          next hoff =>
            exact ⟨hput, hhand, fun _ => ⟨Bool.eq_false_iff.mpr hoff, hchannel⟩, fun _ => rfl⟩
    | done =>
      dsimp only
      split
      · exact ⟨hput, hhand, hclosed, fun _ => hx rfl⟩
      · exact ⟨hput, hhand, hclosed, hending⟩
    | finish =>
      dsimp only
      split
      next hfinish =>
        refine ⟨hput, hhand, hclosed, fun _ => hending fun hsel => ?_⟩
        simp [hsel] at hfinish
      next => exact ⟨hput, hhand, hclosed, hending⟩

/-- **Shutdown.** In every run in which the loop leaves through the cancellation only after it has
seen the channel closed, everything that was put on the channel is inserted when `Run` returns. -/
theorem capture_complete (steps : List (CaptureStep α)) (h : Along Capture.step Drains {} steps)
    (hreturned : (run Capture.step {} steps).loop = .returned) :
    (run Capture.step {} steps).inserted = (run Capture.step {} steps).put := by
  have hstart : Accounted ({} : Capture α) :=
    ⟨rfl, fun _ => rfl, nofun, fun hno => absurd rfl hno⟩
  have haccounted := along_invariant (I := Accounted) (fun _ _ hx hc => hc.step hx) hstart h
  have hseen := haccounted.ending (by rw [hreturned]; decide)
  rw [haccounted.put, (haccounted.closed hseen).2, List.append_nil]

/-- Of two observations on the channel one is inserted before everything ends, the other after. -/
def drained : List (CaptureStep Nat) :=
  [.event 1, .put, .event 2, .put, .take, .exit, .cancel, .take, .unsubscribe, .take, .done, .finish]

theorem capture_complete_drained : (run Capture.step {} drained).inserted = [1, 2] ∧
    (run Capture.step {} drained).inserted = (run Capture.step {} drained).put :=
  ⟨by decide, capture_complete drained (by decide) (by decide)⟩

theorem cancelled_with_buffered :
    (run Capture.step {} [.event 1, .put, .exit, .cancel, .done, .finish]).loop = .returned ∧
    (run Capture.step {} [.event 1, .put, .exit, .cancel, .done, .finish]).put = [1] ∧
    (run Capture.step {} [.event 1, .put, .exit, .cancel, .done, .finish]).inserted = [] := by
  decide

end MeshcoreSniffer.Wardrive
