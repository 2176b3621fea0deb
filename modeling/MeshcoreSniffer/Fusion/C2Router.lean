import MeshcoreSniffer.Lib.CString
import MeshcoreSniffer.Lib.Mealy

/-!
# Commands and replies at the ROUTER

`fusion/c2_router.go`: `SendCommand` registers a channel for an id, sends the envelope and waits;
the read loop puts a reply into the channel of its id. Each atomic action is one event. A registered
id leads to its call (`Registered`), every reply came in a frame with that id (`Accounted.run`), and
a call leaves its wait once (`returns_le_one`).
-/

namespace MeshcoreSniffer.Fusion.C2

open Lib List Function Option

structure DealerReply where
  status : Int
  body : List Byte
  deriving DecidableEq, Repr

/-- The probe a frame is decoded into; an absent event is the empty text. -/
structure Probe where
  event : List Byte
  id : Option (BitVec 64)
  status : Int
  body : List Byte
  deriving DecidableEq, Repr

/-- `dealerSession`, without the latency rings. -/
structure DealerSession where
  lastSeen : Int
  heartbeats : Nat
  commandsSent : Nat
  commandsReplied : Nat
  commandsTimedOut : Nat
  deriving DecidableEq, Repr

/-- How far a call of `SendCommand` has come. -/
inductive Phase where
  | numbered | registered | waiting | returning | finished
  deriving DecidableEq, Repr

/-- A call of `SendCommand` that passed its checks, with its channel of capacity one. -/
structure Call where
  identity : List Byte
  cmd : List Byte
  body : List Byte
  id : BitVec 64
  phase : Phase
  channel : Option DealerReply
  deriving DecidableEq, Repr

/-- What `SendCommand` returns once it has an id. -/
inductive Result where
  | reply (r : DealerReply)
  | sendFailed
  | timedOut
  deriving DecidableEq, Repr

inductive Output where
  | noSession (identity : List Byte)
  | returned (call : Nat) (result : Result)
  deriving DecidableEq, Repr

/-- With the calls in flight. `inHand` is a reply that is matched and not yet in the channel of its
call. -/
structure DealerHub where
  sessions : List Byte → Option DealerSession
  pending : BitVec 64 → Option Nat
  nextId : BitVec 64
  calls : List Call
  inHand : Option (Nat × DealerReply)

inductive HubEvent where
  | sendCommand (identity cmd body : List Byte) (now : Int)
  | register (call : Nat)
  | send (call : Nat) (accepted : Bool)
  | takeReply (call : Nat)
  | timeout (call : Nat)
  | cleanup (call : Nat)
  | recv (frames : List (List Byte)) (now : Int)
  | deliver
  deriving DecidableEq, Repr

def newDealerHub : DealerHub where
  sessions := fun _ => none
  pending := fun _ => none
  nextId := 0
  calls := []
  inHand := none

def DealerHub.hasSession (d : DealerHub) (identity : List Byte) (now : Int) : Bool :=
  match d.sessions identity with
  | none => false
  | some s => decide (now - s.lastSeen < 90000000000)

def DealerHub.touchSession (d : DealerHub) (identity : List Byte) (now : Int) : DealerHub :=
  let s := (d.sessions identity).getD ⟨now, 0, 0, 0, 0⟩
  { d with
    sessions := Function.update d.sessions identity
      (some { s with heartbeats := s.heartbeats + 1, lastSeen := now }) }

def DealerHub.recordCommand (d : DealerHub) (identity : List Byte) (replied : Bool) : DealerHub :=
  match d.sessions identity with
  | none => d
  | some s =>
    { d with
      sessions := Function.update d.sessions identity
        (some { s with
          commandsSent := s.commandsSent + 1
          commandsReplied := if replied then s.commandsReplied + 1 else s.commandsReplied
          commandsTimedOut := if replied then s.commandsTimedOut else s.commandsTimedOut + 1 }) }

def DealerHub.update (d : DealerHub) (k : Nat) (f : Call → Call) : DealerHub :=
  { d with calls := d.calls.modify k f }

def DealerHub.callIn (d : DealerHub) (k : Nat) (phase : Phase) : Option Call :=
  d.calls[k]?.filter (·.phase = phase)

/-- The read loop between `Recv` and the channel: a frame with an event is a heartbeat, one with an
id is matched. -/
def DealerHub.receive (decode : List Byte → Option Probe) (d : DealerHub)
    (frames : List (List Byte)) (now : Int) : DealerHub :=
  match frames with
  | identity :: payload :: _ =>
    match decode payload with
    | none => d
    | some probe =>
      let d := d.touchSession identity now
      if probe.event ≠ [] then d
      else
        { d with
          inHand := (probe.id.bind d.pending).map fun k => (k, ⟨probe.status, probe.body⟩) }
  | _ => d

def DealerHub.step (decode : List Byte → Option Probe) (d : DealerHub) :
    HubEvent → DealerHub × List Output
  | .sendCommand identity cmd body now =>
    if d.hasSession identity now then
      ({ d with
        nextId := d.nextId + 1
        calls := d.calls ++ [⟨identity, cmd, body, d.nextId + 1, .numbered, none⟩] }, [])
    else (d, [.noSession identity])
  | .register k =>
    match d.callIn k .numbered with
    | none => (d, [])
    | some c =>
      ({ d.update k fun c => { c with phase := .registered } with
        pending := Function.update d.pending c.id (some k) }, [])
  | .send k accepted =>
    match d.callIn k .registered with
    | none => (d, [])
    | some _ =>
      if accepted then (d.update k fun c => { c with phase := .waiting }, [])
      else (d.update k fun c => { c with phase := .returning }, [.returned k .sendFailed])
  | .takeReply k =>
    match d.callIn k .waiting with
    | none => (d, [])
    | some c =>
      match c.channel with
      | none => (d, [])
      | some r =>
        ((d.update k fun c => { c with phase := .returning, channel := none }).recordCommand
          c.identity true, [.returned k (.reply r)])
  | .timeout k =>
    match d.callIn k .waiting with
    | none => (d, [])
    | some c =>
      ((d.update k fun c => { c with phase := .returning }).recordCommand c.identity false,
        [.returned k .timedOut])
  | .cleanup k =>
    match d.callIn k .returning with
    | none => (d, [])
    | some c =>
      ({ d.update k fun c => { c with phase := .finished } with
        pending := Function.update d.pending c.id none }, [])
  | .recv frames now =>
    -- the loop takes no frame while it holds a reply
    match d.inHand with
    | some _ => (d, [])
    | none => (d.receive decode frames now, [])
  | .deliver =>
    match d.inHand with
    | none => (d, [])
    | some (k, r) =>
      -- a full channel drops the reply
      ({ d.update k fun c => { c with channel := some (c.channel.getD r) } with inHand := none }, [])

/-! ## What one action can do -/

variable {decode : List Byte → Option Probe} {d d' : DealerHub}

/-- The read loop takes this frame, and finds call `k` under the frame's id. -/
structure Matched (decode : List Byte → Option Probe) (d : DealerHub) (event : HubEvent)
    (sender : List Byte) (k : Nat) (c : Call) (r : DealerReply) : Prop where
  frame : ∃ payload rest now probe, event = .recv (sender :: payload :: rest) now ∧
    decode payload = some probe ∧ probe.event = [] ∧ probe.id = some c.id ∧
    r = ⟨probe.status, probe.body⟩
  idle : d.inHand = none
  pending : d.pending c.id = some k
  call : d.calls[k]? = some c

/-- What one action can do to calls, channels, pending ids and the reply in hand. -/
structure Moves (decode : List Byte → Option Probe) (d : DealerHub) (event : HubEvent)
    (d' : DealerHub) : Prop where
  kept : ∀ (k : Nat) (c : Call), d.calls[k]? = some c →
    ∃ c' : Call, d'.calls[k]? = some c' ∧ c'.identity = c.identity ∧ c'.id = c.id
  filled : ∀ (k : Nat) (c' : Call) (r : DealerReply), d'.calls[k]? = some c' →
    c'.channel = some r → ∃ c : Call, d.calls[k]? = some c ∧ c.identity = c'.identity ∧ c.id = c'.id ∧
      (c.channel = some r ∨ d.inHand = some (k, r))
  pending : ∀ (i : BitVec 64) (k : Nat), d'.pending i = some k →
    d.pending i = some k ∨ ∃ c : Call, d.calls[k]? = some c ∧ c.id = i
  inHand : ∀ (k : Nat) (r : DealerReply), d'.inHand = some (k, r) → d.inHand = some (k, r) ∨
    ∃ i, d.pending i = some k ∧
      ∀ c : Call, d.calls[k]? = some c → c.id = i → ∃ sender, Matched decode d event sender k c r

theorem Moves.refl (event : HubEvent) : Moves decode d event d where
  kept := fun _ c hc => ⟨c, hc, rfl, rfl⟩
  filled := fun _ c _ hc hr => ⟨c, hc, rfl, rfl, .inl hr⟩
  pending := fun _ _ h => .inl h
  inHand := fun _ _ h => .inl h

variable {k j : Nat} {f : Call → Call} {c : Call} {events : List HubEvent} {r : DealerReply}

theorem moves_update {event : HubEvent} (hcalls : d'.calls = d.calls.modify k f)
    (hkey : ∀ c, (f c).identity = c.identity ∧ (f c).id = c.id)
    (hchannel : ∀ c r, (f c).channel = some r → c.channel = some r ∨ d.inHand = some (k, r))
    (hpending : ∀ (i : BitVec 64) (j : Nat), d'.pending i = some j → d.pending i = some j ∨ ∃ c : Call, d.calls[j]? = some c ∧ c.id = i)
    (hhand : ∀ j r, d'.inHand = some (j, r) → d.inHand = some (j, r)) :
    Moves decode d event d' where
  kept := by
    intro j c hc
    rw [hcalls, getElem?_modify, hc]
    refine ⟨_, rfl, ?_⟩
    split
    · exact hkey c
    · exact ⟨rfl, rfl⟩
  filled := by
    intro j c' r hc' hr
    rw [hcalls, getElem?_modify] at hc'
    obtain ⟨c, hc, rfl⟩ := map_eq_some_iff.mp hc'
    by_cases hj : k = j
    · subst hj
      rw [if_pos rfl] at hr ⊢
      exact ⟨c, hc, (hkey c).1.symm, (hkey c).2.symm, hchannel c r hr⟩
    · rw [if_neg hj] at hr ⊢
      exact ⟨c, hc, rfl, rfl, .inl hr⟩
  pending := hpending
  inHand := fun j r h => .inl (hhand j r h)

theorem callIn_eq_some {phase : Phase} (h : d.callIn k phase = some c) :
    d.calls[k]? = some c ∧ c.phase = phase := by
  obtain ⟨hcall, hphase⟩ := filter_eq_some_iff.mp h
  exact ⟨hcall, by simpa using hphase⟩

theorem recordCommand_frame (d : DealerHub) (identity : List Byte) (replied : Bool) :
    (d.recordCommand identity replied).calls = d.calls ∧
      (d.recordCommand identity replied).pending = d.pending ∧
      (d.recordCommand identity replied).inHand = d.inHand := by
  rw [DealerHub.recordCommand]
  split <;> exact ⟨rfl, rfl, rfl⟩

theorem moves_receive (hidle : d.inHand = none) (frames : List (List Byte)) (now : Int) :
    Moves decode d (.recv frames now) (d.receive decode frames now) := by
  rw [DealerHub.receive.eq_def]
  split
  next identity payload rest =>
    split
    · exact Moves.refl _
    next probe hdecode =>
      split
      · exact ⟨fun _ c hc => ⟨c, hc, rfl, rfl⟩, fun _ c _ hc hr => ⟨c, hc, rfl, rfl, .inl hr⟩,
          fun _ _ h => .inl h, fun _ _ h => .inl h⟩
      next hevent =>
        refine ⟨fun _ c hc => ⟨c, hc, rfl, rfl⟩, fun _ c _ hc hr => ⟨c, hc, rfl, rfl, .inl hr⟩,
          fun _ _ h => .inl h, fun k r h => .inr ?_⟩
        obtain ⟨j, hj, hpair⟩ := map_eq_some_iff.mp h
        obtain ⟨i, hi, hpending⟩ := bind_eq_some_iff.mp hj
        cases hpair
        refine ⟨i, hpending, fun c hc hid => ⟨identity, ?_⟩⟩
        subst hid
        exact ⟨⟨payload, rest, now, probe, rfl, hdecode, not_not.mp hevent, hi, rfl⟩, hidle,
          hpending, hc⟩
  · exact Moves.refl _

theorem moves_step (decode : List Byte → Option Probe) (d : DealerHub) (event : HubEvent) :
    Moves decode d event (d.step decode event).1 := by
  cases event with
  | sendCommand identity cmd body now =>
    rw [DealerHub.step]
    split
    · -- a new call at the end, with an empty channel
      refine ⟨fun k c hc => ⟨c, ?_, rfl, rfl⟩, fun k c' r hc' hr => ?_, fun _ _ h => .inl h,
        fun _ _ h => .inl h⟩
      · rw [getElem?_append_left (List.getElem?_eq_some_iff.mp hc).1]
        exact hc
      · by_cases hk : k < d.calls.length
        · rw [getElem?_append_left hk] at hc'
          exact ⟨c', hc', rfl, rfl, .inl hr⟩
        · rw [getElem?_append_right (not_lt.mp hk)] at hc'
          rw [mem_singleton.mp (mem_of_getElem? hc')] at hr
          cases hr
    · exact Moves.refl _
  | register k =>
    rw [DealerHub.step]
    split
    · exact Moves.refl _
    next c hc =>
      refine moves_update rfl (fun _ => ⟨rfl, rfl⟩) (fun _ _ h => .inl h) ?_ fun _ _ h => h
      intro i j hj
      by_cases hi : i = c.id
      · subst hi
        rw [show (_ : DealerHub).pending c.id = some k from update_self ..] at hj
        obtain rfl := some.inj hj
        exact .inr ⟨c, (callIn_eq_some hc).1, rfl⟩
      · rw [show (_ : DealerHub).pending i = d.pending i from update_of_ne hi ..] at hj
        exact .inl hj
  | send k accepted =>
    rw [DealerHub.step]
    split
    · exact Moves.refl _
    · split <;> exact moves_update rfl (fun _ => ⟨rfl, rfl⟩) (fun _ _ h => .inl h)
        (fun _ _ h => .inl h) fun _ _ h => h
  | takeReply k =>
    rw [DealerHub.step]
    split
    · exact Moves.refl _
    split
    · exact Moves.refl _
    · obtain ⟨hcalls, hpending, hhand⟩ := recordCommand_frame
        (d.update k fun c => { c with phase := .returning, channel := none }) _ true
      exact moves_update hcalls (fun _ => ⟨rfl, rfl⟩) (fun _ _ h => nomatch h)
        (fun i j h => .inl (by rw [hpending] at h; exact h))
        fun j r h => by rw [hhand] at h; exact h
  | timeout k =>
    rw [DealerHub.step]
    split
    · exact Moves.refl _
    · obtain ⟨hcalls, hpending, hhand⟩ := recordCommand_frame
        (d.update k fun c => { c with phase := .returning }) _ false
      exact moves_update hcalls (fun _ => ⟨rfl, rfl⟩) (fun _ _ h => .inl h)
        (fun i j h => .inl (by rw [hpending] at h; exact h))
        fun j r h => by rw [hhand] at h; exact h
  | cleanup k =>
    rw [DealerHub.step]
    split
    · exact Moves.refl _
    next c hc =>
      refine moves_update rfl (fun _ => ⟨rfl, rfl⟩) (fun _ _ h => .inl h) ?_ fun _ _ h => h
      intro i j hj
      by_cases hi : i = c.id
      · subst hi
        rw [show (_ : DealerHub).pending c.id = none from update_self ..] at hj
        cases hj
      · rw [show (_ : DealerHub).pending i = d.pending i from update_of_ne hi ..] at hj
        exact .inl hj
  | recv frames now =>
    rw [DealerHub.step]
    split
    · exact Moves.refl _
    next hidle => exact moves_receive hidle frames now
  | deliver =>
    rw [DealerHub.step]
    split
    · exact Moves.refl _
    next k r hhand =>
      refine moves_update rfl (fun _ => ⟨rfl, rfl⟩) (fun c r' h => ?_) (fun _ _ h => .inl h)
        fun _ _ h => nomatch h
      cases hchannel : c.channel with
      | none =>
        simp only [hchannel, getD_none, some.injEq] at h
        exact .inr (by rw [hhand, h])
      | some held =>
        simp only [hchannel, getD_some, some.injEq] at h
        exact .inl (by rw [h])

/-! ## Where a reply comes from -/

def hubAfter (decode : List Byte → Option Probe) (events : List HubEvent) : DealerHub :=
  (Mealy.run (DealerHub.step decode) newDealerHub events).1

def actions (decode : List Byte → Option Probe) (events : List HubEvent) :
    List (DealerHub × HubEvent) :=
  Mealy.visits (DealerHub.step decode) newDealerHub events

def Origin (decode : List Byte → Option Probe) (events : List HubEvent) (k : Nat) (c : Call)
    (r : DealerReply) : Prop :=
  ∃ v ∈ actions decode events, ∃ sender c₀, Matched decode v.1 v.2 sender k c₀ r ∧
    c₀.identity = c.identity ∧ c₀.id = c.id

/-- Every pending id leads to its call, and every reply at hand has its origin. -/
structure Accounted (decode : List Byte → Option Probe) (events : List HubEvent) : Prop where
  registered : ∀ (i : BitVec 64) (k : Nat), (hubAfter decode events).pending i = some k →
    ∃ c : Call, (hubAfter decode events).calls[k]? = some c ∧ c.id = i
  channel : ∀ (k : Nat) (c : Call) (r : DealerReply),
    (hubAfter decode events).calls[k]? = some c → c.channel = some r → Origin decode events k c r
  inHand : ∀ (k : Nat) (r : DealerReply), (hubAfter decode events).inHand = some (k, r) →
    ∃ c : Call, (hubAfter decode events).calls[k]? = some c ∧ Origin decode events k c r

theorem hubAfter_snoc (events : List HubEvent) (e : HubEvent) :
    hubAfter decode (events ++ [e]) = ((hubAfter decode events).step decode e).1 := by
  rw [hubAfter, Mealy.run_append]
  rfl

theorem Origin.snoc {c' : Call} (h : Origin decode events k c r) (e : HubEvent)
    (hidentity : c'.identity = c.identity) (hid : c'.id = c.id) :
    Origin decode (events ++ [e]) k c' r := by
  obtain ⟨v, hv, sender, c₀, hmatched, hidentity₀, hid₀⟩ := h
  refine ⟨v, ?_, sender, c₀, hmatched, hidentity₀.trans hidentity.symm, hid₀.trans hid.symm⟩
  rw [actions, Mealy.visits_snoc]
  exact mem_append_left _ hv

theorem Accounted.snoc (h : Accounted decode events) (e : HubEvent) :
    Accounted decode (events ++ [e]) := by
  have hmoves := moves_step decode (hubAfter decode events) e
  rw [← hubAfter_snoc] at hmoves
  refine ⟨?_, ?_, ?_⟩
  · intro i k hpending
    have hcall : ∃ c : Call, (hubAfter decode events).calls[k]? = some c ∧ c.id = i := by
      rcases hmoves.pending i k hpending with hold | hnew
      · exact h.registered i k hold
      · exact hnew
    obtain ⟨c, hc, hid⟩ := hcall
    obtain ⟨c', hc', -, hid'⟩ := hmoves.kept k c hc
    exact ⟨c', hc', hid'.trans hid⟩
  · intro k c' r hc' hr
    obtain ⟨c, hc, hidentity, hid, hchannel | hhand⟩ := hmoves.filled k c' r hc' hr
    · exact (h.channel k c r hc hchannel).snoc e hidentity.symm hid.symm
    · obtain ⟨c₁, hc₁, horigin⟩ := h.inHand k r hhand
      obtain rfl := some.inj (hc₁.symm.trans hc)
      exact horigin.snoc e hidentity.symm hid.symm
  · intro k r hhand
    rcases hmoves.inHand k r hhand with hold | ⟨i, hpending, hmatch⟩
    · obtain ⟨c, hc, horigin⟩ := h.inHand k r hold
      obtain ⟨c', hc', hidentity, hid⟩ := hmoves.kept k c hc
      exact ⟨c', hc', horigin.snoc e hidentity hid⟩
    · -- the frame just received is the origin
      obtain ⟨c, hc, hid⟩ := h.registered i k hpending
      obtain ⟨sender, hmatched⟩ := hmatch c hc hid
      obtain ⟨c', hc', hidentity', hid'⟩ := hmoves.kept k c hc
      refine ⟨c', hc', (hubAfter decode events, e), ?_, sender, c, hmatched, hidentity'.symm,
        hid'.symm⟩
      rw [actions, Mealy.visits_snoc]
      exact mem_append_right _ (mem_singleton.mpr rfl)

theorem Accounted.run (events : List HubEvent) : Accounted decode events := by
  induction events using reverseRecOn with
  | nil => exact ⟨fun _ _ h => (nomatch h), fun _ _ _ h => (nomatch h), fun _ _ h => (nomatch h)⟩
  | append_singleton events e ih => exact ih.snoc e

/-! ## A call returns once -/

def Phase.left : Phase → Bool
  | .returning | .finished => true
  | _ => false

/-- Call `k` exists and has left its wait. -/
def DealerHub.left (d : DealerHub) (k : Nat) : Bool :=
  (d.calls[k]?.map (·.phase.left)).getD false

def Output.returns (k : Nat) : Output → Bool
  | .returned j _ => decide (j = k)
  | .noSession _ => false

theorem left_modify (hcalls : d'.calls = d.calls.modify j f) : d'.left k =
      if j = k then (d.calls[k]?.map fun c => (f c).phase.left).getD false else d.left k := by
  rw [DealerHub.left, hcalls, getElem?_modify, DealerHub.left]
  cases d.calls[k]? with
  | none => simp
  | some c => split <;> simp [*]

theorem left_modify_of_not_left (hcalls : d'.calls = d.calls.modify j f) (hc : d.calls[j]? = some c)
    (hphase : c.phase.left = false) (h : d.left k = true) : d'.left k = true := by
  have hne : j ≠ k := by
    rintro rfl
    rw [DealerHub.left, hc, map_some, getD_some, hphase] at h
    cases h
  rw [left_modify hcalls, if_neg hne, h]

theorem left_modify_returning (hcalls : d'.calls = d.calls.modify j f) (hc : d.calls[j]? = some c)
    (hphase : c.phase.left = false) (hf : (f c).phase.left = true) (result : Result) :
    ([Output.returned j result].countP (·.returns k) = 0 ∧
        (d.left k = true → d'.left k = true)) ∨
      ([Output.returned j result].countP (·.returns k) = 1 ∧ d.left k = false ∧
        d'.left k = true) := by
  by_cases hjk : j = k
  · subst hjk
    refine .inr ⟨by simp [Output.returns], ?_, ?_⟩
    · rw [DealerHub.left, hc, map_some, getD_some, hphase]
    · rw [left_modify hcalls, if_pos rfl, hc, map_some, getD_some, hf]
  · exact .inl ⟨by simp [Output.returns, hjk], left_modify_of_not_left hcalls hc hphase⟩

theorem left_step (decode : List Byte → Option Probe) (d : DealerHub) (e : HubEvent) (k : Nat) :
    ((d.step decode e).2.countP (·.returns k) = 0 ∧
        (d.left k = true → (d.step decode e).1.left k = true)) ∨
      ((d.step decode e).2.countP (·.returns k) = 1 ∧ d.left k = false ∧
        (d.step decode e).1.left k = true) := by
  cases e with
  | sendCommand identity cmd body now =>
    rw [DealerHub.step]
    split
    · refine .inl ⟨rfl, fun h => ?_⟩
      have hk : k < d.calls.length := by
        by_contra hge
        rw [DealerHub.left, getElem?_eq_none (not_lt.mp hge)] at h
        cases h
      rw [DealerHub.left, getElem?_append_left hk]
      exact h
    · exact .inl ⟨rfl, fun h => h⟩
  | register j =>
    rw [DealerHub.step]
    split
    · exact .inl ⟨rfl, fun h => h⟩
    next c hc =>
      obtain ⟨hcall, hphase⟩ := callIn_eq_some hc
      exact .inl ⟨rfl, left_modify_of_not_left rfl hcall (by rw [hphase]; rfl)⟩
  | send j accepted =>
    rw [DealerHub.step]
    split
    · exact .inl ⟨rfl, fun h => h⟩
    next c hc =>
      obtain ⟨hcall, hphase⟩ := callIn_eq_some hc
      split
      · exact .inl ⟨rfl, left_modify_of_not_left rfl hcall (by rw [hphase]; rfl)⟩
      · exact left_modify_returning rfl hcall (by rw [hphase]; rfl) rfl _
  | takeReply j =>
    rw [DealerHub.step]
    split
    · exact .inl ⟨rfl, fun h => h⟩
    next c hc =>
      obtain ⟨hcall, hphase⟩ := callIn_eq_some hc
      split
      · exact .inl ⟨rfl, fun h => h⟩
      · exact left_modify_returning (recordCommand_frame _ _ _).1 hcall (by rw [hphase]; rfl) rfl _
  | timeout j =>
    rw [DealerHub.step]
    split
    · exact .inl ⟨rfl, fun h => h⟩
    next c hc =>
      obtain ⟨hcall, hphase⟩ := callIn_eq_some hc
      exact left_modify_returning (recordCommand_frame _ _ _).1 hcall (by rw [hphase]; rfl) rfl _
  | cleanup j =>
    rw [DealerHub.step]
    split
    · exact .inl ⟨rfl, fun h => h⟩
    · -- from returning to finished
      refine .inl ⟨rfl, fun h => ?_⟩
      rw [DealerHub.left] at h
      rw [left_modify (d := d) (j := j) (f := fun c => { c with phase := .finished }) rfl]
      split
      · cases hcall : d.calls[k]? with
        | none => rw [hcall] at h; cases h
        | some c => rfl
      · exact h
  | recv frames now =>
    rw [DealerHub.step]
    split
    · exact .inl ⟨rfl, fun h => h⟩
    · refine .inl ⟨rfl, fun h => ?_⟩
      have hcalls : (d.receive decode frames now).calls = d.calls := by
        rw [DealerHub.receive.eq_def]
        split
        · split
          · rfl
          · dsimp only
            split <;> rfl
        · rfl
      rw [DealerHub.left, hcalls]
      exact h
  | deliver =>
    rw [DealerHub.step]
    split
    · exact .inl ⟨rfl, fun h => h⟩
    next j r _ =>
      refine .inl ⟨rfl, fun h => ?_⟩
      rw [left_modify (d := d) (j := j)
        (f := fun c => { c with channel := some (c.channel.getD r) }) rfl]
      split
      · exact h
      · exact h

theorem returns_le_one (events : List HubEvent) (k : Nat) :
    (Mealy.run (DealerHub.step decode) newDealerHub events).2.countP (·.returns k) ≤ 1 ∧
      ((Mealy.run (DealerHub.step decode) newDealerHub events).2.countP (·.returns k) = 1 →
        (hubAfter decode events).left k = true) := by
  induction events using reverseRecOn with
  | nil => exact ⟨Nat.zero_le _, fun h => nomatch h⟩
  | append_singleton events e ih =>
    rw [hubAfter_snoc, Mealy.run_append]
    simp only [Mealy.run, append_nil, countP_append]
    rw [← hubAfter]
    rcases left_step decode (hubAfter decode events) e k with
      ⟨hnone, hkeeps⟩ | ⟨hone, hwaited, hleft⟩
    · rw [hnone]
      exact ⟨ih.1, fun h => hkeeps (ih.2 h)⟩
    · -- it had not left before, so this is its first return
      have hzero : (Mealy.run (DealerHub.step decode) newDealerHub events).2.countP
          (·.returns k) = 0 := by
        by_contra hpos
        have := ih.2 (by have := ih.1; omega)
        rw [hwaited] at this
        cases this
      rw [hone, hzero]
      exact ⟨le_refl _, fun _ => hleft⟩

/-! ## Attribution -/

theorem channel_of_returned {e : HubEvent} (h : Output.returned k (.reply r) ∈ (d.step decode e).2) :
    ∃ c, d.calls[k]? = some c ∧ c.channel = some r := by
  cases e with
  | takeReply j =>
    rw [DealerHub.step] at h
    split at h
    · cases h
    next c hc =>
      split at h
      · cases h
      next held hheld =>
        cases mem_singleton.mp h
        exact ⟨c, (callIn_eq_some hc).1, hheld⟩
  | sendCommand identity cmd body now =>
    rw [DealerHub.step] at h
    split at h
    · cases h
    · cases mem_singleton.mp h
  | send j accepted =>
    rw [DealerHub.step] at h
    split at h
    · cases h
    split at h
    · cases h
    · cases mem_singleton.mp h
  | timeout j =>
    rw [DealerHub.step] at h
    split at h
    · cases h
    · cases mem_singleton.mp h
  | register j => rw [DealerHub.step] at h; split at h <;> cases h
  | cleanup j => rw [DealerHub.step] at h; split at h <;> cases h
  | recv frames now => rw [DealerHub.step] at h; split at h <;> cases h
  | deliver => rw [DealerHub.step] at h; split at h <;> cases h

/-- **Attribution.** In every interleaving, a returned reply came in a frame with the id of its
call, matched while the call was registered; if peers answer only the ids sent to them, it came from
the identity the command went to. A call returns at most once. -/
theorem replies_attributed (decode : List Byte → Option Probe) (events : List HubEvent) :
    (∀ (e : HubEvent) (k : Nat) (r : DealerReply),
      Output.returned k (.reply r) ∈ ((hubAfter decode events).step decode e).2 →
      ∃ c, (hubAfter decode events).calls[k]? = some c ∧
        ∃ v ∈ actions decode events, ∃ sender c₀, Matched decode v.1 v.2 sender k c₀ r ∧
          c₀.id = c.id ∧
          ((∀ v ∈ actions decode events, ∀ sender k c r, Matched decode v.1 v.2 sender k c r →
            sender = c.identity) → sender = c.identity)) ∧
    ∀ k, (Mealy.run (DealerHub.step decode) newDealerHub events).2.countP (·.returns k) ≤ 1 := by
  refine ⟨?_, fun k => (returns_le_one events k).1⟩
  intro e k r hreturned
  obtain ⟨c, hc, hchannel⟩ := channel_of_returned hreturned
  obtain ⟨v, hv, sender, c₀, hmatched, hidentity, hid⟩ := (Accounted.run events).channel k c r hc hchannel
  refine ⟨c, hc, v, hv, sender, c₀, hmatched, hid, fun hhonest => ?_⟩
  rw [hhonest v hv sender k c₀ r hmatched, hidentity]

def sampleDecode (payload : List Byte) : Option Probe :=
  if payload = ascii "\x7b\"event\":\"HEARTBEAT\"\x7d" then
    some ⟨ascii "HEARTBEAT", none, 0, []⟩
  else if payload = ascii "\x7b\"id\":1,\"status\":200,\"body\":\"ok\"\x7d" then
    some ⟨[], some 1, 200, ascii "\"ok\""⟩
  else none

/-- Two sensors connect, `alpha` is sent a command, and `replier` answers its id. -/
def exchange (replier : List Byte) : List HubEvent :=
  [.recv [ascii "alpha", ascii "\x7b\"event\":\"HEARTBEAT\"\x7d"] 1,
    .recv [ascii "beta", ascii "\x7b\"event\":\"HEARTBEAT\"\x7d"] 2,
    .sendCommand (ascii "alpha") (ascii "gain") (ascii "40") 3, .register 0, .send 0 true,
    .recv [replier, ascii "\x7b\"id\":1,\"status\":200,\"body\":\"ok\"\x7d"] 4, .deliver]

def fromAlpha : HubEvent → Bool
  | .recv (sender :: payload :: _) _ =>
    decide (sender = ascii "alpha") || ((sampleDecode payload).all fun probe => probe.event != [])
  | _ => true

theorem exchange_alpha_honest : ∀ v ∈ actions sampleDecode (exchange (ascii "alpha")),
    ∀ sender k c r, Matched sampleDecode v.1 v.2 sender k c r → sender = c.identity := by
  have hall : (actions sampleDecode (exchange (ascii "alpha"))).all (fun v =>
      fromAlpha v.2 && v.1.calls.all fun c => decide (c.identity = ascii "alpha")) = true := by
    decide +kernel
  intro v hv sender k c r hmatched
  have hboth := all_eq_true.mp hall v hv
  rw [Bool.and_eq_true] at hboth
  obtain ⟨payload, rest, now, probe, hevent, hdecode, hreply, -, -⟩ := hmatched.frame
  have hc := all_eq_true.mp hboth.2 c (mem_of_getElem? hmatched.call)
  have hsender := hboth.1
  rw [hevent, fromAlpha, hdecode, all_some, hreply] at hsender
  simp only [bne_self_eq_false, Bool.or_false, decide_eq_true_eq] at hsender hc
  rw [hsender, hc]

theorem replies_attributed_exchange :
    ∃ c, (hubAfter sampleDecode (exchange (ascii "alpha"))).calls[0]? = some c ∧
      ∃ v ∈ actions sampleDecode (exchange (ascii "alpha")), ∃ sender c₀,
        Matched sampleDecode v.1 v.2 sender 0 c₀ ⟨200, ascii "\"ok\""⟩ ∧ sender = c.identity := by
  obtain ⟨c, hc, v, hv, sender, c₀, hmatched, -, hsender⟩ :=
    (replies_attributed sampleDecode (exchange (ascii "alpha"))).1 (.takeReply 0) 0
      ⟨200, ascii "\"ok\""⟩ (by decide +kernel)
  exact ⟨c, hc, v, hv, sender, c₀, hmatched, hsender exchange_alpha_honest⟩

/-- The reply `alpha` did not send is returned as its own. -/
theorem reply_of_another_peer :
    (hubAfter sampleDecode (exchange (ascii "beta"))).calls[0]?.map (·.identity) =
        some (ascii "alpha") ∧
      ((hubAfter sampleDecode (exchange (ascii "beta"))).step sampleDecode (.takeReply 0)).2 =
        [.returned 0 (.reply ⟨200, ascii "\"ok\""⟩)] := by
  decide +kernel

end MeshcoreSniffer.Fusion.C2
