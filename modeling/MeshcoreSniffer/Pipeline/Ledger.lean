import MeshcoreSniffer.Dedup.Tournament
import MeshcoreSniffer.Pipeline.Drainer

/-!
# The books of the dedup ring

The ledger is the ring with its history: each slot carries its cluster, and clusters and dropped
replicas are kept with how they left. Forgetting the history gives the drainer's machine
(`ledger_run`).
-/

namespace MeshcoreSniffer.Pipeline

open Lib Lora Dedup List

/-- The replica that opened a cluster and those that joined it. -/
structure Cluster where
  first : Replica
  rest : List Replica

def Cluster.members (c : Cluster) : List Replica := c.first :: c.rest

def Cluster.push (rep : Replica) (c : Cluster) : Cluster := ⟨c.first, c.rest ++ [rep]⟩

def Cluster.IsIn (c : Cluster) (e : Entry) : Prop := ∃ old, e = clusterOf old c.first c.rest

structure Tracked where
  entry : Entry
  cluster : Option Cluster

/-- How a cluster left the ring: drained at a time, drained at shutdown, or silenced. -/
inductive Fate where
  | drained (nowUs : Nat)
  | shutDown
  | silenced (rep : Replica)

structure Closed where
  cluster : Cluster
  entry : Entry
  fate : Fate

def Closed.call (d : Closed) : Option DecodeCall :=
  match d.fate with
  | .silenced _ => none
  | _ => some (dedupEmitLocked d.entry)

structure Ledger where
  slots : List Tracked
  size : slots.length = ringSize
  closed : List Closed
  dropped : List (Replica × Ring)

def Ledger.ring (l : Ledger) : Ring where
  slots := l.slots.map (·.entry)
  size := by rw [List.length_map, l.size]

/-! ## Steps -/

namespace Tracked

variable (rep : Replica) (s : Tracked)

def fold : Tracked := ⟨rep.fold s.entry, s.cluster.map (·.push rep)⟩

def openIn : Tracked := ⟨rep.openIn s.entry, some ⟨rep, []⟩⟩

def isSilenced : Bool := s.entry.inUse && !(rep.suppress s.entry).inUse

def suppress : Tracked := ⟨rep.suppress s.entry, if s.isSilenced rep then none else s.cluster⟩

def release : Tracked := ⟨Pipeline.release s.entry, none⟩

def close (fate : Fate) : Option Closed := s.cluster.map fun c => ⟨c, s.entry, fate⟩

def members : List Replica := (s.cluster.map (·.members)).getD []

end Tracked

def Ledger.insert (l : Ledger) (rep : Replica) : Ledger :=
  match rep.findMatch l.ring.slots with
  | some i =>
    { l with
      slots := l.slots.modify i (Tracked.fold rep)
      size := by rw [List.length_modify, l.size] }
  | none =>
    match l.ring.slots.findIdx? (!·.inUse) with
    | some i =>
      { l with
        slots := (l.slots.map (Tracked.suppress rep)).modify i (Tracked.openIn rep)
        size := by rw [List.length_modify, List.length_map, l.size]
        closed := l.closed ++
          (l.slots.filter (Tracked.isSilenced rep)).filterMap (·.close (.silenced rep)) }
    | none => { l with dropped := l.dropped ++ [(rep, l.ring)] }

def Ledger.sweep (due : Entry → Bool) (batch : Nat) (fate : Fate) (l : Ledger) : Ledger :=
  let scanned := Slots.collect (due ∘ Tracked.entry) Tracked.release batch l.slots
  { l with
    slots := scanned.1
    size := by rw [Slots.length_collect, l.size]
    closed := l.closed ++ scanned.2.filterMap (·.close fate) }

def DrainInput.admitted : DrainInput → Option Replica
  | .frame f user nowUs realtimeNs =>
    match f.delivered with
    | none => none
    | some bytes =>
      if bytes.length < 14 ∨ maxPayload < bytes.length then none
      else some ⟨bytes, some f.frameMeta, user, nowUs, realtimeNs⟩
  | _ => none

def Ledger.step (l : Ledger) (input : DrainInput) : Ledger :=
  match input with
  | .frame .. => (input.admitted.map l.insert).getD l
  | .tick nowUs => l.sweep (expired nowUs) drainBatch (.drained nowUs)
  | .stop => l.sweep (·.inUse) ringSize .shutDown

def emptyLedger : Ledger where
  slots := emptyRing.slots.map fun e => ⟨e, none⟩
  size := by rw [List.length_map, emptyRing.size]
  closed := []
  dropped := []

def ledger (inputs : List DrainInput) : Ledger := inputs.foldl Ledger.step emptyLedger

variable (inputs : List DrainInput)

theorem ledger_append (input : DrainInput) :
    ledger (inputs ++ [input]) = (ledger inputs).step input := by
  rw [ledger, foldl_append]
  rfl

/-! ## The ring of the books -/

theorem Ring.eq_of_slots {r r' : Ring} (h : r.slots = r'.slots) : r = r' := by
  cases r
  cases r'
  cases h
  rfl

/-- What an insertion does to the books: join, open or drop. -/
inductive Ledger.Inserted (l : Ledger) (rep : Replica) : Ledger → Prop
  | joined {l' : Ledger} {i : Nat} {s : Tracked} (hget : l.slots[i]? = some s)
      (huse : s.entry.inUse = true) (hslots : l'.slots = l.slots.modify i (Tracked.fold rep))
      (hclosed : l'.closed = l.closed) (hdropped : l'.dropped = l.dropped) : Inserted l rep l'
  | opened {l' : Ledger} {i : Nat} {s : Tracked} (hget : l.slots[i]? = some s)
      (hfree : s.entry.inUse = false)
      (hslots : l'.slots = (l.slots.map (Tracked.suppress rep)).modify i (Tracked.openIn rep))
      (hclosed : l'.closed = l.closed ++
        (l.slots.filter (Tracked.isSilenced rep)).filterMap (·.close (.silenced rep)))
      (hdropped : l'.dropped = l.dropped) : Inserted l rep l'
  | dropped {l' : Ledger} (hfull : ∀ e ∈ l.ring.slots, e.inUse = true)
      (hslots : l'.slots = l.slots) (hclosed : l'.closed = l.closed)
      (hdropped : l'.dropped = l.dropped ++ [(rep, l.ring)]) : Inserted l rep l'

variable {l : Ledger} {e : Entry} {rep : Replica} {s : Tracked} {due : Entry → Bool} {fate : Fate}

theorem Ledger.get_of_ring {i : Nat} (h : l.ring.slots[i]? = some e) :
    ∃ s, l.slots[i]? = some s ∧ s.entry = e := by
  rw [Ledger.ring, getElem?_map] at h
  exact Option.map_eq_some_iff.mp h

theorem Ledger.inserted (l : Ledger) (rep : Replica) : l.Inserted rep (l.insert rep) := by
  rw [Ledger.insert]
  split
  next i hfind =>
    obtain ⟨e, hget, htier⟩ := Replica.findMatch_eq_some hfind
    obtain ⟨s, hs, rfl⟩ := Ledger.get_of_ring hget
    exact .joined hs (Replica.on_of_tier htier).1 rfl rfl rfl
  next =>
    split
    next i hfree =>
      obtain ⟨hlt, hdead, -⟩ := findIdx?_eq_some_iff_getElem.mp hfree
      obtain ⟨s, hs, hentry⟩ := Ledger.get_of_ring (getElem?_eq_getElem hlt)
      exact .opened hs (by rw [hentry]; simpa using hdead) rfl rfl rfl
    next hnone =>
      refine .dropped (fun e he => ?_) rfl rfl rfl
      simpa using findIdx?_eq_none_iff.mp hnone e he

theorem ring_insert (l : Ledger) (rep : Replica) : (l.insert rep).ring = l.ring.insert rep := by
  refine Ring.eq_of_slots ?_
  cases hfind : rep.findMatch l.ring.slots with
  | some i =>
    simp only [Ledger.insert, Ring.insert, hfind]
    exact Slots.map_modify Tracked.entry (g := rep.fold) (fun _ => rfl) i l.slots
  | none =>
    cases hfree : l.ring.slots.findIdx? (!·.inUse) with
    | some i =>
      simp only [Ledger.insert, Ring.insert, hfind, hfree]
      have hmap : (l.slots.map (Tracked.suppress rep)).map (·.entry) =
          (l.slots.map (·.entry)).map rep.suppress := by
        rw [map_map, map_map]
        rfl
      refine (Slots.map_modify Tracked.entry (g := rep.openIn) (fun _ => rfl) i _).trans ?_
      rw [hmap]
      rfl
    | none =>
      simp only [Ledger.insert, Ring.insert, hfind, hfree]
      rfl

theorem ring_sweep (due : Entry → Bool) (batch : Nat) (fate : Fate) (l : Ledger) :
    (l.sweep due batch fate).ring = (sweep due batch l.ring).1 := by
  refine Ring.eq_of_slots ?_
  exact (Slots.map_collect due release Tracked.entry (fun _ => rfl) batch l.slots).1

theorem drainStep_frame (r : Ring) (f : Frame) (user : Int) (nowUs realtimeNs : Nat) :
    drainStep r (.frame f user nowUs realtimeNs) =
      (((DrainInput.frame f user nowUs realtimeNs).admitted.map r.insert).getD r, []) := by
  rw [drainStep, onLoraFrame, dedupBuffer.eq_def, DrainInput.admitted]
  cases f.delivered with
  | none => rfl
  | some bytes =>
    dsimp only
    split
    · rfl
    · rfl

/-- **Faithful.** Without the history a step of the books is a step of the drainer's machine. -/
theorem ring_step (l : Ledger) (input : DrainInput) :
    (l.step input).ring = (drainStep l.ring input).1 := by
  cases input with
  | frame f user nowUs realtimeNs =>
    rw [drainStep_frame, Ledger.step]
    cases (DrainInput.frame f user nowUs realtimeNs).admitted with
    | none => rfl
    | some rep => exact ring_insert l rep
  | tick nowUs => exact ring_sweep _ _ _ l
  | stop => exact ring_sweep _ _ _ l

/-! ## What the books keep true -/

def Tracked.Ok (s : Tracked) : Prop :=
  match s.cluster with
  | none => s.entry.inUse = false
  | some c => c.IsIn s.entry

/-- Drained once its window is over, at shutdown, or silenced while its best replica is failed by
one on the same radio parameters that did not fail its CRC and came within the window. -/
def Closed.Ok (d : Closed) : Prop :=
  d.cluster.IsIn d.entry ∧
    match d.fate with
    | .drained nowUs => d.cluster.first.nowUs + windowUs ≤ nowUs
    | .shutDown => True
    | .silenced rep =>
      d.entry.bestMeta.payloadCrcOk = false ∧ rep.crcBad = false ∧ rep.sf = d.cluster.first.sf ∧
        rep.bwHz = d.cluster.first.bwHz ∧ d.cluster.first.nowUs ≤ rep.nowUs ∧
        rep.nowUs ≤ d.cluster.first.nowUs + windowUs

structure Ledger.Ok (l : Ledger) : Prop where
  slots : ∀ s ∈ l.slots, s.Ok
  closed : ∀ d ∈ l.closed, d.Ok
  dropped : ∀ x ∈ l.dropped, ∀ e ∈ x.2.slots, e.inUse = true

theorem clusterOf_keeps (old : Entry) (first : Replica) (rest : List Replica) :
    (clusterOf old first rest).inUse = true ∧ (clusterOf old first rest).sf = first.sf ∧
      (clusterOf old first rest).bwHz = first.bwHz ∧
      (clusterOf old first rest).emitAtUs = first.nowUs + windowUs := by
  induction rest using reverseRecOn with
  | nil => exact ⟨rfl, rfl, rfl, rfl⟩
  | append_singleton rest rep ih =>
    obtain ⟨huse, hsf, hbw, hemit⟩ := rep.fold_keeps (clusterOf old first rest)
    rw [clusterOf_append, huse, hsf, hbw, hemit]
    exact ih

def Entry.BoundsOk (e : Entry) : Prop :=
  (e.minSlotId = noSlot ∧ e.maxSlotId = noSlot) ∨
    (e.minSlotId ≠ noSlot ∧ e.maxSlotId ≠ noSlot ∧ e.minSlotId ≤ e.maxSlotId)

theorem Replica.slotId_ne_noSlot (h : rep.slotIdValid = true) : rep.slotId ≠ noSlot := by
  have hrange : 0 ≤ rep.user ∧ rep.user < 32767 := of_decide_eq_true h
  rw [Replica.slotId, if_pos h, noSlot]
  omega

theorem boundsOk_fold (h : Entry.BoundsOk e) (rep : Replica) : Entry.BoundsOk (rep.fold e) := by
  have hcrown : ∀ e : Entry, (rep.crown e).minSlotId = e.minSlotId ∧
      (rep.crown e).maxSlotId = e.maxSlotId := by
    intro e
    rw [Replica.crown]
    split <;> exact ⟨rfl, rfl⟩
  obtain ⟨hmin, hmax⟩ := hcrown { e with replicaCount := e.replicaCount + 1 }
  rw [Replica.fold, Replica.widenSlots]
  split
  next hvalid =>
    have hslot := Replica.slotId_ne_noSlot hvalid
    rw [Entry.BoundsOk]
    dsimp only
    rw [hmin, hmax]
    dsimp only
    right
    rcases h with ⟨hlo, hhi⟩ | ⟨hlo, hhi, hle⟩
    · rw [if_pos (Or.inl hlo), if_pos (Or.inl hhi)]
      exact ⟨hslot, hslot, le_refl _⟩
    · split
      next hlow =>
        have hlt := hlow.resolve_left hlo
        rw [if_neg (by rw [not_or]; exact ⟨hhi, by omega⟩)]
        exact ⟨hslot, hhi, by omega⟩
      next hlow =>
        rw [not_or] at hlow
        split
        next hhigh => exact ⟨hlo, hslot, by have := hhigh.resolve_left hhi; omega⟩
        next => exact ⟨hlo, hhi, hle⟩
  next =>
    rw [Entry.BoundsOk, hmin, hmax]
    exact h

theorem boundsOk_clusterOf (old : Entry) (first : Replica) (rest : List Replica) :
    Entry.BoundsOk (clusterOf old first rest) := by
  induction rest using reverseRecOn with
  | nil =>
    rw [clusterOf, foldl_nil, Entry.BoundsOk, Replica.openIn]
    dsimp only
    by_cases hslot : first.slotId = noSlot
    · exact Or.inl ⟨hslot, hslot⟩
    · exact Or.inr ⟨hslot, hslot, le_refl _⟩
  | append_singleton rest rep ih =>
    rw [clusterOf_append]
    exact boundsOk_fold ih rep

theorem Tracked.Ok.inUse (h : s.Ok) : s.entry.inUse = s.cluster.isSome := by
  rw [Tracked.Ok] at h
  cases hc : s.cluster with
  | none =>
    rw [hc] at h
    exact h
  | some c =>
    rw [hc] at h
    obtain ⟨old, heq⟩ := h
    rw [heq]
    exact (clusterOf_keeps old c.first c.rest).1

theorem Tracked.Ok.exists_cluster (h : s.Ok) (huse : s.entry.inUse = true) :
    ∃ c, s.cluster = some c ∧ c.IsIn s.entry := by
  rw [h.inUse] at huse
  obtain ⟨c, hc⟩ := Option.isSome_iff_exists.mp huse
  rw [Tracked.Ok, hc] at h
  exact ⟨c, hc, h⟩

theorem ok_fold (h : s.Ok) (huse : s.entry.inUse = true) (rep : Replica) : (s.fold rep).Ok := by
  obtain ⟨c, hc, old, heq⟩ := h.exists_cluster huse
  rw [Tracked.Ok, Tracked.fold, hc]
  refine ⟨old, ?_⟩
  rw [heq]
  exact (clusterOf_append old c.first c.rest rep).symm

theorem ok_openIn (rep : Replica) (s : Tracked) : (s.openIn rep).Ok :=
  ⟨s.entry, rfl⟩

theorem ok_suppress (h : s.Ok) (rep : Replica) : (s.suppress rep).Ok := by
  rw [Tracked.Ok, Tracked.suppress, Tracked.isSilenced]
  rcases rep.suppress_eq s.entry with hkeep | hfree
  · rw [hkeep, Bool.and_not_self]
    exact h
  · rw [hfree]
    dsimp only
    cases huse : s.entry.inUse with
    | true => rfl
    | false =>
      rw [h.inUse, Option.isSome_eq_false_iff, Option.isNone_iff_eq_none] at huse
      rw [huse]
      rfl

theorem isSilenced_spec (h : s.isSilenced rep = true) :
    s.entry.inUse = true ∧ rep.crcBad = false ∧ rep.sameRadio s.entry = true ∧
      s.entry.bestMeta.payloadCrcOk = false ∧ rep.openedWithin windowUs s.entry = true := by
  rw [Tracked.isSilenced, Bool.and_eq_true] at h
  obtain ⟨huse, hgone⟩ := h
  rw [Replica.suppress] at hgone
  split at hgone
  next hcond =>
    simp only [Bool.and_eq_true, Bool.not_eq_true'] at hcond
    exact ⟨huse, hcond.1.1.1, hcond.1.1.2, hcond.1.2, hcond.2⟩
  next =>
    rw [huse] at hgone
    cases hgone

theorem ok_silenced (hs : s.Ok) (h : s.isSilenced rep = true) {d : Closed}
    (hd : s.close (.silenced rep) = some d) : d.Ok := by
  obtain ⟨huse, hgood, hradio, hfailed, hwithin⟩ := isSilenced_spec h
  obtain ⟨c, hc, old, heq⟩ := hs.exists_cluster huse
  rw [Tracked.close, hc] at hd
  obtain rfl := Option.some.inj hd
  obtain ⟨-, hsf, hbw, hemit⟩ := clusterOf_keeps old c.first c.rest
  rw [← heq] at hsf hbw hemit
  rw [rep.sameRadio_iff] at hradio
  rw [Replica.openedWithin, decide_eq_true_eq, hemit, Nat.add_sub_cancel] at hwithin
  refine ⟨⟨old, heq⟩, hfailed, hgood, ?_, ?_, hwithin.1, by have := hwithin.2; dsimp only; omega⟩
  · exact hradio.2.1.symm.trans hsf
  · exact hradio.2.2.symm.trans hbw

/-- **Insertion.** The books stay in order. -/
theorem ok_insert (h : l.Ok) (rep : Replica) : (l.insert rep).Ok := by
  cases l.inserted rep with
  | joined hget huse hslots hclosed hdropped =>
    refine ⟨?_, hclosed ▸ h.closed, hdropped ▸ h.dropped⟩
    rw [hslots]
    intro s' hs'
    obtain ⟨j, hj⟩ := getElem?_of_mem hs'
    rw [getElem?_modify] at hj
    obtain ⟨s, hs, rfl⟩ := Option.map_eq_some_iff.mp hj
    have hok := h.slots s (mem_of_getElem? hs)
    split
    next hij =>
      subst hij
      obtain rfl := Option.some.inj (hget.symm.trans hs)
      exact ok_fold hok huse rep
    next => exact hok
  | opened hget hfree hslots hclosed hdropped =>
    refine ⟨?_, ?_, hdropped ▸ h.dropped⟩
    · rw [hslots]
      intro s' hs'
      obtain ⟨j, hj⟩ := getElem?_of_mem hs'
      rw [getElem?_modify, getElem?_map] at hj
      obtain ⟨s₁, hs₁, rfl⟩ := Option.map_eq_some_iff.mp hj
      obtain ⟨s, hs, rfl⟩ := Option.map_eq_some_iff.mp hs₁
      split
      · exact ok_openIn rep _
      · exact ok_suppress (h.slots s (mem_of_getElem? hs)) rep
    · rw [hclosed]
      intro d hd
      rcases mem_append.mp hd with hold | hnew
      · exact h.closed d hold
      · obtain ⟨s, hs, hclose⟩ := mem_filterMap.mp hnew
        obtain ⟨hmem, hsilenced⟩ := mem_filter.mp hs
        exact ok_silenced (h.slots s hmem) hsilenced hclose
  | dropped hfull hslots hclosed hdropped =>
    refine ⟨hslots ▸ h.slots, hclosed ▸ h.closed, ?_⟩
    rw [hdropped]
    intro x hx
    rcases mem_append.mp hx with hold | hnew
    · exact h.dropped x hold
    · rw [mem_singleton.mp hnew]
      exact hfull

/-- **Draining.** The books stay in order. -/
theorem ok_sweep (h : l.Ok) (batch : Nat)
    (hfate : ∀ c e, c.IsIn e → due e = true → (⟨c, e, fate⟩ : Closed).Ok) :
    (l.sweep due batch fate).Ok := by
  refine ⟨?_, ?_, h.dropped⟩
  · intro s hs
    rcases Slots.eq_or_retired_of_mem_collect _ _ _ hs with hstay | ⟨x, -, -, rfl⟩
    · exact h.slots s hstay
    · rfl
  · intro d hd
    rcases mem_append.mp hd with hold | hnew
    · exact h.closed d hold
    · obtain ⟨s, hs, hclose⟩ := mem_filterMap.mp hnew
      rw [Slots.collect_snd] at hs
      obtain ⟨hmem, hdue⟩ := mem_filter.mp (mem_of_mem_take hs)
      have hok := h.slots s hmem
      cases hc : s.cluster with
      | none => rw [Tracked.close, hc] at hclose; cases hclose
      | some c =>
        rw [Tracked.close, hc] at hclose
        obtain rfl := Option.some.inj hclose
        rw [Tracked.Ok, hc] at hok
        exact hfate c s.entry hok hdue

theorem ok_step (h : l.Ok) (input : DrainInput) : (l.step input).Ok := by
  cases input with
  | frame f user nowUs realtimeNs =>
    rw [Ledger.step]
    cases (DrainInput.frame f user nowUs realtimeNs).admitted with
    | none => exact h
    | some rep => exact ok_insert h rep
  | tick nowUs =>
    refine ok_sweep h drainBatch ?_
    rintro c e ⟨old, rfl⟩ hdue
    rw [expired, Bool.and_eq_true, decide_eq_true_eq] at hdue
    rw [(clusterOf_keeps old c.first c.rest).2.2.2] at hdue
    exact ⟨⟨old, rfl⟩, hdue.2⟩
  | stop => exact ok_sweep h ringSize fun c e hc _ => ⟨hc, trivial⟩

theorem ok_emptyLedger : emptyLedger.Ok where
  slots s hs := by
    obtain ⟨e, he, rfl⟩ := mem_map.mp hs
    rw [eq_of_mem_replicate he]
    rfl
  closed d hd := nomatch hd
  dropped x hx := nomatch hx

theorem ok_ledger : (ledger inputs).Ok := by
  induction inputs using reverseRecOn with
  | nil => exact ok_emptyLedger
  | append_singleton inputs input ih =>
    rw [ledger_append]
    exact ok_step ih input

/-! ## Accounts -/

def Ledger.replicas (l : Ledger) : List Replica :=
  l.slots.flatMap Tracked.members ++
    (l.closed.flatMap (·.cluster.members) ++ l.dropped.map (·.1))

theorem flatMap_close (fate : Fate) (slots : List Tracked) :
    (slots.filterMap (·.close fate)).flatMap (·.cluster.members) = slots.flatMap Tracked.members := by
  induction slots with
  | nil => rfl
  | cons s slots ih =>
    rw [flatMap_cons, ← ih]
    cases hc : s.cluster with
    | none =>
      rw [filterMap_cons_none (by rw [Tracked.close, hc]; rfl), Tracked.members, hc]
      rfl
    | some c =>
      rw [filterMap_cons_some (b := ⟨c, s.entry, fate⟩) (by rw [Tracked.close, hc]; rfl),
        flatMap_cons, Tracked.members, hc]
      rfl

theorem perm_flatMap_suppress (rep : Replica) (slots : List Tracked) :
    ((slots.map (Tracked.suppress rep)).flatMap Tracked.members ++
      (slots.filter (Tracked.isSilenced rep)).flatMap Tracked.members).Perm
      (slots.flatMap Tracked.members) := by
  induction slots with
  | nil => exact List.Perm.refl _
  | cons s slots ih =>
    rw [map_cons, flatMap_cons, flatMap_cons]
    by_cases hs : s.isSilenced rep = true
    · have hnone : (s.suppress rep).members = [] := by
        rw [Tracked.members, Tracked.suppress, if_pos hs]
        rfl
      rw [filter_cons_of_pos hs, flatMap_cons, hnone, nil_append]
      refine List.Perm.trans ?_ (ih.append_left s.members)
      rw [← append_assoc, ← append_assoc]
      exact perm_append_comm.append_right _
    · have hkeep : (s.suppress rep).members = s.members := by
        rw [Tracked.members, Tracked.suppress, if_neg hs]
        rfl
      rw [filter_cons_of_neg hs, hkeep, append_assoc]
      exact ih.append_left s.members

theorem members_fold (h : s.Ok) (huse : s.entry.inUse = true) (rep : Replica) :
    (s.fold rep).members = s.members ++ [rep] := by
  obtain ⟨c, hc, -⟩ := h.exists_cluster huse
  rw [Tracked.members, Tracked.members, Tracked.fold, hc]
  rfl

/-- **Insertion.** The replica is entered once. -/
theorem replicas_insert (h : l.Ok) (rep : Replica) :
    (l.insert rep).replicas.Perm (l.replicas ++ [rep]) := by
  rw [Ledger.replicas, Ledger.replicas]
  cases l.inserted rep with
  | joined hget huse hslots hclosed hdropped =>
    rw [hslots, hclosed, hdropped]
    have hmem := mem_of_getElem? hget
    have hslot := Slots.perm_flatMap_modify hget (members_fold (h.slots _ hmem) huse rep)
    refine (hslot.append_right _).trans ?_
    rw [append_assoc, append_assoc]
    exact perm_append_comm.append_left _
  | @opened i s hget hfree hslots hclosed hdropped =>
    rw [hslots, hclosed, hdropped, flatMap_append, flatMap_close]
    have hmem := mem_of_getElem? hget
    have hempty : (s.suppress rep).members = [] := by
      have hnone := hfree
      rw [(h.slots s hmem).inUse, Option.isSome_eq_false_iff, Option.isNone_iff_eq_none] at hnone
      rw [Tracked.members, Tracked.suppress, hnone, ite_self]
      rfl
    have hget' : (l.slots.map (Tracked.suppress rep))[i]? = some (s.suppress rep) := by
      rw [getElem?_map, hget]
      rfl
    have hopened : ((s.suppress rep).openIn rep).members = (s.suppress rep).members ++ [rep] := by
      rw [hempty]
      rfl
    refine ((Slots.perm_flatMap_modify hget' hopened).append_right _).trans ?_
    have hmoved := perm_flatMap_suppress rep l.slots
    generalize (l.slots.map (Tracked.suppress rep)).flatMap Tracked.members = kept at hmoved ⊢
    generalize (l.slots.filter (Tracked.isSilenced rep)).flatMap Tracked.members = gone at hmoved ⊢
    refine List.Perm.trans ?_ ((hmoved.append_right _).append_right [rep])
    classical
    refine perm_iff_count.mpr fun r => ?_
    simp only [count_append]
    omega
  | dropped hfull hslots hclosed hdropped =>
    rw [hslots, hclosed, hdropped, map_append, append_assoc, append_assoc]
    exact List.Perm.refl _

/-- **Draining.** Nothing is entered or lost. -/
theorem replicas_sweep (l : Ledger) (due : Entry → Bool) (batch : Nat) (fate : Fate) :
    (l.sweep due batch fate).replicas.Perm l.replicas := by
  have hmoved := Slots.perm_flatMap_collect (due ∘ Tracked.entry) Tracked.release
    Tracked.members (fun _ => rfl) batch l.slots
  rw [Ledger.replicas, Ledger.replicas, Ledger.sweep]
  dsimp only
  rw [flatMap_append, flatMap_close]
  generalize ((Slots.collect (due ∘ Tracked.entry) Tracked.release batch l.slots).1).flatMap
    Tracked.members = kept at hmoved ⊢
  generalize ((Slots.collect (due ∘ Tracked.entry) Tracked.release batch l.slots).2).flatMap
    Tracked.members = gone at hmoved ⊢
  refine List.Perm.trans ?_ (hmoved.append_right _)
  classical
  refine perm_iff_count.mpr fun r => ?_
  simp only [count_append]
  omega

/-- **Accounts.** Every admitted replica is in the books exactly once. -/
theorem ledger_accounts : (ledger inputs).replicas.Perm (inputs.filterMap DrainInput.admitted) := by
  induction inputs using reverseRecOn with
  | nil =>
    have hnone : emptyLedger.slots.flatMap Tracked.members = [] := by
      refine flatMap_eq_nil_iff.mpr fun s hs => ?_
      obtain ⟨e, -, rfl⟩ := mem_map.mp hs
      rfl
    rw [ledger, foldl_nil, Ledger.replicas, hnone]
    exact List.Perm.refl _
  | append_singleton inputs input ih =>
    rw [ledger_append, filterMap_append]
    cases input with
    | frame f user nowUs realtimeNs =>
      rw [Ledger.step, filterMap_cons]
      cases (DrainInput.frame f user nowUs realtimeNs).admitted with
      | none =>
        rw [filterMap_nil, append_nil]
        exact ih
      | some rep => exact (replicas_insert (ok_ledger inputs) rep).trans (ih.append_right _)
    | tick nowUs =>
      rw [show [DrainInput.tick nowUs].filterMap DrainInput.admitted = [] from rfl, append_nil]
      exact (replicas_sweep _ _ _ _).trans ih
    | stop =>
      rw [show [DrainInput.stop].filterMap DrainInput.admitted = [] from rfl, append_nil]
      exact (replicas_sweep _ _ _ _).trans ih

/-! ## Decoder calls -/

theorem calls_close {slots : List Tracked} (hok : ∀ s ∈ slots, s.Ok ∧ s.entry.inUse = true)
    (hfate : ∀ c e, (⟨c, e, fate⟩ : Closed).call = some (dedupEmitLocked e)) :
    (slots.filterMap (·.close fate)).filterMap Closed.call =
      (slots.map (·.entry)).map dedupEmitLocked := by
  induction slots with
  | nil => rfl
  | cons s slots ih =>
    obtain ⟨hs, huse⟩ := hok s mem_cons_self
    obtain ⟨c, hc, -⟩ := hs.exists_cluster huse
    rw [filterMap_cons_some (b := ⟨c, s.entry, fate⟩) (by rw [Tracked.close, hc]; rfl),
      filterMap_cons_some (hfate c s.entry), ih fun x hx => hok x (mem_cons_of_mem _ hx)]
    rfl

theorem calls_sweep (h : l.Ok) (hdue : ∀ e, due e = true → e.inUse = true) (batch : Nat)
    (hfate : ∀ c e, (⟨c, e, fate⟩ : Closed).call = some (dedupEmitLocked e)) :
    (l.sweep due batch fate).closed.filterMap Closed.call =
      l.closed.filterMap Closed.call ++ (sweep due batch l.ring).2.map dedupEmitLocked := by
  rw [Ledger.sweep, filterMap_append, calls_close ?_ hfate]
  · rw [(Slots.map_collect due release Tracked.entry (fun _ => rfl) batch l.slots).2]
    rfl
  · intro s hs
    rw [Slots.collect_snd] at hs
    obtain ⟨hmem, hs⟩ := mem_filter.mp (mem_of_mem_take hs)
    exact ⟨h.slots s hmem, hdue _ hs⟩

theorem calls_insert (l : Ledger) (rep : Replica) :
    (l.insert rep).closed.filterMap Closed.call = l.closed.filterMap Closed.call := by
  cases l.inserted rep with
  | joined hget huse hslots hclosed hdropped => rw [hclosed]
  | opened hget hfree hslots hclosed hdropped =>
    rw [hclosed, filterMap_append]
    have hsilent : ((l.slots.filter (Tracked.isSilenced rep)).filterMap
        (·.close (.silenced rep))).filterMap Closed.call = [] := by
      refine filterMap_eq_nil_iff.mpr fun d hd => ?_
      obtain ⟨s, -, hclose⟩ := mem_filterMap.mp hd
      obtain ⟨c, -, rfl⟩ := Option.map_eq_some_iff.mp hclose
      rfl
    rw [hsilent, append_nil]
  | dropped hfull hslots hclosed hdropped => rw [hclosed]

/-- **Faithful.** The books' ring is the drainer's, and the decoder calls are those of the clusters
that left it emitted, one for each. -/
theorem ledger_run : Mealy.run drainStep emptyRing inputs =
      ((ledger inputs).ring, (ledger inputs).closed.filterMap Closed.call) := by
  induction inputs using reverseRecOn with
  | nil =>
    refine Prod.ext (Ring.eq_of_slots ?_) rfl
    rw [ledger, foldl_nil, Ledger.ring, emptyLedger]
    dsimp only
    rw [map_map]
    exact (map_id _).symm
  | append_singleton inputs input ih =>
    rw [Mealy.run_append, ih, ledger_append]
    refine Prod.ext (ring_step _ input).symm ?_
    simp only [Mealy.run, append_nil]
    have hok := ok_ledger inputs
    cases input with
    | frame f user nowUs realtimeNs =>
      rw [drainStep_frame, Ledger.step]
      cases (DrainInput.frame f user nowUs realtimeNs).admitted with
      | none => exact append_nil _
      | some rep => exact (append_nil _).trans (calls_insert _ rep).symm
    | tick nowUs => exact (calls_sweep hok (inUse_of_expired nowUs) drainBatch fun _ _ => rfl).symm
    | stop => exact (calls_sweep hok (fun _ h => h) ringSize fun _ _ => rfl).symm

theorem slots_stop (h : l.Ok) : ∀ s ∈ (l.step .stop).slots, s.cluster = none := by
  have hroom : (l.slots.filter ((·.inUse) ∘ Tracked.entry)).length ≤ ringSize := by
    rw [← l.size]
    exact length_filter_le _ _
  have hslots : (l.step .stop).slots = _ := Slots.collect_fst_of_length_le _ Tracked.release hroom
  intro s hs
  rw [hslots] at hs
  obtain ⟨x, hx, rfl⟩ := mem_map.mp hs
  split
  next => rfl
  next hfree =>
    rw [Function.comp_apply, (h.slots x hx).inUse, Bool.not_eq_true, Option.isSome_eq_false_iff,
      Option.isNone_iff_eq_none] at hfree
    exact hfree

/-- **Ring bookkeeping.** In every run: every admitted replica is entered once, in the cluster it
opened or joined or as dropped by a full ring; a cluster is emitted once, after its window or at
shutdown, or silenced while it is failed; a slot in use holds its cluster with its bounds in order;
and after shutdown no cluster is left. -/
theorem ring_bookkeeping (inputs : List DrainInput) :
    Mealy.run drainStep emptyRing inputs =
        ((ledger inputs).ring, (ledger inputs).closed.filterMap Closed.call) ∧
      (ledger inputs).replicas.Perm (inputs.filterMap DrainInput.admitted) ∧
      (∀ x ∈ (ledger inputs).dropped, ∀ e ∈ x.2.slots, e.inUse = true) ∧
      (∀ d ∈ (ledger inputs).closed, d.Ok) ∧
      (∀ s ∈ (ledger inputs).slots, s.Ok ∧ (s.entry.inUse = true → Entry.BoundsOk s.entry)) ∧
      ∀ before, inputs = before ++ [.stop] → ∀ s ∈ (ledger inputs).slots, s.cluster = none := by
  have hok := ok_ledger inputs
  refine ⟨ledger_run inputs, ledger_accounts inputs, hok.dropped, hok.closed, ?_, ?_⟩
  · intro s hs
    refine ⟨hok.slots s hs, fun huse => ?_⟩
    obtain ⟨c, -, old, heq⟩ := (hok.slots s hs).exists_cluster huse
    rw [heq]
    exact boundsOk_clusterOf old c.first c.rest
  · rintro before rfl
    rw [ledger_append]
    exact slots_stop (ok_ledger before)

end MeshcoreSniffer.Pipeline
