import MeshcoreSniffer.Lib.Mealy
import MeshcoreSniffer.Lib.RoundRobin
import MeshcoreSniffer.Meshtastic.Packet

/-!
# Replay flagging

`replay_check` of `main.c`: a table of the last 2048 `(from, packet_id)` pairs, and one alert when a
pair comes back more than ten seconds after it was recorded. While no pair comes back after its slot
was overwritten, the table knows every pair (`Remembers`).
-/

namespace MeshcoreSniffer.Pipeline

open Lib Lib.RoundRobin Lib.Printf List Meshtastic

def replayRingSize : Nat := 2048

def replayFreshWindowS : Nat := 10

structure ReplayEntry where
  fromNode : BitVec 32 := 0
  packetId : BitVec 32 := 0
  firstSeenUs : BitVec 64 := 0
  alerted : Bool := false
  inUse : Bool := false

structure ReplayRing where
  table : Table ReplayEntry
  size : table.slots.length = replayRingSize

structure ReplayAlert where
  fromNode : BitVec 32
  packetId : BitVec 32
  deltaUs : BitVec 64

def ReplayAlert.pair (a : ReplayAlert) : BitVec 32 × BitVec 32 := (a.fromNode, a.packetId)

structure Sighting where
  ev : FeedEvent
  nowUs : BitVec 64

namespace Sighting

variable (s : Sighting)

def pair : BitVec 32 × BitVec 32 := (s.ev.header.fromNode, s.ev.header.packetId)

def meets (e : ReplayEntry) : Bool :=
  e.inUse && e.fromNode == s.ev.header.fromNode && e.packetId == s.ev.header.packetId

def deltaUs (e : ReplayEntry) : BitVec 64 := s.nowUs - e.firstSeenUs

def suspicious (e : ReplayEntry) : Bool :=
  !e.alerted && decide (replayFreshWindowS * 1000000 < (s.deltaUs e).toNat)

def entry : ReplayEntry where
  fromNode := s.ev.header.fromNode
  packetId := s.ev.header.packetId
  firstSeenUs := s.nowUs
  alerted := false
  inUse := true

end Sighting

def replayCheck (r : ReplayRing) (s : Sighting) : ReplayRing × List ReplayAlert :=
  match r.table.slots.findIdx? s.meets with
  | some i =>
    let e := r.table.slots.getD i {}
    if s.suspicious e then
      ({ table := r.table.modify i ({ · with alerted := true })
         size := (List.length_modify _ _ _).trans r.size },
        [⟨s.ev.header.fromNode, s.ev.header.packetId, s.deltaUs e⟩])
    else (r, [])
  | none =>
    ({ table := r.table.write s.entry
       size := (r.table.length_slots_write _).trans r.size }, [])

/-- The replay part of `on_mesh_event`: MeshCore events have no such pair. -/
def replayStep (r : ReplayRing) (s : Sighting) : ReplayRing × List ReplayAlert :=
  if s.ev.isMeshcore then (r, []) else replayCheck r s

def bootReplayRing : ReplayRing where
  table :=
    { slots := List.replicate replayRingSize {}
      next := 0
      inside := by
        rw [List.length_replicate]
        decide }
  size := List.length_replicate

def replayRingAfter (seen : List Sighting) : ReplayRing :=
  (Mealy.run replayStep bootReplayRing seen).1

def replayAlerts (seen : List Sighting) : List ReplayAlert :=
  (Mealy.run replayStep bootReplayRing seen).2

def firstSighting (seen : List Sighting) (p : BitVec 32 × BitVec 32) : Option (BitVec 64) :=
  (seen.find? (·.pair == p)).map (·.nowUs)

/-! ## One check -/

theorem replayRingAfter_append_singleton (seen : List Sighting) (s : Sighting) :
    replayRingAfter (seen ++ [s]) = (replayStep (replayRingAfter seen) s).1 := by
  rw [replayRingAfter, Mealy.run_append]
  rfl

theorem replayAlerts_append_singleton (seen : List Sighting) (s : Sighting) :
    replayAlerts (seen ++ [s]) = replayAlerts seen ++ (replayStep (replayRingAfter seen) s).2 := by
  rw [replayAlerts, Mealy.run_append]
  simp only [Mealy.run, append_nil]
  rfl

namespace ReplayEntry

def pair (e : ReplayEntry) : BitVec 32 × BitVec 32 := (e.fromNode, e.packetId)

end ReplayEntry

theorem Sighting.meets_iff (s : Sighting) (e : ReplayEntry) :
    s.meets e = true ↔ e.inUse = true ∧ e.pair = s.pair := by
  simp [Sighting.meets, ReplayEntry.pair, Sighting.pair, and_assoc]

/-- It alerts on the entry it finds, leaves everything as it is, or writes a first entry. -/
inductive Checked (r : ReplayRing) (s : Sighting) : ReplayRing × List ReplayAlert → Prop
  | alert {r' : ReplayRing} {i : Nat} {e : ReplayEntry} (hget : r.table.slots[i]? = some e)
      (hmeets : s.meets e = true) (hlate : s.suspicious e = true)
      (htable : r'.table = r.table.modify i ({ · with alerted := true })) :
      Checked r s (r', [⟨s.ev.header.fromNode, s.ev.header.packetId, s.deltaUs e⟩])
  | known {i : Nat} {e : ReplayEntry} (hget : r.table.slots[i]? = some e)
      (hmeets : s.meets e = true) (hfresh : s.suspicious e = false) : Checked r s (r, [])
  | record {r' : ReplayRing} (hnew : ∀ e ∈ r.table.slots, s.meets e = false)
      (hslots : r'.table = r.table.write s.entry) : Checked r s (r', [])

variable {s : Sighting} {seen : List Sighting} {p : BitVec 32 × BitVec 32} {t : BitVec 64}

theorem replayStep_checked (r : ReplayRing) (hmesh : s.ev.isMeshcore = false) :
    Checked r s (replayStep r s) := by
  rw [replayStep, hmesh, if_neg Bool.false_ne_true, replayCheck]
  split
  next i hfind =>
    obtain ⟨hlt, hmeets, -⟩ := findIdx?_eq_some_iff_getElem.mp hfind
    have hget : r.table.slots[i]? = some r.table.slots[i] := getElem?_eq_getElem hlt
    have hgetD : r.table.slots.getD i {} = r.table.slots[i] := by
      rw [getD_eq_getElem?_getD, hget, Option.getD_some]
    dsimp only
    rw [hgetD]
    split
    next hlate => exact .alert hget hmeets hlate rfl
    next hfresh => exact .known hget hmeets (by simpa using hfresh)
  next hnone =>
    exact .record (findIdx?_eq_none_iff.mp hnone) rfl

/-! ## First sightings -/

theorem firstSighting_append_singleton (seen : List Sighting) (s : Sighting)
    (p : BitVec 32 × BitVec 32) :
    firstSighting (seen ++ [s]) p =
      (firstSighting seen p).or (if s.pair = p then some s.nowUs else none) := by
  rw [firstSighting, find?_append, Option.map_or, firstSighting]
  by_cases h : s.pair = p
  · simp [h]
  · simp [h]

theorem firstSighting_eq_none : firstSighting seen p = none ↔ p ∉ seen.map (·.pair) := by
  simp [firstSighting]

theorem firstSighting_append_of_some (h : firstSighting seen p = some t) (s : Sighting) :
    firstSighting (seen ++ [s]) p = some t := by
  rw [firstSighting_append_singleton, h, Option.some_or]

def Ordered (seen : List Sighting) : Prop :=
  seen.Pairwise fun s s' => s.nowUs.toNat ≤ s'.nowUs.toNat

theorem firstSighting_le (hord : Ordered seen) (hs : s ∈ seen) :
    ∃ t, firstSighting seen s.pair = some t ∧ t.toNat ≤ s.nowUs.toNat := by
  induction seen with
  | nil => cases hs
  | cons first seen ih =>
    obtain ⟨hfirst, hrest⟩ := pairwise_cons.mp hord
    by_cases hpair : first.pair = s.pair
    · refine ⟨first.nowUs, by simp [firstSighting, hpair], ?_⟩
      rcases mem_cons.mp hs with rfl | hmem
      · exact Nat.le_refl _
      · exact hfirst s hmem
    · rcases mem_cons.mp hs with rfl | hmem
      · exact absurd rfl hpair
      · obtain ⟨t, ht, hle⟩ := ih hrest hmem
        refine ⟨t, ?_, hle⟩
        rw [firstSighting, find?_cons_of_neg (by simpa using hpair)]
        exact ht

theorem entry_recorded (hmesh : ∀ s ∈ seen, s.ev.isMeshcore = false) {e : ReplayEntry}
    (he : e ∈ (replayRingAfter seen).table.slots) (huse : e.inUse = true) :
    ∃ s ∈ seen, s.pair = e.pair ∧ s.nowUs = e.firstSeenUs := by
  induction seen using reverseRecOn generalizing e with
  | nil =>
    -- the boot table is empty
    have heq : e = {} := eq_of_mem_replicate he
    rw [heq] at huse
    cases huse
  | append_singleton seen s ih =>
    have ih' : ∀ e ∈ (replayRingAfter seen).table.slots, e.inUse = true →
        ∃ s' ∈ seen ++ [s], s'.pair = e.pair ∧ s'.nowUs = e.firstSeenUs := by
      intro e he huse
      obtain ⟨s', hs', hrec⟩ := ih (fun s' hs' => hmesh s' (by simp [hs'])) he huse
      exact ⟨s', mem_append_left _ hs', hrec⟩
    have hstep := replayStep_checked (replayRingAfter seen) (hmesh s (by simp))
    rw [replayRingAfter_append_singleton] at he
    generalize replayStep (replayRingAfter seen) s = out at hstep he
    cases hstep with
    | alert hget hmeets hlate htable =>
      rw [htable] at he
      obtain ⟨j, hj⟩ := mem_iff_getElem?.mp he
      rw [Table.modify, getElem?_modify] at hj
      obtain ⟨e₀, he₀, heq⟩ := Option.map_eq_some_iff.mp hj
      -- the flag is the only field an alert changes
      have hmem := mem_of_getElem? he₀
      split at heq
      next => subst heq; exact ih' e₀ hmem huse
      next => subst heq; exact ih' e₀ hmem huse
    | known hget hmeets hfresh => exact ih' e he huse
    | record hnew hslots =>
      rw [hslots] at he
      rcases mem_or_eq_of_mem_set he with hold | rfl
      · exact ih' e hold huse
      · exact ⟨s, by simp, rfl, rfl⟩

/-- **Quiet.** A repeat within ten seconds of the first sighting raises no alert. -/
theorem replayStep_quiet (hmesh : ∀ s' ∈ seen ++ [s], s'.ev.isMeshcore = false)
    (hord : Ordered (seen ++ [s])) (hfirst : firstSighting (seen ++ [s]) s.pair = some t)
    (hwithin : s.nowUs.toNat - t.toNat ≤ replayFreshWindowS * 1000000) :
    (replayStep (replayRingAfter seen) s).2 = [] := by
  have hstep := replayStep_checked (replayRingAfter seen) (hmesh s (by simp))
  generalize replayStep (replayRingAfter seen) s = out at hstep
  cases hstep with
  | @alert r' i e hget hmeets hlate hslots =>
    exfalso
    obtain ⟨huse, hpair⟩ := (s.meets_iff e).mp hmeets
    obtain ⟨s₀, hs₀, hpair₀, hnow₀⟩ :=
      entry_recorded (fun s' hs' => hmesh s' (mem_append_left _ hs'))
        (mem_of_getElem? hget) huse
    obtain ⟨t', ht', hle⟩ := firstSighting_le hord (mem_append_left [s] hs₀)
    have htt : t' = t := by
      rw [hpair₀, hpair, hfirst] at ht'
      exact (Option.some.inj ht').symm
    have hpast : s₀.nowUs.toNat ≤ s.nowUs.toNat :=
      (pairwise_append.mp hord).2.2 s₀ hs₀ s mem_cons_self
    rw [Sighting.suspicious, Bool.and_eq_true, decide_eq_true_eq, Sighting.deltaUs, ← hnow₀,
      BitVec.toNat_sub_of_le (BitVec.le_def.mpr hpast)] at hlate
    subst htt
    omega
  | known hget hmeets hfresh => rfl
  | record hnew hslots => rfl

/-! ## Runs in which no forgotten pair comes back -/

/-- The table has the whole truth about its pairs, and the alerts so far are one for each pair. -/
structure Remembers (seen : List Sighting) (r : ReplayRing) (alerts : List ReplayAlert) : Prop where
  entries : ∀ (i : Nat) (e : ReplayEntry), r.table.slots[i]? = some e → e.inUse = true →
    firstSighting seen e.pair = some e.firstSeenUs ∧
      (e.alerted = true ↔ e.pair ∈ alerts.map (·.pair))
  single : ∀ (i j : Nat) (e e' : ReplayEntry), r.table.slots[i]? = some e →
    r.table.slots[j]? = some e' → e.inUse = true → e'.inUse = true → e.pair = e'.pair → i = j
  once : (alerts.map (·.pair)).Nodup
  met : ∀ p ∈ alerts.map (·.pair), p ∈ seen.map (·.pair)

theorem remembers_boot : Remembers [] bootReplayRing [] where
  entries i e hget huse := by
    rw [eq_of_mem_replicate (mem_of_getElem? hget)] at huse
    cases huse
  single i j e e' hget _ huse := by
    rw [eq_of_mem_replicate (mem_of_getElem? hget)] at huse
    cases huse
  once := nodup_nil
  met p hp := by cases hp

namespace Remembers

variable {seen : List Sighting} {r r' : ReplayRing} {alerts : List ReplayAlert} {s : Sighting}

theorem alert (h : Remembers seen r alerts) {i : Nat} {e : ReplayEntry}
    (hget : r.table.slots[i]? = some e) (hmeets : s.meets e = true)
    (hlate : s.suspicious e = true)
    (hslots : r'.table.slots = r.table.slots.modify i ({ · with alerted := true })) :
    Remembers (seen ++ [s]) r'
      (alerts ++ [⟨s.ev.header.fromNode, s.ev.header.packetId, s.deltaUs e⟩]) := by
  obtain ⟨huse, hpair⟩ := (s.meets_iff e).mp hmeets
  obtain ⟨hfirst, halerted⟩ := h.entries i e hget huse
  have hquiet : e.alerted = false := by
    rw [Sighting.suspicious, Bool.and_eq_true, Bool.not_eq_true'] at hlate
    exact hlate.1
  have hnew : s.pair ∉ alerts.map (·.pair) := by
    intro hmem
    rw [← hpair, ← halerted, hquiet] at hmem
    cases hmem
  -- every entry of the new table comes from one of the old table, in the same slot
  have hold : ∀ (j : Nat) e', r'.table.slots[j]? = some e' → ∃ e₀, r.table.slots[j]? = some e₀ ∧
      e' = if i = j then { e₀ with alerted := true } else e₀ := by
    intro j e' hj
    rw [hslots, getElem?_modify] at hj
    obtain ⟨e₀, he₀, heq⟩ := Option.map_eq_some_iff.mp hj
    refine ⟨e₀, he₀, ?_⟩
    rw [← heq]
  have hkeep : ∀ (j : Nat) (e₀ : ReplayEntry), (if i = j then ({ e₀ with alerted := true } : ReplayEntry) else e₀).pair =
      e₀.pair ∧ (if i = j then ({ e₀ with alerted := true } : ReplayEntry) else e₀).inUse =
      e₀.inUse ∧ (if i = j then ({ e₀ with alerted := true } : ReplayEntry) else e₀).firstSeenUs =
      e₀.firstSeenUs := by
    intro j e₀
    split
    next => exact ⟨rfl, rfl, rfl⟩
    next => exact ⟨rfl, rfl, rfl⟩
  refine ⟨?_, ?_, ?_, ?_⟩
  · intro j e' hj huse'
    obtain ⟨e₀, he₀, rfl⟩ := hold j e' hj
    obtain ⟨hp, hu, hf⟩ := hkeep j e₀
    rw [hu] at huse'
    obtain ⟨hfirst₀, halerted₀⟩ := h.entries j e₀ he₀ huse'
    rw [hp, hf]
    refine ⟨firstSighting_append_of_some hfirst₀ s, ?_⟩
    by_cases hij : i = j
    · subst hij
      have heq : e = e₀ := Option.some.inj (hget.symm.trans he₀)
      subst heq
      simp [hpair, Sighting.pair, ReplayAlert.pair]
    · have hne : e₀.pair ≠ s.pair := by
        intro heq
        exact hij (h.single i j e e₀ hget he₀ huse huse' (hpair.trans heq.symm))
      have hne' : ¬e₀.pair = (s.ev.header.fromNode, s.ev.header.packetId) := hne
      rw [if_neg hij, halerted₀]
      simp [ReplayAlert.pair, hne']
  · intro j k e₁ e₂ hj hk hu₁ hu₂ hpairs
    obtain ⟨a, ha, rfl⟩ := hold j e₁ hj
    obtain ⟨b, hb, rfl⟩ := hold k e₂ hk
    rw [(hkeep j a).1, (hkeep k b).1] at hpairs
    rw [(hkeep j a).2.1] at hu₁
    rw [(hkeep k b).2.1] at hu₂
    exact h.single j k a b ha hb hu₁ hu₂ hpairs
  · rw [map_append, nodup_append]
    refine ⟨h.once, nodup_singleton _, ?_⟩
    intro p hp q hq heq
    rw [map_singleton, mem_singleton] at hq
    subst heq
    rw [hq] at hp
    exact hnew hp
  · intro p hp
    rw [map_append, mem_append, map_singleton, mem_singleton] at hp
    rw [map_append, mem_append]
    rcases hp with hp | rfl
    · exact .inl (h.met p hp)
    · exact .inr (mem_singleton.mpr rfl)

theorem known (h : Remembers seen r alerts) : Remembers (seen ++ [s]) r alerts where
  entries i e hget huse := by
    obtain ⟨hfirst, halerted⟩ := h.entries i e hget huse
    exact ⟨firstSighting_append_of_some hfirst s, halerted⟩
  single := h.single
  once := h.once
  met p hp := by
    rw [map_append, mem_append]
    exact .inl (h.met p hp)

theorem record (h : Remembers seen r alerts) (hunseen : s.pair ∉ seen.map (·.pair))
    (hnew : ∀ e ∈ r.table.slots, s.meets e = false)
    (hslots : r'.table = r.table.write s.entry) : Remembers (seen ++ [s]) r' alerts := by
  have hold : ∀ (j : Nat) e', r'.table.slots[j]? = some e' → (j = r.table.next ∧ e' = s.entry) ∨
      (j ≠ r.table.next ∧ r.table.slots[j]? = some e') := by
    intro j e' hj
    rw [hslots, Table.write, getElem?_set] at hj
    by_cases hnext : r.table.next = j
    · rw [if_pos hnext, if_pos r.table.inside] at hj
      exact .inl ⟨hnext.symm, (Option.some.inj hj).symm⟩
    · rw [if_neg hnext] at hj
      exact .inr ⟨Ne.symm hnext, hj⟩
  have hother : ∀ (j : Nat) (e' : ReplayEntry), r.table.slots[j]? = some e' → e'.inUse = true → e'.pair ≠ s.pair := by
    intro j e' hj huse hpair
    have := hnew e' (mem_of_getElem? hj)
    rw [(s.meets_iff e').mpr ⟨huse, hpair⟩] at this
    cases this
  refine ⟨?_, ?_, h.once, (h.known).met⟩
  · intro j e' hj huse
    rcases hold j e' hj with ⟨-, rfl⟩ | ⟨-, hj'⟩
    · constructor
      · have hpair : s.entry.pair = s.pair := rfl
        rw [firstSighting_append_singleton, hpair, firstSighting_eq_none.mpr hunseen, if_pos rfl]
        rfl
      · have hfalse : s.entry.alerted = false := rfl
        rw [hfalse]
        exact ⟨fun halerted => absurd halerted Bool.false_ne_true,
          fun hmem => absurd (h.met _ hmem) hunseen⟩
    · exact h.known.entries j e' hj' huse
  · intro j k e₁ e₂ hj hk hu₁ hu₂ hpairs
    rcases hold j e₁ hj with ⟨hjnext, rfl⟩ | ⟨-, hj'⟩
    · rcases hold k e₂ hk with ⟨hknext, rfl⟩ | ⟨-, hk'⟩
      · rw [hjnext, hknext]
      · exact absurd hpairs.symm (hother k e₂ hk' hu₂)
    · rcases hold k e₂ hk with ⟨-, rfl⟩ | ⟨-, hk'⟩
      · exact absurd hpairs (hother j e₁ hj' hu₁)
      · exact h.single j k e₁ e₂ hj' hk' hu₁ hu₂ hpairs

theorem step (h : Remembers seen r alerts) (hmesh : s.ev.isMeshcore = false)
    (hkept : s.pair ∈ seen.map (·.pair) → ∃ e ∈ r.table.slots, s.meets e = true) :
    Remembers (seen ++ [s]) (replayStep r s).1 (alerts ++ (replayStep r s).2) := by
  have hstep := replayStep_checked r hmesh
  generalize replayStep r s = out at hstep
  cases hstep with
  | alert hget hmeets hlate htable =>
    exact h.alert hget hmeets hlate (congrArg Table.slots htable)
  | known hget hmeets hfresh =>
    rw [append_nil]
    exact h.known
  | record hnew hslots =>
    rw [append_nil]
    refine h.record ?_ hnew hslots
    intro hseen
    obtain ⟨e, he, hmeets⟩ := hkept hseen
    rw [hnew e he] at hmeets
    cases hmeets

end Remembers

/-- The alerts of a run are what the comment above `replay_check` says. -/
structure AlertsOnce (run : List Sighting) : Prop where
  /-- One alert for each pair in the life of the process. -/
  once : ((replayAlerts run).map (·.pair)).Nodup
  /-- None within ten seconds of the first sighting. -/
  quiet : ∀ seen s rest t, run = seen ++ s :: rest →
    firstSighting (seen ++ [s]) s.pair = some t →
    s.nowUs.toNat - t.toNat ≤ replayFreshWindowS * 1000000 →
    (replayStep (replayRingAfter seen) s).2 = []
  /-- A later repeat of a pair that has not alerted raises one. -/
  loud : ∀ seen s rest t, run = seen ++ s :: rest → firstSighting seen s.pair = some t →
    replayFreshWindowS * 1000000 < s.nowUs.toNat - t.toNat →
    s.pair ∉ (replayAlerts seen).map (·.pair) →
    (replayStep (replayRingAfter seen) s).2 =
      [⟨s.ev.header.fromNode, s.ev.header.packetId, s.nowUs - t⟩]

def Kept (run : List Sighting) : Prop :=
  ∀ seen s rest, run = seen ++ s :: rest → s.pair ∈ seen.map (·.pair) →
    ∃ e ∈ (replayRingAfter seen).table.slots, s.meets e = true

theorem Kept.left {run rest : List Sighting} (h : Kept (run ++ rest)) : Kept run := by
  intro seen s post heq hpair
  refine h seen s (post ++ rest) ?_ hpair
  rw [heq, append_assoc, cons_append]

theorem remembers_run {run : List Sighting} (hmesh : ∀ s ∈ run, s.ev.isMeshcore = false)
    (hkept : Kept run) : Remembers run (replayRingAfter run) (replayAlerts run) := by
  induction run using reverseRecOn with
  | nil => exact remembers_boot
  | append_singleton seen s ih =>
    have hseen := ih (fun s' hs' => hmesh s' (mem_append_left _ hs')) hkept.left
    rw [replayRingAfter_append_singleton, replayAlerts_append_singleton]
    exact hseen.step (hmesh s (by simp)) (hkept seen s [] rfl)

theorem Remembers.loud {seen : List Sighting} {r : ReplayRing} {alerts : List ReplayAlert}
    (h : Remembers seen r alerts) {s : Sighting} (hmesh : s.ev.isMeshcore = false) {t : BitVec 64}
    (hkept : ∃ e ∈ r.table.slots, s.meets e = true) (hfirst : firstSighting seen s.pair = some t)
    (hpast : t.toNat ≤ s.nowUs.toNat)
    (hlate : replayFreshWindowS * 1000000 < s.nowUs.toNat - t.toNat)
    (hnew : s.pair ∉ alerts.map (·.pair)) :
    (replayStep r s).2 = [⟨s.ev.header.fromNode, s.ev.header.packetId, s.nowUs - t⟩] := by
  -- the entry has the first sighting and has not alerted
  have hentry : ∀ (i : Nat) (e : ReplayEntry), r.table.slots[i]? = some e → s.meets e = true →
      e.firstSeenUs = t ∧ s.suspicious e = true := by
    intro i e hget hmeets
    obtain ⟨huse, hpair⟩ := (s.meets_iff e).mp hmeets
    obtain ⟨hf, ha⟩ := h.entries i e hget huse
    have ht : e.firstSeenUs = t := by
      rw [hpair, hfirst] at hf
      exact (Option.some.inj hf).symm
    have hquiet : e.alerted = false := by
      rw [← Bool.not_eq_true, ha, hpair]
      exact hnew
    refine ⟨ht, ?_⟩
    rw [Sighting.suspicious, hquiet, Sighting.deltaUs, ht,
      BitVec.toNat_sub_of_le (BitVec.le_def.mpr hpast)]
    simpa using hlate
  have hstep := replayStep_checked r hmesh
  generalize replayStep r s = out at hstep
  cases hstep with
  | @alert r' i e hget hmeets _ _ =>
    rw [Sighting.deltaUs, (hentry i e hget hmeets).1]
  | @known i e hget hmeets hfresh =>
    rw [(hentry i e hget hmeets).2] at hfresh
    cases hfresh
  | record hnone hslots =>
    obtain ⟨e, he, hmeets⟩ := hkept
    rw [hnone e he] at hmeets
    cases hmeets

/-- **One alert, and only when late.** In every run with a clock that does not run backwards, in
which no pair comes back after its entry was overwritten, each pair alerts at most once, never
within ten seconds of its first sighting, and at its first repeat after that. -/
theorem alertsOnce_of_kept {run : List Sighting} (hmesh : ∀ s ∈ run, s.ev.isMeshcore = false)
    (hord : Ordered run) (hkept : Kept run) : AlertsOnce run where
  once := (remembers_run hmesh hkept).once
  quiet := by
    intro seen s rest t heq hfirst hwithin
    have hrun : run = (seen ++ [s]) ++ rest := by rw [heq, append_assoc, singleton_append]
    subst hrun
    exact replayStep_quiet (fun s' hs' => hmesh s' (mem_append_left _ hs'))
      (pairwise_append.mp hord).1 hfirst hwithin
  loud := by
    intro seen s rest t heq hfirst hlate hnew
    subst heq
    have hseen : s.pair ∈ seen.map (·.pair) := by
      by_contra hunseen
      rw [firstSighting_eq_none.mpr hunseen] at hfirst
      cases hfirst
    refine (remembers_run (fun s' hs' => hmesh s' (mem_append_left _ hs'))
      hkept.left).loud (hmesh s (by simp)) (hkept seen s rest rfl hseen) hfirst ?_ hlate hnew
    omega

/-! ## Up to 2048 pairs nothing is forgotten -/

def pairsOf (seen : List Sighting) : Finset (BitVec 32 × BitVec 32) := (seen.map (·.pair)).toFinset

theorem mem_pairsOf {seen : List Sighting} {p : BitVec 32 × BitVec 32} :
    p ∈ pairsOf seen ↔ p ∈ seen.map (·.pair) :=
  mem_toFinset

theorem pairsOf_append_singleton (seen : List Sighting) (s : Sighting) :
    pairsOf (seen ++ [s]) = insert s.pair (pairsOf seen) := by
  ext p
  simp [pairsOf]

/-- As many slots are in use as pairs were met, and every pair met has one. -/
structure Filling (seen : List Sighting) (r : ReplayRing) : Prop where
  used : ∀ (i : Nat) (e : ReplayEntry), r.table.slots[i]? = some e →
    (e.inUse = true ↔ i < (pairsOf seen).card)
  cursor : r.table.next = (pairsOf seen).card % replayRingSize
  met : ∀ e ∈ r.table.slots, e.inUse = true → e.pair ∈ pairsOf seen
  found : ∀ p ∈ pairsOf seen, ∃ e ∈ r.table.slots, e.inUse = true ∧ e.pair = p

theorem filling_boot : Filling [] bootReplayRing where
  used i e hget := by
    have heq : e = {} := eq_of_mem_replicate (mem_of_getElem? hget)
    simp [heq, pairsOf]
  cursor := rfl
  met e he huse := by
    rw [eq_of_mem_replicate he] at huse
    cases huse
  found p hp := by simp [pairsOf] at hp

namespace Filling

variable {seen : List Sighting} {r r' : ReplayRing} {s : Sighting}

theorem mem_of_meets (h : Filling seen r) {e : ReplayEntry} (he : e ∈ r.table.slots)
    (hmeets : s.meets e = true) : pairsOf (seen ++ [s]) = pairsOf seen := by
  obtain ⟨huse, hpair⟩ := (s.meets_iff e).mp hmeets
  rw [pairsOf_append_singleton]
  exact Finset.insert_eq_of_mem (hpair ▸ h.met e he huse)

theorem alert (h : Filling seen r) {i : Nat} {e : ReplayEntry}
    (hget : r.table.slots[i]? = some e) (hmeets : s.meets e = true)
    (hnext : r'.table.next = r.table.next)
    (hslots : r'.table.slots = r.table.slots.modify i ({ · with alerted := true })) :
    Filling (seen ++ [s]) r' := by
  have hsame : ∀ j : Nat, (r'.table.slots[j]?).map (fun e => (e.inUse, e.pair)) =
      (r.table.slots[j]?).map (fun e => (e.inUse, e.pair)) := by
    intro j
    rw [hslots, getElem?_modify, Option.map_eq_map, Option.map_map]
    refine congrArg (Option.map · _) (funext fun e => ?_)
    simp only [Function.comp_apply]
    split <;> rfl
  have hback : ∀ (j : Nat) (e' : ReplayEntry), r'.table.slots[j]? = some e' →
      ∃ e₀, r.table.slots[j]? = some e₀ ∧ e₀.inUse = e'.inUse ∧ e₀.pair = e'.pair := by
    intro j e' hj
    have hmap := hsame j
    rw [hj, Option.map_some] at hmap
    obtain ⟨e₀, he₀, heq⟩ := Option.map_eq_some_iff.mp hmap.symm
    exact ⟨e₀, he₀, (Prod.mk.inj heq).1, (Prod.mk.inj heq).2⟩
  have hforth : ∀ (j : Nat) (e₀ : ReplayEntry), r.table.slots[j]? = some e₀ →
      ∃ e', r'.table.slots[j]? = some e' ∧ e'.inUse = e₀.inUse ∧ e'.pair = e₀.pair := by
    intro j e₀ hj
    have hmap := hsame j
    rw [hj, Option.map_some] at hmap
    obtain ⟨e', he', heq⟩ := Option.map_eq_some_iff.mp hmap
    exact ⟨e', he', (Prod.mk.inj heq).1, (Prod.mk.inj heq).2⟩
  have hpairs := h.mem_of_meets (mem_of_getElem? hget) hmeets
  refine ⟨?_, ?_, ?_, ?_⟩
  · intro j e' hj
    obtain ⟨e₀, he₀, huse, -⟩ := hback j e' hj
    rw [hpairs, ← huse]
    exact h.used j e₀ he₀
  · rw [hpairs, hnext]
    exact h.cursor
  · intro e' he' huse
    obtain ⟨j, hj⟩ := mem_iff_getElem?.mp he'
    obtain ⟨e₀, he₀, huse₀, hpair₀⟩ := hback j e' hj
    rw [hpairs, ← hpair₀]
    exact h.met e₀ (mem_of_getElem? he₀) (huse₀.trans huse)
  · intro p hp
    rw [hpairs] at hp
    obtain ⟨e₀, he₀, huse, hpair⟩ := h.found p hp
    obtain ⟨j, hj⟩ := mem_iff_getElem?.mp he₀
    obtain ⟨e', he', huse', hpair'⟩ := hforth j e₀ hj
    exact ⟨e', mem_of_getElem? he', huse'.trans huse, hpair'.trans hpair⟩

theorem record (h : Filling seen r) (hnew : ∀ e ∈ r.table.slots, s.meets e = false)
    (hroom : (pairsOf (seen ++ [s])).card ≤ replayRingSize)
    (hslots : r'.table = r.table.write s.entry) : Filling (seen ++ [s]) r' := by
  have hunseen : s.pair ∉ pairsOf seen := by
    intro hmem
    obtain ⟨e, he, huse, hpair⟩ := h.found _ hmem
    have hno := hnew e he
    rw [(s.meets_iff e).mpr ⟨huse, hpair⟩] at hno
    cases hno
  have hcard : (pairsOf (seen ++ [s])).card = (pairsOf seen).card + 1 := by
    rw [pairsOf_append_singleton, Finset.card_insert_of_notMem hunseen]
  have hnext : r.table.next = (pairsOf seen).card := by
    rw [h.cursor]
    exact Nat.mod_eq_of_lt (by omega)
  have hget : ∀ j : Nat, r'.table.slots[j]? =
      if j = (pairsOf seen).card then some s.entry else r.table.slots[j]? := by
    intro j
    rw [hslots, Table.write, getElem?_set, hnext]
    by_cases hj : j = (pairsOf seen).card
    · rw [if_pos hj, if_pos hj.symm, if_pos (hnext ▸ r.table.inside)]
    · rw [if_neg hj, if_neg (Ne.symm hj)]
  refine ⟨?_, ?_, ?_, ?_⟩
  · intro j e' hj
    rw [hget] at hj
    split at hj
    next heq =>
      have huse : e'.inUse = true := by
        rw [← Option.some.inj hj]
        rfl
      rw [huse, hcard]
      simp [heq]
    next hne =>
      rw [h.used j e' hj, hcard]
      omega
  · rw [hslots]
    show (r.table.next + 1) % r.table.slots.length = _
    rw [hnext, r.size, hcard]
  · intro e' he' huse
    rw [pairsOf_append_singleton, Finset.mem_insert]
    rw [hslots] at he'
    rcases mem_or_eq_of_mem_set he' with hold | rfl
    · exact .inr (h.met e' hold huse)
    · exact .inl rfl
  · intro p hp
    rw [pairsOf_append_singleton, Finset.mem_insert] at hp
    rcases hp with rfl | hp
    · exact ⟨s.entry, mem_of_getElem? ((hget _).trans (if_pos rfl)), rfl, rfl⟩
    · obtain ⟨e, he, huse, hpair⟩ := h.found p hp
      obtain ⟨j, hj⟩ := mem_iff_getElem?.mp he
      have hne : j ≠ (pairsOf seen).card := Nat.ne_of_lt ((h.used j e hj).mp huse)
      exact ⟨e, mem_of_getElem? ((hget j).trans ((if_neg hne).trans hj)), huse, hpair⟩

theorem step (h : Filling seen r) (hmesh : s.ev.isMeshcore = false)
    (hroom : (pairsOf (seen ++ [s])).card ≤ replayRingSize) :
    Filling (seen ++ [s]) (replayStep r s).1 := by
  have hstep := replayStep_checked r hmesh
  generalize replayStep r s = out at hstep
  cases hstep with
  | alert hget hmeets hlate htable =>
    have hnext := congrArg Table.next htable
    exact h.alert hget hmeets hnext (congrArg Table.slots htable)
  | known hget hmeets hfresh =>
    have hpairs := h.mem_of_meets (mem_of_getElem? hget) hmeets
    exact ⟨hpairs ▸ h.used, hpairs ▸ h.cursor, hpairs ▸ h.met, hpairs ▸ h.found⟩
  | record hnew hslots => exact h.record hnew hroom hslots

end Filling

variable {run seen others : List Sighting} {s : Sighting} {r : ReplayRing}

theorem filling_run (hmesh : ∀ s ∈ run, s.ev.isMeshcore = false)
    (hroom : (pairsOf run).card ≤ replayRingSize) : Filling run (replayRingAfter run) := by
  induction run using reverseRecOn with
  | nil => exact filling_boot
  | append_singleton seen s ih =>
    have hle : (pairsOf seen).card ≤ (pairsOf (seen ++ [s])).card := by
      rw [pairsOf_append_singleton]
      exact Finset.card_le_card (Finset.subset_insert _ _)
    rw [replayRingAfter_append_singleton]
    exact (ih (fun s' hs' => hmesh s' (mem_append_left _ hs')) (hle.trans hroom)).step
      (hmesh s (by simp)) hroom

theorem kept_of_card_le (hmesh : ∀ s ∈ run, s.ev.isMeshcore = false)
    (hroom : (pairsOf run).card ≤ replayRingSize) : Kept run := by
  intro seen s rest heq hseen
  subst heq
  have hle : (pairsOf seen).card ≤ (pairsOf (seen ++ s :: rest)).card := by
    refine Finset.card_le_card fun p hp => ?_
    rw [mem_pairsOf] at hp ⊢
    rw [map_append]
    exact mem_append_left _ hp
  have hfill := filling_run (fun s' hs' => hmesh s' (mem_append_left _ hs'))
    (hle.trans hroom)
  obtain ⟨e, he, huse, hpair⟩ := hfill.found s.pair (mem_pairsOf.mpr hseen)
  exact ⟨e, he, (s.meets_iff e).mpr ⟨huse, hpair⟩⟩

def sighting (fromNode packetId : BitVec 32) (nowUs : BitVec 64) : Sighting where
  ev := { header := { fromNode := fromNode, packetId := packetId } }
  nowUs := nowUs

def replayedRun : List Sighting :=
  [sighting 7 1 0, sighting 9 5 1000000, sighting 7 1 2000000, sighting 7 1 11000000,
    sighting 7 1 20000000]

theorem alertsOnce_of_kept_replayedRun :
    Kept replayedRun ∧ AlertsOnce replayedRun := by
  have hmesh : ∀ s ∈ replayedRun, s.ev.isMeshcore = false := by
    simp [replayedRun, sighting]
  have hord : Ordered replayedRun := by
    simp [Ordered, replayedRun, sighting]
  have hroom : (pairsOf replayedRun).card ≤ replayRingSize := by
    decide
  have hkept := kept_of_card_le hmesh hroom
  exact ⟨hkept, alertsOnce_of_kept hmesh hord hkept⟩

/-! ## After 2048 other pairs a pair starts again -/

theorem no_entry_of_unseen (hmesh : ∀ s ∈ seen, s.ev.isMeshcore = false)
    (hunseen : s.pair ∉ seen.map (·.pair)) :
    ∀ e ∈ (replayRingAfter seen).table.slots, s.meets e = false := by
  intro e he
  by_contra hmeets
  rw [Bool.not_eq_false, s.meets_iff] at hmeets
  obtain ⟨s', hs', hpair, -⟩ := entry_recorded hmesh he hmeets.1
  exact hunseen (mem_map.mpr ⟨s', hs', hpair.trans hmeets.2⟩)

theorem replayStep_of_no_entry (hmesh : s.ev.isMeshcore = false)
    (hnew : ∀ e ∈ r.table.slots, s.meets e = false) :
    (replayStep r s).1.table = r.table.write s.entry := by
  have hnone : r.table.slots.findIdx? s.meets = none := findIdx?_eq_none_iff.mpr hnew
  rw [replayStep, hmesh, if_neg Bool.false_ne_true, replayCheck]
  split
  next i hfind =>
    rw [hnone] at hfind
    cases hfind
  next => rfl

theorem table_run_of_new (hmesh : ∀ s ∈ others, s.ev.isMeshcore = false)
    (hnew : ∀ s ∈ others, ∀ e ∈ r.table.slots, s.meets e = false)
    (hdistinct : (others.map (·.pair)).Nodup) :
    (Mealy.run replayStep r others).1.table = (others.map (·.entry)).foldl Table.write r.table := by
  induction others generalizing r with
  | nil => rfl
  | cons s others ih =>
    have hwrite := replayStep_of_no_entry (hmesh s (by simp)) (hnew s (by simp))
    obtain ⟨hs, hrest⟩ := nodup_cons.mp hdistinct
    rw [Mealy.run, map_cons, foldl_cons, ← hwrite]
    refine ih (fun s' hs' => hmesh s' (mem_cons_of_mem _ hs')) ?_ hrest
    intro s' hs' e he
    rw [hwrite] at he
    rcases mem_or_eq_of_mem_set he with hold | rfl
    · exact hnew s' (mem_cons_of_mem _ hs') e hold
    · by_contra hmeets
      rw [Bool.not_eq_false, s'.meets_iff] at hmeets
      exact hs (mem_map.mpr ⟨s', hs', hmeets.2.symm⟩)

theorem no_entry_after_flood (hmesh : ∀ s ∈ seen ++ others, s.ev.isMeshcore = false)
    (hnew : ∀ s ∈ others, s.pair ∉ seen.map (·.pair)) (hdistinct : (others.map (·.pair)).Nodup)
    (hlen : others.length = replayRingSize) (hs : s.pair ∉ others.map (·.pair)) :
    ∀ e ∈ (replayRingAfter (seen ++ others)).table.slots, s.meets e = false := by
  have hseen : ∀ s ∈ seen, s.ev.isMeshcore = false :=
    fun s' hs' => hmesh s' (mem_append_left _ hs')
  have htable : (replayRingAfter (seen ++ others)).table =
      (others.map (·.entry)).foldl Table.write (replayRingAfter seen).table := by
    rw [replayRingAfter, Mealy.run_append]
    exact table_run_of_new (fun s' hs' => hmesh s' (mem_append_right _ hs'))
      (fun s' hs' => no_entry_of_unseen hseen (hnew s' hs')) hdistinct
  intro e he
  rw [← Table.mem_inOrder, htable, Table.inOrder_foldl_write_full] at he
  · obtain ⟨s', hs', rfl⟩ := mem_map.mp he
    by_contra hmeets
    rw [Bool.not_eq_false, s.meets_iff] at hmeets
    exact hs (mem_map.mpr ⟨s', hs', hmeets.2⟩)
  · rw [length_map, hlen, (replayRingAfter seen).size]

theorem replayStep_of_late {s₀ : Sighting} (hmesh₀ : s₀.ev.isMeshcore = false)
    (hmesh : s.ev.isMeshcore = false)
    (hnew : ∀ e ∈ (replayRingAfter seen).table.slots, s₀.meets e = false) (hpair : s.pair = s₀.pair)
    (hlate : s.suspicious s₀.entry = true) :
    s.pair ∈ ((replayStep (replayRingAfter (seen ++ [s₀])) s).2).map (·.pair) := by
  have htable : (replayRingAfter (seen ++ [s₀])).table =
      (replayRingAfter seen).table.write s₀.entry := by
    rw [replayRingAfter_append_singleton]
    exact replayStep_of_no_entry hmesh₀ hnew
  have hentry : s.meets s₀.entry = true := (s.meets_iff _).mpr ⟨rfl, hpair.symm⟩
  have hstep := replayStep_checked (replayRingAfter (seen ++ [s₀])) hmesh
  generalize replayStep (replayRingAfter (seen ++ [s₀])) s = out at hstep
  cases hstep with
  | alert hget hmeets _ _ => simp [ReplayAlert.pair, Sighting.pair]
  | @known i e hget hmeets hfresh =>
    -- the only entry of the pair is the one just written
    have hmem := mem_of_getElem? hget
    rw [htable] at hmem
    rcases mem_or_eq_of_mem_set hmem with hold | rfl
    · have hno := hnew e hold
      rw [s.meets_iff, hpair, ← s₀.meets_iff, hno] at hmeets
      cases hmeets
    · rw [hlate] at hfresh
      cases hfresh
  | record hnone hslots =>
    have hmem : s₀.entry ∈ (replayRingAfter (seen ++ [s₀])).table.slots := by
      rw [htable]
      exact mem_iff_getElem?.mpr ⟨_, getElem?_set_self (replayRingAfter seen).table.inside⟩
    rw [hnone _ hmem] at hentry
    cases hentry

theorem mem_replayAlerts_append {p : BitVec 32 × BitVec 32}
    (h : p ∈ (replayAlerts seen).map (·.pair)) (rest : List Sighting) :
    p ∈ (replayAlerts (seen ++ rest)).map (·.pair) := by
  rw [replayAlerts, Mealy.run_append, map_append]
  exact mem_append_left _ h

def flood : List Sighting :=
  (List.range replayRingSize).map fun n => sighting 9 (BitVec.ofNat 32 n) 12000000

def forgottenRun : List Sighting :=
  [sighting 7 1 0] ++ [sighting 7 1 11000000] ++ flood ++ [sighting 7 1 13000000] ++
    [sighting 7 1 24000000]

theorem mem_flood (hs : s ∈ flood) :
    s.ev.isMeshcore = false ∧ s.pair.1 = 9 ∧ s.nowUs = 12000000 := by
  obtain ⟨n, -, rfl⟩ := mem_map.mp hs
  exact ⟨rfl, rfl, rfl⟩

theorem length_flood : flood.length = replayRingSize := by
  rw [flood, length_map, length_range]

theorem flood_distinct : (flood.map (·.pair)).Nodup := by
  rw [flood, map_map]
  refine List.Nodup.map_on ?_ nodup_range
  intro n hn m hm heq
  have hn' : n < 2 ^ 32 := (mem_range.mp hn).trans (by decide)
  have hm' : m < 2 ^ 32 := (mem_range.mp hm).trans (by decide)
  have hbits : BitVec.ofNat 32 n = BitVec.ofNat 32 m := (Prod.mk.inj heq).2
  have hnat := congrArg BitVec.toNat hbits
  rwa [BitVec.toNat_ofNat, BitVec.toNat_ofNat, Nat.mod_eq_of_lt hn', Nat.mod_eq_of_lt hm'] at hnat

theorem ordered_forgottenRun : Ordered forgottenRun := by
  have hflood : Ordered flood := pairwise_map.mpr (pairwise_of_forall fun _ _ => le_rfl)
  have hnow : ∀ s ∈ flood, s.nowUs.toNat = 12000000 := fun s hs => by
    rw [(mem_flood hs).2.2]
    rfl
  rw [Ordered, forgottenRun]
  simp only [pairwise_append, mem_append, mem_singleton, pairwise_singleton]
  refine ⟨⟨⟨⟨trivial, trivial, ?_⟩, hflood, ?_⟩, trivial, ?_⟩, trivial, ?_⟩
  · rintro _ rfl _ rfl
    decide
  · rintro _ (rfl | rfl) s hs
    · rw [hnow s hs]
      decide
    · rw [hnow s hs]
      decide
  · rintro s ((rfl | rfl) | hs) _ rfl
    · decide
    · decide
    · rw [hnow s hs]
      decide
  · rintro s (((rfl | rfl) | hs) | rfl) _ rfl
    · decide
    · decide
    · rw [hnow s hs]
      decide
    · decide

/-- The packet alerts a second time. -/
theorem forgottenRun_alerts_twice :
    (∀ s ∈ forgottenRun, s.ev.isMeshcore = false) ∧ Ordered forgottenRun ∧
      ¬AlertsOnce forgottenRun := by
  have hmesh : ∀ s ∈ forgottenRun, s.ev.isMeshcore = false := by
    intro s hs
    simp only [forgottenRun, mem_append, mem_singleton] at hs
    rcases hs with (((rfl | rfl) | hs) | rfl) | rfl
    · rfl
    · rfl
    · exact (mem_flood hs).1
    · rfl
    · rfl
  refine ⟨hmesh, ordered_forgottenRun, fun h => ?_⟩
  -- the first alert, before the flood
  have hfirst : ((7, 1) : BitVec 32 × BitVec 32) ∈
      (replayAlerts ([sighting 7 1 0] ++ [sighting 7 1 11000000])).map (·.pair) := by
    rw [replayAlerts_append_singleton, map_append]
    have hunseen : ∀ e ∈ (replayRingAfter []).table.slots, (sighting 7 1 0).meets e = false :=
      no_entry_of_unseen (by simp) (by simp)
    have hlate := replayStep_of_late (s := sighting 7 1 11000000) rfl rfl hunseen rfl (by decide)
    rw [nil_append] at hlate
    exact mem_append_right _ hlate
  -- after the flood the packet has no entry any more
  have hgone : ∀ e ∈ (replayRingAfter ([sighting 7 1 0] ++ [sighting 7 1 11000000] ++ flood)).table.slots,
      (sighting 7 1 13000000).meets e = false := by
    refine no_entry_after_flood ?_ ?_ flood_distinct length_flood ?_
    · exact fun s hs => hmesh s (mem_append_left _ (mem_append_left _ hs))
    · intro s hs hmem
      have h9 := (mem_flood hs).2.1
      simp [sighting, Sighting.pair] at hmem h9
      rw [h9] at hmem
      simp at hmem
    · intro hmem
      obtain ⟨s, hs, hpair⟩ := mem_map.mp hmem
      have h9 := (mem_flood hs).2.1
      rw [hpair] at h9
      exact absurd h9 (by decide)
  have hsecond : ((7, 1) : BitVec 32 × BitVec 32) ∈
      ((replayStep (replayRingAfter (([sighting 7 1 0] ++ [sighting 7 1 11000000] ++ flood) ++
        [sighting 7 1 13000000])) (sighting 7 1 24000000)).2).map (·.pair) :=
    replayStep_of_late (s := sighting 7 1 24000000) rfl rfl hgone rfl (by decide)
  have honce := h.once
  rw [forgottenRun, replayAlerts_append_singleton, map_append, nodup_append] at honce
  refine honce.2.2 _ ?_ _ hsecond rfl
  exact mem_replayAlerts_append (mem_replayAlerts_append hfirst flood) _

end MeshcoreSniffer.Pipeline
