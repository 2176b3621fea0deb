import MeshcoreSniffer.Dedup.Insert

/-!
# The replica tournament

`dedup_buffer` writes the kept data field by field; the fields of one replica stay together
(`holds_fold`), and what is kept is the first maximum (`tournament`).
-/

namespace MeshcoreSniffer.Dedup

open Lib Lora List

def clusterOf (old : Entry) (first : Replica) (rest : List Replica) : Entry :=
  rest.foldl (fun e rep => rep.fold e) (first.openIn old)

theorem clusterOf_append (old : Entry) (first : Replica) (rest : List Replica) (rep : Replica) :
    clusterOf old first (rest ++ [rep]) = rep.fold (clusterOf old first rest) := by
  rw [clusterOf, foldl_append]
  rfl

def Replica.outranks (a b : Replica) : Prop :=
  (a.good = true ∧ b.good = false) ∨ (a.good = b.good ∧ b.snrDb < a.snrDb)

variable {a b rep best : Replica} {e : Entry}

theorem Replica.outranks_iff :
    a.outranks b ↔ toLex (b.good, b.snrDb) < toLex (a.good, a.snrDb) := by
  rw [Replica.outranks, Prod.Lex.toLex_lt_toLex]
  cases a.good <;> cases b.good <;> simp

theorem Replica.outranks_of_not {c : Replica} (hab : a.outranks b) (hcb : ¬c.outranks b) :
    a.outranks c := by
  rw [Replica.outranks_iff] at hab hcb ⊢
  exact (not_lt.mp hcb).trans_lt hab

theorem Replica.outranks_asymm (hab : a.outranks b) : ¬b.outranks a := by
  rw [Replica.outranks_iff] at hab ⊢
  exact hab.asymm

def IsBest (reps : List Replica) (best : Replica) : Prop :=
  ∃ before after, reps = before ++ best :: after ∧ (∀ r ∈ before, best.outranks r) ∧
    ∀ r ∈ after, ¬r.outranks best

structure Entry.Holds (e : Entry) (best : Replica) : Prop where
  payload : e.bestPayload = best.payload
  frameMeta : some e.bestMeta = best.frameMeta
  snr : e.bestSnrDb = best.snrDb
  fp : e.fp = dedupPayloadFingerprint best.payload
  user : e.bestUser = best.user

theorem holds_openIn (hmeta : rep.frameMeta.isSome = true) (old : Entry) :
    (rep.openIn old).Holds rep where
  payload := rfl
  frameMeta := by
    obtain ⟨m, hm⟩ := Option.isSome_iff_exists.mp hmeta
    rw [rep.openIn_bestMeta old hm, hm]
  snr := rfl
  fp := rfl
  user := rfl

theorem Entry.Holds.good (h : e.Holds best) : best.good = e.bestMeta.payloadCrcOk := by
  rw [Replica.good, ← h.frameMeta, Option.map_some, Option.getD_some]

theorem wins_iff_outranks (h : e.Holds best) : rep.wins e = true ↔ rep.outranks best := by
  rw [Replica.wins, Replica.outranks, ← h.good, h.snr]
  cases rep.good <;> cases best.good <;> simp

theorem holds_widenSlots (h : e.Holds best) (rep : Replica) : (rep.widenSlots e).Holds best := by
  rw [Replica.widenSlots]
  split
  · exact ⟨h.payload, h.frameMeta, h.snr, h.fp, h.user⟩
  · exact h

/-- **One fold.** Only a replica of higher rank takes the place of the kept one. -/
theorem holds_fold (h : e.Holds best) (hmeta : rep.frameMeta.isSome = true) :
    (rep.outranks best → (rep.fold e).Holds rep) ∧ (¬rep.outranks best → (rep.fold e).Holds best) := by
  have hcounted : ({ e with replicaCount := e.replicaCount + 1 } : Entry).Holds best :=
    ⟨h.payload, h.frameMeta, h.snr, h.fp, h.user⟩
  constructor
  · intro hbetter
    refine holds_widenSlots ?_ rep
    obtain ⟨m, hm⟩ := Option.isSome_iff_exists.mp hmeta
    rw [Replica.crown, if_pos ((wins_iff_outranks hcounted).mpr hbetter)]
    exact ⟨rfl, by rw [hm, Option.getD_some], rfl, rfl, rfl⟩
  · intro hnot
    refine holds_widenSlots ?_ rep
    rwa [Replica.crown, if_neg (mt (wins_iff_outranks hcounted).mp hnot)]

theorem fold_replicaCount (rep : Replica) (e : Entry) :
    (rep.fold e).replicaCount = e.replicaCount + 1 := by
  simp only [Replica.fold, Replica.widenSlots, Replica.crown]
  split <;> split <;> rfl

/-- **Replica tournament.** A cluster keeps the first replica of the highest rank with all its
fields, in whatever order they are folded in, and counts them. -/
theorem tournament (old : Entry) (first : Replica) (rest : List Replica)
    (hmeta : ∀ r ∈ first :: rest, r.frameMeta.isSome = true) :
    (∃ best, IsBest (first :: rest) best ∧ (clusterOf old first rest).Holds best) ∧
      (clusterOf old first rest).replicaCount = (first :: rest).length := by
  induction rest using reverseRecOn with
  | nil =>
    refine ⟨⟨first, ⟨[], [], rfl, ?_, ?_⟩, holds_openIn (hmeta first mem_cons_self) old⟩, rfl⟩
    · rintro r ⟨⟩
    · rintro r ⟨⟩
  | append_singleton rest rep ih =>
    obtain ⟨⟨best, ⟨before, after, hsplit, hbefore, hafter⟩, hholds⟩, hcount⟩ :=
      ih fun r hr => hmeta r (by
        rcases mem_cons.mp hr with rfl | hr
        · exact mem_cons_self
        · exact mem_cons_of_mem _ (mem_append_left _ hr))
    have hrep := hmeta rep (by simp)
    obtain ⟨htake, hkeep⟩ := holds_fold hholds hrep
    rw [clusterOf_append, fold_replicaCount, hcount]
    refine ⟨?_, by simp⟩
    by_cases hbetter : rep.outranks best
    · -- the newcomer outranks the kept one, hence all before it
      refine ⟨rep, ⟨first :: rest, [], by simp, ?_, by rintro r ⟨⟩⟩, htake hbetter⟩
      intro r hr
      rw [hsplit] at hr
      rcases mem_append.mp hr with hr | hr
      · exact Replica.outranks_of_not hbetter (Replica.outranks_asymm (hbefore r hr))
      · rcases mem_cons.mp hr with rfl | hr
        · exact hbetter
        · exact Replica.outranks_of_not hbetter (hafter r hr)
    · refine ⟨best, ⟨before, after ++ [rep], ?_, hbefore, ?_⟩, hkeep hbetter⟩
      · rw [← cons_append, hsplit, append_assoc, cons_append]
      · intro r hr
        rcases mem_append.mp hr with hr | hr
        · exact hafter r hr
        · rwa [mem_singleton.mp hr]

def replicaWith (snr : ℚ) (ok : Bool) (user : Int) : Replica where
  payload := List.replicate 14 0x41
  frameMeta := some
    { sf := 8, cr := 1, bwHz := 62500, payloadLen := 14, hasCrc := true, headerCrcOk := true
      payloadCrcOk := ok, snrDb := snr }
  user := user
  nowUs := 1000
  realtimeNs := 0

def zeroEntry : Entry where
  inUse := false
  fp := 0
  sf := 0
  bwHz := 0
  emitAtUs := 0
  firstSeenTNs := 0
  bestSnrDb := 0
  bestPayload := []
  bestMeta := { sf := 0, cr := 0, bwHz := 0 }
  bestUser := 0
  replicaCount := 0
  minSlotId := 0
  maxSlotId := 0

theorem tournament_threeReplicas :
    (clusterOf zeroEntry (replicaWith 20 false 3)
        [replicaWith 5 true 4, replicaWith 5 true 5]).bestUser = 4 ∧
      (∃ best, IsBest [replicaWith 20 false 3, replicaWith 5 true 4, replicaWith 5 true 5] best ∧
        (clusterOf zeroEntry (replicaWith 20 false 3)
          [replicaWith 5 true 4, replicaWith 5 true 5]).Holds best) ∧
      (clusterOf zeroEntry (replicaWith 20 false 3)
        [replicaWith 5 true 4, replicaWith 5 true 5]).replicaCount = 3 := by
  refine ⟨by decide +kernel, tournament _ _ _ fun r hr => ?_⟩
  simp only [mem_cons, not_mem_nil, or_false] at hr
  rcases hr with rfl | rfl | rfl <;> rfl

end MeshcoreSniffer.Dedup
