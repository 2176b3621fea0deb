import MeshcoreSniffer.Lib.Circular
import MeshcoreSniffer.Lib.Runs
import Mathlib

/-!
# Command latencies

A session keeps its last sixteen round trips in a ring of zeros, and `Stats` leaves out the zeros: a
reply within the millisecond is not told from a cell never written.
-/

namespace MeshcoreSniffer.Fusion.Latency

open Lib.Circular Lib.Runs List

/-- `dealerSession`, as far as `recordCommandLatency`. -/
structure Session where
  commandsSent : Nat := 0
  commandsReplied : Nat := 0
  commandsTimedOut : Nat := 0
  cmdLatMs : List Int := replicate 16 0
  cmdLatHead : Nat := 0

structure Exchange where
  latMs : Int
  replied : Bool

def recordCommandLatency (s : Session) (e : Exchange) : Session :=
  if e.replied then
    { s with
      commandsSent := s.commandsSent + 1
      commandsReplied := s.commandsReplied + 1
      cmdLatMs := s.cmdLatMs.set s.cmdLatHead e.latMs
      cmdLatHead := (s.cmdLatHead + 1) % s.cmdLatMs.length }
  else { s with commandsSent := s.commandsSent + 1, commandsTimedOut := s.commandsTimedOut + 1 }

def ringSnapshot (buf : List Int) (head : Nat) : List Int :=
  ((range buf.length).map fun i => buf.getD ((head + i) % buf.length) 0).filter (· ≠ 0)

def percentiles (xs : List Int) : Int × Int :=
  let sorted := xs.insertionSort (· ≤ ·)
  if xs = [] then (0, 0)
  else (sorted.getD (xs.length / 2) 0, sorted.getD (min (xs.length * 95 / 100) (xs.length - 1)) 0)

/-- The latencies of `Stats`, with `CmdLatencyP50` and `CmdLatencyP95`. -/
def stats (s : Session) : List Int × Int × Int :=
  let latencies := ringSnapshot s.cmdLatMs s.cmdLatHead
  (latencies, percentiles latencies)

/-- The round trips of the last sixteen replies. -/
def recent (es : List Exchange) : List Int :=
  let replies := (es.filter (·.replied)).map (·.latMs)
  replies.drop (replies.length - 16)

/-- The ring has the latencies behind sixteen zeros. -/
structure Keeps (s : Session) (replies : List Int) : Prop where
  holds : Holds s.cmdLatMs (replicate 16 0 ++ replies)
  length : s.cmdLatMs.length = 16
  head : s.cmdLatHead = (replicate 16 (0 : Int) ++ replies).length % 16

theorem keeps_run (es : List Exchange) :
    Keeps (run recordCommandLatency {} es) ((es.filter (·.replied)).map (·.latMs)) := by
  induction es using reverseRecOn with
  | nil => exact ⟨by unfold Holds; decide, rfl, rfl⟩
  | append_singleton es e ih =>
    rw [run_append, filter_append, map_append]
    show Keeps (recordCommandLatency _ e) _
    cases he : e.replied with
    | false => simpa [recordCommandLatency, he] using ⟨ih.holds, ih.length, ih.head⟩
    | true =>
      have hset := ih.holds.set (by rw [ih.length]; decide) e.latMs
      rw [recordCommandLatency, if_pos he, filter_singleton, he, cond_true, map_singleton]
      refine ⟨?_, length_set.trans ih.length, ?_⟩
      · rw [← append_assoc]
        rwa [ih.length, ← ih.head] at hset
      · show (_ + 1) % _ = _
        rw [ih.length, ih.head, Nat.mod_add_mod, ← append_assoc, ← concat_eq_append,
          length_concat]

theorem Keeps.snapshot {s : Session} {replies : List Int} (h : Keeps s replies) :
    ringSnapshot s.cmdLatMs s.cmdLatHead = (replies.drop (replies.length - 16)).filter (· ≠ 0) := by
  have hlen : (replicate 16 (0 : Int) ++ replies).length = 16 + replies.length := by
    rw [length_append, length_replicate]
  have hring : (range 16).map (fun i => s.cmdLatMs.getD ((s.cmdLatHead + i) % 16) 0) =
      (replicate 16 0 ++ replies).drop replies.length := by
    apply ext_getElem
    · rw [length_map, length_range, length_drop, hlen, Nat.add_sub_cancel]
    · intro i hi hi'
      have hi : i < 16 := by simpa using hi
      have hcell := h.holds (replies.length + i) (by omega) (by rw [h.length]; omega)
      rw [h.length] at hcell
      have hplace : (s.cmdLatHead + i) % 16 = (replies.length + i) % 16 := by
        rw [h.head, hlen]
        omega
      rw [getElem_map, getElem_range, getElem_drop, hplace, getD_eq_getElem?_getD, hcell,
        getElem?_eq_getElem (by omega), Option.getD_some]
  rw [ringSnapshot, h.length, hring, drop_append, filter_append, length_replicate, drop_replicate]
  simp

/-- **Latencies.** After any replies and timeouts, `Stats` reports the round trips of the last
sixteen replies and their percentiles exactly when none of them is zero. -/
theorem latencies_iff (es : List Exchange) :
    stats (run recordCommandLatency {} es) = (recent es, percentiles (recent es)) ↔ 0 ∉ recent es := by
  have hstats : stats (run recordCommandLatency {} es) =
      ((recent es).filter (· ≠ 0), percentiles ((recent es).filter (· ≠ 0))) := by
    rw [stats, (keeps_run es).snapshot]
    rfl
  rw [hstats]
  constructor
  · intro h hzero
    have hall := filter_eq_self.mp (Prod.mk.inj h).1 0 hzero
    simp at hall
  · intro hzero
    rw [filter_eq_self.mpr]
    intro x hx
    simpa using fun heq : x = 0 => hzero (heq ▸ hx)

theorem instant_reply : stats (run recordCommandLatency {} [⟨0, true⟩, ⟨7, true⟩]) = ([7], 7, 7) ∧
    recent [⟨0, true⟩, ⟨7, true⟩] = [0, 7] := by
  decide

end MeshcoreSniffer.Fusion.Latency
