import Mathlib
import MeshcoreSniffer.Lib.Runs

/-!
# The life of the sink worker pool

The filterbanks of `pfb.c` share one counted pool of worker threads. `pfb_create` can fail at every
allocation, and an oracle says which succeed; a null pointer that is followed stops the program.
-/

namespace MeshcoreSniffer.Sdr.Lifetime

open Lib List

/-! ## Model -/

/-- What can fail in a creation; the last ones belong to a worker of the pool. -/
inductive AllocPoint
  | object | hP | dly | bins | fftIn | fftOut | prototype | fftPlan | hist | workers
  | ring (worker : Nat) | mutex (worker : Nat) | notEmpty (worker : Nat) | notFull (worker : Nat)
  | thread (worker : Nat)
  deriving DecidableEq

abbrev Oracle := AllocPoint → Bool

/-- A filterbank: its size, and which of its pointers are set. -/
structure PfbAlloc where
  m : Nat
  hP : Bool
  dly : Bool
  bins : Bool
  fftIn : Bool
  fftOut : Bool
  fftPlan : Bool := false
  hist : Bool := false

structure SinkPool where
  initialized : Bool
  refcount : Int
  nWorkers : Nat

/-- What decides the size of the pool: the processors, and `MESHTASTIC_SINK_WORKERS`. -/
structure PoolEnv where
  nproc : Int
  sinkWorkers : Option Int

/-- The number of workers `g_pool_init_locked` starts. -/
def PoolEnv.workers (env : PoolEnv) : Nat :=
  let n := if 1 < env.nproc then (env.nproc - 1).toNat else 1
  let n := if 8 < n then 8 else n
  match env.sinkWorkers with
  | some v => if 1 ≤ v ∧ v ≤ 64 then v.toNat else n
  | none => n

def spawn (ok : Oracle) (i : Nat) : Bool :=
  ok (.ring i) && ok (.mutex i) && ok (.notEmpty i) && ok (.notFull i) && ok (.thread i)

/-- A failure joins what was started and leaves the pool as it was. -/
def gPoolInitLocked (env : PoolEnv) (ok : Oracle) (pool : SinkPool) : SinkPool × Bool :=
  if pool.initialized then (pool, true)
  else if !ok .workers then (pool, false)
  else if (List.range env.workers).all (spawn ok) then
    ({ pool with nWorkers := env.workers, initialized := true }, true)
  else (pool, false)

/-- The pool, the filterbanks its callers hold, how many there were whenever the pool was shut down,
and whether it followed a null pointer. -/
structure World where
  pool : SinkPool
  live : List PfbAlloc
  shutdowns : List Nat
  crashed : Bool

def World.start : World where
  pool := { initialized := false, refcount := 0, nWorkers := 0 }
  live := []
  shutdowns := []
  crashed := false

def gPoolShutdownLocked (w : World) : World :=
  if !w.pool.initialized then w
  else { w with
    pool := { w.pool with initialized := false, nWorkers := 0 }
    shutdowns := w.shutdowns ++ [w.live.length] }

/-- The end of `pfb_destroy`: a reference is given back. -/
def releasePool (w : World) : World :=
  let w := { w with pool := { w.pool with refcount := w.pool.refcount - 1 } }
  if w.pool.refcount = 0 then gPoolShutdownLocked w else w

/-- The flush it begins with reads `bins` for every bin. -/
def pfbDestroy (w : World) (p : PfbAlloc) : World :=
  if 0 < p.m ∧ p.bins = false then { w with crashed := true } else releasePool w

def SinkPool.addRef (pool : SinkPool) : SinkPool := { pool with refcount := pool.refcount + 1 }

/-- The end of `pfb_create`: a reference is taken, with a pool started for the first. -/
def acquirePool (env : PoolEnv) (ok : Oracle) (w : World) (p : PfbAlloc) : World × Option PfbAlloc :=
  let started :=
    if w.pool.refcount = 0 then gPoolInitLocked env ok w.pool else (w.pool, true)
  if started.2 then ({ w with pool := started.1.addRef }, some p)
  else ({ w with pool := started.1 }, none)

def pfbCreate (env : PoolEnv) (ok : Oracle) (w : World) (m l : Int) (sampRate : ℚ) :
    World × Option PfbAlloc :=
  if m < 1 ∨ l < 2 ∨ sampRate ≤ 0 then (w, none)
  else if !ok .object then (w, none)
  else
    let p : PfbAlloc :=
      { m := m.toNat, hP := ok .hP, dly := ok .dly, bins := ok .bins
        fftIn := ok .fftIn, fftOut := ok .fftOut }
    if !(p.hP && p.dly && p.bins && p.fftIn && p.fftOut) then (pfbDestroy w p, none)
    else if !ok .prototype then (pfbDestroy w p, none)
    else
      let p := { p with fftPlan := ok .fftPlan }
      if !p.fftPlan then (pfbDestroy w p, none) else acquirePool env ok w p

def pfbCreateOs (env : PoolEnv) (ok : Oracle) (w : World) (m l : Int) (sampRate : ℚ) (os : Int) :
    World × Option PfbAlloc :=
  let os := if os < 1 then 1 else os
  if 1 < os ∧ m.tmod os ≠ 0 then (w, none)
  else
    match pfbCreate env ok w m l sampRate with
    | (w, none) => (w, none)
    | (w, some p) =>
      if os = 1 then (w, some p)
      else
        let p := { p with hist := ok .hist }
        if !p.hist then (pfbDestroy w p, none) else (w, some p)

/-- A call; the last one destroys the `k`-th live filterbank, if there are so many. -/
inductive Call
  | create (m l : Int) (sampRate : ℚ) (ok : Oracle)
  | createOs (m l : Int) (sampRate : ℚ) (os : Int) (ok : Oracle)
  | destroy (k : Nat)

def World.keep (r : World × Option PfbAlloc) : World :=
  { r.1 with live := r.1.live ++ r.2.toList }

def World.step (env : PoolEnv) (w : World) (call : Call) : World :=
  if w.crashed then w
  else
    match call with
    | .create m l sampRate ok => World.keep (pfbCreate env ok w m l sampRate)
    | .createOs m l sampRate os ok => World.keep (pfbCreateOs env ok w m l sampRate os)
    | .destroy k =>
      match w.live[k]? with
      | none => w
      | some p => pfbDestroy { w with live := w.live.eraseIdx k } p

def World.run (env : PoolEnv) (calls : List Call) : World := Runs.run (World.step env) .start calls

/-! ## What the count should be -/

/-- One reference per live filterbank, and no shutdown while there was one. -/
structure World.Counted (w : World) : Prop where
  running : w.crashed = false
  refcount : w.pool.refcount = w.live.length
  shutdowns : ∀ n ∈ w.shutdowns, n = 0

def earlyPoints : List AllocPoint := [.hP, .dly, .bins, .fftIn, .fftOut, .prototype, .fftPlan]

def ExitsEarly (m l : Int) (sampRate : ℚ) (ok : Oracle) : Prop :=
  1 ≤ m ∧ 2 ≤ l ∧ 0 < sampRate ∧ ok .object = true ∧ ∃ a ∈ earlyPoints, ok a = false

def Call.Clean : Call → Prop
  | .create m l sampRate ok => ¬ExitsEarly m l sampRate ok
  | .createOs m l sampRate os ok => (1 < os → m.tmod os = 0) → ¬ExitsEarly m l sampRate ok
  | .destroy _ => True

/-! ## What the calls do -/

@[simp] theorem releasePool_refcount (w : World) :
    (releasePool w).pool.refcount = w.pool.refcount - 1 := by
  unfold releasePool gPoolShutdownLocked
  dsimp only
  split
  · split <;> rfl
  · rfl

@[simp] theorem releasePool_live (w : World) : (releasePool w).live = w.live := by
  unfold releasePool gPoolShutdownLocked
  dsimp only
  split
  · split <;> rfl
  · rfl

@[simp] theorem releasePool_crashed (w : World) : (releasePool w).crashed = w.crashed := by
  unfold releasePool gPoolShutdownLocked
  dsimp only
  split
  · split <;> rfl
  · rfl

variable {w : World} {p : PfbAlloc} (env : PoolEnv)

theorem acquirePool_cases (ok : Oracle) (w : World) (p : PfbAlloc)
    (hpool : w.pool.refcount ≠ 0 → w.pool.initialized = true) : acquirePool env ok w p = (w, none) ∨
      ∃ pool, pool.refcount = w.pool.refcount + 1 ∧ pool.initialized = true ∧
        acquirePool env ok w p = ({ w with pool := pool }, some p) := by
  unfold acquirePool gPoolInitLocked
  by_cases hzero : w.pool.refcount = 0
  · rw [if_pos hzero]
    split
    next hinit => exact .inr ⟨w.pool.addRef, rfl, hinit, rfl⟩
    · split
      · exact .inl rfl
      · split
        · exact .inr ⟨_, rfl, rfl, rfl⟩
        · exact .inl rfl
  · rw [if_neg hzero]
    exact .inr ⟨w.pool.addRef, rfl, hpool hzero, rfl⟩

theorem pfbCreate_cases (ok : Oracle) (w : World) (m l : Int) (sampRate : ℚ)
    (hpool : w.pool.refcount ≠ 0 → w.pool.initialized = true) : (ExitsEarly m l sampRate ok ∧
        ∃ p, pfbCreate env ok w m l sampRate = (pfbDestroy w p, none)) ∨
      (¬ExitsEarly m l sampRate ok ∧
        (pfbCreate env ok w m l sampRate = (w, none) ∨
          ∃ p pool, p.bins = true ∧ pool.refcount = w.pool.refcount + 1 ∧
            pool.initialized = true ∧
            pfbCreate env ok w m l sampRate = ({ w with pool := pool }, some p))) := by
  unfold pfbCreate
  by_cases hargs : m < 1 ∨ l < 2 ∨ sampRate ≤ 0
  · rw [if_pos hargs]
    refine .inr ⟨?_, .inl rfl⟩
    rintro ⟨hm, hl, hrate, -⟩
    rcases hargs with h | h | h
    · omega
    · omega
    · exact absurd hrate (not_lt.mpr h)
  rw [if_neg hargs]
  obtain ⟨hm, hl, hrate⟩ : 1 ≤ m ∧ 2 ≤ l ∧ 0 < sampRate := by
    simp only [not_or, not_lt, not_le] at hargs
    exact hargs
  by_cases hobject : ok .object = true
  swap
  · rw [if_pos (by simpa using hobject)]
    exact .inr ⟨fun h => hobject h.2.2.2.1, .inl rfl⟩
  rw [if_neg (by simpa using hobject)]
  have hexit : ∀ a ∈ earlyPoints, ok a = false → ExitsEarly m l sampRate ok :=
    fun a ha hfail => ⟨hm, hl, hrate, hobject, a, ha, hfail⟩
  dsimp only
  split
  next harrays =>
    refine .inl ⟨?_, _, rfl⟩
    simp only [Bool.not_eq_true', Bool.and_eq_false_iff] at harrays
    rcases harrays with (((h | h) | h) | h) | h <;> exact hexit _ (by decide) h
  next harrays =>
    split
    next hproto => exact .inl ⟨hexit .prototype (by decide) (by simpa using hproto), _, rfl⟩
    next hproto =>
      split
      next hplan => exact .inl ⟨hexit .fftPlan (by decide) (by simpa using hplan), _, rfl⟩
      next hplan =>
        simp only [Bool.not_eq_true', Bool.not_eq_false, Bool.and_eq_true] at harrays hproto hplan
        obtain ⟨⟨⟨⟨h1, h2⟩, h3⟩, h4⟩, h5⟩ := harrays
        refine .inr ⟨?_, ?_⟩
        · rintro ⟨-, -, -, -, a, ha, hfail⟩
          simp only [earlyPoints, mem_cons, not_mem_nil, or_false] at ha
          rcases ha with rfl | rfl | rfl | rfl | rfl | rfl | rfl <;> simp_all
        · rcases acquirePool_cases env ok w _ hpool with h | ⟨pool, hcount, hinit, h⟩
          · exact .inl h
          · exact .inr ⟨_, pool, h3, hcount, hinit, h⟩

/-! ## The count -/

/-- The count is right, a live filterbank has its bins, and there is a pool exactly while there is
one. -/
structure World.Held (w : World) : Prop where
  counted : w.Counted
  bins : ∀ p ∈ w.live, p.bins = true
  pool : w.pool.initialized = true ↔ w.live ≠ []

theorem held_start : World.start.Held where
  counted := ⟨rfl, rfl, fun _ hn => absurd hn not_mem_nil⟩
  bins := fun _ hp => absurd hp not_mem_nil
  pool := by simp [World.start]

theorem World.Held.initialized (h : w.Held) (hne : w.pool.refcount ≠ 0) :
    w.pool.initialized = true := by
  rw [h.pool]
  rintro hnil
  rw [h.counted.refcount, hnil] at hne
  exact hne rfl

theorem held_release (hrunning : w.crashed = false) (hcount : w.pool.refcount = w.live.length + 1)
    (hshutdowns : ∀ n ∈ w.shutdowns, n = 0) (hbins : ∀ p ∈ w.live, p.bins = true)
    (hinit : w.pool.initialized = true) : (releasePool w).Held := by
  have hlast : w.pool.refcount - 1 = 0 ↔ w.live = [] := by
    rw [hcount, ← length_eq_zero_iff]
    omega
  refine ⟨⟨?_, ?_, ?_⟩, ?_, ?_⟩
  · rwa [releasePool_crashed]
  · rw [releasePool_refcount, releasePool_live, hcount]
    omega
  · unfold releasePool gPoolShutdownLocked
    dsimp only
    rw [hinit]
    split
    next hzero =>
      -- the last reference: no filterbank is live
      intro n hn
      rcases mem_append.mp hn with hold | hnew
      · exact hshutdowns n hold
      · rw [mem_singleton.mp hnew, hlast.mp hzero]
        rfl
    next => exact hshutdowns
  · rwa [releasePool_live]
  · unfold releasePool gPoolShutdownLocked
    dsimp only
    rw [hinit]
    split
    next hzero => simp [hlast.mp hzero]
    next hzero => simpa [hinit] using mt hlast.mpr hzero

theorem not_counted_destroy (h : w.Held) (p : PfbAlloc) : ¬(pfbDestroy w p).Counted := by
  intro hcounted
  have hcount := hcounted.refcount
  have hrunning := hcounted.running
  unfold pfbDestroy at hcount hrunning
  split at hrunning
  · exact absurd hrunning Bool.noConfusion
  next hnull =>
    rw [if_neg hnull, releasePool_refcount, releasePool_live, h.counted.refcount] at hcount
    omega

theorem held_keep (h : w.Held) {pool : SinkPool} (hbins : p.bins = true)
    (hcount : pool.refcount = w.pool.refcount + 1) (hinit : pool.initialized = true) :
    (World.keep ({ w with pool := pool }, some p)).Held where
  counted := ⟨h.counted.running, by
    show pool.refcount = ((w.live ++ [p]).length : Int)
    rw [hcount, h.counted.refcount, length_append]
    rfl, h.counted.shutdowns⟩
  bins := by
    intro q hq
    rcases mem_append.mp hq with hold | hnew
    · exact h.bins q hold
    · rw [mem_singleton.mp hnew]
      exact hbins
  pool := by
    show pool.initialized = true ↔ w.live ++ [p] ≠ []
    simp [hinit]

theorem keep_none (w : World) : World.keep (w, none) = w := by
  unfold World.keep
  rw [Option.toList_none, append_nil]

theorem held_create (ok : Oracle) (h : w.Held) (m l : Int) (sampRate : ℚ) :
    (ExitsEarly m l sampRate ok → ¬(World.keep (pfbCreate env ok w m l sampRate)).Counted) ∧
      (¬ExitsEarly m l sampRate ok → (World.keep (pfbCreate env ok w m l sampRate)).Held) := by
  rcases pfbCreate_cases env ok w m l sampRate h.initialized with
    ⟨hexit, p, heq⟩ | ⟨hexit, heq | ⟨p, pool, hbins, hcount, hinit, heq⟩⟩
  · refine ⟨fun _ => ?_, absurd hexit⟩
    rw [heq, keep_none]
    exact not_counted_destroy h p
  · refine ⟨fun h' => absurd h' hexit, fun _ => ?_⟩
    rwa [heq, keep_none]
  · refine ⟨fun h' => absurd h' hexit, fun _ => ?_⟩
    rw [heq]
    exact held_keep h hbins hcount hinit

theorem held_createOs (ok : Oracle) (h : w.Held) (m l : Int) (sampRate : ℚ) (os : Int)
    (hgrid : 1 < os → m.tmod os = 0) :
    (ExitsEarly m l sampRate ok → ¬(World.keep (pfbCreateOs env ok w m l sampRate os)).Counted) ∧
      (¬ExitsEarly m l sampRate ok → (World.keep (pfbCreateOs env ok w m l sampRate os)).Held) := by
  have hpass : ¬(1 < (if os < 1 then 1 else os) ∧ m.tmod (if os < 1 then 1 else os) ≠ 0) := by
    split
    next => omega
    next => exact fun hbad => hbad.2 (hgrid hbad.1)
  unfold pfbCreateOs
  dsimp only
  rw [if_neg hpass]
  rcases pfbCreate_cases env ok w m l sampRate h.initialized with
    ⟨hexit, p, heq⟩ | ⟨hexit, heq | ⟨p, pool, hbins, hcount, hinit, heq⟩⟩
  · refine ⟨fun _ => ?_, absurd hexit⟩
    rw [heq]
    dsimp only
    rw [keep_none]
    exact not_counted_destroy h p
  · refine ⟨fun h' => absurd h' hexit, fun _ => ?_⟩
    rw [heq]
    dsimp only
    rwa [keep_none]
  · refine ⟨fun h' => absurd h' hexit, fun _ => ?_⟩
    rw [heq]
    dsimp only
    by_cases hcritical : (if os < 1 then 1 else os) = 1
    · rw [if_pos hcritical]
      exact held_keep h hbins hcount hinit
    rw [if_neg hcritical]
    cases ok .hist with
    | true => exact held_keep h hbins hcount hinit
    | false =>
      -- no history: the reference just taken is given back
      rw [Bool.not_false, if_pos rfl, keep_none, pfbDestroy, if_neg (by simp [hbins])]
      refine held_release h.counted.running ?_ h.counted.shutdowns h.bins hinit
      show pool.refcount = _
      rw [hcount, h.counted.refcount]

theorem held_destroy (h : w.Held) {k : Nat} (hp : w.live[k]? = some p) :
    (pfbDestroy { w with live := w.live.eraseIdx k } p).Held := by
  have hmem : p ∈ w.live := mem_of_getElem? hp
  have hlt : k < w.live.length := (List.getElem?_eq_some_iff.mp hp).1
  rw [pfbDestroy, if_neg (by simp [h.bins p hmem])]
  refine held_release h.counted.running ?_ h.counted.shutdowns ?_ ?_
  · show w.pool.refcount = _
    rw [h.counted.refcount, length_eraseIdx_of_lt hlt]
    omega
  · exact fun q hq => h.bins q (mem_of_mem_eraseIdx hq)
  · exact h.pool.mpr (ne_nil_of_mem hmem)

theorem held_step (h : w.Held) (call : Call) :
    (call.Clean → (w.step env call).Held) ∧ (¬call.Clean → ¬(w.step env call).Counted) := by
  have hrunning : ¬w.crashed = true := by simp [h.counted.running]
  unfold World.step
  rw [if_neg hrunning]
  cases call with
  | create m l sampRate ok =>
    have hcreate := held_create env ok h m l sampRate
    exact ⟨hcreate.2, fun hnot => hcreate.1 (not_not.mp hnot)⟩
  | createOs m l sampRate os ok =>
    by_cases hgrid : 1 < os → m.tmod os = 0
    · have hcreate := held_createOs env ok h m l sampRate os hgrid
      exact ⟨fun hclean => hcreate.2 (hclean hgrid),
        fun hnot => hcreate.1 (by_contra fun hexit => hnot fun _ => hexit)⟩
    · -- refused before anything is allocated
      obtain ⟨hover, hmod⟩ := Classical.not_imp.mp hgrid
      have hset : (if os < 1 then 1 else os) = os := if_neg (by omega)
      refine ⟨fun _ => ?_, fun hnot => absurd (fun hg => absurd hg hgrid) hnot⟩
      simp only [pfbCreateOs, hset]
      rwa [if_pos ⟨hover, hmod⟩, keep_none]
  | destroy k =>
    refine ⟨fun _ => ?_, fun hnot => absurd trivial hnot⟩
    dsimp only
    split
    next => exact h
    next p hp => exact held_destroy h hp

/-- **The reference count.** The count is the number of live filterbanks at every moment, and the
pool is shut down only when there are none, exactly when no creation exits early. -/
theorem refcount_iff (env : PoolEnv) (calls : List Call) :
    (∀ before, before <+: calls → (World.run env before).Counted) ↔
      ∀ call ∈ calls, call.Clean := by
  have hprefixes : (∀ before, before <+: calls → (World.run env before).Counted) ↔
      Runs.Along (World.step env) (fun _ call => call.Clean) .start calls :=
    Runs.forall_prefix_iff_along (I := World.Held) (fun _ h => h.counted)
      (fun _ call h => (held_step env h call).1) (fun _ call h => (held_step env h call).2)
      held_start calls
  exact hprefixes.trans Runs.along_const

def failing (a : AllocPoint) : Oracle := fun b => b ≠ a

/-- **A reference too many.** The second creation gets no memory for its taps: the pool is shut down
although the first filterbank is live. -/
theorem failed_create_shuts_pool :
    let w := World.run ⟨4, none⟩
      [.create 8 12 2000000 fun _ => true, .create 8 12 2000000 (failing .hP)]
    w.live.length = 1 ∧ w.pool.refcount = 0 ∧ w.pool.initialized = false ∧ w.shutdowns = [1] := by
  decide +kernel

end MeshcoreSniffer.Sdr.Lifetime
