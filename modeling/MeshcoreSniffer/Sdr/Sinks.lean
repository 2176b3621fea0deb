import MeshcoreSniffer.Lib.BufferLane
import MeshcoreSniffer.Lib.Runs

/-!
# The sinks of a filterbank and their workers

A sink of `pfb.c` fills one of four buffers; a full or flushed one goes to the worker thread of its
channel. `Sinks.step` is one step of one thread between locks; `Move` is what it can do.
-/

namespace MeshcoreSniffer.Sdr.Sinks

open Lib

/-! ## Model -/

def sinkRingN : Nat := 4

def pfbOutbufSamples : Nat := 1024

def queueCap : Nat := 256

/-- The registered sinks `σ`, the filterbanks `ω` that own them, and the pool. -/
structure Setup (σ ω : Type*) where
  owner : σ → ω
  channelId : σ → Nat
  sinks : ω → List σ
  mem_sinks : ∀ o s, s ∈ sinks o ↔ owner s = o
  nWorkers : Nat
  nWorkers_pos : 0 < nWorkers

variable {σ ω R : Type*}

def Setup.home (cfg : Setup σ ω) (s : σ) : Nat := cfg.channelId s % cfg.nWorkers

structure Work (σ : Type*) where
  sink : σ
  parcel : Parcel

/-- With what was written to it and what its callback was given. The head of `free` is the top of
the stack. -/
structure Sink (R : Type*) where
  bufs : Nat → List R
  active : Nat
  outbufCount : Nat
  free : List Nat
  emitted : List R
  delivered : List (List R)

/-- Waiting for a free buffer, about to count the work as in flight, waiting for room in the queue.
-/
inductive SubmitStage
  | acquire | bump | enqueue

/-- About to call back, to give the buffer back, to count the work as done. -/
inductive WorkStage
  | call | giveBack | finish

/-- The buffer it submits, and inside `pfb_flush` the sinks still to flush. -/
structure Producer (σ : Type*) where
  job : Option (SubmitStage × Work σ)
  todo : Option (List σ)

def Producer.idle : Producer σ := ⟨none, none⟩

theorem Producer.eq_idle {p : Producer σ} (h : p.job.isNone ∧ p.todo.isNone) : p = .idle := by
  obtain ⟨job, todo⟩ := p
  obtain ⟨hjob, htodo⟩ := h
  rw [Option.isNone_iff_eq_none] at hjob htodo
  exact congrArg₂ Producer.mk hjob htodo

structure State (σ ω R : Type*) where
  sink : σ → Sink R
  producer : ω → Producer σ
  queue : Nat → List (Work σ)
  worker : Nat → Option (WorkStage × Work σ)
  inFlight : ω → Int

variable [DecidableEq σ] [DecidableEq ω]

namespace State

@[simps]
def setSink (st : State σ ω R) (s : σ) (k : Sink R) : State σ ω R :=
  { st with sink := Function.update st.sink s k }

@[simps]
def setProducer (st : State σ ω R) (o : ω) (p : Producer σ) : State σ ω R :=
  { st with producer := Function.update st.producer o p }

@[simps]
def setQueue (st : State σ ω R) (w : Nat) (q : List (Work σ)) : State σ ω R :=
  { st with queue := Function.update st.queue w q }

@[simps]
def setWorker (st : State σ ω R) (w : Nat) (job : Option (WorkStage × Work σ)) : State σ ω R :=
  { st with worker := Function.update st.worker w job }

@[simps]
def addInFlight (st : State σ ω R) (o : ω) (n : Int) : State σ ω R :=
  { st with inFlight := Function.update st.inFlight o (st.inFlight o + n) }

end State

def Sink.write (k : Sink R) (y : R) : Sink R :=
  { k with
    bufs := Function.update k.bufs k.active ((k.bufs k.active).set k.outbufCount y)
    outbufCount := k.outbufCount + 1
    emitted := k.emitted ++ [y] }

def Sink.filled (k : Sink R) : Parcel := ⟨k.active, k.outbufCount⟩

def Sink.swapIn (k : Sink R) (b : Nat) (free : List Nat) : Sink R :=
  { k with active := b, free := free, outbufCount := 0 }

def Sink.deliver (k : Sink R) (x : Parcel) : Sink R :=
  { k with delivered := k.delivered ++ [Lane.contents k.bufs x] }

def Sink.giveBack (k : Sink R) (b : Nat) : Sink R := { k with free := b :: k.free }

/-- The start of `flush_sink` by the producer of `o`, up to its first lock. -/
def flushSink (st : State σ ω R) (o : ω) (s : σ) (todo : Option (List σ)) : State σ ω R :=
  if (st.sink s).outbufCount = 0 then st.setProducer o ⟨none, todo⟩
  else st.setProducer o ⟨some (.acquire, ⟨s, (st.sink s).filled⟩), todo⟩

/-- An idle producer writes a sample or enters `pfb_flush`, a busy one goes on, a worker goes on. -/
inductive Step (σ ω R : Type*)
  | emit (s : σ) (y : R)
  | flush (o : ω)
  | produce (o : ω)
  | work (w : Nat)

/-- One sink's turn of the loop of `emit_to_bin`. -/
def emitToSink (cfg : Setup σ ω) (st : State σ ω R) (s : σ) (y : R) : State σ ω R :=
  let st := st.setSink s ((st.sink s).write y)
  if (st.sink s).outbufCount = pfbOutbufSamples then flushSink st (cfg.owner s) s none else st

/-- The next step of a producer inside `flush_sink`, `sink_submit` or `pfb_flush`. -/
def produce (cfg : Setup σ ω) (st : State σ ω R) (o : ω) : State σ ω R :=
  let todo := (st.producer o).todo
  match (st.producer o).job with
  | some (.acquire, x) =>
    match (st.sink x.sink).free with
    | [] => st
    | b :: free =>
      (st.setSink x.sink ((st.sink x.sink).swapIn b free)).setProducer o ⟨some (.bump, x), todo⟩
  | some (.bump, x) =>
    (st.addInFlight (cfg.owner x.sink) 1).setProducer o ⟨some (.enqueue, x), todo⟩
  | some (.enqueue, x) =>
    let w := cfg.home x.sink
    if (st.queue w).length = queueCap then st
    else (st.setQueue w (st.queue w ++ [x])).setProducer o ⟨none, todo⟩
  | none =>
    match todo with
    | none => st
    | some (s :: rest) => flushSink st o s (some rest)
    | some [] => if 0 < st.inFlight o then st else st.setProducer o .idle

/-- The next step of `sink_worker_main`. -/
def work (cfg : Setup σ ω) (st : State σ ω R) (w : Nat) : State σ ω R :=
  match st.worker w with
  | none =>
    match st.queue w with
    | [] => st
    | x :: rest => (st.setQueue w rest).setWorker w (some (.call, x))
  | some (.call, x) =>
    (st.setSink x.sink ((st.sink x.sink).deliver x.parcel)).setWorker w (some (.giveBack, x))
  | some (.giveBack, x) =>
    (st.setSink x.sink ((st.sink x.sink).giveBack x.parcel.buf)).setWorker w (some (.finish, x))
  | some (.finish, x) => (st.addInFlight (cfg.owner x.sink) (-1)).setWorker w none

def step (cfg : Setup σ ω) (st : State σ ω R) : Step σ ω R → State σ ω R
  | .emit s y =>
    let p := st.producer (cfg.owner s)
    if p.job.isNone ∧ p.todo.isNone then emitToSink cfg st s y else st
  | .flush o =>
    let p := st.producer o
    if p.job.isNone ∧ p.todo.isNone then st.setProducer o ⟨none, some (cfg.sinks o)⟩ else st
  | .produce o => produce cfg st o
  | .work w => if w < cfg.nWorkers then work cfg st w else st

def start (memory : σ → Nat → Nat → R) : State σ ω R where
  sink s :=
    { bufs := fun b => (List.range pfbOutbufSamples).map (memory s b)
      active := 0
      outbufCount := 0
      free := ((List.range sinkRingN).drop 1).reverse
      emitted := []
      delivered := [] }
  producer _ := .idle
  queue _ := []
  worker _ := none
  inFlight _ := 0

def run (cfg : Setup σ ω) (memory : σ → Nat → Nat → R) (steps : List (Step σ ω R)) : State σ ω R :=
  Runs.run (step cfg) (start memory) steps

/-! ## Moves -/

inductive Move (cfg : Setup σ ω) (st : State σ ω R) : State σ ω R → Prop
  | emit (s : σ) (y : R) (hidle : st.producer (cfg.owner s) = .idle)
      (hroom : (st.sink s).outbufCount + 1 ≠ pfbOutbufSamples) :
      Move cfg st (st.setSink s ((st.sink s).write y))
  | fill (s : σ) (y : R) (hidle : st.producer (cfg.owner s) = .idle)
      (hfull : (st.sink s).outbufCount + 1 = pfbOutbufSamples) :
      Move cfg st ((st.setSink s ((st.sink s).write y)).setProducer (cfg.owner s)
        ⟨some (.acquire, ⟨s, ((st.sink s).write y).filled⟩), none⟩)
  | flush (o : ω) (hidle : st.producer o = .idle) :
      Move cfg st (st.setProducer o ⟨none, some (cfg.sinks o)⟩)
  | skip (o : ω) (s : σ) (rest : List σ) (hproducer : st.producer o = ⟨none, some (s :: rest)⟩)
      (hempty : (st.sink s).outbufCount = 0) :
      Move cfg st (st.setProducer o ⟨none, some rest⟩)
  | begin (o : ω) (s : σ) (rest : List σ) (hproducer : st.producer o = ⟨none, some (s :: rest)⟩) :
      Move cfg st (st.setProducer o ⟨some (.acquire, ⟨s, (st.sink s).filled⟩), some rest⟩)
  | swap (o : ω) (x : Work σ) (todo : Option (List σ)) (b : Nat) (free : List Nat)
      (hproducer : st.producer o = ⟨some (.acquire, x), todo⟩)
      (hfree : (st.sink x.sink).free = b :: free) :
      Move cfg st ((st.setSink x.sink ((st.sink x.sink).swapIn b free)).setProducer o
        ⟨some (.bump, x), todo⟩)
  | bump (o : ω) (x : Work σ) (todo : Option (List σ))
      (hproducer : st.producer o = ⟨some (.bump, x), todo⟩) :
      Move cfg st ((st.addInFlight (cfg.owner x.sink) 1).setProducer o ⟨some (.enqueue, x), todo⟩)
  | enqueue (o : ω) (x : Work σ) (todo : Option (List σ))
      (hproducer : st.producer o = ⟨some (.enqueue, x), todo⟩) :
      Move cfg st ((st.setQueue (cfg.home x.sink) (st.queue (cfg.home x.sink) ++ [x])).setProducer o
        ⟨none, todo⟩)
  | leave (o : ω) (hproducer : st.producer o = ⟨none, some []⟩) (hdone : ¬0 < st.inFlight o) :
      Move cfg st (st.setProducer o .idle)
  | dequeue (w : Nat) (x : Work σ) (rest : List (Work σ)) (hidle : st.worker w = none)
      (hqueue : st.queue w = x :: rest) :
      Move cfg st ((st.setQueue w rest).setWorker w (some (.call, x)))
  | call (w : Nat) (x : Work σ) (hworker : st.worker w = some (.call, x)) :
      Move cfg st ((st.setSink x.sink ((st.sink x.sink).deliver x.parcel)).setWorker w
        (some (.giveBack, x)))
  | giveBack (w : Nat) (x : Work σ) (hworker : st.worker w = some (.giveBack, x)) :
      Move cfg st ((st.setSink x.sink ((st.sink x.sink).giveBack x.parcel.buf)).setWorker w
        (some (.finish, x)))
  | finish (w : Nat) (x : Work σ) (hworker : st.worker w = some (.finish, x)) :
      Move cfg st ((st.addInFlight (cfg.owner x.sink) (-1)).setWorker w none)

variable (cfg : Setup σ ω)

theorem emitToSink_move (st : State σ ω R) (s : σ) (y : R)
    (hidle : st.producer (cfg.owner s) = .idle) : Move cfg st (emitToSink cfg st s y) := by
  have hcount : ((st.setSink s ((st.sink s).write y)).sink s).outbufCount =
      (st.sink s).outbufCount + 1 := by
    rw [State.setSink_sink, Function.update_self]
    rfl
  unfold emitToSink
  dsimp only
  split
  next hfull =>
    rw [hcount] at hfull
    have hpos : ¬((st.setSink s ((st.sink s).write y)).sink s).outbufCount = 0 := by
      rw [hcount]
      omega
    have hsink : (st.setSink s ((st.sink s).write y)).sink s = (st.sink s).write y :=
      Function.update_self ..
    rw [flushSink, if_neg hpos, hsink]
    exact .fill s y hidle hfull
  next hroom =>
    rw [hcount] at hroom
    exact .emit s y hidle hroom

theorem produce_cases (st : State σ ω R) (o : ω) :
    produce cfg st o = st ∨ Move cfg st (produce cfg st o) := by
  unfold produce
  generalize hproducer : st.producer o = p
  obtain ⟨job, todo⟩ := p
  rcases job with _ | ⟨_ | _ | _, x⟩ <;> dsimp only
  · rcases todo with _ | ⟨_ | ⟨s, rest⟩⟩ <;> dsimp only
    · exact .inl rfl
    · split
      next => exact .inl rfl
      next hdone => exact .inr (.leave o hproducer hdone)
    · unfold flushSink
      split
      next hempty => exact .inr (.skip o s rest hproducer hempty)
      next => exact .inr (.begin o s rest hproducer)
  · split
    next => exact .inl rfl
    next b free hfree => exact .inr (.swap o x todo b free hproducer hfree)
  · exact .inr (.bump o x todo hproducer)
  · split
    next => exact .inl rfl
    next => exact .inr (.enqueue o x todo hproducer)

theorem work_cases (st : State σ ω R) (w : Nat) :
    work cfg st w = st ∨ Move cfg st (work cfg st w) := by
  unfold work
  split
  next hidle =>
    split
    next => exact .inl rfl
    next x rest hqueue => exact .inr (.dequeue w x rest hidle hqueue)
  next x hworker => exact .inr (.call w x hworker)
  next x hworker => exact .inr (.giveBack w x hworker)
  next x hworker => exact .inr (.finish w x hworker)

theorem step_cases (st : State σ ω R) (x : Step σ ω R) :
    step cfg st x = st ∨ Move cfg st (step cfg st x) := by
  unfold step
  cases x with
  | emit s y =>
    dsimp only
    split
    next hidle => exact .inr (emitToSink_move cfg st s y (Producer.eq_idle hidle))
    next => exact .inl rfl
  | flush o =>
    dsimp only
    split
    next hidle => exact .inr (.flush o (Producer.eq_idle hidle))
    next => exact .inl rfl
  | produce o => exact produce_cases cfg st o
  | work w =>
    dsimp only
    split
    next => exact work_cases cfg st w
    next => exact .inl rfl

end MeshcoreSniffer.Sdr.Sinks
