import MeshcoreSniffer.Sdr.Sinks

/-!
# Delivery to the sinks

Seen from one sink, a move of `Sdr.Sinks` is a move of `Lib.Lane` or nothing (`lane_move`), by the
bookkeeping of the producers (`Filling`), the workers (`Homed`) and `in_flight` (`Tallied`).
-/

namespace MeshcoreSniffer.Sdr.Sinks

open Lib List Function

variable {σ ω R : Type*}

/-! ## What a producer knows of its sinks -/

/-- The producer waits for a buffer to swap for the active one of `s`. -/
def Producer.Acquiring (p : Producer σ) (s : σ) : Prop :=
  ∃ x, p.job = some (.acquire, x) ∧ x.sink = s

/-- What it submits is filled, a sink has room unless it is being swapped, and one that `pfb_flush`
is done with is empty. -/
structure Filling (cfg : Setup σ ω) (sink : σ → Sink R) (o : ω) (p : Producer σ) : Prop where
  owned : ∀ stage x, p.job = some (stage, x) → cfg.owner x.sink = o
  listed : ∀ rest, p.todo = some rest → ∀ s ∈ rest, cfg.owner s = o
  filled : ∀ x, p.job = some (.acquire, x) → x.parcel = (sink x.sink).filled
  room : ∀ s, cfg.owner s = o → (sink s).outbufCount < pfbOutbufSamples ∨ p.Acquiring s
  drained : ∀ s rest, cfg.owner s = o → p.todo = some rest → s ∉ rest →
    (sink s).outbufCount = 0 ∨ p.Acquiring s

variable {cfg : Setup σ ω} {sink : σ → Sink R} {o : ω} {p : Producer σ} {s : σ}

theorem Filling.frame {sink' : σ → Sink R} (h : Filling cfg sink o p)
    (hsink : ∀ s, cfg.owner s = o → (sink' s).filled = (sink s).filled) :
    Filling cfg sink' o p where
  owned := h.owned
  listed := h.listed
  filled x hx := (h.filled x hx).trans (hsink x.sink (h.owned _ x hx)).symm
  room s hs := by
    have hcount : (sink' s).outbufCount = (sink s).outbufCount := congrArg Parcel.n (hsink s hs)
    rw [hcount]
    exact h.room s hs
  drained s rest hs := by
    have hcount : (sink' s).outbufCount = (sink s).outbufCount := congrArg Parcel.n (hsink s hs)
    rw [hcount]
    exact h.drained s rest hs

theorem Filling.room_of_idle (h : Filling cfg sink o p) (hjob : ∀ x, p.job ≠ some (.acquire, x))
    (hs : cfg.owner s = o) : (sink s).outbufCount < pfbOutbufSamples :=
  (h.room s hs).resolve_right fun ⟨x, hx, _⟩ => hjob x hx

theorem Filling.empty_of_idle (h : Filling cfg sink o p) (hjob : ∀ x, p.job ≠ some (.acquire, x))
    (hs : cfg.owner s = o) {rest : List σ} (htodo : p.todo = some rest) (hdone : s ∉ rest) :
    (sink s).outbufCount = 0 :=
  (h.drained s rest hs htodo hdone).resolve_right fun ⟨x, hx, _⟩ => hjob x hx

theorem Filling.of_settled (hjob : ∀ x, p.job ≠ some (.acquire, x))
    (howned : ∀ stage x, p.job = some (stage, x) → cfg.owner x.sink = o)
    (hlisted : ∀ rest, p.todo = some rest → ∀ s ∈ rest, cfg.owner s = o)
    (hroom : ∀ s, cfg.owner s = o → (sink s).outbufCount < pfbOutbufSamples)
    (hdrained : ∀ s rest, cfg.owner s = o → p.todo = some rest → s ∉ rest → (sink s).outbufCount = 0) :
    Filling cfg sink o p where
  owned := howned
  listed := hlisted
  filled x hx := absurd hx (hjob x)
  room s hs := .inl (hroom s hs)
  drained s rest hs htodo hdone := .inl (hdrained s rest hs htodo hdone)

def AllFilling (cfg : Setup σ ω) (st : State σ ω R) : Prop :=
  ∀ o, Filling cfg st.sink o (st.producer o)

theorem AllFilling.own {st : State σ ω R} (h : AllFilling cfg st) (hproducer : st.producer o = p) :
    Filling cfg st.sink o p := by
  rw [← hproducer]
  exact h o

/-! ## Where work is -/

structure Homed (cfg : Setup σ ω) (st : State σ ω R) : Prop where
  queue : ∀ w, ∀ x ∈ st.queue w, cfg.home x.sink = w
  worker : ∀ w stage x, st.worker w = some (stage, x) → cfg.home x.sink = w

theorem Homed.setWorker {st : State σ ω R} (h : Homed cfg st) {w : Nat}
    {job : Option (WorkStage × Work σ)}
    (hjob : ∀ stage x, job = some (stage, x) → cfg.home x.sink = w) :
    ∀ w' stage x, update st.worker w job w' = some (stage, x) → cfg.home x.sink = w' := by
  intro w' stage x hx
  by_cases hw : w' = w
  · subst hw
    rw [update_self] at hx
    exact hjob stage x hx
  · rw [update_of_ne hw] at hx
    exact h.worker w' stage x hx

theorem Setup.home_lt (cfg : Setup σ ω) (s : σ) : cfg.home s < cfg.nWorkers :=
  Nat.mod_lt _ cfg.nWorkers_pos

theorem view_update {ι α β : Type*} [DecidableEq ι] {f : ι → α} {i : ι} {a : α} (view : α → β)
    (h : view a = view (f i)) (j : ι) : view (update f i a j) = view (f j) := by
  by_cases hj : j = i
  · subst hj
    rw [update_self, h]
  · rw [update_of_ne hj]

section

variable [DecidableEq σ]

/-! ## One sink -/

def Producer.submitting (p : Producer σ) (s : σ) : List Parcel :=
  match p.job with
  | some (.bump, x) => if x.sink = s then [x.parcel] else []
  | some (.enqueue, x) => if x.sink = s then [x.parcel] else []
  | _ => []

def queuedOf (q : List (Work σ)) (s : σ) : List Parcel :=
  (q.filter fun x => x.sink = s).map Work.parcel

def callingOf (job : Option (WorkStage × Work σ)) (s : σ) : List Parcel :=
  match job with
  | some (.call, x) => if x.sink = s then [x.parcel] else []
  | _ => []

def returningOf (job : Option (WorkStage × Work σ)) (s : σ) : List Nat :=
  match job with
  | some (.giveBack, x) => if x.sink = s then [x.parcel.buf] else []
  | _ => []

def lane (cfg : Setup σ ω) (st : State σ ω R) (s : σ) : Lane R where
  bufs := (st.sink s).bufs
  active := (st.sink s).active
  count := (st.sink s).outbufCount
  free := (st.sink s).free
  submitting := (st.producer (cfg.owner s)).submitting s
  queued := queuedOf (st.queue (cfg.home s)) s
  calling := callingOf (st.worker (cfg.home s)) s
  returning := returningOf (st.worker (cfg.home s)) s
  emitted := (st.sink s).emitted
  delivered := (st.sink s).delivered

variable {cfg : Setup σ ω} {st st' : State σ ω R} {s : σ} {w : Nat} {x : Work σ}

theorem lane_congr (hsink : st'.sink s = st.sink s)
    (hsubmitting : (st'.producer (cfg.owner s)).submitting s = (st.producer (cfg.owner s)).submitting s)
    (hqueued : queuedOf (st'.queue (cfg.home s)) s = queuedOf (st.queue (cfg.home s)) s)
    (hcalling : callingOf (st'.worker (cfg.home s)) s = callingOf (st.worker (cfg.home s)) s)
    (hreturning : returningOf (st'.worker (cfg.home s)) s = returningOf (st.worker (cfg.home s)) s) :
    lane cfg st' s = lane cfg st s := by
  unfold lane
  rw [hsink, hsubmitting, hqueued, hcalling, hreturning]

theorem queuedOf_append (q : List (Work σ)) (x : Work σ) (s : σ) :
    queuedOf (q ++ [x]) s = queuedOf q s ++ if x.sink = s then [x.parcel] else [] := by
  unfold queuedOf
  rw [filter_append, map_append]
  by_cases hs : x.sink = s <;> simp [hs]

theorem queuedOf_cons (q : List (Work σ)) (x : Work σ) (s : σ) :
    queuedOf (x :: q) s = (if x.sink = s then [x.parcel] else []) ++ queuedOf q s := by
  unfold queuedOf
  by_cases hs : x.sink = s <;> simp [hs]

theorem unmoved (h : lane cfg st' s = lane cfg st s) :
    Relation.ReflGen (Lane.Step pfbOutbufSamples) (lane cfg st s) (lane cfg st' s) := by
  rw [h]

theorem lane_setSink_of_ne {s' : σ} (hne : s' ≠ s) (k : Sink R) :
    lane cfg (st.setSink s k) s' = lane cfg st s' :=
  lane_congr (update_of_ne hne _ _) rfl rfl rfl rfl

theorem lane_setSink_self (cfg : Setup σ ω) (st : State σ ω R) (s : σ) (k : Sink R) :
    lane cfg (st.setSink s k) s = { lane cfg st s with
      bufs := k.bufs, active := k.active, count := k.outbufCount, free := k.free
      emitted := k.emitted, delivered := k.delivered } := by
  simp only [lane, State.setSink_sink, State.setSink_producer, State.setSink_queue,
    State.setSink_worker, update_self]

theorem lane_write (hroom : (st.sink s).outbufCount < pfbOutbufSamples) (y : R) (s' : σ) :
    Relation.ReflGen (Lane.Step pfbOutbufSamples) (lane cfg st s')
      (lane cfg (st.setSink s ((st.sink s).write y)) s') := by
  by_cases hs : s' = s
  · subst hs
    rw [lane_setSink_self]
    exact .single (.emit (lane cfg st s') y hroom)
  · exact unmoved (lane_setSink_of_ne hs _)

theorem lane_dequeue {rest : List (Work σ)} (hidle : st.worker w = none)
    (hqueue : st.queue w = x :: rest) (hhome : cfg.home x.sink = w) (s : σ) :
    Relation.ReflGen (Lane.Step pfbOutbufSamples) (lane cfg st s)
      (lane cfg ((st.setQueue w rest).setWorker w (some (.call, x))) s) := by
  by_cases hs : s = x.sink
  · subst hs
    have hqueued : (lane cfg st x.sink).queued = x.parcel :: queuedOf rest x.sink := by
      show queuedOf (st.queue (cfg.home x.sink)) x.sink = _
      rw [hhome, hqueue, queuedOf_cons, if_pos rfl]
      rfl
    have hcalling : (lane cfg st x.sink).calling = [] := by
      show callingOf (st.worker (cfg.home x.sink)) x.sink = []
      rw [hhome, hidle]
      rfl
    have heq : lane cfg ((st.setQueue w rest).setWorker w (some (.call, x))) x.sink =
        { lane cfg st x.sink with calling := [x.parcel], queued := queuedOf rest x.sink } := by
      simp [lane, hhome, callingOf, returningOf, hidle]
    rw [heq]
    exact .single (.dequeue _ x.parcel _ hqueued hcalling)
  · have hqueued : queuedOf rest s = queuedOf (st.queue w) s := by
      rw [hqueue, queuedOf_cons, if_neg (Ne.symm hs), nil_append]
    have hcalling : callingOf (some (.call, x)) s = callingOf (st.worker w) s := by
      rw [hidle]
      exact if_neg (Ne.symm hs)
    have hreturning : returningOf (some (.call, x)) s = returningOf (st.worker w) s := by
      rw [hidle]
      rfl
    exact unmoved (lane_congr rfl rfl (view_update (fun q => queuedOf q s) hqueued _)
      (view_update (fun job => callingOf job s) hcalling _)
      (view_update (fun job => returningOf job s) hreturning _))

theorem lane_call (hworker : st.worker w = some (.call, x)) (hhome : cfg.home x.sink = w) (s : σ) :
    Relation.ReflGen (Lane.Step pfbOutbufSamples) (lane cfg st s)
      (lane cfg ((st.setSink x.sink ((st.sink x.sink).deliver x.parcel)).setWorker w
        (some (.giveBack, x))) s) := by
  by_cases hs : s = x.sink
  · subst hs
    have hcalling : (lane cfg st x.sink).calling = [x.parcel] := by
      show callingOf (st.worker (cfg.home x.sink)) x.sink = _
      rw [hhome, hworker]
      exact if_pos rfl
    have hreturning : (lane cfg st x.sink).returning = [] := by
      show returningOf (st.worker (cfg.home x.sink)) x.sink = []
      rw [hhome, hworker]
      rfl
    have heq : lane cfg ((st.setSink x.sink ((st.sink x.sink).deliver x.parcel)).setWorker w
        (some (.giveBack, x))) x.sink = { lane cfg st x.sink with
          calling := [], returning := [x.parcel.buf]
          delivered := (lane cfg st x.sink).delivered ++
            [Lane.contents (lane cfg st x.sink).bufs x.parcel] } := by
      simp [lane, hhome, callingOf, returningOf, Sink.deliver]
    rw [heq]
    exact .single (.call _ x.parcel hcalling hreturning)
  · have hcalling : callingOf (some (.giveBack, x)) s = callingOf (st.worker w) s := by
      rw [hworker]
      exact (if_neg (Ne.symm hs)).symm
    have hreturning : returningOf (some (.giveBack, x)) s = returningOf (st.worker w) s := by
      rw [hworker]
      exact if_neg (Ne.symm hs)
    exact unmoved (lane_congr (update_of_ne hs _ _) rfl rfl
      (view_update (fun job => callingOf job s) hcalling _)
      (view_update (fun job => returningOf job s) hreturning _))

theorem lane_giveBack (hworker : st.worker w = some (.giveBack, x)) (hhome : cfg.home x.sink = w)
    (s : σ) : Relation.ReflGen (Lane.Step pfbOutbufSamples) (lane cfg st s)
      (lane cfg ((st.setSink x.sink ((st.sink x.sink).giveBack x.parcel.buf)).setWorker w
        (some (.finish, x))) s) := by
  have hcalling : callingOf (some (.finish, x)) s = callingOf (st.worker w) s := by
    rw [hworker]
    rfl
  by_cases hs : s = x.sink
  · subst hs
    have hreturning : (lane cfg st x.sink).returning = [x.parcel.buf] := by
      show returningOf (st.worker (cfg.home x.sink)) x.sink = _
      rw [hhome, hworker]
      exact if_pos rfl
    have heq : lane cfg ((st.setSink x.sink ((st.sink x.sink).giveBack x.parcel.buf)).setWorker w
        (some (.finish, x))) x.sink = { lane cfg st x.sink with
          returning := [], free := x.parcel.buf :: (lane cfg st x.sink).free } := by
      simp [lane, hhome, returningOf, Sink.giveBack, hcalling]
    rw [heq]
    exact .single (.giveBack _ x.parcel.buf hreturning)
  · have hreturning : returningOf (some (.finish, x)) s = returningOf (st.worker w) s := by
      rw [hworker]
      exact (if_neg (Ne.symm hs)).symm
    exact unmoved (lane_congr (update_of_ne hs _ _) rfl rfl
      (view_update (fun job => callingOf job s) hcalling _)
      (view_update (fun job => returningOf job s) hreturning _))

theorem AllFilling.worker (h : AllFilling cfg st) {k : Sink R} (hk : k.filled = (st.sink s).filled) :
    ∀ o,
    Filling cfg (update st.sink s k) o (st.producer o) := by
  intro o
  refine (h o).frame fun s' _ => ?_
  by_cases hs : s' = s
  · subst hs
    rw [update_self, hk]
  · rw [update_of_ne hs]

theorem update_other {o : ω} (hs : cfg.owner s = o) (k : Sink R) :
    ∀ s', cfg.owner s' ≠ o → update st.sink s k s' = st.sink s' := by
  intro s' hne
  refine update_of_ne ?_ _ _
  rintro rfl
  exact hne hs

end

section

variable [DecidableEq ω]

variable {cfg : Setup σ ω} {st : State σ ω R} {o : ω} {p : Producer σ} {sink : σ → Sink R}

theorem AllFilling.producer (h : AllFilling cfg st)
    (hsink : ∀ s, cfg.owner s ≠ o → sink s = st.sink s) (hnew : Filling cfg sink o p) :
    ∀ o', Filling cfg sink o' (update st.producer o p o') := by
  intro o'
  by_cases ho : o' = o
  · subst ho
    rwa [update_self]
  · rw [update_of_ne ho]
    refine (h o').frame fun s hs => ?_
    rw [hsink s (hs ▸ ho)]

/-! ## What `in_flight` counts -/

def share (cfg : Setup σ ω) (o : ω) (x : Work σ) : Nat := if cfg.owner x.sink = o then 1 else 0

def held (cfg : Setup σ ω) (o : ω) : Option (WorkStage × Work σ) → Nat
  | some (_, x) => share cfg o x
  | none => 0

def load (cfg : Setup σ ω) (st : State σ ω R) (o : ω) (w : Nat) : Nat :=
  ((st.queue w).map (share cfg o)).sum + held cfg o (st.worker w)

def Producer.bumped (p : Producer σ) : Nat :=
  match p.job with
  | some (.enqueue, _) => 1
  | _ => 0

def Tallied (cfg : Setup σ ω) (st : State σ ω R) : Prop :=
  ∀ o, st.inFlight o =
    ((st.producer o).bumped + ∑ w ∈ Finset.range cfg.nWorkers, load cfg st o w : Nat)

theorem sum_add_at {f g : Nat → Nat} {n h d : Nat} (hh : h < n)
    (hadd : ∀ w, g w = f w + if w = h then d else 0) :
    ∑ w ∈ Finset.range n, g w = ∑ w ∈ Finset.range n, f w + d := by
  have hone : ∑ w ∈ Finset.range n, (if w = h then d else 0) = d := by
    rw [Finset.sum_ite_eq']
    exact if_pos (Finset.mem_range.mpr hh)
  simp only [hadd, Finset.sum_add_distrib, hone]

theorem Tallied.frame {st' : State σ ω R} (h : Tallied cfg st) (hcount : st'.inFlight = st.inFlight)
    (hbumped : ∀ o, (st'.producer o).bumped = (st.producer o).bumped)
    (hload : ∀ o w, load cfg st' o w = load cfg st o w) : Tallied cfg st' := by
  intro o
  simp only [hcount, hbumped, hload]
  exact h o

theorem Tallied.producer (h : Tallied cfg st) (hp : p.bumped = (st.producer o).bumped) :
    Tallied cfg { st with sink := sink, producer := update st.producer o p } :=
  h.frame rfl (view_update Producer.bumped hp) fun _ _ => rfl

theorem Tallied.worker (h : Tallied cfg st) {w : Nat} {stage stage' : WorkStage} {x : Work σ}
    (hworker : st.worker w = some (stage, x)) :
    Tallied cfg { st with sink := sink, worker := update st.worker w (some (stage', x)) } := by
  refine h.frame rfl (fun _ => rfl) fun o w' => ?_
  show _ + held cfg o (update st.worker w _ w') = _ + held cfg o (st.worker w')
  rw [view_update (held cfg o) (by rw [hworker]; rfl)]

end

/-! ## Moves -/

variable [DecidableEq σ] [DecidableEq ω]

variable {cfg : Setup σ ω} {st st' : State σ ω R} {o : ω} {x : Work σ} {todo : Option (List σ)}
  {s : σ}

theorem filling_move (h : AllFilling cfg st) (hmove : Move cfg st st') : AllFilling cfg st' := by
  cases hmove with
  | emit s y hidle hroom =>
    have hown := h.own hidle
    have hfree : ∀ x, (Producer.idle : Producer σ).job ≠ some (.acquire, x) := fun x => nofun
    have hnew : Filling cfg (update st.sink s ((st.sink s).write y)) (cfg.owner s) .idle := by
      refine .of_settled hfree (fun _ _ => nofun) (fun _ => nofun) ?_ (fun _ _ _ => nofun)
      intro s' hs'
      have hold := hown.room_of_idle hfree hs'
      by_cases hsame : s' = s
      · subst hsame
        rw [update_self]
        show (st.sink s').outbufCount + 1 < _
        omega
      · rwa [update_of_ne hsame]
    have hall := h.producer (update_other rfl ((st.sink s).write y)) hnew
    rwa [← hidle, update_eq_self] at hall
  | fill s y hidle hfull =>
    have hown := h.own hidle
    refine h.producer (update_other rfl _) ⟨?_, fun _ => nofun, ?_, ?_, fun _ _ _ => nofun⟩
    · rintro stage x ⟨⟩
      rfl
    · rintro x ⟨⟩
      rw [State.setProducer_sink, State.setSink_sink, update_self]
    · intro s' hs'
      by_cases hsame : s' = s
      · exact .inr ⟨_, rfl, hsame.symm⟩
      · rw [State.setProducer_sink, State.setSink_sink, update_of_ne hsame]
        exact .inl (hown.room_of_idle (fun x => nofun) hs')
  | flush o hidle =>
    have hown := h.own hidle
    refine h.producer (fun _ _ => rfl) (.of_settled (fun x => nofun) (fun _ _ => nofun) ?_ ?_ ?_)
    · rintro rest ⟨⟩ s hs
      exact (cfg.mem_sinks o s).mp hs
    · exact fun s hs => hown.room_of_idle (fun x => nofun) hs
    · rintro s rest hs ⟨⟩ hdone
      exact absurd ((cfg.mem_sinks o s).mpr hs) hdone
  | skip o s rest hproducer hempty =>
    have hown := h.own hproducer
    refine h.producer (fun _ _ => rfl) (.of_settled (fun x => nofun) (fun _ _ => nofun) ?_ ?_ ?_)
    · rintro rest' ⟨⟩ s' hs'
      exact hown.listed _ rfl s' (mem_cons_of_mem s hs')
    · exact fun s' hs' => hown.room_of_idle (fun x => nofun) hs'
    · rintro s' rest' hs' ⟨⟩ hdone
      by_cases hsame : s' = s
      · rw [hsame, State.setProducer_sink, hempty]
      · refine hown.empty_of_idle (fun x => nofun) hs' rfl ?_
        exact fun hmem => (mem_cons.mp hmem).elim hsame hdone
  | begin o s rest hproducer =>
    have hown := h.own hproducer
    refine h.producer (fun _ _ => rfl) ⟨?_, ?_, ?_, ?_, ?_⟩
    · rintro stage x ⟨⟩
      exact hown.listed _ rfl s mem_cons_self
    · rintro rest' ⟨⟩ s' hs'
      exact hown.listed _ rfl s' (mem_cons_of_mem s hs')
    · rintro x ⟨⟩
      rfl
    · exact fun s' hs' => .inl (hown.room_of_idle (fun x => nofun) hs')
    · rintro s' rest' hs' ⟨⟩ hdone
      by_cases hsame : s' = s
      · exact .inr ⟨_, rfl, hsame.symm⟩
      · refine .inl (hown.empty_of_idle (fun x => nofun) hs' rfl ?_)
        exact fun hmem => (mem_cons.mp hmem).elim hsame hdone
  | swap o x todo b free hproducer hfree =>
    have hown := h.own hproducer
    have hsink : cfg.owner x.sink = o := hown.owned _ x rfl
    -- the only sink that may be full is the one swapped here
    have hother : ∀ {s}, s ≠ x.sink → ¬Producer.Acquiring ⟨some (.acquire, x), todo⟩ s := by
      rintro s hne ⟨x', ⟨⟩, hx'⟩
      exact hne hx'.symm
    refine h.producer (update_other hsink _) (.of_settled (fun x => nofun) ?_ hown.listed ?_ ?_)
    · rintro stage x' ⟨⟩
      exact hsink
    · intro s hs
      by_cases hsame : s = x.sink
      · rw [hsame, State.setProducer_sink, State.setSink_sink, update_self]
        exact Nat.zero_lt_succ _
      · rw [State.setProducer_sink, State.setSink_sink, update_of_ne hsame]
        exact (hown.room s hs).resolve_right (hother hsame)
    · intro s rest hs htodo hdone
      by_cases hsame : s = x.sink
      · rw [hsame, State.setProducer_sink, State.setSink_sink, update_self]
        rfl
      · rw [State.setProducer_sink, State.setSink_sink, update_of_ne hsame]
        exact (hown.drained s rest hs htodo hdone).resolve_right (hother hsame)
  | bump o x todo hproducer =>
    have hown := h.own hproducer
    refine h.producer (fun _ _ => rfl) (.of_settled (fun x => nofun) ?_ hown.listed ?_ ?_)
    · rintro stage x' ⟨⟩
      exact hown.owned _ x rfl
    · exact fun s hs => hown.room_of_idle (fun x => nofun) hs
    · exact fun s rest hs => hown.empty_of_idle (fun x => nofun) hs
  | enqueue o x todo hproducer =>
    have hown := h.own hproducer
    refine h.producer (fun _ _ => rfl)
      (.of_settled (fun x => nofun) (fun _ _ => nofun) hown.listed ?_ ?_)
    · exact fun s hs => hown.room_of_idle (fun x => nofun) hs
    · exact fun s rest hs => hown.empty_of_idle (fun x => nofun) hs
  | leave o hproducer hdone =>
    have hown := h.own hproducer
    refine h.producer (fun _ _ => rfl)
      (.of_settled (fun x => nofun) (fun _ _ => nofun) (fun _ => nofun) ?_ (fun _ _ _ => nofun))
    exact fun s hs => hown.room_of_idle (fun x => nofun) hs
  | dequeue w x rest hidle hqueue => exact h
  | call w x hworker => exact h.worker rfl
  | giveBack w x hworker => exact h.worker rfl
  | finish w x hworker => exact h

theorem homed_move (h : Homed cfg st) (hmove : Move cfg st st') : Homed cfg st' := by
  cases hmove with
  | emit | fill | flush | skip | begin | swap | bump | leave => exact ⟨h.queue, h.worker⟩
  | enqueue o x todo hproducer =>
    refine ⟨?_, h.worker⟩
    intro w y hy
    rw [State.setProducer_queue, State.setQueue_queue] at hy
    by_cases hw : w = cfg.home x.sink
    · subst hw
      rw [update_self] at hy
      rcases mem_append.mp hy with hold | hnew
      · exact h.queue _ y hold
      · rw [mem_singleton.mp hnew]
    · rw [update_of_ne hw] at hy
      exact h.queue w y hy
  | dequeue w x rest hidle hqueue =>
    have hx : cfg.home x.sink = w := h.queue w x (hqueue ▸ mem_cons_self)
    refine ⟨?_, h.setWorker ?_⟩
    · intro w' y hy
      rw [State.setWorker_queue, State.setQueue_queue] at hy
      by_cases hw : w' = w
      · subst hw
        rw [update_self] at hy
        exact h.queue w' y (hqueue ▸ mem_cons_of_mem x hy)
      · rw [update_of_ne hw] at hy
        exact h.queue w' y hy
    · rintro stage y ⟨⟩
      exact hx
  | call w x hworker =>
    refine ⟨h.queue, h.setWorker ?_⟩
    rintro stage y ⟨⟩
    exact h.worker w _ x hworker
  | giveBack w x hworker =>
    refine ⟨h.queue, h.setWorker ?_⟩
    rintro stage y ⟨⟩
    exact h.worker w _ x hworker
  | finish w x hworker => exact ⟨h.queue, h.setWorker fun _ _ => nofun⟩

theorem lane_setProducer {p : Producer σ} (s : σ)
    (hp : p.submitting s = (st.producer o).submitting s) :
    lane cfg (st.setProducer o p) s = lane cfg st s :=
  lane_congr rfl (view_update (fun p : Producer σ => p.submitting s) hp _) rfl rfl rfl

theorem lane_swap {b : Nat} {free : List Nat}
    (hproducer : st.producer o = ⟨some (.acquire, x), todo⟩) (howner : cfg.owner x.sink = o)
    (hfilled : x.parcel = (st.sink x.sink).filled) (hfree : (st.sink x.sink).free = b :: free)
    (s : σ) : Relation.ReflGen (Lane.Step pfbOutbufSamples) (lane cfg st s)
      (lane cfg ((st.setSink x.sink ((st.sink x.sink).swapIn b free)).setProducer o
        ⟨some (.bump, x), todo⟩) s) := by
  by_cases hs : s = x.sink
  · subst hs
    have hidle : (lane cfg st x.sink).submitting = [] := by
      show (st.producer (cfg.owner x.sink)).submitting x.sink = []
      rw [howner, hproducer]
      rfl
    have heq : lane cfg ((st.setSink x.sink ((st.sink x.sink).swapIn b free)).setProducer o
        ⟨some (.bump, x), todo⟩) x.sink = { lane cfg st x.sink with
          active := b, free := free, count := 0
          submitting := [⟨(lane cfg st x.sink).active, (lane cfg st x.sink).count⟩] } := by
      simp [lane, howner, Producer.submitting, Sink.swapIn, hfilled, Sink.filled]
    rw [heq]
    exact .single (.swap _ b free hfree hidle)
  · have hsubmitting : (⟨some (.bump, x), todo⟩ : Producer σ).submitting s =
        (st.producer o).submitting s := by
      rw [hproducer]
      exact if_neg (Ne.symm hs)
    exact unmoved (lane_congr (update_of_ne hs _ _)
      (view_update (fun p : Producer σ => p.submitting s) hsubmitting _) rfl rfl rfl)

theorem lane_enqueue (hproducer : st.producer o = ⟨some (.enqueue, x), todo⟩)
    (howner : cfg.owner x.sink = o) (s : σ) :
    Relation.ReflGen (Lane.Step pfbOutbufSamples) (lane cfg st s)
      (lane cfg ((st.setQueue (cfg.home x.sink) (st.queue (cfg.home x.sink) ++ [x])).setProducer o
        ⟨none, todo⟩) s) := by
  by_cases hs : s = x.sink
  · subst hs
    have hinHand : (lane cfg st x.sink).submitting = [x.parcel] := by
      show (st.producer (cfg.owner x.sink)).submitting x.sink = [x.parcel]
      rw [howner, hproducer]
      exact if_pos rfl
    have heq : lane cfg ((st.setQueue (cfg.home x.sink)
        (st.queue (cfg.home x.sink) ++ [x])).setProducer o ⟨none, todo⟩) x.sink =
          { lane cfg st x.sink with
            submitting := [], queued := (lane cfg st x.sink).queued ++ [x.parcel] } := by
      simp [lane, howner, Producer.submitting, queuedOf_append]
    rw [heq]
    exact .single (.enqueue _ x.parcel hinHand)
  · have hsubmitting : (⟨none, todo⟩ : Producer σ).submitting s = (st.producer o).submitting s := by
      rw [hproducer]
      exact (if_neg (Ne.symm hs)).symm
    have hqueued : queuedOf (st.queue (cfg.home x.sink) ++ [x]) s =
        queuedOf (st.queue (cfg.home x.sink)) s := by
      rw [queuedOf_append, if_neg (Ne.symm hs), append_nil]
    exact unmoved (lane_congr rfl (view_update (fun p : Producer σ => p.submitting s) hsubmitting _)
      (view_update (fun q => queuedOf q s) hqueued _) rfl rfl)

/-- **Refinement.** A move of the system is a move of the sink's lane, or nothing. -/
theorem lane_move (hfilling : AllFilling cfg st) (hhomed : Homed cfg st) (hmove : Move cfg st st')
    (s : σ) : Relation.ReflGen (Lane.Step pfbOutbufSamples) (lane cfg st s) (lane cfg st' s) := by
  cases hmove with
  | emit s' y hidle hroom =>
    have hown := hfilling (cfg.owner s')
    rw [hidle] at hown
    exact lane_write (hown.room_of_idle (fun x => nofun) rfl) y s
  | fill s' y hidle hfull =>
    have hown := hfilling (cfg.owner s')
    rw [hidle] at hown
    rw [lane_setProducer s (by rw [State.setSink_producer, hidle]; rfl)]
    exact lane_write (hown.room_of_idle (fun x => nofun) rfl) y s
  | flush o hidle => rw [lane_setProducer s (by rw [hidle]; rfl)]
  | skip o s' rest hproducer hempty => rw [lane_setProducer s (by rw [hproducer]; rfl)]
  | begin o s' rest hproducer => rw [lane_setProducer s (by rw [hproducer]; rfl)]
  | swap o x todo b free hproducer hfree =>
    have hown := hfilling o
    rw [hproducer] at hown
    exact lane_swap hproducer (hown.owned _ x rfl) (hown.filled x rfl) hfree s
  | bump o x todo hproducer =>
    rw [lane_setProducer s (by rw [State.addInFlight_producer, hproducer]; rfl)]
    exact .refl
  | enqueue o x todo hproducer =>
    have hown := hfilling o
    rw [hproducer] at hown
    exact lane_enqueue hproducer (hown.owned _ x rfl) s
  | leave o hproducer hdone => rw [lane_setProducer s (by rw [hproducer]; rfl)]
  | dequeue w x rest hidle hqueue =>
    exact lane_dequeue hidle hqueue (hhomed.queue w x (hqueue ▸ mem_cons_self)) s
  | call w x hworker => exact lane_call hworker (hhomed.worker w _ x hworker) s
  | giveBack w x hworker => exact lane_giveBack hworker (hhomed.worker w _ x hworker) s
  | finish w x hworker =>
    have hcalling : callingOf none s = callingOf (st.worker w) s := by
      rw [hworker]
      rfl
    have hreturning : returningOf none s = returningOf (st.worker w) s := by
      rw [hworker]
      rfl
    exact unmoved (lane_congr rfl rfl rfl (view_update (fun job => callingOf job s) hcalling _)
      (view_update (fun job => returningOf job s) hreturning _))

theorem tallied_move (h : Tallied cfg st) (hfilling : AllFilling cfg st) (hhomed : Homed cfg st)
    (hmove : Move cfg st st') : Tallied cfg st' := by
  cases hmove with
  | emit s y hidle hroom => exact h.frame rfl (fun _ => rfl) fun _ _ => rfl
  | fill s y hidle hfull => exact h.producer (by rw [hidle]; rfl)
  | flush o hidle => exact h.producer (by rw [hidle]; rfl)
  | skip o s rest hproducer hempty => exact h.producer (by rw [hproducer]; rfl)
  | begin o s rest hproducer => exact h.producer (by rw [hproducer]; rfl)
  | swap o x todo b free hproducer hfree => exact h.producer (by rw [hproducer]; rfl)
  | leave o hproducer hdone => exact h.producer (by rw [hproducer]; rfl)
  | call w x hworker => exact h.worker hworker
  | giveBack w x hworker => exact h.worker hworker
  | bump o x todo hproducer =>
    have howner : cfg.owner x.sink = o := (hfilling o).owned .bump x (by rw [hproducer])
    intro o'
    show update st.inFlight (cfg.owner x.sink) _ o' =
      (((update st.producer o _ o').bumped + ∑ w ∈ _, load cfg st o' w : Nat) : Int)
    rw [howner]
    by_cases ho : o' = o
    · subst ho
      have hold := h o'
      rw [hproducer] at hold
      rw [update_self, update_self, hold]
      simp [Producer.bumped]
      omega
    · rw [update_of_ne ho, update_of_ne ho]
      exact h o'
  | enqueue o x todo hproducer =>
    have howner : cfg.owner x.sink = o := (hfilling o).owned .enqueue x (by rw [hproducer])
    intro o'
    -- what leaves the producer arrives at the worker
    have hload : ∑ w ∈ Finset.range cfg.nWorkers, load cfg
        ((st.setQueue (cfg.home x.sink) (st.queue (cfg.home x.sink) ++ [x])).setProducer o
          ⟨none, todo⟩) o' w =
        ∑ w ∈ Finset.range cfg.nWorkers, load cfg st o' w + share cfg o' x := by
      refine sum_add_at (cfg.home_lt x.sink) fun w => ?_
      rw [load, load, State.setProducer_queue, State.setProducer_worker, State.setQueue_queue,
        State.setQueue_worker]
      by_cases hw : w = cfg.home x.sink
      · subst hw
        rw [update_self, if_pos rfl, map_append, sum_append, map_singleton,
          sum_singleton]
        omega
      · rw [update_of_ne hw, if_neg hw]
        rfl
    have hold := h o'
    rw [hload]
    show st.inFlight o' = (((update st.producer o _ o').bumped + _ : Nat) : Int)
    by_cases ho : o' = o
    · subst ho
      have hshare : share cfg o' x = 1 := if_pos howner
      rw [hproducer] at hold
      rw [update_self, hold, hshare]
      simp only [Producer.bumped]
      omega
    · have hshare : share cfg o' x = 0 := if_neg fun hx => ho (hx.symm.trans howner)
      rw [update_of_ne ho, hold, hshare, Nat.add_zero]
  | dequeue w x rest hidle hqueue =>
    refine h.frame rfl (fun _ => rfl) fun o w' => ?_
    show ((update st.queue w rest w').map (share cfg o)).sum +
      held cfg o (update st.worker w (some (.call, x)) w') = load cfg st o w'
    rw [load]
    by_cases hw : w' = w
    · subst hw
      rw [update_self, update_self, hqueue, hidle, map_cons, sum_cons]
      show _ + share cfg o x = _ + 0
      omega
    · rw [update_of_ne hw, update_of_ne hw]
  | finish w x hworker =>
    have hw : w < cfg.nWorkers := hhomed.worker w _ x hworker ▸ cfg.home_lt x.sink
    intro o
    have hload : ∑ w ∈ Finset.range cfg.nWorkers, load cfg st o w =
        ∑ w' ∈ Finset.range cfg.nWorkers, load cfg
          ((st.addInFlight (cfg.owner x.sink) (-1)).setWorker w none) o w' + share cfg o x := by
      refine sum_add_at hw fun w' => ?_
      show load cfg st o w' = ((st.queue w').map (share cfg o)).sum +
        held cfg o (update st.worker w none w') + _
      rw [load]
      by_cases hw' : w' = w
      · subst hw'
        rw [update_self, if_pos rfl, hworker]
        rfl
      · rw [update_of_ne hw', if_neg hw']
        rfl
    have hold := h o
    rw [hload] at hold
    show update st.inFlight (cfg.owner x.sink) _ o = (((st.producer o).bumped + _ : Nat) : Int)
    by_cases ho : o = cfg.owner x.sink
    · subst ho
      have hshare : share cfg (cfg.owner x.sink) x = 1 := if_pos rfl
      rw [update_self, hold, hshare]
      omega
    · have hshare : share cfg o x = 0 := if_neg (Ne.symm ho)
      rw [update_of_ne ho, hold, hshare, Nat.add_zero]

/-! ## Every interleaving -/

structure Inv (cfg : Setup σ ω) (st : State σ ω R) : Prop where
  filling : AllFilling cfg st
  homed : Homed cfg st
  tallied : Tallied cfg st
  lanes : ∀ s, (lane cfg st s).Sound pfbOutbufSamples sinkRingN

theorem inv_start (cfg : Setup σ ω) (memory : σ → Nat → Nat → R) : Inv cfg (start memory) where
  filling o := .of_settled (fun x => nofun) (fun _ _ => nofun) (fun _ => nofun)
    (fun _ _ => Nat.zero_lt_succ _) (fun _ _ _ => nofun)
  homed := ⟨fun _ _ hx => absurd hx not_mem_nil, fun _ _ _ => nofun⟩
  tallied o := by
    have hload : ∀ w, load cfg (start memory) o w = 0 := fun w => rfl
    simp only [hload, Finset.sum_const_zero]
    rfl
  lanes s := by
    have hfresh : lane cfg (start memory) s =
        .fresh sinkRingN fun b => (range pfbOutbufSamples).map (memory s b) := by
      simp only [lane, start, Lane.fresh, Producer.submitting, Producer.idle, queuedOf, callingOf,
        returningOf, filter_nil, map_nil]
    rw [hfresh]
    refine Lane.sound_fresh (by decide) fun b => ?_
    rw [length_map, length_range]

theorem inv_step (h : Inv cfg st) (x : Step σ ω R) : Inv cfg (step cfg st x) := by
  rcases step_cases cfg st x with hwait | hmove
  · rwa [hwait]
  · refine ⟨filling_move h.filling hmove, homed_move h.homed hmove,
      tallied_move h.tallied h.filling h.homed hmove, fun s => ?_⟩
    rcases (Relation.reflGen_iff _ _ _).mp (lane_move h.filling h.homed hmove s) with hsame | hstep
    · rw [hsame]
      exact h.lanes s
    · exact (h.lanes s).step hstep

theorem inv_run (cfg : Setup σ ω) (memory : σ → Nat → Nat → R) (steps : List (Step σ ω R)) :
    Inv cfg (run cfg memory steps) :=
  Runs.run_invariant (I := Inv cfg) (fun _ x h => inv_step h x) (inv_start cfg memory) steps

theorem path_of_quiet (h : Inv cfg st) (hjob : (st.producer (cfg.owner s)).job = none)
    (hcount : ¬0 < st.inFlight (cfg.owner s)) : (lane cfg st s).path = [] := by
  have htally := h.tallied (cfg.owner s)
  have hload : load cfg st (cfg.owner s) (cfg.home s) = 0 := by
    have hle := Finset.single_le_sum (f := load cfg st (cfg.owner s)) (fun _ _ => Nat.zero_le _)
      (Finset.mem_range.mpr (cfg.home_lt s))
    omega
  obtain ⟨hqueue, hworker⟩ := Nat.add_eq_zero_iff.mp hload
  have hnone : ∀ x ∈ st.queue (cfg.home s), x.sink ≠ s := by
    rintro x hx rfl
    have hzero := sum_eq_zero_iff.mp hqueue (share cfg (cfg.owner x.sink) x)
      (mem_map_of_mem hx)
    rw [share, if_pos rfl] at hzero
    exact Nat.one_ne_zero hzero
  have hsubmitting : (lane cfg st s).submitting = [] := by
    show (st.producer (cfg.owner s)).submitting s = []
    rw [Producer.submitting, hjob]
  have hqueued : (lane cfg st s).queued = [] := by
    show queuedOf (st.queue (cfg.home s)) s = []
    rw [queuedOf, filter_eq_nil_iff.mpr fun x hx => by simpa using hnone x hx]
    rfl
  have hcalling : (lane cfg st s).calling = [] := by
    show callingOf (st.worker (cfg.home s)) s = []
    cases hw : st.worker (cfg.home s) with
    | none => rfl
    | some job =>
      obtain ⟨stage, x⟩ := job
      rw [hw] at hworker
      have hx : x.sink ≠ s := by
        rintro rfl
        exact Nat.one_ne_zero ((if_pos rfl).symm.trans hworker)
      cases stage with
      | call => exact if_neg hx
      | giveBack => rfl
      | finish => rfl
  rw [Lane.path, hsubmitting, hqueued, hcalling]
  rfl

/-- **The flush.** When the wait of `pfb_flush` is over, every sink of the filterbank is drained. -/
theorem lane_drained (h : Inv cfg st) (hproducer : st.producer (cfg.owner s) = ⟨none, some []⟩)
    (hcount : ¬0 < st.inFlight (cfg.owner s)) :
    (st.sink s).delivered.flatten = (st.sink s).emitted := by
  have hown := h.filling (cfg.owner s)
  rw [hproducer] at hown
  have hempty : (st.sink s).outbufCount = 0 :=
    hown.empty_of_idle (fun x => nofun) rfl rfl not_mem_nil
  have hpath := path_of_quiet h (s := s) (by rw [hproducer]) hcount
  exact (h.lanes s).delivered_of_quiet hpath hempty

theorem flush_returns (hin : (st.producer o).todo ≠ none)
    (hout : ((step cfg st (.produce o)).producer o).todo = none) :
    st.producer o = ⟨none, some []⟩ ∧ ¬0 < st.inFlight o ∧
      (step cfg st (.produce o)).sink = st.sink := by
  have hwait : (st.producer o).todo ≠ none := hin
  -- whatever else the producer does, it stays inside `pfb_flush`
  have hset : ∀ {st' : State σ ω R} {job' todo'}, todo' ≠ none →
      ((st'.setProducer o ⟨job', todo'⟩).producer o).todo ≠ none := by
    intro st' job' todo' hne
    rw [State.setProducer_producer, update_self]
    exact hne
  rcases hproducer : st.producer o with ⟨job, todo⟩
  simp only [step, produce, hproducer] at hin hout ⊢
  rcases job with _ | ⟨_ | _ | _, x⟩
  · rcases todo with _ | ⟨_ | ⟨s, rest⟩⟩
    · exact absurd rfl hin
    · dsimp only at hout ⊢
      by_cases hdone : 0 < st.inFlight o
      · rw [if_pos hdone] at hout
        exact absurd hout hwait
      · rw [if_neg hdone]
        exact ⟨rfl, hdone, rfl⟩
    · dsimp only [flushSink] at hout
      split at hout
      next => exact absurd hout (hset (Option.some_ne_none rest))
      next => exact absurd hout (hset (Option.some_ne_none rest))
  · dsimp only at hout
    split at hout
    next => exact absurd hout hwait
    next => exact absurd hout (hset hin)
  · exact absurd hout (hset hin)
  · dsimp only at hout
    split at hout
    next => exact absurd hout hwait
    next => exact absurd hout (hset hin)

/-- **Delivery.** For every interleaving and sink: what was emitted is what the callback was given,
followed by what is still under way; each buffer is in exactly one place; its work is only ever at
the worker of its channel; and when `pfb_flush` returns, everything has been delivered. -/
theorem sinks_deliver (cfg : Setup σ ω) (memory : σ → Nat → Nat → R) (steps : List (Step σ ω R))
    (s : σ) :
    let st := run cfg memory steps
    let st' := step cfg st (.produce (cfg.owner s))
    (st.sink s).emitted = (st.sink s).delivered.flatten ++ (lane cfg st s).transit ∧
      (lane cfg st s).places.Perm (List.range sinkRingN) ∧
      (∀ w, (∀ x ∈ st.queue w, cfg.home x.sink = w) ∧
        ∀ stage x, st.worker w = some (stage, x) → cfg.home x.sink = w) ∧
      ((st.producer (cfg.owner s)).todo ≠ none → (st'.producer (cfg.owner s)).todo = none →
        (st'.sink s).delivered.flatten = (st'.sink s).emitted) := by
  intro st st'
  have hinv : Inv cfg st := inv_run cfg memory steps
  refine ⟨(hinv.lanes s).stream, (hinv.lanes s).partitioned,
    fun w => ⟨hinv.homed.queue w, hinv.homed.worker w⟩, ?_⟩
  intro hin hout
  obtain ⟨hproducer, hcount, hsame⟩ := flush_returns hin hout
  rw [hsame]
  exact lane_drained hinv hproducer hcount

def oneSink : Setup Unit Unit where
  owner _ := ()
  channelId _ := 7
  sinks _ := [()]
  mem_sinks _ _ := by simp
  nWorkers := 1
  nWorkers_pos := Nat.one_pos

/-- A sample is written, and `pfb_flush` runs up to its return. -/
def flushedOnce : List (Step Unit Unit Int) :=
  [.emit () 5, .flush (), .produce (), .produce (), .produce (), .produce (), .work 0, .work 0,
    .work 0, .work 0]

theorem sinks_deliver_once :
    ((step oneSink (run oneSink (fun _ _ _ => 0) flushedOnce) (.produce ())).sink ()).delivered.flatten =
      ((step oneSink (run oneSink (fun _ _ _ => 0) flushedOnce) (.produce ())).sink ()).emitted :=
  (sinks_deliver oneSink (fun _ _ _ => 0) flushedOnce ()).2.2.2 (by decide) (by decide)

/-- **In the producer's hand.** Between the swap and the queue a buffer is in none of the four
places. -/
theorem swapped_buffer_in_hand :
    let st := run oneSink (fun _ _ _ => (0 : Int)) [.emit () 5, .flush (), .produce (), .produce ()]
    let l := lane oneSink st ()
    0 ∉ l.active :: l.free ++ l.queued.map Parcel.buf ++ (l.calling.map Parcel.buf ++ l.returning) ∧
      l.submitting = [⟨0, 1⟩] := by
  decide

end MeshcoreSniffer.Sdr.Sinks
