import MeshcoreSniffer.Fusion.Replay
import Mathlib.Algebra.BigOperators.Group.List.Basic

/-!
# The multilateration solver

`Solve` of `fusion/mlat.go` in exact arithmetic: the stations in a plane around their centroid, a
damped iteration from the centroid and from every station, and the best of the results.
-/

namespace MeshcoreSniffer.Fusion

open Lib List Option

variable {K : Type*} [Field K] [LinearOrder K]

structure MlatStation (K : Type*) where
  x : K
  y : K
  z : K
  t : K
  w : K

def MlatObservation.resolveTNs (o : MlatObservation K) : K := if o.lockTNs ≠ 0 then o.lockTNs else o.tNs

def llToEnu (m : MathFns K) (lat lon anchorLat anchorLon : K) : K × K :=
  let earthR := 6371000
  (earthR * ((lon - anchorLon) * m.pi / 180) * m.cos (anchorLat * m.pi / 180),
    earthR * ((lat - anchorLat) * m.pi / 180))

def enuToLl (m : MathFns K) (east north anchorLat anchorLon : K) : K × K :=
  let earthR := 6371000
  (anchorLat + north / earthR * 180 / m.pi,
    anchorLon + east / (earthR * m.cos (anchorLat * m.pi / 180)) * 180 / m.pi)

def centroid (obs : List (MlatObservation K)) : K × K :=
  ((obs.map (·.lat)).sum / obs.length, (obs.map (·.lon)).sum / obs.length)

def earliest (obs : List (MlatObservation K)) : K :=
  (obs.map (·.resolveTNs)).foldl min ((obs.map (·.resolveTNs)).headD 0)

def toStation (m : MathFns K) (anchor : K × K) (minTNs : K) (o : MlatObservation K) : MlatStation K :=
  let enu := llToEnu m o.lat o.lon anchor.1 anchor.2
  ⟨enu.1, enu.2, o.altM, (o.resolveTNs - minTNs) / 1000000000, 1 / (max o.tAccNs 1 : Nat)⟩

def stationsOf (m : MathFns K) (obs : List (MlatObservation K)) : List (MlatStation K) :=
  obs.map (toStation m (centroid obs) (earliest obs))

def groundRange (m : MathFns K) (s : MlatStation K) (p : K × K) : K :=
  max (m.sqrt ((p.1 - s.x) * (p.1 - s.x) + (p.2 - s.y) * (p.2 - s.y) + (0 - s.z) * (0 - s.z)))
    (1 / 1000)

def tdoa (m : MathFns K) (ref s : MlatStation K) (p : K × K) : K × K :=
  (speedOfLight * (s.t - ref.t) - (groundRange m s p - groundRange m ref p), min s.w ref.w)

/-- The loop of `lmIterate` sums the same. -/
def evalResidual (m : MathFns K) (p : K × K) : List (MlatStation K) → K
  | [] => 0
  | ref :: rest => (rest.map fun s => (tdoa m ref s p).2 * (tdoa m ref s p).1 * (tdoa m ref s p).1).sum

/-- The sums `jtwj` (three different ones) and `jtwr`. -/
def normalEquations (m : MathFns K) (p : K × K) : List (MlatStation K) → (K × K × K) × K × K
  | [] => 0
  | ref :: rest =>
    (rest.map fun s =>
      let jx := (p.1 - s.x) / groundRange m s p - (p.1 - ref.x) / groundRange m ref p
      let jy := (p.2 - s.y) / groundRange m s p - (p.2 - ref.y) / groundRange m ref p
      let (r, w) := tdoa m ref s p
      ((w * jx * jx, w * jx * jy, w * jy * jy), w * jx * r, w * jy * r)).sum

/-- The variables of `lmIterate`; a `prevResidual` of none is infinite. -/
structure LmState (K : Type*) where
  p : K × K
  lambda : K
  prevResidual : Option K

/-- `lmIterate` with `n` iterations left: the residual it returns, and the point. -/
def lmIterate (m : MathFns K) (stations : List (MlatStation K)) : Nat → LmState K → Option K × K × K
  | 0, s => (s.prevResidual, s.p)
  | n + 1, s =>
    let residual := evalResidual m s.p stations
    let ((a, b, d), gx, gy) := normalEquations m s.p stations
    let det := a * (1 + s.lambda) * (d * (1 + s.lambda)) - b * b
    if |det| < 1 / 10 ^ 15 then
      if 10 ^ 9 < s.lambda * 10 then (some residual, s.p)
      else lmIterate m stations n { s with lambda := s.lambda * 10 }
    else
      let dp : K × K := ((d * (1 + s.lambda) * gx - b * gy) / det, (-b * gx + a * (1 + s.lambda) * gy) / det)
      let trial : K × K := (s.p.1 + dp.1, s.p.2 + dp.2)
      if evalResidual m trial stations < residual then
        if m.sqrt (dp.1 * dp.1 + dp.2 * dp.2) < 1 / 100 then (some (evalResidual m trial stations), trial)
        else lmIterate m stations n ⟨trial, max (s.lambda / 10) (1 / 10 ^ 9), some residual⟩
      else if 10 ^ 9 < s.lambda * 10 then (some residual, s.p)
      else lmIterate m stations n ⟨s.p, s.lambda * 10, some residual⟩

/-- `MlatResult`, and beside it the point in the plane and its residual. -/
structure MlatFix (K : Type*) where
  p : K × K
  residual : K
  lat : K
  lon : K
  uncertaintyM : K

def tryStart (m : MathFns K) (stations : List (MlatStation K)) (best : Option (K × K × K))
    (start : K × K) : Option (K × K × K) :=
  match lmIterate m stations 100 ⟨start, 1 / 1000, none⟩ with
  | (none, _) => best
  | (some r, p) => if ∀ b ∈ best, r < b.1 then some (r, p) else best

def startGuesses (stations : List (MlatStation K)) : List (K × K) := (0, 0) :: stations.map fun s => (s.x, s.y)

def solve (m : MathFns K) (obs : List (MlatObservation K)) : Option (MlatFix K) :=
  if obs.length < 3 then none
  else
    let stations := stationsOf m obs
    ((startGuesses stations).foldl (tryStart m stations) none).map fun best =>
      let ll := enuToLl m best.2.1 best.2.2 (centroid obs).1 (centroid obs).2
      ⟨best.2, best.1, ll.1, ll.2, m.sqrt (best.1 / (max (stations.length - 2) 1 : Nat))⟩

/-! ## Descent -/

variable [IsStrictOrderedRing K] {m : MathFns K} {stations : List (MlatStation K)}

/-- What it returns lies between the residual at its point and the one at its start. The damping
grows tenfold while no residual is kept, so it ends before the iterations do. -/
theorem lmIterate_spec {bound : K} (n : Nat) {s : LmState K}
    (hcurrent : evalResidual m s.p stations ≤ bound)
    (hprev : ∀ r ∈ s.prevResidual, evalResidual m s.p stations ≤ r ∧ r ≤ bound)
    (hfresh : s.prevResidual = none → 10 ^ 97 ≤ s.lambda * 10 ^ n ∧ s.lambda ≤ 10 ^ 9) :
    ∃ r, (lmIterate m stations n s).1 = some r ∧
      evalResidual m (lmIterate m stations n s).2 stations ≤ r ∧ r ≤ bound := by
  induction n generalizing s with
  | zero =>
    cases hp : s.prevResidual with
    | none =>
      obtain ⟨hlow, hhigh⟩ := hfresh hp
      rw [pow_zero, mul_one] at hlow
      have hfalse : (10 : K) ^ 97 ≤ 10 ^ 9 := hlow.trans hhigh
      norm_num at hfalse
    | some r => exact ⟨r, hp, hprev r hp⟩
  | succ n ih =>
    rw [lmIterate]
    dsimp only
    split
    · -- degenerate: the point and the kept residual stay
      split
      · exact ⟨_, rfl, le_rfl, hcurrent⟩
      next hmax =>
        refine ih hcurrent hprev fun hp => ⟨?_, not_lt.mp hmax⟩
        show 10 ^ 97 ≤ s.lambda * 10 * 10 ^ n
        rw [mul_assoc, ← pow_succ']
        exact (hfresh hp).1
    split
    next haccept =>
      split
      · exact ⟨_, rfl, le_rfl, haccept.le.trans hcurrent⟩
      · refine ih (haccept.le.trans hcurrent) ?_ nofun
        rintro r ⟨⟩
        exact ⟨haccept.le, hcurrent⟩
    next =>
      split
      · exact ⟨_, rfl, le_rfl, hcurrent⟩
      · refine ih hcurrent ?_ nofun
        rintro r ⟨⟩
        exact ⟨le_rfl, hcurrent⟩

theorem foldl_tryStart_spec (guesses : List (K × K)) {best : Option (K × K × K)}
    (hbest : ∀ b ∈ best, evalResidual m b.2 stations ≤ b.1) :
    ∀ b ∈ guesses.foldl (tryStart m stations) best, evalResidual m b.2 stations ≤ b.1 ∧
      (∀ b' ∈ best, b.1 ≤ b'.1) ∧ ∀ start ∈ guesses, b.1 ≤ evalResidual m start stations := by
  induction guesses generalizing best with
  | nil => exact fun b hb => ⟨hbest b hb, fun b' hb' => (mem_unique hb hb' ▸ le_rfl), nofun⟩
  | cons start rest ih =>
    obtain ⟨r, hr, hpoint, hstart⟩ := lmIterate_spec (s := ⟨start, 1 / 1000, none⟩) 100
      (le_refl (evalResidual m start stations)) nofun
      fun _ => ⟨by norm_num, by norm_num⟩
    generalize hrun : lmIterate m stations 100 ⟨start, 1 / 1000, none⟩ = result at hr hpoint
    obtain ⟨_, p⟩ := result
    dsimp only at hr hpoint
    subst hr
    -- the result of this start is kept, or one that is no worse is
    have hnext : ∃ b, tryStart m stations best start = some b ∧
        evalResidual m b.2 stations ≤ b.1 ∧ b.1 ≤ r ∧ ∀ b' ∈ best, b.1 ≤ b'.1 := by
      rw [tryStart, hrun]
      dsimp only
      split
      next hless => exact ⟨_, rfl, hpoint, le_rfl, fun b' hb' => (hless b' hb').le⟩
      next hnot =>
        push Not at hnot
        obtain ⟨b, hb, hle⟩ := hnot
        exact ⟨b, hb, hbest b hb, hle, fun b' hb' => (mem_unique hb hb' ▸ le_rfl)⟩
    obtain ⟨kept, hkept, hgood, hler, hleast⟩ := hnext
    intro b hb
    rw [foldl_cons, hkept] at hb
    obtain ⟨h1, h2, h3⟩ := ih (fun b' hb' => mem_some_iff.mp hb' ▸ hgood) b hb
    have hbk : b.1 ≤ kept.1 := h2 kept rfl
    refine ⟨h1, fun b' hb' => hbk.trans (hleast b' hb'), fun g hg => ?_⟩
    rcases mem_cons.mp hg with rfl | hg
    · exact hbk.trans (hler.trans hstart)
    · exact h3 g hg

/-- **Descent.** The residual at a position `Solve` returns is no larger than at the centroid, at
every station, and than the one the uncertainty is computed from. -/
theorem solve_descends (m : MathFns K) (obs : List (MlatObservation K)) (fix : MlatFix K)
    (hfix : solve m obs = some fix) :
    let R := fun p => evalResidual m p (stationsOf m obs)
    3 ≤ obs.length ∧ R fix.p ≤ R (0, 0) ∧ (∀ s ∈ stationsOf m obs, R fix.p ≤ R (s.x, s.y)) ∧
      R fix.p ≤ fix.residual ∧
      fix.uncertaintyM = m.sqrt (fix.residual / (max ((stationsOf m obs).length - 2) 1 : Nat)) := by
  rw [solve] at hfix
  split at hfix
  · cases hfix
  next hmany =>
    obtain ⟨best, hbest, rfl⟩ := map_eq_some_iff.mp hfix
    have hnone : ∀ b ∈ (none : Option (K × K × K)), evalResidual m b.2 (stationsOf m obs) ≤ b.1 := nofun
    obtain ⟨hpoint, -, hstarts⟩ := foldl_tryStart_spec _ hnone best hbest
    refine ⟨not_lt.mp hmany, hpoint.trans (hstarts _ mem_cons_self), fun s hs => ?_, hpoint, rfl⟩
    exact hpoint.trans (hstarts _ (mem_cons_of_mem _ (mem_map_of_mem hs)))

def meterPerDegree : MathFns ℚ where
  sin := id
  cos := fun _ => 1
  sqrt := fun x => if x < 1 then 0 else if x < 4 then 1 else 2
  atan2 := fun y _ => y
  pi := 180 / 6371000

def seenFrom (lat lon lockTNs : ℚ) : MlatObservation ℚ := ⟨ascii "s", lat, lon, 0, 0, lockTNs, 1, none⟩

def triangle : List (MlatObservation ℚ) := [seenFrom 0 0 7, seenFrom 0 3 1, seenFrom 3 0 9]

/-- From all starts but one the steps are accepted and converge; there every step is refused. -/
theorem solve_descends_triangle :
    ∃ fix, solve meterPerDegree triangle = some fix ∧ fix.p ≠ (0, 0) ∧
      evalResidual meterPerDegree fix.p (stationsOf meterPerDegree triangle) ≤
        evalResidual meterPerDegree (0, 0) (stationsOf meterPerDegree triangle) ∧
      (∀ s ∈ stationsOf meterPerDegree triangle,
        evalResidual meterPerDegree fix.p (stationsOf meterPerDegree triangle) ≤
          evalResidual meterPerDegree (s.x, s.y) (stationsOf meterPerDegree triangle)) ∧
      evalResidual meterPerDegree fix.p (stationsOf meterPerDegree triangle) ≤ fix.residual := by
  have hmoved : (solve meterPerDegree triangle).any (·.p ≠ (0, 0)) := by decide +kernel
  obtain ⟨fix, hfix, hmoved⟩ := (Option.any_eq_true ..).mp hmoved
  obtain ⟨-, hcentroid, hstations, hresidual, -⟩ := solve_descends meterPerDegree triangle fix hfix
  exact ⟨fix, hfix, of_decide_eq_true hmoved, hcentroid, hstations, hresidual⟩

/-! ## The order of the observations -/

omit [LinearOrder K] [IsStrictOrderedRing K] in
theorem centroid_perm {obs obs' : List (MlatObservation K)} (h : obs.Perm obs') :
    centroid obs = centroid obs' := by
  rw [centroid, centroid, h.length_eq, (h.map _).sum_eq, (h.map (·.lon)).sum_eq]

omit [IsStrictOrderedRing K] in
/-- **Order.** The weighted residual is the same for every order of the observations behind the
first. -/
theorem residual_perm (m : MathFns K) (first : MlatObservation K) (rest rest' : List (MlatObservation K))
    (h : rest.Perm rest') (p : K × K) :
    evalResidual m p (stationsOf m (first :: rest)) = evalResidual m p (stationsOf m (first :: rest')) := by
  have hearliest : earliest (first :: rest) = earliest (first :: rest') := by
    simp only [earliest, map_cons, headD_cons, foldl_cons]
    exact (h.map _).foldl_eq _
  rw [stationsOf, stationsOf, centroid_perm (h.cons first), hearliest, map_cons, map_cons]
  exact ((h.map _).map _).sum_eq

def seenAt (lockTNs : ℚ) : MlatObservation ℚ := seenFrom 0 0 lockTNs

theorem residual_perm_swapped :
    evalResidual atOnePlace (0, 0) (stationsOf atOnePlace [seenAt 1, seenAt 2, seenAt 4]) =
      evalResidual atOnePlace (0, 0) (stationsOf atOnePlace [seenAt 1, seenAt 4, seenAt 2]) :=
  residual_perm atOnePlace (seenAt 1) [seenAt 2, seenAt 4] [seenAt 4, seenAt 2] (.swap ..) (0, 0)

/-- With another observation in front the residual is another. -/
theorem residual_depends_on_first :
    [seenAt 1, seenAt 2, seenAt 4].Perm [seenAt 2, seenAt 1, seenAt 4] ∧
    evalResidual atOnePlace (0, 0) (stationsOf atOnePlace [seenAt 1, seenAt 2, seenAt 4]) ≠
      evalResidual atOnePlace (0, 0) (stationsOf atOnePlace [seenAt 2, seenAt 1, seenAt 4]) :=
  ⟨.swap .., by decide +kernel⟩

end MeshcoreSniffer.Fusion
