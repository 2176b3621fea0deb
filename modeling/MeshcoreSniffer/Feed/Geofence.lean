import MeshcoreSniffer.Lib.OpenAddressing
import MeshcoreSniffer.Lib.Printf

/-!
# Geofence alerts

`geofence.c`: a change of a node's inside status is an event. The status of each pair of node and
polygon lives in a hash table that is never emptied; a pair that finds no slot is passed over.
-/

namespace MeshcoreSniffer.Feed

open Lib Lib.OpenAddressing Option

def geoStateBuckets : Nat := 2048

structure Polygon where
  name : List Byte
  vertices : List (ℚ × ℚ)

abbrev Pair := BitVec 32 × Nat

def stateHash (pair : Pair) : Nat :=
  (pair.1 * 2654435761#32 ^^^ BitVec.ofNat 32 pair.2 * 2246822519#32).toNat

/-- `g_state`: a slot with `polygon_idx` -1 is `none`. -/
abbrev GeoTable := List (Option (Pair × Bool))

def stateFindOrMake (table : GeoTable) (pair : Pair) : Option (Nat × GeoTable) :=
  match find stateHash table pair with
  | none => none
  | some j =>
    match entryAt table j with
    | some _ => some (j, table)
    | none => some (j, table.set j (some (pair, false)))

def pointInPolygon (p : Polygon) (lat lon : ℚ) : Bool :=
  let edges := p.vertices.zip (p.vertices.rotate (p.vertices.length - 1))
  edges.foldl
    (fun inside edge =>
      let (yi, xi) := edge.1
      let (yj, xj) := edge.2
      if (decide (lat < yi) != decide (lat < yj)) &&
          decide (lon < (xj - xi) * (lat - yi) / (yj - yi + 1 / 10 ^ 12) + xi)
      then !inside else inside)
    false

structure GeofenceEvent where
  entered : Bool
  pair : Pair
  polygon : List Byte
  lat : ℚ
  lon : ℚ

def GeofenceEvent.line (ev : GeofenceEvent) : List Byte :=
  ascii "\x7b\"event\":\"" ++ ascii (if ev.entered then "GEOFENCE_ENTRY" else "GEOFENCE_EXIT") ++
    ascii "\",\"from\":\"!" ++ Printf.hexPadded 8 ev.pair.1.toNat ++ ascii "\",\"polygon\":\"" ++
    ev.polygon ++ ascii "\",\"lat\":" ++ (Printf.CFloat.ofRat ev.lat).fixed 6 ++ ascii ",\"lon\":" ++
    (Printf.CFloat.ofRat ev.lon).fixed 6 ++ ascii "\x7d\n"

structure GeoState where
  table : GeoTable
  events : List GeofenceEvent

def geofenceInit : GeoState := ⟨List.replicate geoStateBuckets none, []⟩

section Check

variable (inside : Polygon → ℚ → ℚ → Bool)

/-- One usable polygon of `geofence_check`. -/
def checkPolygon (node : BitVec 32) (lat lon : ℚ) (s : GeoState) (poly : Polygon) (i : Nat) : GeoState :=
  let nowIn := inside poly lat lon
  match stateFindOrMake s.table (node, i) with
  | none => s
  | some (j, table) =>
    match entryAt table j with
    | none => s
    | some (_, wasIn) =>
      if wasIn = nowIn then { s with table := table }
      else
        { table := table.set j (some ((node, i), nowIn))
          events := s.events ++ [⟨nowIn, (node, i), poly.name, lat, lon⟩] }

def checkWith (polygons : List Polygon) (s : GeoState) (node : BitVec 32) (lat lon : ℚ) : GeoState :=
  if lat = 0 ∧ lon = 0 then s
  else
    polygons.zipIdx.foldl
      (fun s p => if p.1.vertices.length < 3 then s else checkPolygon inside node lat lon s p.1 p.2) s

end Check

def geofenceCheck (polygons : List Polygon) (s : GeoState) (node : BitVec 32) (lat lon : ℚ) : GeoState :=
  checkWith pointInPolygon polygons s node lat lon

/-! ## One pair -/

structure PairView where
  status : Option Bool
  events : List Bool

def GeoState.view (s : GeoState) (pair : Pair) : PairView where
  status := lookup stateHash s.table pair
  events := (s.events.filter (·.pair = pair)).map (·.entered)

/-- What a test that came out `now` does to its pair: nothing, if it has no slot and the table is
full. -/
def Touched (now : Bool) (before after : PairView) : Prop :=
  (before.status = none ∧ after = before) ∨
    after = ⟨some now, if before.status.getD false = now then before.events else before.events ++ [now]⟩

def Alternates (events : List Bool) : Prop :=
  ∀ i b, events[i]? = some b → b = decide (i % 2 = 0)

/-- The events alternate, and the status of a pair with a slot says whether one is open. -/
structure PairView.Ok (v : PairView) : Prop where
  alternates : Alternates v.events
  none : v.status = none → v.events = []
  status : ∀ b, v.status = some b → b = decide (v.events.length % 2 = 1)

variable {b now : Bool} {before after : PairView}

theorem PairView.Ok.last {v : PairView} (h : v.Ok) (hb : v.status = some b) :
    v.events.getLast?.getD false = b := by
  rw [h.status b hb]
  cases hlast : v.events.getLast? with
  | none =>
    rw [List.getLast?_eq_none_iff.mp hlast]
    rfl
  | some last =>
    rw [List.getLast?_eq_getElem?] at hlast
    have hpos : v.events.length ≠ 0 := by
      intro hzero
      rw [List.eq_nil_of_length_eq_zero hzero] at hlast
      cases hlast
    rw [getD_some, h.alternates _ _ hlast]
    refine decide_eq_decide.mpr ?_
    omega

theorem Touched.ok (h : Touched now before after) (hok : before.Ok) : after.Ok := by
  rcases h with ⟨-, rfl⟩ | rfl
  · exact hok
  · have hold : before.status.getD false = decide (before.events.length % 2 = 1) := by
      cases hstatus : before.status with
      | none =>
        rw [hok.none hstatus]
        rfl
      | some b => exact hok.status b hstatus
    refine ⟨?_, (fun hnone => by cases hnone), fun b hb => ?_⟩
    · dsimp only
      split
      next => exact hok.alternates
      next hflip =>
        intro i b hb
        rcases Nat.lt_or_ge i before.events.length with hlt | hge
        · rw [List.getElem?_append_left hlt] at hb
          exact hok.alternates i b hb
        · have hi : i = before.events.length := by
            have := (List.getElem?_eq_some_iff.mp hb).1
            rw [List.length_append, List.length_singleton] at this
            omega
          subst hi
          rw [List.getElem?_concat_length] at hb
          obtain rfl := some.inj hb
          rw [hold] at hflip
          cases now with
          | true => rw [eq_comm, decide_eq_true_eq]; simp at hflip; omega
          | false => rw [eq_comm, decide_eq_false_iff_not]; simp at hflip; omega
    · obtain rfl := some.inj hb
      split
      next hsame => rw [← hsame, hold]
      next hflip =>
        rw [hold] at hflip
        rw [List.length_append, List.length_singleton]
        cases now with
        | true => rw [eq_comm, decide_eq_true_eq]; simp at hflip; omega
        | false => rw [eq_comm, decide_eq_false_iff_not]; simp at hflip; omega

theorem Touched.status (h : Touched now before after) (hb : after.status = some b) : b = now := by
  rcases h with ⟨hnone, rfl⟩ | rfl
  · rw [hnone] at hb
    cases hb
  · exact (some.inj hb).symm

/-! ## One test -/

theorem stateFindOrMake_eq_some {table table' : GeoTable} {pair : Pair} {j : Nat}
    (hsettled : Settled stateHash table) (h : stateFindOrMake table pair = some (j, table')) :
    Settled stateHash table' ∧ find stateHash table' pair = some j ∧
      entryAt table' j = some (pair, (lookup stateHash table pair).getD false) ∧
      ∀ pair', pair' ≠ pair → lookup stateHash table' pair' = lookup stateHash table pair' := by
  rw [stateFindOrMake] at h
  split at h
  next => cases h
  next j' hfind =>
    split at h
    next entry hentry =>
      obtain ⟨rfl, rfl⟩ := Prod.mk.inj (some.inj h)
      have hkey := entryAt_of_find hfind hentry
      refine ⟨hsettled, hfind, ?_, fun _ _ => rfl⟩
      rw [hentry, lookup, hfind, bind_some, hentry, ← hkey]
      rfl
    next hfree =>
      obtain ⟨rfl, rfl⟩ := Prod.mk.inj (some.inj h)
      have hnew := hsettled.set hfind false
      have hentry := (entryAt_set (find_lt hfind) (pair, false) j').trans (if_pos rfl)
      refine ⟨hnew, hnew j' _ hentry, ?_, fun pair' hne => ?_⟩
      · rw [hentry, lookup, hfind, bind_some, hfree]
        rfl
      · rw [lookup_set hsettled hfind, if_neg hne]

section Check

variable {inside : Polygon → ℚ → ℚ → Bool}

/-- **One test.** Only the pair tested is touched. -/
theorem view_checkPolygon {s : GeoState} (hsettled : Settled stateHash s.table) (node : BitVec 32)
    (lat lon : ℚ) (poly : Polygon) (i : Nat) :
    Settled stateHash (checkPolygon inside node lat lon s poly i).table ∧
      Touched (inside poly lat lon) (s.view (node, i))
        ((checkPolygon inside node lat lon s poly i).view (node, i)) ∧
      ∀ pair, pair ≠ (node, i) →
        (checkPolygon inside node lat lon s poly i).view pair = s.view pair := by
  rw [checkPolygon]
  cases hmake : stateFindOrMake s.table (node, i) with
  | none =>
    refine ⟨hsettled, Or.inl ⟨?_, rfl⟩, fun _ _ => rfl⟩
    -- the search came back empty, so the pair has no status
    rw [stateFindOrMake] at hmake
    split at hmake
    next hnone => rw [GeoState.view, lookup, hnone]; rfl
    next => split at hmake <;> cases hmake
  | some made =>
    obtain ⟨j, table⟩ := made
    obtain ⟨htable, hfind, hentry, hothers⟩ := stateFindOrMake_eq_some hsettled hmake
    dsimp only
    rw [hentry]
    dsimp only
    split
    next hsame =>
      refine ⟨htable, Or.inr ?_, fun pair hne => ?_⟩
      · rw [GeoState.view, GeoState.view]
        rw [if_pos hsame, lookup_of_entryAt htable hentry, hsame]
      · rw [GeoState.view, GeoState.view, hothers pair hne]
    next hflip =>
      refine ⟨htable.set hfind _, Or.inr ?_, fun pair hne => ?_⟩
      · rw [GeoState.view, GeoState.view]
        rw [if_neg hflip, lookup_set htable hfind, if_pos rfl]
        simp
      · rw [GeoState.view, GeoState.view]
        rw [lookup_set htable hfind, if_neg hne, hothers pair hne]
        simp [Ne.symm hne]

def usable (polygons : List Polygon) (i : Nat) : Option Polygon :=
  polygons[i]?.filter fun p => decide (3 ≤ p.vertices.length)

theorem view_checkAll (inside : Polygon → ℚ → ℚ → Bool) {s : GeoState} (hsettled : Settled stateHash s.table) (node : BitVec 32)
    (lat lon : ℚ) (polygons : List Polygon) :
    let s' := polygons.zipIdx.foldl
      (fun s p => if p.1.vertices.length < 3 then s else checkPolygon inside node lat lon s p.1 p.2) s
    Settled stateHash s'.table ∧ ∀ pair : Pair,
      match (if pair.1 = node then usable polygons pair.2 else none) with
      | some poly => Touched (inside poly lat lon) (s.view pair) (s'.view pair)
      | none => s'.view pair = s.view pair := by
  induction polygons using List.reverseRecOn with
  | nil =>
    refine ⟨hsettled, fun pair => ?_⟩
    simp [usable]
  | append_singleton polygons last ih =>
    obtain ⟨hprev, hviews⟩ := ih
    rw [List.zipIdx_append, List.foldl_append]
    dsimp only [List.zipIdx_cons, List.zipIdx_nil, List.foldl_cons, List.foldl_nil]
    have hsize : ∀ i, i ≠ polygons.length → usable (polygons ++ [last]) i = usable polygons i := by
      intro i hi
      rcases Nat.lt_or_gt_of_ne hi with hlt | hgt
      · rw [usable, usable, List.getElem?_append_left hlt]
      · rw [usable, usable, List.getElem?_eq_none (by simp; omega), List.getElem?_eq_none (by omega)]
    have hlast : usable (polygons ++ [last]) polygons.length =
        if last.vertices.length < 3 then none else some last := by
      rw [usable, List.getElem?_concat_length, filter_some]
      by_cases h : last.vertices.length < 3
      · simp [h]
      · simp [h, not_lt.mp h]
    have hnone : usable polygons polygons.length = none := by
      rw [usable, List.getElem?_eq_none (le_refl _)]
      rfl
    rw [Nat.zero_add]
    split
    next hfew =>
      rw [if_pos hfew] at hlast
      refine ⟨hprev, fun pair => ?_⟩
      have := hviews pair
      by_cases hi : pair.2 = polygons.length
      · rw [hi, hlast]
        rw [hi, hnone] at this
        exact this
      · rwa [hsize _ hi]
    next hfew =>
      rw [if_neg hfew] at hlast
      obtain ⟨hnext, htouched, hothers⟩ := view_checkPolygon hprev node lat lon last polygons.length
      refine ⟨hnext, fun pair => ?_⟩
      have := hviews pair
      by_cases hpair : pair = (node, polygons.length)
      · subst hpair
        rw [if_pos rfl, hlast]
        rw [if_pos rfl, hnone] at this
        rw [← this]
        exact htouched
      · rw [hothers pair hpair]
        by_cases hnode : pair.1 = node
        · have hi : pair.2 ≠ polygons.length := fun h => hpair (Prod.ext hnode h)
          rw [if_pos hnode] at this ⊢
          rwa [hsize _ hi]
        · rw [if_neg hnode] at this ⊢
          exact this

end Check

/-! ## Nodes that stay outside -/

structure GeoState.Calm (s : GeoState) : Prop where
  settled : Settled stateHash s.table
  events : s.events = []
  outside : ∀ pair, (s.view pair).status.getD false = false

theorem calm_init : geofenceInit.Calm where
  settled := settled_replicate _
  events := rfl
  outside := fun pair => by
    rw [GeoState.view, geofenceInit, lookup_replicate]
    rfl

theorem calm_check {s : GeoState} (h : s.Calm) {polygons : List Polygon} (node : BitVec 32) {lat lon : ℚ}
    (hout : ∀ poly ∈ polygons, pointInPolygon poly lat lon = false) :
    (geofenceCheck polygons s node lat lon).Calm := by
  rw [geofenceCheck, checkWith]
  split
  next => exact h
  next =>
    obtain ⟨hsettled, hviews⟩ := view_checkAll pointInPolygon h.settled node lat lon polygons
    set s' := polygons.zipIdx.foldl (fun s p => if p.1.vertices.length < 3 then s
      else checkPolygon pointInPolygon node lat lon s p.1 p.2) s
    have hpair : ∀ pair, (s'.view pair).events = [] ∧ (s'.view pair).status.getD false = false := by
      intro pair
      have hbefore : (s.view pair).events = [] := by rw [GeoState.view, h.events]; rfl
      have hview := hviews pair
      split at hview
      next poly husable =>
        have hmem : poly ∈ polygons := by
          split at husable
          · exact List.mem_of_getElem? (Option.filter_eq_some_iff.mp husable).1
          · cases husable
        rw [hout poly hmem] at hview
        rcases hview with ⟨-, hsame⟩ | htouched
        · rw [hsame]
          exact ⟨hbefore, h.outside pair⟩
        · rw [htouched, if_pos (h.outside pair)]
          exact ⟨hbefore, rfl⟩
      next =>
        rw [hview]
        exact ⟨hbefore, h.outside pair⟩
    refine ⟨hsettled, List.eq_nil_iff_forall_not_mem.mpr fun ev hev => ?_, fun pair => (hpair pair).2⟩
    have hnone := List.map_eq_nil_iff.mp (hpair ev.pair).1
    exact List.filter_eq_nil_iff.mp hnone ev hev (decide_eq_true rfl)

/-! ## Runs -/

structure GeoCall where
  node : BitVec 32
  lat : ℚ
  lon : ℚ
  deriving DecidableEq

def geofenceRun (inside : Polygon → ℚ → ℚ → Bool) (polygons : List Polygon) (calls : List GeoCall) :
    GeoState :=
  calls.foldl (fun s c => checkWith inside polygons s c.node c.lat c.lon) geofenceInit

def GeoCall.isFrom (node : BitVec 32) (c : GeoCall) : Bool :=
  decide (c.node = node ∧ ¬(c.lat = 0 ∧ c.lon = 0))

def latestStatus (inside : Polygon → ℚ → ℚ → Bool) (polygons : List Polygon) (calls : List GeoCall)
    (pair : Pair) : Option Bool :=
  (usable polygons pair.2).bind fun poly =>
    (calls.filter (GeoCall.isFrom pair.1)).getLast?.map fun c => inside poly c.lat c.lon

section Runs

variable {inside : Polygon → ℚ → ℚ → Bool} {polygons : List Polygon} {calls : List GeoCall}

theorem geofenceRun_append (c : GeoCall) :
    geofenceRun inside polygons (calls ++ [c]) =
      checkWith inside polygons (geofenceRun inside polygons calls) c.node c.lat c.lon := by
  rw [geofenceRun, List.foldl_append]
  rfl

theorem latestStatus_of_from {c : GeoCall} {pair : Pair} {poly : Polygon}
    (hfrom : c.isFrom pair.1 = true) (hpoly : usable polygons pair.2 = some poly) :
    latestStatus inside polygons (calls ++ [c]) pair = some (inside poly c.lat c.lon) := by
  rw [latestStatus, hpoly, List.filter_append, List.filter_cons_of_pos hfrom, List.filter_nil,
    List.getLast?_concat]
  rfl

theorem latestStatus_of_other {c : GeoCall} {pair : Pair}
    (h : ¬c.isFrom pair.1 = true ∨ usable polygons pair.2 = none) :
    latestStatus inside polygons (calls ++ [c]) pair = latestStatus inside polygons calls pair := by
  rcases h with h | h
  · rw [latestStatus, latestStatus, List.filter_append, List.filter_cons_of_neg h, List.filter_nil,
      List.append_nil]
  · rw [latestStatus, latestStatus, h]
    rfl

theorem status_initial (pair : Pair) : (geofenceInit.view pair).status = none := by
  simp only [GeoState.view, geofenceInit, lookup_replicate]

theorem ok_initial (pair : Pair) : (geofenceInit.view pair).Ok := by
  refine ⟨(fun i b hb => by cases hb), fun _ => rfl, fun b hb => ?_⟩
  rw [status_initial] at hb
  cases hb

theorem run_ok (inside : Polygon → ℚ → ℚ → Bool) (polygons : List Polygon) (calls : List GeoCall) :
    Settled stateHash (geofenceRun inside polygons calls).table ∧
      ∀ pair, ((geofenceRun inside polygons calls).view pair).Ok ∧
        ∀ b, ((geofenceRun inside polygons calls).view pair).status = some b →
          latestStatus inside polygons calls pair = some b := by
  induction calls using List.reverseRecOn with
  | nil =>
    refine ⟨settled_replicate _, fun pair => ⟨ok_initial pair, fun b hb => ?_⟩⟩
    rw [geofenceRun, List.foldl_nil, status_initial] at hb
    cases hb
  | append_singleton calls c ih =>
    obtain ⟨hsettled, hpairs⟩ := ih
    rw [geofenceRun_append, checkWith]
    split
    next hunset =>
      refine ⟨hsettled, fun pair => ⟨(hpairs pair).1, fun b hb => ?_⟩⟩
      rw [latestStatus_of_other (Or.inl (by simp [GeoCall.isFrom, hunset]))]
      exact (hpairs pair).2 b hb
    next hset =>
      obtain ⟨hnext, hviews⟩ := view_checkAll inside hsettled c.node c.lat c.lon polygons
      refine ⟨hnext, fun pair => ?_⟩
      obtain ⟨hok, hlatest⟩ := hpairs pair
      have hview := hviews pair
      by_cases hnode : pair.1 = c.node
      · rw [if_pos hnode] at hview
        have hfrom : c.isFrom pair.1 = true := decide_eq_true ⟨hnode.symm, hset⟩
        cases hpoly : usable polygons pair.2 with
        | some poly =>
          rw [hpoly] at hview
          refine ⟨hview.ok hok, fun b hb => ?_⟩
          rw [latestStatus_of_from hfrom hpoly, hview.status hb]
        | none =>
          rw [hpoly] at hview
          rw [hview, latestStatus_of_other (Or.inr hpoly)]
          exact ⟨hok, hlatest⟩
      · rw [if_neg hnode] at hview
        have hother : ¬c.isFrom pair.1 = true := by
          rw [GeoCall.isFrom, decide_eq_true_eq]
          exact fun h => hnode h.1.symm
        rw [hview, latestStatus_of_other (Or.inl hother)]
        exact ⟨hok, hlatest⟩

end Runs

/-- **Geofence events alternate.** For any polygons, test and calls, also with more pairs than
slots: the events of a pair alternate, and the last one is the status in its only slot, which is
what its latest test said. -/
theorem geofence_events_alternate (inside : Polygon → ℚ → ℚ → Bool) (polygons : List Polygon)
    (calls : List GeoCall) (pair : Pair) :
    (∀ j j' v v', entryAt (geofenceRun inside polygons calls).table j = some (pair, v) →
        entryAt (geofenceRun inside polygons calls).table j' = some (pair, v') → j = j') ∧
      Alternates ((geofenceRun inside polygons calls).view pair).events ∧
      ∀ j v, entryAt (geofenceRun inside polygons calls).table j = some (pair, v) →
        ((geofenceRun inside polygons calls).view pair).events.getLast?.getD false = v ∧
          latestStatus inside polygons calls pair = some v := by
  obtain ⟨hsettled, hpairs⟩ := run_ok inside polygons calls
  obtain ⟨hok, hlatest⟩ := hpairs pair
  refine ⟨fun j j' v v' hj hj' => hsettled.unique hj hj', hok.alternates, fun j v hj => ?_⟩
  have hstatus : ((geofenceRun inside polygons calls).view pair).status = some v :=
    lookup_of_entryAt hsettled hj
  exact ⟨hok.last hstatus, hlatest v hstatus⟩

end MeshcoreSniffer.Feed
