import MeshcoreSniffer.Lib.Json

/-!
# Texts that are not JSON

Unreadable values stop a scan whatever follows them; an array of objects that lost its end is not
closed by a brace behind it (`scanValue_cut`).
-/

namespace MeshcoreSniffer.Lib.Json

open Lib.Printf List Option

/-! ## Unreadable values -/

def Unreadable (t : List Byte) : Prop :=
  ∀ fuel, t.length ≤ fuel → ∀ rest, scanValue fuel (t ++ rest) = none

variable {c : Byte} {r t tail s ws : List Byte} {good : List (List Byte × List Byte)} {fuel k : Nat}
  {m : List Byte × List Byte} {ts : List (List Byte)}

theorem unreadable_atom (hws : isWs c = false) (hspecial : c ∉ [0x22, 0x7B, 0x5B])
    (hatom : ∀ rest, scanAtom (c :: r ++ rest) = none) : Unreadable (c :: r) := by
  intro fuel hfuel rest
  obtain ⟨n, rfl⟩ : ∃ n, fuel = n + 1 := ⟨fuel - 1, by simp at hfuel; omega⟩
  simp only [mem_cons, not_mem_nil, or_false, not_or] at hspecial
  rw [cons_append, scanValue, skipWs_cons hws]
  dsimp only
  rw [if_neg hspecial.1, if_neg hspecial.2.1, if_neg hspecial.2.2]
  exact hatom rest

theorem unreadable_fixed (k : Nat) {v : CFloat} (h : ∀ neg mag, v ≠ .fin neg mag) :
    Unreadable (v.fixed k) := by
  cases v with
  | fin neg mag => exact absurd rfl (h neg mag)
  | inf neg =>
    cases neg with
    | false => exact unreadable_atom (c := 0x69) (by decide) (by decide) fun _ => rfl
    | true => exact unreadable_atom (c := 0x2D) (by decide) (by decide) fun _ => rfl
  | nan neg =>
    cases neg with
    | false => exact unreadable_atom (c := 0x6E) (by decide) (by decide) fun _ => rfl
    | true => exact unreadable_atom (c := 0x2D) (by decide) (by decide) fun _ => rfl

def Starts (t : List Byte) : Prop := ∃ c r, t = c :: r ∧ isWs c = false ∧ c ≠ 0x5D

theorem commas_append_cons (ts : List (List Byte)) (t : List Byte) (us : List (List Byte)) :
    commas (ts ++ t :: us) = commas (ts ++ [t]) ++ us.flatMap (0x2C :: ·) := by
  cases ts with
  | nil => exact commas_cons t us
  | cons s ts =>
    rw [cons_append, commas_cons, cons_append, commas_cons]
    simp only [flatMap_append, flatMap_cons, flatMap_nil, append_nil,
      append_assoc]

theorem scanElements_stop {good : List (List Byte)} (hgood : ∀ t ∈ good, IsValue t)
    (hstop : ∀ fuel, t.length ≤ fuel → scanValue fuel (t ++ tail) = none)
    (hfuel : (commas (good ++ [t])).length < fuel) :
    scanElements fuel (commas (good ++ [t]) ++ tail) = none := by
  induction good generalizing fuel with
  | nil =>
    obtain ⟨n, rfl⟩ : ∃ n, fuel = n + 1 := ⟨fuel - 1, by omega⟩
    rw [nil_append, commas] at hfuel ⊢
    rw [scanElements, hstop n (by omega)]
    rfl
  | cons g good ih =>
    obtain ⟨n, rfl⟩ : ∃ n, fuel = n + 1 := ⟨fuel - 1, by omega⟩
    obtain ⟨hg, hrest⟩ := forall_mem_cons.mp hgood
    obtain ⟨u, us, hus⟩ : ∃ u us, good ++ [t] = u :: us := exists_cons_of_ne_nil (by simp)
    rw [cons_append, hus, commas] at hfuel ⊢
    rw [length_append, length_cons] at hfuel
    have hmore := ih hrest (show (commas (good ++ [t])).length < n by rw [hus]; omega)
    rw [hus] at hmore
    have hscan := hg.scan n (by omega) _ (follow_comma (commas (u :: us) ++ tail))
    rw [append_assoc, cons_append, scanElements, hscan, map_some,
      skipWs_cons (by decide)]
    dsimp only
    rw [if_pos rfl, hmore]

theorem scanMembers_stop (hgood : ∀ g ∈ good, IsMember g) (hname : Transparent m.1)
    (hstop : ∀ fuel, m.2.length < fuel → scanValue fuel (m.2 ++ tail) = none)
    (hfuel : (commas ((good ++ [m]).map memberText)).length < fuel) :
    scanMembers fuel (commas ((good ++ [m]).map memberText) ++ tail) = none := by
  induction good generalizing fuel with
  | nil =>
    obtain ⟨n, rfl⟩ : ∃ n, fuel = n + 1 := ⟨fuel - 1, by omega⟩
    have hlen := length_memberText m
    rw [nil_append, map_singleton, commas] at hfuel ⊢
    rw [scanMembers_member hname, hstop n (by omega)]
    rfl
  | cons g good ih =>
    obtain ⟨n, rfl⟩ : ∃ n, fuel = n + 1 := ⟨fuel - 1, by omega⟩
    obtain ⟨⟨hgname, hgvalue⟩, hrest⟩ := forall_mem_cons.mp hgood
    obtain ⟨u, us, hus⟩ : ∃ u us, good ++ [m] = u :: us := exists_cons_of_ne_nil (by simp)
    have hlen := length_memberText g
    rw [cons_append, hus, commas_member_cons] at hfuel ⊢
    rw [length_append, length_cons] at hfuel
    have hmore := ih hrest (show (commas ((good ++ [m]).map memberText)).length < n by rw [hus]; omega)
    rw [hus] at hmore
    have hscan := hgvalue.scan n (by omega) _
      (follow_comma (commas ((u :: us).map memberText) ++ tail))
    rw [append_assoc, cons_append, scanMembers_member hgname, hscan, map_some,
      skipWs_cons (by decide)]
    dsimp only
    rw [if_pos rfl, hmore]

theorem scanValue_object_stop (hgood : ∀ g ∈ good, IsMember g) (hname : Transparent m.1)
    (more : List (List Byte × List Byte)) {rest : List Byte}
    (hstop : ∀ fuel, m.2.length < fuel → scanValue fuel (m.2 ++ ((more.map memberText).flatMap (0x2C :: ·) ++ 0x7D :: rest)) = none)
    (hfuel : (objectText (good ++ m :: more)).length ≤ fuel) :
    scanValue fuel (objectText (good ++ m :: more) ++ rest) = none := by
  have hsplit : commas ((good ++ m :: more).map memberText) =
      commas ((good ++ [m]).map memberText) ++ (more.map memberText).flatMap (0x2C :: ·) := by
    rw [map_append, map_cons, commas_append_cons, map_append, map_singleton]
  simp only [objectText, hsplit, length_cons, length_append, length_nil] at hfuel
  obtain ⟨n, rfl⟩ : ∃ n, fuel = n + 1 := ⟨fuel - 1, by omega⟩
  rw [scanValue_object, if_neg (by simp), hsplit, append_assoc]
  exact scanMembers_stop hgood hname hstop (by omega)

def IsBadMember (m : List Byte × List Byte) : Prop := Transparent m.1 ∧ Unreadable m.2

theorem exists_first {α : Type} {P Q : α → Prop} {xs : List α} (h : ∀ x ∈ xs, P x ∨ Q x)
    (hbad : ∃ x ∈ xs, Q x) : ∃ good x more, xs = good ++ x :: more ∧ (∀ g ∈ good, P g) ∧ Q x := by
  induction xs with
  | nil =>
    obtain ⟨x, hx, -⟩ := hbad
    cases hx
  | cons x xs ih =>
    by_cases hx : Q x
    · exact ⟨[], x, xs, rfl, forall_mem_nil _, hx⟩
    · obtain ⟨hfirst, hrest⟩ := forall_mem_cons.mp h
      have hbad' : ∃ y ∈ xs, Q y := by
        obtain ⟨y, hy, hQ⟩ := hbad
        rcases mem_cons.mp hy with rfl | hy
        · exact absurd hQ hx
        · exact ⟨y, hy, hQ⟩
      obtain ⟨good, y, more, rfl, hgood, hy⟩ := ih hrest hbad'
      exact ⟨x :: good, y, more, rfl,
        forall_mem_cons.mpr ⟨hfirst.resolve_right hx, hgood⟩, hy⟩

theorem unreadable_object {ms : List (List Byte × List Byte)}
    (h : ∀ m ∈ ms, IsMember m ∨ IsBadMember m) (hbad : ∃ m ∈ ms, IsBadMember m) :
    Unreadable (objectText ms) := by
  obtain ⟨good, m, more, rfl, hgood, hname, hvalue⟩ := exists_first h hbad
  intro fuel hfuel rest
  exact scanValue_object_stop hgood hname more (fun n hn => hvalue n hn.le _) hfuel

theorem unreadable_array (hstarts : ∀ t ∈ ts, Starts t) (h : ∀ t ∈ ts, IsValue t ∨ Unreadable t)
    (hbad : ∃ t ∈ ts, Unreadable t) : Unreadable (arrayText ts) := by
  obtain ⟨good, t, more, rfl, hgood, hvalue⟩ := exists_first h hbad
  intro fuel hfuel rest
  have hsplit := commas_append_cons good t more
  -- the text of the elements starts with the first character of the first one
  obtain ⟨c, r, hhead, hws, hclose⟩ : Starts (commas (good ++ t :: more)) := by
    cases good with
    | nil =>
      obtain ⟨c, r, rfl, hws, hclose⟩ := hstarts t (by simp)
      exact ⟨c, _, by rw [nil_append, commas_cons, cons_append], hws, hclose⟩
    | cons g good =>
      obtain ⟨c, r, rfl, hws, hclose⟩ := hstarts g (by simp)
      exact ⟨c, _, by rw [cons_append, commas_cons, cons_append], hws, hclose⟩
  simp only [arrayText, hsplit, length_cons, length_append, length_nil] at hfuel
  obtain ⟨n, rfl⟩ : ∃ n, fuel = n + 1 := ⟨fuel - 1, by omega⟩
  have hscan : scanElements n (commas (good ++ [t]) ++
      (more.flatMap (0x2C :: ·) ++ (0x5D :: rest))) = none :=
    scanElements_stop hgood (fun n hn => hvalue n hn _) (by omega)
  rw [← append_assoc, ← hsplit, hhead, cons_append] at hscan
  rw [arrayText, cons_append, append_assoc, singleton_append, scanValue,
    skipWs_cons (by decide)]
  dsimp only
  rw [if_neg (by decide), if_neg (by decide), if_pos rfl, hhead, cons_append, skipWs_cons hws]
  dsimp only
  rw [if_neg hclose, hscan]

theorem isObject_of_scan_none (h : scanValue (t.length + 1) t = none) : isObject t = false := by
  rw [isObject, h]
  simp

/-! ## What a scan leaves -/

theorem skipWs_suffix (s : List Byte) : skipWs s <:+ s := dropWhile_suffix _

theorem scanString_suffix (h : scanString s = some r) : r <:+ s := by
  fun_induction scanString s with
  | case1 => cases h
  | case2 t =>
    cases h
    exact suffix_cons _ _
  | case3 => cases h
  | case4 h₁ h₂ h₃ h₄ t _ _ ih =>
    exact (ih h).trans (suffix_append [0x5C, 0x75, h₁, h₂, h₃, h₄] t)
  | case5 => cases h
  | case6 => cases h
  | case7 e t _ _ _ ih => exact (ih h).trans (suffix_append [0x5C, e] t)
  | case8 => cases h
  | case9 => cases h
  | case10 c t _ _ _ ih => exact (ih h).trans (suffix_cons c t)

theorem scanAtom_suffix (h : scanAtom s = some r) : r <:+ s := by
  unfold scanAtom at h
  split at h
  next =>
    cases h
    exact drop_suffix _ _
  split at h
  next =>
    cases h
    exact drop_suffix _ _
  split at h
  next =>
    cases h
    exact drop_suffix _ _
  split at h
  next =>
    cases h
    exact dropWhile_suffix _
  next => cases h

theorem suffix_of_map_skipWs {o : Option (List Byte)} (h : o.map skipWs = some t)
    (ho : ∀ r, o = some r → r <:+ s) : t <:+ s := by
  obtain ⟨r, hr, rfl⟩ := map_eq_some_iff.mp h
  exact (skipWs_suffix r).trans (ho r hr)

theorem scan_suffix (fuel : Nat) :
    (∀ s r, scanValue fuel s = some r → r <:+ s) ∧
      (∀ s r, scanMembers fuel s = some r → 0x7D :: r <:+ s) ∧
      ∀ s r, scanElements fuel s = some r → r <:+ s := by
  induction fuel with
  | zero => exact ⟨nofun, nofun, nofun⟩
  | succ n ih =>
    obtain ⟨hvalue, hmembers, helements⟩ := ih
    refine ⟨?_, ?_, ?_⟩
    · intro s r h
      have hs := skipWs_suffix s
      rw [scanValue] at h
      split at h
      next => cases h
      next c t hskip =>
        rw [hskip] at hs
        have ht : t <:+ s := (suffix_cons c t).trans hs
        have ht' := skipWs_suffix t
        split at h
        next => exact (scanString_suffix h).trans ht
        split at h
        next =>
          split at h
          next => cases h
          next c' t' hskip' =>
            rw [hskip'] at ht'
            split at h
            next =>
              cases h
              exact ((suffix_cons _ _).trans ht').trans ht
            next => exact (((suffix_cons _ _).trans (hmembers _ _ h)).trans ht').trans ht
        split at h
        next =>
          split at h
          next => cases h
          next c' t' hskip' =>
            rw [hskip'] at ht'
            split at h
            next =>
              cases h
              exact ((suffix_cons _ _).trans ht').trans ht
            next => exact ((helements _ _ h).trans ht').trans ht
        next => exact (scanAtom_suffix h).trans hs
    · intro s r h
      have hs := skipWs_suffix s
      rw [scanMembers] at h
      split at h
      next => cases h
      next q t hskip =>
        rw [hskip] at hs
        have ht : t <:+ s := (suffix_cons q t).trans hs
        split at h
        next =>
          split at h
          next c u hname =>
            have hu := (suffix_of_map_skipWs hname fun r hr => scanString_suffix hr).trans ht
            have hu' : u <:+ s := (suffix_cons c u).trans hu
            split at h
            next =>
              split at h
              next c' v hval =>
                have hv := (suffix_of_map_skipWs hval (hvalue u)).trans hu'
                split at h
                next => exact (hmembers _ _ h).trans ((suffix_cons c' v).trans hv)
                split at h
                next hbrace =>
                  cases h
                  rw [← hbrace]
                  exact hv
                next => cases h
              next => cases h
            next => cases h
          next => cases h
        next => cases h
    · intro s r h
      rw [scanElements] at h
      split at h
      next c u hval =>
        have hu := suffix_of_map_skipWs hval (hvalue s)
        have hu' : u <:+ s := (suffix_cons c u).trans hu
        split at h
        next => exact (helements _ _ h).trans hu'
        split at h
        next =>
          cases h
          exact hu'
        next => cases h
      next => cases h

theorem scanValue_brace (h : scanValue fuel (0x7B :: s) = some r) : 0x7D :: r <:+ s := by
  cases fuel with
  | zero => cases h
  | succ n =>
    have hs := skipWs_suffix s
    rw [scanValue, skipWs_cons (by decide)] at h
    dsimp only at h
    rw [if_neg (by decide), if_pos rfl] at h
    split at h
    next => cases h
    next c t hskip =>
      rw [hskip] at hs
      split at h
      next hbrace =>
        cases h
        rwa [hbrace] at hs
      next => exact ((scan_suffix n).2.1 _ _ h).trans hs

/-! ## Cut arrays -/

def IsPlainObject (t : List Byte) : Prop := IsValue t ∧ ∃ body, t = 0x7B :: (body ++ [0x7D]) ∧ 0x7D ∉ body

theorem not_mem_commas {b : Byte} (hb : b ≠ 0x2C) (h : ∀ t ∈ ts, b ∉ t) : b ∉ commas ts := by
  cases ts with
  | nil => exact not_mem_nil
  | cons t ts =>
    obtain ⟨ht, hts⟩ := forall_mem_cons.mp h
    rw [commas_cons, mem_append, mem_flatMap]
    rintro (hmem | ⟨u, hu, hmem⟩)
    · exact ht hmem
    · exact hts u hu ((mem_cons.mp hmem).resolve_left hb)

theorem scan_cut_object (ht : IsPlainObject t) (hk : k ≤ t.length) (hws : ∀ c ∈ ws, isWs c = true)
    (fuel : Nat) (hfuel : k ≤ fuel)
    (h : (scanValue fuel (t.take k ++ 0x7D :: ws)).map skipWs = some (c :: r)) : c = 0x7D := by
  obtain ⟨hvalue, body, hbody, hfree⟩ := ht
  rcases Nat.lt_or_eq_of_le hk with hlt | rfl
  · cases k with
    | zero =>
      -- nothing of the object is left, and a brace starts no value
      cases fuel with
      | zero => cases h
      | succ n =>
        rw [take_zero, nil_append, scanValue, skipWs_cons (by decide)] at h
        cases h
    | succ k =>
      have hcut : t.take (k + 1) = 0x7B :: body.take k := by
        rw [hbody, length_cons, length_append, length_singleton] at hlt
        rw [hbody, take_succ_cons, take_append_of_le_length (by omega)]
      obtain ⟨u, hu, hskip⟩ := map_eq_some_iff.mp h
      rw [hcut, cons_append] at hu
      obtain ⟨a, ha⟩ := scanValue_brace hu
      -- the only brace is the one behind the cut
      have hwsfree : 0x7D ∉ ws := fun hmem => absurd (hws _ hmem) (by decide)
      have htake : 0x7D ∉ body.take k := fun hmem => hfree (mem_of_mem_take hmem)
      obtain ⟨-, -, rfl⟩ := (append_cons_inj_of_notMem htake hwsfree).mp ha.symm
      have hnil : skipWs ws = [] := dropWhile_eq_nil_iff.mpr hws
      rw [hnil] at hskip
      cases hskip
  · rw [take_length, hvalue.scan fuel hfuel _ (follow_brace ws), map_some,
      skipWs_cons (by decide)] at h
    cases h
    rfl

theorem scanElements_cut (h : ∀ t ∈ ts, IsPlainObject t) (hk : k ≤ (commas ts).length)
    (hws : ∀ c ∈ ws, isWs c = true) (hfuel : k < fuel) :
    scanElements fuel ((commas ts).take k ++ 0x7D :: ws) = none := by
  induction ts generalizing k fuel with
  | nil =>
    obtain ⟨n, rfl⟩ : ∃ n, fuel = n + 1 := ⟨fuel - 1, by omega⟩
    rw [commas, take_nil, nil_append, scanElements]
    cases n with
    | zero => rfl
    | succ n =>
      rw [scanValue, skipWs_cons (by decide)]
      rfl
  | cons t ts ih =>
    obtain ⟨n, rfl⟩ : ∃ n, fuel = n + 1 := ⟨fuel - 1, by omega⟩
    obtain ⟨ht, hts⟩ := forall_mem_cons.mp h
    rw [commas_cons] at hk ⊢
    rw [length_append] at hk
    by_cases hcut : k ≤ t.length
    · -- the cut is in the first element
      rw [take_append_of_le_length hcut, scanElements]
      split
      next c r hscan =>
        obtain rfl := scan_cut_object ht hcut hws n (by omega) hscan
        rfl
      next => rfl
    · -- the first element is whole, and a comma follows
      cases ts with
      | nil =>
        rw [flatMap_nil, length_nil] at hk
        omega
      | cons u us =>
        have hrest : (u :: us).flatMap (0x2C :: ·) = 0x2C :: commas (u :: us) := by
          rw [commas_cons, flatMap_cons, cons_append]
        rw [hrest, length_cons] at hk
        have hmore := ih hts (k := k - t.length - 1) (by omega) (show _ < n by omega)
        have htake : (t ++ 0x2C :: commas (u :: us)).take k =
            t ++ 0x2C :: (commas (u :: us)).take (k - t.length - 1) := by
          obtain ⟨d, rfl⟩ : ∃ d, k = t.length + (d + 1) := ⟨k - t.length - 1, by omega⟩
          rw [take_length_add_append, take_succ_cons]
          congr 4
          omega
        have hscan := ht.1.scan n (by omega) _
          (follow_comma ((commas (u :: us)).take (k - t.length - 1) ++ 0x7D :: ws))
        rw [hrest, htake, append_assoc, cons_append, scanElements, hscan, map_some,
          skipWs_cons (by decide)]
        dsimp only
        rw [if_pos rfl, hmore]

/-- **Cut.** An array of plain objects that lost its end is not read before a brace. -/
theorem scanValue_cut (h : ∀ t ∈ ts, IsPlainObject t) (hpos : 0 < k)
    (hk : k < (arrayText ts).length) (hws : ∀ c ∈ ws, isWs c = true) (hfuel : k < fuel) :
    scanValue fuel ((arrayText ts).take k ++ 0x7D :: ws) = none := by
  simp only [arrayText, length_cons, length_append, length_nil] at hk
  obtain ⟨n, rfl⟩ : ∃ n, fuel = n + 1 := ⟨fuel - 1, by omega⟩
  obtain ⟨k, rfl⟩ : ∃ j, k = j + 1 := ⟨k - 1, by omega⟩
  have hscan := scanElements_cut h (show k ≤ (commas ts).length by omega) hws (show _ < n by omega)
  rw [arrayText, take_succ_cons, take_append_of_le_length (by omega), cons_append,
    scanValue, skipWs_cons (by decide)]
  dsimp only
  rw [if_neg (by decide), if_neg (by decide), if_pos rfl]
  have hstart : ∃ c r, (commas ts).take k ++ 0x7D :: ws = c :: r ∧ isWs c = false ∧ c ≠ 0x5D := by
    cases k with
    | zero => exact ⟨0x7D, ws, rfl, by decide, by decide⟩
    | succ k =>
      cases ts with
      | nil => exact ⟨0x7D, ws, rfl, by decide, by decide⟩
      | cons t ts =>
        obtain ⟨-, body, rfl, -⟩ := h t mem_cons_self
        rw [commas_cons, cons_append, take_succ_cons, cons_append]
        exact ⟨0x7B, _, rfl, by decide, by decide⟩
  obtain ⟨c, r, hc, hcws, hclose⟩ := hstart
  rw [hc] at hscan ⊢
  rw [skipWs_cons hcws]
  dsimp only
  rw [if_neg hclose, hscan]

end MeshcoreSniffer.Lib.Json
