import Mathlib

/-!
# Paging by a key

A query returns the items below a bound, newest first, a page at a time; the next page asks for
items strictly below the oldest key of the last one (`follow_spec`, `NoTie`).
-/

namespace MeshcoreSniffer.Lib.Paging

open List

variable {α κ : Type*} [LinearOrder κ] (key : α → κ)

structure Newest (order : List α → List α) : Prop where
  perm : ∀ items, (order items).Perm items
  sorted : ∀ items, (order items).Pairwise fun a b => key b ≤ key a

def below (bound : Option κ) (items : List α) : List α :=
  items.filter fun a => bound.all fun b => decide (key a < b)

def follow (order : List α → List α) (limit : Nat) (items : List α) :
    Nat → Option κ → Option (List α)
  | 0, _ => none
  | fuel + 1, bound =>
    let found := order (below key bound items)
    let page := found.take limit
    if limit < found.length then
      (follow order limit items fuel (page.getLast?.map key)).map (page ++ ·)
    else some page

def NoTie (limit : Nat) (keys : List κ) : Prop :=
  ∀ k, (k + 1) * limit < keys.length → keys[(k + 1) * limit - 1]? ≠ keys[(k + 1) * limit]?

variable {key} {order : List α → List α} {limit : Nat}

omit [LinearOrder κ] in
theorem noTie_of_length_le {keys : List κ} (h : keys.length ≤ limit) : NoTie limit keys := by
  intro k hk
  have : limit ≤ (k + 1) * limit := Nat.le_mul_of_pos_left limit (Nat.succ_pos k)
  omega

omit [LinearOrder κ] in
theorem noTie_iff {keys : List κ} (hlimit : 0 < limit) (hmore : limit < keys.length) :
    NoTie limit keys ↔ keys[limit - 1]? ≠ keys[limit]? ∧ NoTie limit (keys.drop limit) := by
  have hshift : ∀ k, (keys.drop limit)[(k + 1) * limit - 1]? = keys[(k + 1 + 1) * limit - 1]? ∧
      (keys.drop limit)[(k + 1) * limit]? = keys[(k + 1 + 1) * limit]? := by
    intro k
    have hpos : 0 < (k + 1) * limit := Nat.mul_pos (Nat.succ_pos k) hlimit
    have hnext : (k + 1 + 1) * limit = limit + (k + 1) * limit := by ring
    rw [getElem?_drop, getElem?_drop, hnext, Nat.add_sub_assoc hpos]
    exact ⟨rfl, rfl⟩
  constructor
  · intro h
    refine ⟨by simpa using h 0 (by simpa using hmore), fun k hk => ?_⟩
    rw [(hshift k).1, (hshift k).2]
    refine h (k + 1) ?_
    rw [length_drop] at hk
    have hnext : (k + 1 + 1) * limit = limit + (k + 1) * limit := by ring
    omega
  · rintro ⟨hfirst, hlater⟩ k hk
    cases k with
    | zero => simpa using hfirst
    | succ k =>
      rw [← (hshift k).1, ← (hshift k).2]
      refine hlater k ?_
      rw [length_drop]
      have hnext : (k + 1 + 1) * limit = limit + (k + 1) * limit := by ring
      omega

theorem below_below {bound : Option κ} {b : κ} (hle : ∀ c ∈ bound, b ≤ c) (items : List α) :
    below key (some b) items = (below key bound items).filter fun a => decide (key a < b) := by
  rw [below, below, filter_filter]
  refine filter_congr fun a _ => ?_
  cases bound with
  | none => simp
  | some c =>
    by_cases hab : key a < b
    · simp [hab, hab.trans_le (hle c rfl)]
    · simp [hab]

theorem keys_eq_of_perm (h : Newest key order) {items found : List α} (hperm : found.Perm items)
    (hsorted : found.Pairwise fun a b => key b ≤ key a) :
    (order items).map key = found.map key := by
  have hkeys : ((order items).map key).Perm (found.map key) :=
    ((h.perm items).trans hperm.symm).map key
  exact hkeys.eq_of_pairwise (fun a b _ _ (hab : b ≤ a) (hba : a ≤ b) => le_antisymm hba hab)
    (pairwise_map.mpr (h.sorted items)) (pairwise_map.mpr hsorted)

/-! ## One page -/

theorem page_split {found : List α} (hsorted : found.Pairwise fun a b => key b ≤ key a)
    (hlimit : 0 < limit) (hmore : limit < found.length) :
    ∃ last next rest, (found.take limit).getLast? = some last ∧ found[limit - 1]? = some last ∧
      found.drop limit = next :: rest ∧ found[limit]? = some next ∧
      (∀ p ∈ found.take limit, key last ≤ key p) ∧ ∀ d ∈ next :: rest, key d ≤ key next := by
  have hlast : found[limit - 1]? = some found[limit - 1] := getElem?_eq_getElem (by omega)
  have hnext : found[limit]? = some found[limit] := getElem?_eq_getElem hmore
  have hpage : found.take limit = found.take (limit - 1) ++ [found[limit - 1]] := by
    have hconcat := take_concat_get' found (limit - 1) (by omega)
    rw [Nat.sub_add_cancel hlimit] at hconcat
    exact hconcat.symm
  have hdrop : found.drop limit = found[limit] :: found.drop (limit + 1) :=
    drop_eq_getElem_cons hmore
  refine ⟨_, _, _, by rw [hpage, getLast?_concat], hlast, hdrop, hnext, ?_, ?_⟩
  · have htake : (found.take limit).Pairwise fun a b => key b ≤ key a :=
      hsorted.sublist (take_sublist _ _)
    rw [hpage] at htake ⊢
    intro p hp
    rcases mem_append.mp hp with hearlier | hlast
    · exact (pairwise_append.mp htake).2.2 p hearlier _ (mem_singleton.mpr rfl)
    · rw [mem_singleton.mp hlast]
  · have hrest : (found.drop limit).Pairwise fun a b => key b ≤ key a :=
      hsorted.sublist (drop_sublist _ _)
    rw [hdrop, pairwise_cons] at hrest
    intro d hd
    rcases mem_cons.mp hd with rfl | hd
    · exact le_refl _
    · exact hrest.1 d hd

theorem filter_of_lt {page : List α} {last next : α} {rest : List α}
    (hpage : ∀ p ∈ page, key last ≤ key p) (hrest : ∀ d ∈ next :: rest, key d ≤ key next)
    (hlt : key next < key last) :
    (page ++ next :: rest).filter (fun a => decide (key a < key last)) = next :: rest := by
  rw [filter_append, filter_eq_nil_iff.mpr, filter_eq_self.mpr, nil_append]
  · intro d hd
    rw [decide_eq_true_eq]
    exact (hrest d hd).trans_lt hlt
  · intro p hp
    rw [decide_eq_true_eq, not_lt]
    exact hpage p hp

theorem length_filter_of_tie {page : List α} {last next : α} {rest : List α}
    (hpage : ∀ p ∈ page, key last ≤ key p) (htie : key next = key last) :
    ((page ++ next :: rest).filter (fun a => decide (key a < key last))).length ≤ rest.length := by
  rw [filter_append, filter_eq_nil_iff.mpr, nil_append,
    filter_cons_of_neg (by rw [htie]; simp)]
  · exact length_filter_le _ _
  · intro p hp
    rw [decide_eq_true_eq, not_lt]
    exact hpage p hp

/-! ## All pages -/

/-- **Following the pages.** The walk returns every item below the bound once, newest first, if no
boundary separates equal keys, and fewer items otherwise. -/
theorem follow_spec (h : Newest key order) (hlimit : 0 < limit) (items : List α) (fuel : Nat)
    (bound : Option κ) (hfuel : (below key bound items).length < fuel) :
    ∃ out, follow key order limit items fuel bound = some out ∧
      (NoTie limit ((order (below key bound items)).map key) →
        out.Perm (below key bound items) ∧ out.Pairwise fun a b => key b ≤ key a) ∧
      (¬NoTie limit ((order (below key bound items)).map key) →
        out.length < (below key bound items).length) := by
  induction fuel generalizing bound with
  | zero => omega
  | succ fuel ih =>
    have hperm := h.perm (below key bound items)
    have hsorted := h.sorted (below key bound items)
    have hlength := hperm.length_eq
    rw [follow]
    generalize order (below key bound items) = found at hperm hsorted hlength ⊢
    by_cases hmore : limit < found.length
    · rw [if_pos hmore]
      obtain ⟨last, next, rest, hgetLast, hlast, hdrop, hnext, hpage, hrest⟩ :=
        page_split hsorted hlimit hmore
      have hsplit : found = found.take limit ++ next :: rest := by
        rw [← hdrop, take_append_drop]
      have hnextLe : key next ≤ key last :=
        (pairwise_append.mp (hsplit ▸ hsorted)).2.2 last
          (mem_of_getLast? hgetLast) next mem_cons_self
      -- the last item of the page is itself below the bound
      have hbound : ∀ c ∈ bound, key last ≤ c := by
        intro c hc
        have hmem := hperm.subset (mem_of_getElem? hlast)
        have hlt := (mem_filter.mp hmem).2
        rw [hc, Option.all_some, decide_eq_true_eq] at hlt
        exact hlt.le
      have hbelow : below key (some (key last)) items = _ := below_below hbound items
      have hperm' : (found.filter fun a => decide (key a < key last)).Perm
          (below key (some (key last)) items) := by
        rw [hbelow]
        exact hperm.filter _
      have hrestLength : found.length = limit + (rest.length + 1) := by
        have := congrArg length hsplit
        rw [length_append, length_take, length_cons] at this
        omega
      have hkeys : (found.map key)[limit - 1]? ≠ (found.map key)[limit]? ↔ key next ≠ key last := by
        rw [getElem?_map, getElem?_map, hlast, hnext, Option.map_some, Option.map_some,
          ne_eq, Option.some.injEq]
        exact not_congr eq_comm
      rw [hgetLast, Option.map_some]
      by_cases htie : key next = key last
      · -- a tie: the next query misses at least one item
        have hlost : (below key (some (key last)) items).length ≤ rest.length := by
          rw [← hperm'.length_eq, hsplit]
          exact length_filter_of_tie hpage htie
        obtain ⟨out, hout, hall, hfewer⟩ := ih (some (key last)) (by omega)
        have hle : out.length ≤ (below key (some (key last)) items).length := by
          by_cases hgood : NoTie limit ((order (below key (some (key last)) items)).map key)
          · exact (hall hgood).1.length_eq.le
          · exact (hfewer hgood).le
        refine ⟨found.take limit ++ out, by rw [hout]; rfl, fun hgood => ?_, fun _ => ?_⟩
        · exact absurd htie (hkeys.mp ((noTie_iff hlimit (by simpa using hmore)).mp hgood).1)
        · rw [length_append, length_take]
          omega
      · have hfilter : found.filter (fun a => decide (key a < key last)) = next :: rest := by
          rw [hsplit]
          exact filter_of_lt hpage hrest (lt_of_le_of_ne hnextLe htie)
        rw [hfilter] at hperm'
        have hrestSorted : (next :: rest).Pairwise fun a b => key b ≤ key a := by
          rw [← hdrop]
          exact hsorted.sublist (drop_sublist _ _)
        have hkeys' : (order (below key (some (key last)) items)).map key =
            (found.map key).drop limit := by
          rw [keys_eq_of_perm h hperm' hrestSorted, ← map_drop, hdrop]
        have hsame : NoTie limit (found.map key) ↔
            NoTie limit ((order (below key (some (key last)) items)).map key) := by
          rw [noTie_iff hlimit (by simpa using hmore), hkeys, hkeys']
          exact and_iff_right htie
        have hrest' := hperm'.length_eq
        rw [length_cons] at hrest'
        obtain ⟨out, hout, hall, hfewer⟩ := ih (some (key last)) (by omega)
        refine ⟨found.take limit ++ out, by rw [hout]; rfl, fun hgood => ?_, fun hbad => ?_⟩
        · obtain ⟨houtPerm, houtSorted⟩ := hall (hsame.mp hgood)
          constructor
          · refine List.Perm.trans ?_ hperm
            nth_rewrite 2 [hsplit]
            exact (houtPerm.trans hperm'.symm).append_left _
          · refine pairwise_append.mpr
              ⟨hsorted.sublist (take_sublist _ _), houtSorted, fun p hp o ho => ?_⟩
            have hmem := (mem_filter.mp (houtPerm.subset ho)).2
            rw [Option.all_some, decide_eq_true_eq] at hmem
            exact hmem.le.trans (hpage p hp)
        · have := hfewer fun hgood => hbad (hsame.mpr hgood)
          rw [length_append, length_take]
          omega
    · rw [if_neg hmore, take_of_length_le (not_lt.mp hmore)]
      refine ⟨found, rfl, fun _ => ⟨hperm, hsorted⟩, fun hbad => absurd ?_ hbad⟩
      exact noTie_of_length_le (by rw [length_map]; exact not_lt.mp hmore)

end MeshcoreSniffer.Lib.Paging
