import MeshcoreSniffer.Meshtastic.Keyset

/-!
# The dispatch table of the key set

`keyset_t` as `keyset.c` lays it out: for each channel hash a row of eight signed bytes that ends at
-1. An entry is written before its bucket is known to have room, and taken back by the count.
`keysetAdd_refines`: the table does what `keysetAdd` says.
-/

namespace MeshcoreSniffer.Meshtastic

open Lib List Function

def bucketCells : Nat := 8

structure KeysetTable where
  entries : List KeysetEntry
  nEntries : Nat
  buckets : Byte → List Int

def keysetTableCreate : KeysetTable where
  entries := List.replicate keysetMaxEntries ⟨[], [], 0⟩
  nEntries := 0
  buckets := fun _ => List.replicate bucketCells (-1)

/-- The first -1 before the last cell. -/
def bucketPush (bucket : List Int) (idx : Int) : Option (List Int) :=
  match (List.range (bucketCells - 1)).find? fun i => bucket.getD i 0 == -1 with
  | some i => some ((bucket.set i idx).set (i + 1) (-1))
  | none => none

namespace KeysetTable

variable (k : KeysetTable)

def store (e : KeysetEntry) : Bool × KeysetTable :=
  let written : KeysetTable := { k with entries := k.entries.set k.nEntries e }
  match bucketPush (k.buckets e.channelHash) k.nEntries with
  | some bucket =>
    (true,
      { written with
        nEntries := k.nEntries + 1
        buckets := Function.update k.buckets e.channelHash bucket })
  | none => (false, written)

def keyBytes (psk : Option (List Byte)) (pskLen : Nat) : List Byte :=
  (psk.map (·.take pskLen)).getD (List.replicate pskLen 0)

def refuses (pskLen : Nat) : Bool :=
  decide ((pskLen ≠ 0 ∧ pskLen ≠ 16 ∧ pskLen ≠ 32) ∨ keysetMaxPskBytes < pskLen ∨
    keysetMaxEntries ≤ k.nEntries)

def add (channelName : List Byte) (psk : Option (List Byte)) (pskLen : Nat) : Bool × KeysetTable :=
  if k.refuses pskLen then (false, k) else k.store (keysetEntry channelName (keyBytes psk pskLen))

def addRaw (channelHash : Byte) (psk : Option (List Byte)) (pskLen : Nat) (displayName : List Byte) :
    Bool × KeysetTable :=
  if k.refuses pskLen then (false, k)
  else
    let name := (if displayName = [] then ascii "(discovered)" else displayName).take (keysetMaxName - 1)
    k.store { channelName := name, psk := keyBytes psk pskLen, channelHash := channelHash }

def lookup (channelHash : Byte) : List Int := k.buckets channelHash

def get (index : Int) : Option KeysetEntry :=
  if index < 0 ∨ k.nEntries ≤ index then none else k.entries[index.toNat]?

/-- The entries `mesh_packet_decode_with_radio` tries for a hash, in its order. -/
def candidates (channelHash : Byte) : List KeysetEntry :=
  (((k.lookup channelHash).takeWhile fun i => decide (0 ≤ i)).take bucketCells).filterMap k.get

end KeysetTable

inductive KeysetCall where
  | add (channelName : List Byte) (psk : Option (List Byte)) (pskLen : Nat)
  | addRaw (channelHash : Byte) (psk : Option (List Byte)) (pskLen : Nat) (displayName : List Byte)

def KeysetTable.step (k : KeysetTable) : KeysetCall → Bool × KeysetTable
  | .add channelName psk pskLen => k.add channelName psk pskLen
  | .addRaw channelHash psk pskLen displayName => k.addRaw channelHash psk pskLen displayName

def keysetTable (calls : List KeysetCall) : KeysetTable :=
  calls.foldl (fun k call => (k.step call).2) keysetTableCreate

/-! ## One bucket -/

def bucketOf (indices : List Nat) : List Int :=
  indices.map Int.ofNat ++ List.replicate (bucketCells - indices.length) (-1)

variable {indices : List Nat} {i : Nat} {k t : KeysetTable}

theorem bucketOf_getD_of_lt (h : i < indices.length) : (bucketOf indices).getD i 0 ≠ -1 := by
  rw [bucketOf, getD_append _ _ _ _ (by simpa using h), getD_eq_getElem _ _ (by simpa using h),
    getElem_map]
  exact fun hneg => by cases hneg

theorem bucketOf_getD_length (h : indices.length < bucketCells) :
    (bucketOf indices).getD indices.length 0 = -1 := by
  rw [bucketOf, getD_append_right _ _ _ _ (by simp), length_map, Nat.sub_self,
    getD_eq_getElem _ _ (by simpa using h), getElem_replicate]

theorem bucketPush_of_room (h : indices.length < bucketCells - 1) (idx : Nat) :
    bucketPush (bucketOf indices) idx = some (bucketOf (indices ++ [idx])) := by
  have hcells : indices.length < bucketCells := Nat.lt_of_lt_of_le h (Nat.sub_le _ _)
  have hfind : ((range (bucketCells - 1)).find? fun i => (bucketOf indices).getD i 0 == -1) =
      some indices.length := by
    rw [find?_range_eq_some]
    refine ⟨by rw [bucketOf_getD_length hcells]; rfl, mem_range.mpr h, fun j hj => ?_⟩
    rw [Bool.not_eq_true', beq_eq_false_iff_ne]
    exact bucketOf_getD_of_lt hj
  rw [bucketPush, hfind]
  dsimp only
  obtain ⟨free, hfree⟩ : ∃ free, bucketCells - indices.length = free + 2 :=
    ⟨bucketCells - indices.length - 2, by rw [bucketCells] at h ⊢; omega⟩
  have hleft : bucketCells - (indices ++ [idx]).length = free + 1 := by
    rw [length_append, length_singleton]
    omega
  rw [bucketOf, bucketOf, hfree, hleft, map_append, append_assoc]
  congr 1
  rw [set_append_right _ _ (by simp), set_append_right _ _ (by simp)]
  simp [replicate_succ]

theorem bucketPush_of_full (h : bucketCells - 1 ≤ indices.length) (idx : Int) :
    bucketPush (bucketOf indices) idx = none := by
  have hfind : ((range (bucketCells - 1)).find? fun i => (bucketOf indices).getD i 0 == -1) =
      none := by
    rw [find?_eq_none]
    intro i hi
    rw [beq_iff_eq]
    exact bucketOf_getD_of_lt ((mem_range.mp hi).trans_le h)
  rw [bucketPush, hfind]

/-! ## The table -/

def KeysetTable.filed (k : KeysetTable) (hash : Byte) : List Nat :=
  (List.range k.nEntries).filter fun i => (k.entries[i]?.map (·.channelHash)) == some hash

structure KeysetTable.Dispatched (k : KeysetTable) : Prop where
  size : k.entries.length = keysetMaxEntries
  count : k.nEntries ≤ keysetMaxEntries
  bucket : ∀ hash, k.buckets hash = bucketOf (k.filed hash)
  room : ∀ hash, (k.filed hash).length < bucketCells

theorem dispatched_create : keysetTableCreate.Dispatched where
  size := length_replicate
  count := Nat.zero_le _
  bucket _ := rfl
  room _ := Nat.zero_lt_succ 7

theorem get_written (k : KeysetTable) (e : KeysetEntry) (h : i < k.nEntries) :
    (k.entries.set k.nEntries e)[i]? = k.entries[i]? :=
  getElem?_set_ne (Nat.ne_of_gt h)

theorem filed_written (k : KeysetTable) (e : KeysetEntry) (hash : Byte) :
    KeysetTable.filed { k with entries := k.entries.set k.nEntries e } hash = k.filed hash := by
  refine filter_congr fun i hi => ?_
  dsimp only
  rw [get_written k e (mem_range.mp hi)]

theorem filed_stored (hroom : k.nEntries < k.entries.length) (e : KeysetEntry)
    (buckets : Byte → List Int) (hash : Byte) :
    KeysetTable.filed ⟨k.entries.set k.nEntries e, k.nEntries + 1, buckets⟩ hash =
      if e.channelHash = hash then k.filed hash ++ [k.nEntries] else k.filed hash := by
  have hold : ((range k.nEntries).filter fun i =>
      ((k.entries.set k.nEntries e)[i]?.map (·.channelHash)) == some hash) = k.filed hash :=
    filed_written k e hash
  have hnew : (k.entries.set k.nEntries e)[k.nEntries]? = some e := by
    rw [getElem?_set_self hroom]
  rw [KeysetTable.filed]
  dsimp only
  rw [range_succ, filter_append, hold]
  by_cases hhash : e.channelHash = hash
  · rw [if_pos hhash, filter_cons_of_pos (by simp [hnew, hhash]), filter_nil]
  · rw [if_neg hhash, filter_cons_of_neg (by simp [hnew, hhash]), filter_nil, append_nil]

def SameLookups (k k' : KeysetTable) : Prop :=
  (∀ hash, k'.lookup hash = k.lookup hash) ∧ ∀ index, k'.get index = k.get index

theorem sameLookups_written (k : KeysetTable) (e : KeysetEntry) :
    SameLookups k { k with entries := k.entries.set k.nEntries e } := by
  refine ⟨fun _ => rfl, fun index => ?_⟩
  rw [KeysetTable.get, KeysetTable.get]
  dsimp only
  split
  · rfl
  next hin =>
    rw [not_or] at hin
    exact get_written k e (by omega)

/-- **Storing an entry.** It is filed under its hash behind the others, or its bucket is full. -/
theorem store_spec (h : k.Dispatched) (hroom : k.nEntries < keysetMaxEntries) (e : KeysetEntry) :
    (k.store e).2.Dispatched ∧ ((k.store e).1 = false → SameLookups k (k.store e).2) := by
  rw [KeysetTable.store, h.bucket]
  by_cases hfree : (k.filed e.channelHash).length < bucketCells - 1
  · rw [bucketPush_of_room hfree]
    refine ⟨⟨?_, hroom, fun hash => ?_, fun hash => ?_⟩, fun hfalse => by cases hfalse⟩
    · exact (length_set).trans h.size
    · dsimp only
      rw [filed_stored (h.size ▸ hroom)]
      by_cases hhash : e.channelHash = hash
      · subst hhash
        rw [if_pos rfl, update_self]
      · rw [if_neg hhash, update_of_ne (Ne.symm hhash), h.bucket]
    · dsimp only
      rw [filed_stored (h.size ▸ hroom)]
      split
      next hhash =>
        subst hhash
        rw [length_append, length_singleton]
        omega
      next => exact h.room hash
  · rw [bucketPush_of_full (not_lt.mp hfree)]
    refine ⟨⟨?_, h.count, fun hash => ?_, fun hash => ?_⟩, fun _ => sameLookups_written k e⟩
    · exact (length_set).trans h.size
    · dsimp only
      rw [filed_written]
      exact h.bucket hash
    · dsimp only
      rw [filed_written]
      exact h.room hash

theorem step_spec (h : k.Dispatched) (call : KeysetCall) :
    (k.step call).2.Dispatched ∧ ((k.step call).1 = false → SameLookups k (k.step call).2) := by
  have hrefused : k.Dispatched ∧ (false = false → SameLookups k k) :=
    ⟨h, fun _ => ⟨fun _ => rfl, fun _ => rfl⟩⟩
  have hroom : ∀ pskLen, ¬k.refuses pskLen = true → k.nEntries < keysetMaxEntries := by
    intro pskLen hnot
    rw [KeysetTable.refuses, decide_eq_true_eq, not_or, not_or] at hnot
    exact not_le.mp hnot.2.2
  cases call with
  | add channelName psk pskLen =>
    rw [KeysetTable.step, KeysetTable.add]
    split
    · exact hrefused
    next hnot => exact store_spec h (hroom pskLen hnot) _
  | addRaw channelHash psk pskLen displayName =>
    rw [KeysetTable.step, KeysetTable.addRaw]
    split
    · exact hrefused
    next hnot => exact store_spec h (hroom pskLen hnot) _

theorem dispatched_run (calls : List KeysetCall) : (keysetTable calls).Dispatched := by
  induction calls using reverseRecOn with
  | nil => exact dispatched_create
  | append_singleton calls call ih =>
    rw [keysetTable, foldl_append]
    exact (step_spec ih call).1

/-- **Dispatch invariant.** After any calls, the bucket of a hash lists the indices of the entries
with that hash in the order they were added, and ends at -1; a call that fails changes no lookup. -/
theorem dispatch_invariant (calls : List KeysetCall) :
    (∀ hash, ∃ indices : List Nat,
      (keysetTable calls).lookup hash =
          indices.map Int.ofNat ++ List.replicate (bucketCells - indices.length) (-1) ∧
        indices.length < bucketCells ∧ indices.Pairwise (· < ·) ∧
        ∀ i, i ∈ indices ↔ i < (keysetTable calls).nEntries ∧
          ((keysetTable calls).get i).map (·.channelHash) = some hash) ∧
      ∀ call, ((keysetTable calls).step call).1 = false →
        SameLookups (keysetTable calls) ((keysetTable calls).step call).2 := by
  have h := dispatched_run calls
  refine ⟨fun hash => ⟨(keysetTable calls).filed hash, h.bucket hash, h.room hash, ?_, fun i => ?_⟩,
    fun call => (step_spec h call).2⟩
  · exact pairwise_lt_range.sublist filter_sublist
  · rw [KeysetTable.filed, mem_filter, mem_range, beq_iff_eq, KeysetTable.get]
    refine and_congr_right fun hlt => ?_
    rw [if_neg (by omega)]
    rfl

def sevenKeys : List KeysetCall := List.replicate 7 (.addRaw 0x2a none 16 [])

theorem dispatch_invariant_eighthKey :
    (keysetTable sevenKeys).lookup 0x2a = [0, 1, 2, 3, 4, 5, 6, -1] ∧
      ((keysetTable sevenKeys).step (.addRaw 0x2a none 16 [])).1 = false ∧
      SameLookups (keysetTable sevenKeys)
        ((keysetTable sevenKeys).step (.addRaw 0x2a none 16 [])).2 := by
  have hrefused : ((keysetTable sevenKeys).step (.addRaw 0x2a none 16 [])).1 = false := by decide +kernel
  exact ⟨by decide +kernel, hrefused, (dispatch_invariant sevenKeys).2 _ hrefused⟩

/-! ## What a packet is tried against -/

theorem filterMap_filter_range {α : Type*} (p : α → Bool) (l : List α) :
    ((range l.length).filter fun i => (l[i]?.map p) == some true).filterMap (fun i => l[i]?) =
      l.filter p := by
  induction l using reverseRecOn with
  | nil => rfl
  | append_singleton l a ih =>
    have hold : ∀ i ∈ range l.length, (l ++ [a])[i]? = l[i]? := fun i hi =>
      getElem?_append_left (mem_range.mp hi)
    have hnew : (l ++ [a])[l.length]? = some a := getElem?_concat_length
    have hfilter : ((range l.length).filter fun i => ((l ++ [a])[i]?.map p) == some true) =
        (range l.length).filter fun i => (l[i]?.map p) == some true :=
      filter_congr fun i hi => by rw [hold i hi]
    have hkept : ((range l.length).filter fun i => (l[i]?.map p) == some true).filterMap
        (fun i => (l ++ [a])[i]?) = l.filter p := by
      rw [← ih]
      exact filterMap_congr fun i hi => hold i (mem_filter.mp hi).1
    rw [length_append, length_singleton, range_succ, filter_append, hfilter,
      filterMap_append, hkept, filter_append]
    cases hp : p a with
    | true => simp [hp]
    | false => simp [hp]

theorem candidates_eq (h : k.Dispatched) (hash : Byte) :
    k.candidates hash = (k.entries.take k.nEntries).filter fun e => e.channelHash == hash := by
  have hcount : (k.entries.take k.nEntries).length = k.nEntries := by
    rw [length_take, h.size]
    exact Nat.min_eq_left h.count
  have hfiled : k.filed hash = (range (k.entries.take k.nEntries).length).filter fun i =>
      ((k.entries.take k.nEntries)[i]?.map fun e => e.channelHash == hash) == some true := by
    rw [KeysetTable.filed, hcount]
    refine filter_congr fun i hi => ?_
    rw [getElem?_take_of_lt (mem_range.mp hi)]
    cases k.entries[i]? with
    | none => rfl
    | some e => simp
  have hcells : (k.lookup hash).takeWhile (fun i => decide (0 ≤ i)) = (k.filed hash).map Int.ofNat := by
    rw [KeysetTable.lookup, h.bucket, bucketOf, takeWhile_append_of_pos ?_]
    · obtain ⟨free, hfree⟩ : ∃ free, bucketCells - (k.filed hash).length = free + 1 :=
        ⟨_, (Nat.sub_add_cancel (Nat.sub_pos_of_lt (h.room hash))).symm⟩
      rw [hfree, replicate_succ, takeWhile_cons_of_neg (by decide), append_nil]
    · intro i hi
      obtain ⟨n, -, rfl⟩ := mem_map.mp hi
      exact decide_eq_true (Int.natCast_nonneg n)
  rw [KeysetTable.candidates, hcells, take_of_length_le (by rw [length_map]; exact (h.room hash).le),
    filterMap_map, ← filterMap_filter_range, ← hfiled]
  refine filterMap_congr fun i hi => ?_
  have hlt := mem_range.mp (mem_filter.mp hi).1
  rw [comp_apply, KeysetTable.get, if_neg (by simp only [Int.ofNat_eq_natCast]; omega),
    getElem?_take_of_lt hlt]
  rfl

/-! ## Refinement -/

structure Represents (t : KeysetTable) (k : Keyset) : Prop where
  size : t.entries.length = keysetMaxEntries
  count : t.nEntries = k.entries.length
  entries : t.entries.take t.nEntries = k.entries
  buckets : ∀ hash, t.buckets hash = bucketOf (k.buckets hash)

theorem store_refines {k : Keyset} (h : Represents t k) (e : KeysetEntry)
    (hfull : ¬keysetMaxEntries ≤ k.entries.length) : match k.file e with
    | some k' => (t.store e).1 = true ∧ Represents (t.store e).2 k'
    | none => (t.store e).1 = false ∧ Represents (t.store e).2 k := by
  have hroom : t.nEntries < t.entries.length := by
    rw [h.size, h.count]
    exact not_le.mp hfull
  have hkept : (t.entries.set t.nEntries e).take t.nEntries = k.entries := by
    rw [take_set_of_le (le_refl _), h.entries]
  by_cases hplace : k.HasRoom e.channelHash
  · obtain ⟨k', hfile, hentries, hbuckets⟩ := Keyset.file_of_room hplace
    rw [hfile, KeysetTable.store, h.buckets, bucketPush_of_room hplace.2]
    refine ⟨rfl, (length_set).trans h.size, ?_, ?_, fun hash => ?_⟩
    · dsimp only
      rw [hentries, length_append, length_singleton, h.count]
    · dsimp only
      rw [hentries, take_add_one, hkept, getElem?_set_self hroom]
      rfl
    · dsimp only
      rw [hbuckets]
      by_cases hhash : hash = e.channelHash
      · subst hhash
        rw [update_self, update_self, h.count]
      · rw [update_of_ne hhash, update_of_ne hhash, h.buckets]
  · have hbucket : bucketSize ≤ (k.buckets e.channelHash).length :=
      not_lt.mp fun hlt => hplace ⟨not_le.mp hfull, hlt⟩
    rw [Keyset.file_of_full hplace, KeysetTable.store, h.buckets, bucketPush_of_full hbucket]
    exact ⟨rfl, (length_set).trans h.size, h.count, hkept, h.buckets⟩

theorem addition_refines {k : Keyset} (h : Represents t k) (pskLen : Nat) (e : KeysetEntry) :
    match (if pskLen ≠ 0 ∧ pskLen ≠ 16 ∧ pskLen ≠ 32 then none else k.file e) with
    | some k' => (if t.refuses pskLen then (false, t) else t.store e).1 = true ∧
        Represents (if t.refuses pskLen then (false, t) else t.store e).2 k'
    | none => (if t.refuses pskLen then (false, t) else t.store e).1 = false ∧
        Represents (if t.refuses pskLen then (false, t) else t.store e).2 k := by
  rw [KeysetTable.refuses, h.count]
  by_cases hlen : pskLen ≠ 0 ∧ pskLen ≠ 16 ∧ pskLen ≠ 32
  · rw [if_pos hlen, if_pos (decide_eq_true (Or.inl hlen))]
    exact ⟨rfl, h⟩
  · rw [if_neg hlen]
    by_cases hfull : keysetMaxEntries ≤ k.entries.length
    · rw [if_pos (decide_eq_true (Or.inr (Or.inr hfull))),
        Keyset.file_of_full fun hroom => absurd hroom.1 (not_lt.mpr hfull)]
      exact ⟨rfl, h⟩
    · have hmax : ¬keysetMaxPskBytes < pskLen := by
        rw [keysetMaxPskBytes]
        omega
      rw [if_neg (by rw [decide_eq_true_eq, not_or, not_or]; exact ⟨hlen, hmax, hfull⟩)]
      exact store_refines h e hfull

/-- **Refinement.** `keyset_add` on the table does what `keysetAdd` does. -/
theorem keysetAdd_refines {k : Keyset} (h : Represents t k) (channelName psk : List Byte) :
    match keysetAdd k channelName psk with
    | some k' => (t.add channelName (some psk) psk.length).1 = true ∧
        Represents (t.add channelName (some psk) psk.length).2 k'
    | none => (t.add channelName (some psk) psk.length).1 = false ∧
        Represents (t.add channelName (some psk) psk.length).2 k := by
  have hbytes : KeysetTable.keyBytes (some psk) psk.length = psk := take_length
  rw [keysetAdd, KeysetTable.add, hbytes]
  exact addition_refines h psk.length _

/-- **Refinement**, for `keyset_add_raw`. -/
theorem keysetAddRaw_refines {k : Keyset} (h : Represents t k) (channelHash : Byte)
    (psk displayName : List Byte) : match keysetAddRaw k channelHash psk displayName with
    | some k' => (t.addRaw channelHash (some psk) psk.length displayName).1 = true ∧
        Represents (t.addRaw channelHash (some psk) psk.length displayName).2 k'
    | none => (t.addRaw channelHash (some psk) psk.length displayName).1 = false ∧
        Represents (t.addRaw channelHash (some psk) psk.length displayName).2 k := by
  have hbytes : KeysetTable.keyBytes (some psk) psk.length = psk := take_length
  rw [keysetAddRaw, KeysetTable.addRaw, hbytes]
  exact addition_refines h psk.length _

end MeshcoreSniffer.Meshtastic
