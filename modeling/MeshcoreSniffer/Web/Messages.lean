import MeshcoreSniffer.Lib.Json
import MeshcoreSniffer.Lib.Paging
import MeshcoreSniffer.Pipeline.Store

/-!
# Chat history by pages

`GET /api/messages` of `web.c` answers with the rows of one channel hash that have text, newest
first; a client asks again for rows before the oldest timestamp it has (`followMessages_eq`).
`order` is any order by descending timestamp.
-/

namespace MeshcoreSniffer.Web

open Lib Lib.Paging Meshcore Pipeline List

def apiMessagesDefaultLimit : Nat := 100

def apiMessagesMaxLimit : Nat := 500

def messagesLimit (limit : Int) : Nat :=
  if limit ≤ 0 then apiMessagesDefaultLimit
  else if apiMessagesMaxLimit < limit.toNat then apiMessagesMaxLimit else limit.toNat

def selectedRows (rows : List StoredRow) (hash : Byte) (before : ℚ) : List StoredRow :=
  rows.filter fun row =>
    decide (row.channelHash = some hash) && row.text.isSome &&
      (decide (before ≤ 0) || decide (row.ts < before))

/-- Rows without JSON are passed over, and a row beyond the limit only says that there are more. -/
def collectRows (limit : Nat) : Nat → List StoredRow → List StoredRow × Bool
  | _, [] => ([], false)
  | count, row :: rest =>
    if limit ≤ count then ([], true)
    else if row.json.isNone then collectRows limit count rest
    else
      let later := collectRows limit (count + 1) rest
      (row :: later.1, later.2)

/-- `db_sqlite_query_messages_json`, as the rows of the page and whether there are more. -/
def queryMessages (order : List StoredRow → List StoredRow) (rows : List StoredRow) (hash : Byte)
    (before : ℚ) (limit : Nat) : List StoredRow × Bool :=
  collectRows limit 0 ((order (selectedRows rows hash before)).take (limit + 1))

def followMessages (order : List StoredRow → List StoredRow) (rows : List StoredRow) (hash : Byte)
    (limit : Nat) : Nat → ℚ → Option (List StoredRow)
  | 0, _ => none
  | fuel + 1, before =>
    let page := queryMessages order rows hash before limit
    if page.2 then
      (followMessages order rows hash limit fuel ((page.1.getLast?.map (·.ts)).getD 0)).map
        (page.1 ++ ·)
    else some page.1

/-! ## Paging -/

variable {limit : Nat} {order : List StoredRow → List StoredRow} {rows : List StoredRow}

theorem collectRows_of_json (rows : List StoredRow) (count : Nat)
    (hjson : ∀ row ∈ rows, row.json.isSome = true) (hcount : count ≤ limit) :
    collectRows limit count rows = (rows.take (limit - count), decide (limit - count < rows.length)) := by
  induction rows generalizing count with
  | nil => simp [collectRows]
  | cons row rest ih =>
    have hrow := hjson row mem_cons_self
    rw [collectRows]
    by_cases hfull : limit ≤ count
    · rw [if_pos hfull, show limit - count = 0 by omega]
      simp
    · have hstep : limit - count = (limit - (count + 1)) + 1 := by omega
      rw [if_neg hfull, if_neg (by rw [Option.isNone_iff_eq_none]; rintro h; rw [h] at hrow; cases hrow),
        ih (count + 1) (fun r hr => hjson r (mem_cons_of_mem _ hr)) (by omega), hstep,
        take_succ_cons, length_cons]
      simp

theorem queryMessages_eq (horder : Newest (·.ts) order)
    (hjson : ∀ row ∈ rows, row.json.isSome = true) (hash : Byte) (before : ℚ) (limit : Nat) :
    queryMessages order rows hash before limit =
      ((order (selectedRows rows hash before)).take limit,
        decide (limit < (order (selectedRows rows hash before)).length)) := by
  have hall : ∀ row ∈ (order (selectedRows rows hash before)).take (limit + 1),
      row.json.isSome = true := by
    intro row hrow
    have hselected := (horder.perm _).subset (mem_of_mem_take hrow)
    exact hjson row (mem_filter.mp hselected).1
  rw [queryMessages, collectRows_of_json _ 0 hall (Nat.zero_le _), Nat.sub_zero, take_take,
    Nat.min_eq_left (Nat.le_succ limit), length_take]
  congr 1
  refine decide_eq_decide.mpr ?_
  omega

def boundOf (before : ℚ) : Option ℚ := if before ≤ 0 then none else some before

theorem selectedRows_eq (rows : List StoredRow) (hash : Byte) (before : ℚ) :
    selectedRows rows hash before = below (·.ts) (boundOf before) (selectedRows rows hash 0) := by
  rw [selectedRows, selectedRows, below, filter_filter]
  refine filter_congr fun row _ => ?_
  rw [boundOf]
  by_cases hbefore : before ≤ 0
  · simp [hbefore]
  · simp [hbefore, Bool.and_comm]

/-- **Paging.** Following the answers is following the pages below a timestamp. -/
theorem followMessages_eq (horder : Newest (·.ts) order)
    (hjson : ∀ row ∈ rows, row.json.isSome = true) (hts : ∀ row ∈ rows, 0 < row.ts) (hash : Byte)
    (hlimit : 0 < limit) (fuel : Nat) (before : ℚ) :
    followMessages order rows hash limit fuel before =
      follow (·.ts) order limit (selectedRows rows hash 0) fuel (boundOf before) := by
  induction fuel generalizing before with
  | zero => rfl
  | succ fuel ih =>
    rw [followMessages, follow, queryMessages_eq horder hjson, ← selectedRows_eq]
    dsimp only
    simp only [decide_eq_true_eq]
    split
    next hmore =>
      obtain ⟨last, -, -, hlast, -, -, -, -, -⟩ := page_split (horder.sorted _) hlimit hmore
      have hrow : last ∈ rows := by
        have hpage := mem_of_mem_take (mem_of_getLast? hlast)
        exact (mem_filter.mp ((horder.perm _).subset hpage)).1
      rw [hlast, Option.map_some, Option.getD_some, ih, boundOf, if_neg (not_le.mpr (hts last hrow))]
    · rfl

/-! ## The history of a channel -/

/-- An event published with its JSON line, at a clock reading after 1970. -/
structure Publication where
  ts : ℚ
  ev : MeshEvent
  json : List Byte
  ts_pos : 0 < ts
  json_ne : json ≠ []

def Publication.row (p : Publication) : StoredRow := storeEvent p.ts p.ev p.json

def Publication.onChannel (hash : Byte) (p : Publication) : Bool :=
  p.ev.isMeshcore && p.ev.decrypted && decide (p.ev.mcText ≠ []) && p.ev.mcChannelHash == hash

def channelRows (pubs : List Publication) (hash : Byte) : List StoredRow :=
  (pubs.filter (Publication.onChannel hash)).map Publication.row

def newestFirst (rows : List StoredRow) : List StoredRow :=
  rows.insertionSort fun a b => b.ts ≤ a.ts

theorem newest_newestFirst : Newest (·.ts) newestFirst where
  perm rows := perm_insertionSort _ rows
  sorted rows :=
    haveI : Std.Total fun a b : StoredRow => b.ts ≤ a.ts := ⟨fun a b => le_total b.ts a.ts⟩
    haveI : IsTrans StoredRow fun a b => b.ts ≤ a.ts := ⟨fun _ _ _ hab hbc => hbc.trans hab⟩
    pairwise_insertionSort _ rows

def HistoryComplete (order : List StoredRow → List StoredRow) (pubs : List Publication)
    (hash : Byte) (limit : Int) : Prop :=
  ∃ out, followMessages order (pubs.map Publication.row) hash (messagesLimit limit)
      (pubs.length + 1) 0 = some out ∧
    out.Perm (channelRows pubs hash) ∧ out.Pairwise fun a b => b.ts ≤ a.ts

theorem messagesLimit_pos (limit : Int) : 0 < messagesLimit limit := by
  rw [messagesLimit]
  split
  · decide
  · split
    · decide
    · omega

theorem row_selected (p : Publication) (hash : Byte) :
    (decide (p.row.channelHash = some hash) && p.row.text.isSome) =
      (p.onChannel hash && decide (hash ≠ 0)) := by
  rw [Publication.onChannel, Publication.row, storeEvent, dbSqlitePublish]
  by_cases hmesh : p.ev.isMeshcore = true
  · by_cases hdec : p.ev.decrypted = true
    · by_cases htext : p.ev.mcText = []
      · simp [hmesh, hdec, htext, nonEmpty]
      · by_cases hzero : p.ev.mcChannelHash = 0
        · by_cases hhash : hash = 0
          · simp [hmesh, hdec, htext, hzero, hhash, nonEmpty]
          · have hne : ¬(0#8 = hash) := Ne.symm hhash
            simp [hmesh, hdec, htext, hzero, nonEmpty, hne]
        · by_cases hhash : p.ev.mcChannelHash = hash
          · have hne : ¬(hash = 0#8) := hhash ▸ hzero
            simp [hmesh, hdec, htext, nonEmpty, hhash, hne]
          · simp [hmesh, hdec, htext, nonEmpty, hhash]
    · simp [hmesh, hdec]
  · simp [hmesh]

theorem selectedRows_publications (pubs : List Publication) (hash : Byte) :
    selectedRows (pubs.map Publication.row) hash 0 =
      if hash = 0 then [] else channelRows pubs hash := by
  rw [selectedRows, filter_map]
  have hpred : ((fun row : StoredRow => decide (row.channelHash = some hash) && row.text.isSome &&
      (decide ((0 : ℚ) ≤ 0) || decide (row.ts < 0))) ∘ Publication.row) =
      fun p => p.onChannel hash && decide (hash ≠ 0) := by
    funext p
    rw [Function.comp_apply, row_selected]
    simp
  rw [hpred]
  split
  next hzero => simp [hzero]
  next hzero =>
    have hne : ¬(hash = 0#8) := hzero
    simp [hne, channelRows]

/-- **Complete history.** Following the pages returns every stored message once, newest first,
exactly when the channel's hash is not zero or it has no messages, and no page ends between two
messages with the same timestamp. -/
theorem history_complete_iff {order : List StoredRow → List StoredRow}
    (horder : Newest (·.ts) order) (pubs : List Publication) (hash : Byte) (limit : Int) :
    HistoryComplete order pubs hash limit ↔
      (hash ≠ 0 ∨ channelRows pubs hash = []) ∧
        NoTie (messagesLimit limit) ((newestFirst (channelRows pubs hash)).map (·.ts)) := by
  have hjson : ∀ row ∈ pubs.map Publication.row, row.json.isSome = true := by
    intro row hrow
    obtain ⟨p, -, rfl⟩ := mem_map.mp hrow
    simp [Publication.row, storeEvent, nonEmpty, p.json_ne]
  have hts : ∀ row ∈ pubs.map Publication.row, 0 < row.ts := by
    intro row hrow
    obtain ⟨p, -, rfl⟩ := mem_map.mp hrow
    exact p.ts_pos
  have hlimit := messagesLimit_pos limit
  have hbelow : below (·.ts) (boundOf 0) (selectedRows (pubs.map Publication.row) hash 0) =
      if hash = 0 then [] else channelRows pubs hash := by
    rw [← selectedRows_eq, selectedRows_publications]
  have hfuel : (below (·.ts) (boundOf 0)
      (selectedRows (pubs.map Publication.row) hash 0)).length < pubs.length + 1 := by
    rw [hbelow]
    split
    · exact Nat.succ_pos _
    · rw [channelRows, length_map]
      exact Nat.lt_succ_of_le (length_filter_le _ _)
  obtain ⟨out, hout, hall, hfewer⟩ := follow_spec horder hlimit _ _ _ hfuel
  rw [← followMessages_eq horder hjson hts hash hlimit] at hout
  rw [hbelow] at hall hfewer
  have hcomplete : HistoryComplete order pubs hash limit ↔
      out.Perm (channelRows pubs hash) ∧ out.Pairwise fun a b => b.ts ≤ a.ts := by
    simp [HistoryComplete, hout]
  rw [hcomplete]
  by_cases hzero : hash = 0
  · rw [if_pos hzero] at hall
    have hnil := (horder.perm []).eq_nil
    rw [hnil] at hall
    obtain ⟨hperm, hsorted⟩ := hall (noTie_of_length_le (Nat.zero_le _))
    rw [hperm.eq_nil]
    constructor
    · rintro ⟨hsame, -⟩
      have hempty := hsame.symm.eq_nil
      rw [hempty]
      exact ⟨Or.inr rfl, noTie_of_length_le (Nat.zero_le _)⟩
    · rintro ⟨hempty, -⟩
      rw [hempty.resolve_left (not_not.mpr hzero)]
      exact ⟨List.Perm.refl _, List.Pairwise.nil⟩
  · rw [if_neg hzero] at hall hfewer
    rw [keys_eq_of_perm horder (newest_newestFirst.perm _) (newest_newestFirst.sorted _)] at hall hfewer
    constructor
    · rintro ⟨hsame, -⟩
      refine ⟨Or.inl hzero, by_contra fun htie => ?_⟩
      exact absurd hsame.length_eq (hfewer htie).ne
    · rintro ⟨-, hnoTie⟩
      exact hall hnoTie

def chatMessage (hash : Byte) (second : Nat) : Publication where
  ts := second + 1
  ev := { isMeshcore := true, decrypted := true, mcChannelHash := hash, mcText := ascii "hi" }
  json := ascii "\x7b\x7d"
  ts_pos := by positivity
  json_ne := by decide

theorem history_complete_threeMessages :
    Newest (·.ts) newestFirst ∧
      HistoryComplete newestFirst [chatMessage 0x0e 0, chatMessage 0x0e 1, chatMessage 0x0e 2] 0x0e 2 := by
  refine ⟨newest_newestFirst, (history_complete_iff newest_newestFirst _ _ _).mpr
    ⟨Or.inl (by decide), fun k hk => ?_⟩⟩
  have hlength : ((newestFirst (channelRows
      [chatMessage 0x0e 0, chatMessage 0x0e 1, chatMessage 0x0e 2] 0x0e)).map (·.ts)).length = 3 := by
    decide +kernel
  have hlimit : messagesLimit 2 = 2 := by decide
  rw [hlength, hlimit] at hk
  obtain rfl : k = 0 := by omega
  decide +kernel

theorem not_historyComplete {pubs : List Publication} {hash : Byte} {limit : Int} {found : Nat}
    (hfound : (followMessages order (pubs.map Publication.row) hash (messagesLimit limit) (pubs.length + 1) 0).map length = some found)
    (hstored : found ≠ (channelRows pubs hash).length) :
    ¬HistoryComplete order pubs hash limit := by
  rintro ⟨out, hout, hperm, -⟩
  rw [hout, Option.map_some, Option.some.injEq] at hfound
  exact hstored (hfound ▸ hperm.length_eq)

/-- A message on the channel with hash zero is not found, and of three messages stored at one time
pages of two give two. -/
theorem history_incomplete :
    ¬HistoryComplete newestFirst [chatMessage 0 0] 0 100 ∧
      ¬HistoryComplete newestFirst [chatMessage 0x0e 0, chatMessage 0x0e 0, chatMessage 0x0e 0] 0x0e 2 := by
  constructor
  · have hfound : (followMessages newestFirst ([chatMessage 0 0].map Publication.row) 0
        (messagesLimit 100) 2 0).map length = some 0 := by decide +kernel
    exact not_historyComplete hfound (by decide +kernel)
  · have hfound : (followMessages newestFirst
        ([chatMessage 0x0e 0, chatMessage 0x0e 0, chatMessage 0x0e 0].map Publication.row) 0x0e
        (messagesLimit 2) 4 0).map length = some 2 := by decide +kernel
    exact not_historyComplete hfound (by decide +kernel)

end MeshcoreSniffer.Web
