import MeshcoreSniffer.Web.Auth

/-!
# Reading a request

`recv_full_request` of `web.c`. What TCP delivers is a list of segments, one for each `recv`; an
empty one is a `recv` that returns zero or an error, and a `recv` with no segment left waits.
-/

namespace MeshcoreSniffer.Web

open Lib List Option

/-! ## The source -/

def isSpace (b : Byte) : Bool := b == 0x20 || (0x09 ≤ b && b ≤ 0x0D)

def digitsValue (ds : List Byte) : Nat := ds.foldl (fun v d => 10 * v + (d.toNat - 0x30)) 0

/-- Too large a number gives the largest one, and a minus sign wraps. -/
def strtoul (s : List Byte) : Nat :=
  let s := s.dropWhile isSpace
  let (minus, s) := match s with
    | 0x2D :: s => (true, s)
    | 0x2B :: s => (false, s)
    | s => (false, s)
  let v := digitsValue (s.takeWhile isDigit)
  if 2 ^ 64 ≤ v then 2 ^ 64 - 1 else if minus then (2 ^ 64 - v) % 2 ^ 64 else v

/-- How a call of `recv_full_request` goes. -/
inductive Reading where
  | returned (buf : List Byte)
  | failed
  | waiting
  deriving DecidableEq

/-- The first loop, with the buffer it ends with and the segments it leaves. -/
inductive HeadReading where
  | done (buf : List Byte) (rest : List (List Byte))
  | failed
  | waiting
  deriving DecidableEq

def blankLine : List Byte := crlf ++ crlf

def recvHead (cap : Nat) : List (List Byte) → List Byte → HeadReading
  | [], buf => if buf.length < cap - 1 then .waiting else .done buf []
  | seg :: segs, buf =>
    if buf.length < cap - 1 then
      if seg = [] then .failed
      else
        let buf := buf ++ seg.take (cap - 1 - buf.length)
        if (strstr blankLine (cString buf)).isSome then .done buf segs else recvHead cap segs buf
    else .done buf (seg :: segs)

/-- Until `need` bytes of the body are there or the buffer is full. -/
def recvBody (cap need : Nat) : List (List Byte) → List Byte → Nat → Reading
  | [], buf, have_ => if have_ < need ∧ buf.length < cap - 1 then .waiting else .returned buf
  | seg :: segs, buf, have_ =>
    if have_ < need ∧ buf.length < cap - 1 then
      if seg = [] then .returned buf
      else
        let chunk := seg.take (cap - 1 - buf.length)
        recvBody cap need segs (buf ++ chunk) (have_ + chunk.length)
    else .returned buf

def announced (text : List Byte) : Option Nat :=
  let at_ := (strstr (ascii "Content-Length:") text).or (strstr (ascii "content-length:") text)
  at_.map fun i => strtoul (text.drop (i + 15))

def recvFullRequest (cap : Nat) (segs : List (List Byte)) : Reading :=
  match recvHead cap segs [] with
  | .failed => .failed
  | .waiting => .waiting
  | .done buf rest =>
    match announced (cString buf) with
    | none => .returned buf
    | some need =>
      let headerLen := match strstr blankLine (cString buf) with
        | some body => body + 4
        | none => buf.length
      recvBody cap need rest buf (buf.length - headerLen)

def findBody (buf : List Byte) : Option (List Byte) :=
  (strstr blankLine (cString buf)).map fun i => (cString buf).drop (i + 4)

/-! ## The head of a request -/

def Request.head (r : Request) : List Byte := r.requestLine ++ (following r.headers ++ blankLine)

variable {earlier later : List (List Byte)} (r : Request)

theorem Request.bytes_eq : r.bytes = r.head ++ r.body := by
  simp [Request.bytes, Request.head, blankLine]

/-- The request as far as `body` of its body. -/
def Request.upTo (r : Request) (body : List Byte) : Request := { r with body }

theorem head_upTo (body : List Byte) : (r.upTo body).head = r.head := rfl

theorem strstr_bytes :
    strstr blankLine (cString r.bytes) = some (r.requestLine ++ following r.headers).length := by
  rw [cString_bytes]
  exact strstr_head r.requestLine_text r.headers_text _

theorem length_head : r.head.length = (r.requestLine ++ following r.headers).length + 4 := by
  simp [Request.head, blankLine, crlf]
  omega

theorem cString_bytes_eq : cString r.bytes = r.head ++ cString r.body := by
  rw [cString_bytes]
  simp [Request.head, blankLine]

theorem findBody_bytes : findBody r.bytes = some (cString r.body) := by
  rw [findBody, strstr_bytes, map_some, ← length_head, cString_bytes_eq, drop_left]

variable {needle s seen : List Byte} {i cap : Nat} {segs : List (List Byte)}

theorem strstr_some (h : strstr needle s = some i) : needle <+: s.drop i := by
  induction s generalizing i with
  | nil =>
    unfold strstr at h
    split at h
    next hnil => simp [hnil]
    next => cases h
  | cons b s ih =>
    unfold strstr at h
    split at h
    next hstarts =>
      obtain rfl := some.inj h
      exact hstarts
    next =>
      obtain ⟨j, hj, rfl⟩ := map_eq_some_iff.mp h
      exact ih hj

theorem strstr_le {j : Nat} (h : strstr needle s = some i) (hj : needle <+: s.drop j) : i ≤ j := by
  induction s generalizing i j with
  | nil =>
    unfold strstr at h
    split at h
    next => exact (some.inj h).symm.le.trans (Nat.zero_le j)
    next => cases h
  | cons b s ih =>
    unfold strstr at h
    split at h
    next => exact (some.inj h).symm.le.trans (Nat.zero_le j)
    next hstarts =>
      obtain ⟨k, hk, rfl⟩ := map_eq_some_iff.mp h
      cases j with
      | zero => exact absurd hj hstarts
      | succ j => exact Nat.succ_le_succ (ih hk hj)

theorem exists_upTo (hseen : seen <+: r.bytes) (hhead : r.head.length ≤ seen.length) :
    ∃ body, body <+: r.body ∧ seen = (r.upTo body).bytes := by
  rw [Request.bytes_eq] at hseen
  obtain ⟨body, rfl⟩ := prefix_of_prefix_length_le (prefix_append r.head r.body) hseen hhead
  refine ⟨body, (prefix_append_right_inj _).mp hseen, ?_⟩
  rw [Request.bytes_eq]
  rfl

theorem cString_prefix {a b : List Byte} (h : a <+: b) : cString a <+: cString b := by
  obtain ⟨t, rfl⟩ := h
  unfold cString
  rw [takeWhile_append]
  split
  next => exact ( takeWhile_prefix _).trans (prefix_append a _)
  next => exact prefix_rfl

theorem hasBlankLine_iff (hseen : seen <+: r.bytes) :
    (strstr blankLine (cString seen)).isSome ↔ r.head.length ≤ seen.length := by
  constructor
  · intro hsome
    obtain ⟨i, hi⟩ := isSome_iff_exists.mp hsome
    have hmatch := strstr_some hi
    have htext := cString_prefix hseen
    have hfirst := strstr_le (strstr_bytes r) (hmatch.trans (htext.drop i))
    have hroom := hmatch.length_le
    have hcseen : (cString seen).length ≤ seen.length := ( takeWhile_prefix _).length_le
    have hfour : blankLine.length = 4 := rfl
    rw [length_drop] at hroom
    rw [length_head]
    omega
  · intro hhead
    obtain ⟨body, -, rfl⟩ := exists_upTo r hseen hhead
    rw [strstr_bytes]
    rfl

/-! ## The first loop -/

/-- The segments up to the one that completes `n` bytes, and those behind it. -/
def splitAfter (n : Nat) : List (List Byte) → List Byte → List Byte × List (List Byte)
  | [], seen => (seen, [])
  | seg :: segs, seen =>
    if n ≤ (seen ++ seg).length then (seen ++ seg, segs) else splitAfter n segs (seen ++ seg)

theorem splitAfter_flatten (n : Nat) (segs : List (List Byte)) (seen : List Byte) :
    (splitAfter n segs seen).1 ++ (splitAfter n segs seen).2.flatten = seen ++ segs.flatten := by
  induction segs generalizing seen with
  | nil => rfl
  | cons seg segs ih =>
    unfold splitAfter
    split
    next => rw [flatten_cons, append_assoc]
    next => rw [ih, flatten_cons, append_assoc]

theorem le_length_splitAfter {n : Nat} (h : n ≤ (seen ++ segs.flatten).length) :
    n ≤ (splitAfter n segs seen).1.length := by
  induction segs generalizing seen with
  | nil => simpa [splitAfter] using h
  | cons seg segs ih =>
    unfold splitAfter
    split
    next hle => exact hle
    next =>
      rw [flatten_cons, ← append_assoc] at h
      exact ih h

theorem splitAfter_subset (n : Nat) (segs : List (List Byte)) (seen : List Byte) :
    (splitAfter n segs seen).2 ⊆ segs := by
  induction segs generalizing seen with
  | nil => exact nil_subset _
  | cons seg segs ih =>
    unfold splitAfter
    split
    next => exact subset_cons_self _ _
    next => exact List.Subset.trans (ih _) (subset_cons_self _ _)

/-- **Head.** The loop ends with the segment that completes the head. -/
theorem recvHead_request (hfits : r.bytes.length ≤ cap - 1) (hsegs : ∀ seg ∈ segs, seg ≠ [])
    (hsplit : seen ++ segs.flatten = r.bytes) (hseen : seen.length < r.head.length) :
    recvHead cap segs seen =
      .done (splitAfter r.head.length segs seen).1 (splitAfter r.head.length segs seen).2 := by
  have hhead : r.head.length ≤ r.bytes.length := by
    rw [Request.bytes_eq, length_append]
    exact Nat.le_add_right _ _
  induction segs generalizing seen with
  | nil =>
    rw [flatten_nil, append_nil] at hsplit
    rw [hsplit] at hseen
    omega
  | cons seg segs ih =>
    rw [flatten_cons, ← append_assoc] at hsplit
    have hprefix : seen ++ seg <+: r.bytes := ⟨_, hsplit⟩
    have hlength := hprefix.length_le
    rw [length_append] at hlength
    have htake : seg.take (cap - 1 - seen.length) = seg := take_of_length_le (by omega)
    unfold recvHead splitAfter
    rw [if_pos (by omega), if_neg (hsegs seg (mem_cons_self ..)), htake]
    dsimp only
    by_cases hdone : r.head.length ≤ (seen ++ seg).length
    · rw [if_pos ((hasBlankLine_iff r hprefix).mpr hdone), if_pos hdone]
    · rw [if_neg (mt (hasBlankLine_iff r hprefix).mp hdone), if_neg hdone]
      exact ih (fun s hs => hsegs s (mem_cons_of_mem _ hs)) hsplit (by omega)

/-! ## The second loop -/

/-- It is still waiting for more before the last segment, and is content, or the buffer full, behind
it. -/
theorem recvBody_iff {need : Nat} (hsegs : ∀ seg ∈ segs, seg ≠ []) {buf : List Byte} {have_ : Nat}
    (hfits : buf.length + segs.flatten.length ≤ cap - 1) :
    recvBody cap need segs buf have_ = .returned (buf ++ segs.flatten) ↔
      (need ≤ have_ + segs.flatten.length ∨ buf.length + segs.flatten.length = cap - 1) ∧
        ∀ last ∈ segs.getLast?, have_ + segs.flatten.length < need + last.length := by
  induction segs generalizing buf have_ with
  | nil =>
    simp only [flatten_nil, append_nil, length_nil, Nat.add_zero] at hfits ⊢
    unfold recvBody
    split
    next hmore =>
      refine iff_of_false nofun fun h => ?_
      rcases h.1 with hneed | hfull <;> omega
    next hmore =>
      refine iff_of_true rfl ⟨?_, fun last hlast => absurd hlast (by simp)⟩
      omega
  | cons seg segs ih =>
    have hne := hsegs seg (mem_cons_self ..)
    have hpos := length_pos_iff.mpr hne
    rw [flatten_cons, length_append] at hfits ⊢
    unfold recvBody
    by_cases hmore : have_ < need ∧ buf.length < cap - 1
    · have htake : seg.take (cap - 1 - buf.length) = seg := take_of_length_le (by omega)
      rw [if_pos hmore, if_neg hne, htake, ← append_assoc]
      refine (ih (fun s hs => hsegs s (mem_cons_of_mem _ hs)) ?_).trans ?_
      · rw [length_append]
        omega
      rw [length_append, Nat.add_assoc, Nat.add_assoc]
      refine and_congr_right fun _ => ?_
      cases segs with
      | nil =>
        -- the last segment came while the loop was waiting
        simp only [getLast?_nil, getLast?_singleton, mem_def, some.injEq,
          reduceCtorEq, false_imp_iff, implies_true, true_iff, forall_eq', flatten_nil,
          length_nil]
        omega
      | cons seg' segs => rw [getLast?_cons_cons]
    · rw [if_neg hmore]
      have hlast := getLast?_eq_some_getLast (cons_ne_nil seg segs)
      have hle := (sublist_flatten_of_mem
        (getLast_mem (cons_ne_nil seg segs))).length_le
      rw [flatten_cons, length_append] at hle
      refine iff_of_false (fun h => ?_) fun h => ?_
      · have hlength := congrArg length (Reading.returned.inj h)
        simp only [length_append] at hlength
        omega
      · have hbefore := h.2 _ hlast
        omega

/-! ## The whole request -/

/-- With no length found, nothing may be left; otherwise it is more than what comes before the last
segment, and no more than the body has, unless the buffer is full. -/
def AwaitedFor (cap : Nat) (r : Request) (rest : List (List Byte)) : Option Nat → Prop
  | none => rest = []
  | some need => (need ≤ r.body.length ∨ r.bytes.length = cap - 1) ∧
      ∀ last ∈ rest.getLast?, r.body.length < need + last.length

instance (cap : Nat) (r : Request) (rest : List (List Byte)) :
    ∀ found, Decidable (AwaitedFor cap r rest found)
  | none => inferInstanceAs (Decidable (rest = []))
  | some _ => inferInstanceAs (Decidable (_ ∧ _))

def Awaited (cap : Nat) (r : Request) (segs : List (List Byte)) : Prop :=
  AwaitedFor cap r (splitAfter r.head.length segs []).2
    (announced (cString (splitAfter r.head.length segs []).1))

instance (cap : Nat) (r : Request) (segs : List (List Byte)) : Decidable (Awaited cap r segs) :=
  inferInstanceAs (Decidable (AwaitedFor ..))

theorem head_pos : 0 < r.head.length := by
  rw [length_head]
  omega

theorem recvFullRequest_iff (cap : Nat) (hfits : r.bytes.length ≤ cap - 1) (segs : List (List Byte))
    (hsegs : ∀ seg ∈ segs, seg ≠ []) (hsplit : segs.flatten = r.bytes) :
    recvFullRequest cap segs = .returned r.bytes ↔ Awaited cap r segs := by
  have hhead : recvHead cap segs [] = _ := recvHead_request r hfits hsegs hsplit (head_pos r)
  have hall := splitAfter_flatten r.head.length segs []
  have hlong : r.head.length ≤ ([] ++ segs.flatten).length := by
    rw [nil_append, hsplit, Request.bytes_eq, length_append]
    exact Nat.le_add_right _ _
  have hseen := le_length_splitAfter hlong
  have hrest : ∀ seg ∈ (splitAfter r.head.length segs []).2, seg ≠ [] :=
    fun seg hseg => hsegs seg (splitAfter_subset _ _ _ hseg)
  rw [nil_append, hsplit] at hall
  unfold recvFullRequest Awaited
  rw [hhead]
  generalize (splitAfter r.head.length segs []).1 = seen at hall hseen
  generalize (splitAfter r.head.length segs []).2 = rest at hall hrest
  dsimp only
  have hfit : seen.length + rest.flatten.length ≤ cap - 1 := by
    rw [← length_append, hall]
    exact hfits
  cases announced (cString seen) with
  | none =>
    constructor
    · intro hreturned
      obtain rfl := Reading.returned.inj hreturned
      rw [append_right_eq_self, flatten_eq_nil_iff] at hall
      exact eq_nil_iff_forall_not_mem.mpr fun seg hseg => hrest seg hseg (hall seg hseg)
    · intro hnil
      rw [show rest = [] from hnil, flatten_nil, append_nil] at hall
      rw [hall]
  | some need =>
    obtain ⟨body, -, rfl⟩ := exists_upTo r ⟨_, hall⟩ hseen
    have hlength := congrArg length hall
    rw [Request.bytes_eq r, length_append, length_append] at hlength
    have hbody : (r.upTo body).bytes.length - r.head.length + rest.flatten.length = r.body.length := by
      omega
    have htotal : (r.upTo body).bytes.length + rest.flatten.length = r.bytes.length := by
      rw [← hall, length_append]
    have hloop : recvBody cap need rest (r.upTo body).bytes
        ((r.upTo body).bytes.length - r.head.length) = _ ↔ _ := recvBody_iff hrest hfit
    rw [hbody, htotal, hall] at hloop
    rw [← head_upTo r body, length_head] at hloop
    dsimp only
    rw [strstr_bytes]
    exact hloop

/-! ## The usual request -/

/-! ## Segmentation -/

/-- **Whole.** Every request that fits the buffer is returned whole, however it is split into
segments, exactly when it is waited for. -/
theorem whole_request_iff (r : Request) (cap : Nat) (hfits : r.bytes.length ≤ cap - 1)
    (segs : List (List Byte)) (hsegs : ∀ seg ∈ segs, seg ≠ []) (hsplit : segs.flatten = r.bytes) :
    (recvFullRequest cap segs = .returned r.bytes ∧ findBody r.bytes = some (cString r.body)) ↔
      Awaited cap r segs := by
  rw [and_iff_left (findBody_bytes r)]
  exact recvFullRequest_iff r cap hfits segs hsegs hsplit

def keyRequest (name : String) (hname : LineText (ascii name ++ ascii ": 2")) : Request where
  __ := tokenFirst
  headers := [ascii "Host: sniffer", ascii name ++ ascii ": 2"]
  body := ascii "k1"
  headers_text := by
    intro l hl
    rw [List.mem_pair] at hl
    rcases hl with rfl | rfl
    · decide
    · exact hname

def inThree (r : Request) : List (List Byte) := r.head :: r.body.map fun b => [b]

theorem whole_request_iff_usual :
    recvFullRequest 16384 (inThree (keyRequest "Content-Length" (by decide))) =
      .returned (keyRequest "Content-Length" (by decide)).bytes :=
  ((whole_request_iff _ 16384 (by decide +kernel) _ (by decide +kernel) (by decide +kernel)).mpr
    (by decide +kernel)).1

/-- **Another spelling.** With its header in capitals a body in segments of its own is not waited
for. -/
theorem capitals_not_awaited :
    lowered (ascii "CONTENT-LENGTH") = ascii "content-length" ∧
      (inThree (keyRequest "CONTENT-LENGTH" (by decide))).flatten =
        (keyRequest "CONTENT-LENGTH" (by decide)).bytes ∧
      recvFullRequest 16384 (inThree (keyRequest "CONTENT-LENGTH" (by decide))) =
        .returned (keyRequest "CONTENT-LENGTH" (by decide)).head ∧
      findBody (keyRequest "CONTENT-LENGTH" (by decide)).head = some [] := by
  decide +kernel

end MeshcoreSniffer.Web
