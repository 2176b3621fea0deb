import MeshcoreSniffer.Lib.CString

/-!
# Bearer authentication of the web API

`api_auth_ok` of `web.c` walks the header lines of a request. On a complete `Request` it looks at
every line but the last before the blank line (`authWalk_lines`) and lets those through that
`Passes` says.
-/

namespace MeshcoreSniffer.Web

open Lib List

/-! ## The source -/

def crlf : List Byte := [0x0D, 0x0A]

/-- The lengths and every byte of the longer string go into `diff`. -/
def ctStrEq (a b : List Byte) : Bool :=
  let diff := (List.range (max a.length b.length)).foldl
    (fun diff i => diff ||| ((a.getD i 0).setWidth 32 ^^^ (b.getD i 0).setWidth 32))
    (BitVec.ofNat 32 a.length ^^^ BitVec.ofNat 32 b.length)
  diff == 0

def tokMax : Nat := 255

def lineAuthorized (token line : List Byte) : Bool :=
  if 15 < line.length ∧ strncasecmp line (ascii "authorization:") 14 then
    let v := skipBlanks (line.drop 14)
    if 7 < v.length ∧ strncasecmp v (ascii "Bearer ") 7 then
      ctStrEq ((skipBlanks (v.drop 7)).take tokMax) token
    else false
  else false

/-- Each round takes at least the two bytes of a line end, so `fuel` only has to cover the lines. -/
def authWalk (token : List Byte) : Nat → List Byte → Nat → Bool
  | 0, _, _ => false
  | fuel + 1, p, left =>
    if left = 0 then false
    else
      match strstr crlf p with
      | none => false
      | some eol =>
        if left ≤ eol then false
        else if lineAuthorized token (p.take eol) then true
        else authWalk token fuel (p.drop (eol + 2)) (left - (eol + 2))

structure Response where
  code : Nat
  body : String
  deriving DecidableEq

def unauthorized : Response where
  code := 401
  body := "\x7b\"error\":\"missing or invalid Authorization: Bearer token\"\x7d"

/-- The refusal is the response sent before returning 0. -/
def apiAuthOk (optApiToken : Option (List Byte)) (buf : List Byte) : Except Response Unit :=
  match optApiToken with
  | none => .ok ()
  | some token =>
    let text := cString buf
    let head := (strstr (crlf ++ crlf) text).getD text.length
    if authWalk token text.length text head then .ok () else .error unauthorized

/-! ## Comparing tokens -/

variable {w : Nat} {l token line : List Byte} {lines : List (List Byte)}

theorem or_eq_zero (a b : BitVec w) : a ||| b = 0 ↔ a = 0 ∧ b = 0 := by
  constructor
  · intro h
    have hbit : ∀ i, a.getLsbD i = false ∧ b.getLsbD i = false := by
      intro i
      have := congrArg (fun v => BitVec.getLsbD v i) h
      simpa using this
    exact ⟨BitVec.eq_of_getLsbD_eq fun i _ => by simpa using (hbit i).1,
      BitVec.eq_of_getLsbD_eq fun i _ => by simpa using (hbit i).2⟩
  · rintro ⟨rfl, rfl⟩
    simp

theorem foldl_or_eq_zero (f : Nat → BitVec w) (l : List Nat) (init : BitVec w) :
    l.foldl (fun diff i => diff ||| f i) init = 0 ↔ init = 0 ∧ ∀ i ∈ l, f i = 0 := by
  induction l generalizing init with
  | nil => simp
  | cons i l ih => rw [foldl_cons, ih, or_eq_zero, forall_mem_cons, and_assoc]

theorem ctStrEq_iff {a b : List Byte} (ha : a.length < 2 ^ 32) (hb : b.length < 2 ^ 32) :
    ctStrEq a b = true ↔ a = b := by
  rw [ctStrEq, beq_iff_eq, foldl_or_eq_zero]
  constructor
  · rintro ⟨hlen, hbytes⟩
    have hlen' : a.length = b.length := by
      have hmod := congrArg BitVec.toNat (BitVec.xor_eq_zero_iff.mp hlen)
      rwa [BitVec.toNat_ofNat, BitVec.toNat_ofNat, Nat.mod_eq_of_lt ha, Nat.mod_eq_of_lt hb] at hmod
    refine ext_getElem hlen' fun i hia hib => ?_
    have hi := BitVec.xor_eq_zero_iff.mp
      (hbytes i (mem_range.mpr (lt_max_of_lt_left hia)))
    rw [getD_eq_getElem _ _ hia, getD_eq_getElem _ _ hib] at hi
    -- widening a byte loses nothing
    have hback := congrArg (BitVec.setWidth 8) hi
    rwa [BitVec.setWidth_setWidth_of_le _ (by decide), BitVec.setWidth_setWidth_of_le _ (by decide),
      BitVec.setWidth_eq, BitVec.setWidth_eq] at hback
  · rintro rfl
    simp

/-! ## Lines -/

def LineText (l : List Byte) : Prop := l ≠ [] ∧ 0 ∉ l ∧ ¬crlf <:+: l

instance (l : List Byte) : Decidable (LineText l) :=
  inferInstanceAs (Decidable (l ≠ [] ∧ 0 ∉ l ∧ ¬crlf <:+: l))

def following (lines : List (List Byte)) : List Byte := lines.flatMap fun l => crlf ++ l

theorem following_cons (l : List Byte) (lines : List (List Byte)) :
    following (l :: lines) = crlf ++ (l ++ following lines) := by
  rw [following, flatMap_cons, append_assoc, following]

theorem crlf_not_starts (hl : ¬crlf <:+: l) (rest : List Byte) {i : Nat} (hi : i < l.length) :
    ¬crlf <+: (l ++ crlf ++ rest).drop i := by
  rw [append_assoc, drop_append_of_le_length hi.le]
  intro hstart
  have hsuffix : l.drop i <:+ l := drop_suffix i l
  rcases hdrop : l.drop i with _ | ⟨b, _ | ⟨b', t⟩⟩
  · exact absurd (drop_eq_nil_iff.mp hdrop) (by omega)
  · -- the last byte of the line is followed by a carriage return
    rw [hdrop] at hstart
    simp [crlf] at hstart
  · rw [hdrop] at hstart hsuffix
    refine hl (List.IsInfix.trans ?_ hsuffix.isInfix)
    simp only [crlf, cons_append, cons_prefix_cons, nil_prefix, and_true] at hstart
    obtain ⟨rfl, rfl⟩ := hstart
    exact ⟨[], t, rfl⟩

theorem strstr_crlf (hl : ¬crlf <:+: l) (rest : List Byte) :
    strstr crlf (l ++ crlf ++ rest) = some l.length := by
  have hskip := strstr_skip crlf l (crlf ++ rest) fun i hi => by
    rw [← append_assoc]
    exact crlf_not_starts hl rest hi
  rw [append_assoc, hskip, strstr_of_starts (prefix_append _ _)]
  simp

theorem strstr_blank_line (hl : ¬crlf <:+: l) (rest : List Byte) :
    strstr (crlf ++ crlf) (l ++ (crlf ++ rest)) =
      (strstr (crlf ++ crlf) (crlf ++ rest)).map (· + l.length) := by
  refine strstr_skip _ l _ fun i hi hstart => ?_
  rw [← append_assoc] at hstart
  exact crlf_not_starts hl rest hi ((prefix_append _ _).trans hstart)

theorem strstr_blank_line_crlf (hne : l ≠ []) (hl : ¬crlf <:+: l) (rest : List Byte) :
    strstr (crlf ++ crlf) (crlf ++ (l ++ (crlf ++ rest))) =
      (strstr (crlf ++ crlf) (l ++ (crlf ++ rest))).map (· + 2) := by
  refine strstr_skip _ crlf _ fun i hi hstart => ?_
  obtain rfl | rfl : i = 0 ∨ i = 1 := by
    simp only [crlf, length_cons, length_nil] at hi
    omega
  · rw [drop_zero, prefix_append_right_inj, ← append_assoc] at hstart
    exact crlf_not_starts hl rest (length_pos_iff.mpr hne) hstart
  · simp [crlf] at hstart

theorem strstr_head (hl : LineText l) (hlines : ∀ l' ∈ lines, LineText l') (body : List Byte) :
    strstr (crlf ++ crlf) (l ++ (following lines ++ (crlf ++ (crlf ++ body)))) =
      some (l ++ following lines).length := by
  induction lines generalizing l with
  | nil =>
    rw [following, flatMap_nil, nil_append, append_nil, strstr_blank_line hl.2.2,
      ← append_assoc crlf, strstr_of_starts (prefix_append _ _)]
    simp
  | cons l' lines ih =>
    have hl' : LineText l' := hlines l' mem_cons_self
    have hrest := ih hl' fun l'' h => hlines l'' (mem_cons_of_mem _ h)
    -- what stands behind a line starts with a line end
    obtain ⟨tail, htail⟩ : ∃ tail, following lines ++ (crlf ++ (crlf ++ body)) = crlf ++ tail := by
      cases lines with
      | nil => exact ⟨_, rfl⟩
      | cons l'' lines => exact ⟨l'' ++ (following lines ++ (crlf ++ (crlf ++ body))), by simp [following]⟩
    rw [following_cons, append_assoc, append_assoc, strstr_blank_line hl.2.2, htail,
      strstr_blank_line_crlf hl'.1 hl'.2.2, ← htail, hrest]
    simp [crlf]
    omega

theorem authWalk_line (token : List Byte) (hl : LineText l) (rest : List Byte) (fuel left : Nat) :
    authWalk token (fuel + 1) (l ++ (crlf ++ rest)) (l.length + 2 + left) =
      (lineAuthorized token l || authWalk token fuel rest left) := by
  have heol := strstr_crlf hl.2.2 rest
  have hnext : (l ++ (crlf ++ rest)).drop (l.length + 2) = rest := by
    rw [← append_assoc]
    exact drop_left' (by simp [crlf])
  have hleft : l.length + 2 + left - (l.length + 2) = left := by omega
  rw [append_assoc] at heol
  rw [authWalk, if_neg (by omega), heol]
  dsimp only
  rw [if_neg (by omega), take_left' rfl, hnext, hleft]
  cases lineAuthorized token l <;> simp

theorem authWalk_lines (token : List Byte) (hl : LineText l) (hlines : ∀ l' ∈ lines, LineText l')
    (body : List Byte) {fuel : Nat} (hfuel : lines.length < fuel) :
    authWalk token fuel (l ++ (following lines ++ (crlf ++ (crlf ++ body))))
        (l ++ following lines).length =
      (l :: lines).dropLast.any (lineAuthorized token) := by
  induction lines generalizing l fuel with
  | nil =>
    obtain ⟨fuel, rfl⟩ : ∃ n, fuel = n + 1 := ⟨fuel - 1, by simp at hfuel; omega⟩
    have heol := strstr_crlf hl.2.2 (crlf ++ body)
    rw [following, flatMap_nil, nil_append, append_nil, ← append_assoc,
      authWalk, heol]
    -- the last line ends where the head ends
    simp
  | cons l' lines ih =>
    obtain ⟨fuel, rfl⟩ : ∃ n, fuel = n + 1 := ⟨fuel - 1, by simp at hfuel; omega⟩
    have hl' : LineText l' := hlines l' mem_cons_self
    have hrest := ih hl' (fun l'' h => hlines l'' (mem_cons_of_mem _ h))
      (show lines.length < fuel by simp at hfuel; omega)
    have hlen : (l ++ (crlf ++ (l' ++ following lines))).length =
        l.length + 2 + (l' ++ following lines).length := by
      simp [crlf]
      omega
    rw [following_cons, hlen, append_assoc, append_assoc, authWalk_line token hl, hrest,
      dropLast_cons_cons, any_cons]

/-! ## The lines that pass -/

/-- The header as it is written: the name in any letter case, then the scheme
and the token. -/
def IsAuthHeader (token line : List Byte) : Prop :=
  ∃ name, lowered name = ascii "authorization" ∧ line = name ++ (ascii ": Bearer " ++ token)

/-- Any number of blanks around the scheme, the scheme in any letter case, and anything behind a
token of 255 bytes. -/
def Passes (token line : List Byte) : Prop :=
  ∃ name blanks scheme blanks' extra,
    lowered name = ascii "authorization:" ∧ (∀ b ∈ blanks, isBlank b = true) ∧
    lowered scheme = ascii "bearer " ∧ (∀ b ∈ blanks', isBlank b = true) ∧
    (extra = [] ∨ token.length = tokMax) ∧
    line = name ++ (blanks ++ (scheme ++ (blanks' ++ (token ++ extra))))

def IsToken (token : List Byte) : Prop :=
  token ≠ [] ∧ token.length ≤ 255 ∧
    ∀ b ∈ token, b ≠ 0 ∧ b ≠ 0x20 ∧ ¬(0x09 ≤ b ∧ b ≤ 0x0D)

instance (token : List Byte) : Decidable (IsToken token) :=
  inferInstanceAs (Decidable (token ≠ [] ∧ token.length ≤ 255 ∧
    ∀ b ∈ token, b ≠ 0 ∧ b ≠ 0x20 ∧ ¬(0x09 ≤ b ∧ b ≤ 0x0D)))

theorem IsToken.not_blank (h : IsToken token) : ∀ b ∈ token, isBlank b = false := by
  intro b hb
  obtain ⟨-, hspace, htab⟩ := h.2.2 b hb
  rw [isBlank, Bool.or_eq_false_iff, beq_eq_false_iff_ne, beq_eq_false_iff_ne]
  refine ⟨hspace, fun hb => htab ?_⟩
  rw [hb]
  decide

theorem skipBlanks_token (h : IsToken token) (extra : List Byte) :
    skipBlanks (token ++ extra) = token ++ extra := by
  obtain ⟨b, t, rfl⟩ : ∃ b t, token = b :: t := exists_cons_of_ne_nil h.1
  exact skipBlanks_cons (h.not_blank b mem_cons_self) (t ++ extra)

theorem isBlank_toLower : ∀ b : Byte, isBlank (toLower b) = isBlank b := by
  decide

theorem skipBlanks_scheme {scheme : List Byte} (h : lowered scheme = ascii "bearer ")
    (rest : List Byte) : skipBlanks (scheme ++ rest) = scheme ++ rest := by
  cases scheme with
  | nil => exact absurd h (by decide)
  | cons b t =>
    have hb : toLower b = 0x62 := by
      have := congrArg (fun l => l.getD 0 0) h
      exact this
    refine skipBlanks_cons ?_ (t ++ rest)
    rw [← isBlank_toLower, hb]
    decide

theorem strncasecmp_name (line : List Byte) :
    strncasecmp line (ascii "authorization:") 14 = true ↔
      lowered (line.take 14) = ascii "authorization:" := by
  rw [strncasecmp, beq_iff_eq,
    show lowered ((ascii "authorization:").take 14) = ascii "authorization:" by decide]

theorem strncasecmp_scheme (v : List Byte) :
    strncasecmp v (ascii "Bearer ") 7 = true ↔ lowered (v.take 7) = ascii "bearer " := by
  rw [strncasecmp, beq_iff_eq, show lowered ((ascii "Bearer ").take 7) = ascii "bearer " by decide]

theorem length_of_lowered {s t : List Byte} (h : lowered s = t) : s.length = t.length := by
  rw [← h, lowered, length_map]

theorem lineAuthorized_of_passes (h : IsToken token) (hpass : Passes token line) :
    lineAuthorized token line = true := by
  obtain ⟨name, blanks, scheme, blanks', extra, hname, hblanks, hscheme, hblanks', hextra, rfl⟩ := hpass
  have hn : name.length = 14 := length_of_lowered hname
  have hs : scheme.length = 7 := length_of_lowered hscheme
  have ht : 0 < token.length := length_pos_iff.mpr h.1
  have hv : skipBlanks ((name ++ (blanks ++ (scheme ++ (blanks' ++ (token ++ extra))))).drop 14) =
      scheme ++ (blanks' ++ (token ++ extra)) := by
    rw [drop_left' hn, skipBlanks_append hblanks, skipBlanks_scheme hscheme]
  have htok : (skipBlanks ((scheme ++ (blanks' ++ (token ++ extra))).drop 7)).take tokMax = token := by
    rw [drop_left' hs, skipBlanks_append hblanks', skipBlanks_token h]
    rcases hextra with rfl | hfull
    · rw [append_nil]
      exact take_of_length_le h.2.1
    · exact take_left' hfull
  have hfirst : 15 < (name ++ (blanks ++ (scheme ++ (blanks' ++ (token ++ extra))))).length ∧
      strncasecmp (name ++ (blanks ++ (scheme ++ (blanks' ++ (token ++ extra)))))
        (ascii "authorization:") 14 = true := by
    rw [strncasecmp_name, take_left' hn]
    refine ⟨?_, hname⟩
    simp only [length_append]
    omega
  have hsecond : 7 < (scheme ++ (blanks' ++ (token ++ extra))).length ∧
      strncasecmp (scheme ++ (blanks' ++ (token ++ extra))) (ascii "Bearer ") 7 = true := by
    rw [strncasecmp_scheme, take_left' hs]
    refine ⟨?_, hscheme⟩
    simp only [length_append]
    omega
  have hshort : token.length < 2 ^ 32 := lt_of_le_of_lt h.2.1 (by decide)
  rw [lineAuthorized, if_pos hfirst]
  dsimp only
  rw [hv, if_pos hsecond, htok]
  exact (ctStrEq_iff hshort hshort).mpr rfl

theorem passes_of_lineAuthorized (h : IsToken token) (hline : lineAuthorized token line = true) :
    Passes token line := by
  unfold lineAuthorized at hline
  split at hline
  next hfirst =>
    dsimp only at hline
    split at hline
    next hsecond =>
      obtain ⟨blanks, hblanks, hvalue⟩ := exists_blanks (line.drop 14)
      obtain ⟨blanks', hblanks', htoken⟩ := exists_blanks ((skipBlanks (line.drop 14)).drop 7)
      have heq := (ctStrEq_iff
        (lt_of_le_of_lt (length_take_le _ _) (show tokMax < 2 ^ 32 by decide))
        (lt_of_le_of_lt h.2.1 (by decide))).mp hline
      refine ⟨line.take 14, blanks, (skipBlanks (line.drop 14)).take 7, blanks',
        (skipBlanks ((skipBlanks (line.drop 14)).drop 7)).drop tokMax,
        (strncasecmp_name line).mp hfirst.2, hblanks, (strncasecmp_scheme _).mp hsecond.2,
        hblanks', ?_, ?_⟩
      · -- bytes are cut off only behind a full buffer
        rcases Nat.lt_or_ge (skipBlanks ((skipBlanks (line.drop 14)).drop 7)).length tokMax with
          hshort | hlong
        · exact Or.inl (drop_eq_nil_of_le hshort.le)
        · right
          rw [← heq, length_take, Nat.min_eq_left hlong]
      · rw [← heq, take_append_drop, ← htoken, take_append_drop, ← hvalue,
          take_append_drop]
    next => cases hline
  next => cases hline

theorem lineAuthorized_iff (h : IsToken token) (line : List Byte) :
    lineAuthorized token line = true ↔ Passes token line :=
  ⟨passes_of_lineAuthorized h, lineAuthorized_of_passes h⟩

theorem IsAuthHeader.passes (h : IsAuthHeader token line) : Passes token line := by
  obtain ⟨name, hname, rfl⟩ := h
  refine ⟨name ++ [0x3A], [0x20], ascii "Bearer ", [], [], ?_, by decide, by decide, by simp,
    Or.inl rfl, ?_⟩
  · rw [lowered, map_append, ← lowered, hname]
    decide
  · rw [show ascii ": Bearer " = [0x3A] ++ ([0x20] ++ ascii "Bearer ") by decide]
    simp

/-! ## Requests -/

/-- Request line, header lines, blank line and body. A method is a token, so it has no colon. -/
structure Request where
  method : List Byte
  target : List Byte
  headers : List (List Byte)
  body : List Byte
  colon_not_mem : 0x3A ∉ method
  requestLine_text : LineText (method ++ 0x20 :: target)
  headers_text : ∀ l ∈ headers, LineText l

namespace Request

def requestLine (r : Request) : List Byte := r.method ++ 0x20 :: r.target

def bytes (r : Request) : List Byte :=
  r.requestLine ++ (following r.headers ++ (crlf ++ (crlf ++ r.body)))

end Request

theorem zero_not_mem_following {lines : List (List Byte)} (h : ∀ l ∈ lines, LineText l) :
    0 ∉ following lines := by
  intro hmem
  obtain ⟨l, hl, hin⟩ := mem_flatMap.mp hmem
  rcases mem_append.mp hin with hcrlf | htext
  · exact absurd hcrlf (by decide)
  · exact (h l hl).2.1 htext

theorem cString_bytes (r : Request) :
    cString r.bytes =
      r.requestLine ++ (following r.headers ++ (crlf ++ (crlf ++ cString r.body))) := by
  have hline : LineText r.requestLine := r.requestLine_text
  rw [Request.bytes, cString_of_not_mem hline.2.1,
    cString_of_not_mem (zero_not_mem_following r.headers_text),
    cString_of_not_mem (show (0 : Byte) ∉ crlf by decide),
    cString_of_not_mem (show (0 : Byte) ∉ crlf by decide)]

theorem length_le_following (lines : List (List Byte)) :
    lines.length ≤ (following lines).length := by
  induction lines with
  | nil => simp
  | cons l lines ih =>
    rw [following_cons]
    simp only [length_cons, length_append, crlf]
    omega

theorem eq_colon_of_toLower : ∀ b : Byte, toLower b = 0x3A → b = 0x3A := by
  decide

theorem requestLine_not_authorized (token : List Byte) (r : Request) :
    lineAuthorized token r.requestLine = false := by
  have hname : lowered (r.requestLine.take 14) ≠ ascii "authorization:" := by
    intro h
    rcases Nat.lt_or_ge r.method.length 14 with hshort | hlong
    · have hspace : (0x20 : Byte) ∈ r.requestLine.take 14 := by
        obtain ⟨k, hk⟩ : ∃ k, 14 - r.method.length = k + 1 := ⟨13 - r.method.length, by omega⟩
        rw [Request.requestLine, take_append, hk, take_succ_cons]
        exact mem_append_right _ mem_cons_self
      have hlower : toLower 0x20 ∈ ascii "authorization:" := h ▸ mem_map_of_mem hspace
      exact absurd hlower (by decide)
    · have hcolon : (0x3A : Byte) ∈ lowered (r.requestLine.take 14) := h ▸ by decide
      rw [Request.requestLine, take_append_of_le_length hlong] at hcolon
      obtain ⟨b, hb, hlower⟩ := mem_map.mp hcolon
      obtain rfl := eq_colon_of_toLower b hlower
      exact r.colon_not_mem (mem_of_mem_take hb)
  rw [lineAuthorized, if_neg]
  rintro ⟨-, hcmp⟩
  exact hname ((strncasecmp_name _).mp hcmp)

theorem apiAuthOk_iff (r : Request) {token : List Byte} (h : IsToken token) :
    apiAuthOk (some token) r.bytes = .ok () ↔ ∃ l ∈ r.headers.dropLast, Passes token l := by
  have hhead := strstr_head r.requestLine_text r.headers_text (cString r.body)
  have hwalk := authWalk_lines token r.requestLine_text r.headers_text (cString r.body)
    (show r.headers.length < (cString r.bytes).length by
      have hlines := length_le_following r.headers
      rw [cString_bytes]
      simp only [length_append, crlf, length_cons]
      omega)
  have hlines : (r.requestLine :: r.headers).dropLast.any (lineAuthorized token) =
      r.headers.dropLast.any (lineAuthorized token) := by
    cases hheaders : r.headers with
    | nil => rfl
    | cons l lines =>
      rw [dropLast_cons_cons, any_cons, requestLine_not_authorized, Bool.false_or]
  rw [← Request.requestLine] at hhead hwalk
  rw [← cString_bytes] at hhead hwalk
  have hok : apiAuthOk (some token) r.bytes = .ok () ↔
      r.headers.dropLast.any (lineAuthorized token) = true := by
    rw [apiAuthOk, hhead, Option.getD_some, hwalk, hlines]
    cases r.headers.dropLast.any (lineAuthorized token) <;> simp
  rw [hok, any_eq_true]
  simp only [lineAuthorized_iff h]

def Loose (token line : List Byte) : Prop := Passes token line ∧ ¬IsAuthHeader token line

/-- **When authentication is exact.** Acceptance agrees with the presence of the header exactly when
some header line before the last one is the header, or the last one is the header exactly if a line
before it passes in a looser form. -/
theorem apiAuth_exact_iff (token : List Byte) (htoken : IsToken token) (r : Request) :
    (apiAuthOk (some token) r.bytes = .ok () ↔ ∃ l ∈ r.headers, IsAuthHeader token l) ↔
      (∃ l ∈ r.headers.dropLast, IsAuthHeader token l) ∨
        ((∃ last ∈ r.headers.getLast?, IsAuthHeader token last) ↔
          ∃ l ∈ r.headers.dropLast, Loose token l) := by
  have hpasses : (∃ l ∈ r.headers.dropLast, Passes token l) ↔
      (∃ l ∈ r.headers.dropLast, IsAuthHeader token l) ∨
        ∃ l ∈ r.headers.dropLast, Loose token l := by
    constructor
    · rintro ⟨l, hmem, hl⟩
      by_cases hexact : IsAuthHeader token l
      · exact Or.inl ⟨l, hmem, hexact⟩
      · exact Or.inr ⟨l, hmem, hl, hexact⟩
    · rintro (⟨l, hmem, hl⟩ | ⟨l, hmem, hl, -⟩)
      · exact ⟨l, hmem, hl.passes⟩
      · exact ⟨l, hmem, hl⟩
  have hheaders : (∃ l ∈ r.headers, IsAuthHeader token l) ↔
      (∃ l ∈ r.headers.dropLast, IsAuthHeader token l) ∨
        ∃ last ∈ r.headers.getLast?, IsAuthHeader token last := by
    rcases eq_nil_or_concat r.headers with hnil | ⟨init, last, hconcat⟩
    · simp [hnil]
    · rw [hconcat, concat_eq_append, dropLast_concat, getLast?_concat]
      simp [or_and_right, exists_or]
  have hlogic : ∀ d l t : Prop, (d ∨ l ↔ d ∨ t) ↔ d ∨ (t ↔ l) := by
    intro d l t
    tauto
  rw [apiAuthOk_iff r htoken, hpasses, hheaders]
  exact hlogic _ _ _

def tokenFirst : Request where
  method := ascii "POST"
  target := ascii "/api/keys HTTP/1.1"
  headers := [ascii "AUTHORIZATION: Bearer s3cret", ascii "Host: localhost"]
  body := ascii "hex:00"
  colon_not_mem := by decide
  requestLine_text := by decide
  headers_text := by decide

def tokenLast : Request where
  method := ascii "POST"
  target := ascii "/api/keys HTTP/1.1"
  headers := [ascii "Host: localhost", ascii "Authorization: Bearer s3cret"]
  body := ascii "hex:00"
  colon_not_mem := by decide
  requestLine_text := by decide
  headers_text := by decide

theorem apiAuth_exact_iff_first :
    IsToken (ascii "s3cret") ∧ apiAuthOk (some (ascii "s3cret")) tokenFirst.bytes = .ok () := by
  have htoken : IsToken (ascii "s3cret") := by decide
  have hheader : IsAuthHeader (ascii "s3cret") (ascii "AUTHORIZATION: Bearer s3cret") :=
    ⟨ascii "AUTHORIZATION", by decide, by decide⟩
  refine ⟨htoken, ((apiAuth_exact_iff _ htoken tokenFirst).mpr (Or.inl ?_)).mpr ?_⟩
  · exact ⟨_, mem_singleton.mpr rfl, hheader⟩
  · exact ⟨_, mem_cons_self, hheader⟩

/-- **The last header is not looked at.** A request that ends its headers with the
right one is refused. -/
theorem apiAuth_refuses_last_header :
    ¬(apiAuthOk (some (ascii "s3cret")) tokenLast.bytes = .ok () ↔
      ∃ l ∈ tokenLast.headers, IsAuthHeader (ascii "s3cret") l) := by
  have hrefused : apiAuthOk (some (ascii "s3cret")) tokenLast.bytes = .error unauthorized := by
    decide +kernel
  intro h
  have haccepted := h.mpr ⟨_, mem_cons_of_mem _ (mem_singleton.mpr rfl),
    ascii "Authorization", by decide, by decide⟩
  rw [hrefused] at haccepted
  cases haccepted

end MeshcoreSniffer.Web
