import MeshcoreSniffer.Lib.GoJson

/-!
# The command envelope between fusion and a sniffer

`SendCommand` of `fusion/c2_router.go` marshals a command into JSON; `handle_command` of
`c2_dealer.c` reads it back with `json_extract`, which searches for the quoted field name wherever
it stands (`Trap`).
-/

namespace MeshcoreSniffer.Fusion.C2

open Lib Lib.Printf Lib.GoJson List Option

def bodyMember (body : List Byte) : List Byte :=
  if body = [] then [] else ascii ",\"body\":" ++ 0x22 :: (quote body ++ [0x22])

def idMember (id : BitVec 64) : List Byte :=
  ascii ",\"id\":" ++ signed id.toInt ++ ascii "\x7d"

def envelope (cmd body : List Byte) (id : BitVec 64) : List Byte :=
  ascii "\x7b\"cmd\":" ++ 0x22 :: (quote cmd ++ 0x22 :: (bodyMember body ++ idMember id))

/-- The text up to the closing quote, escapes skipped; `none` when there is none. -/
def rawString : List Byte → Option (List Byte)
  | [] => none
  | b :: rest =>
    if b = 0x22 then some []
    else if b = 0x5C then
      match rest with
      | [] => none
      | c :: rest => (rawString rest).map (b :: c :: ·)
    else (rawString rest).map (b :: ·)

def unescapeChar (c : Byte) : Byte :=
  if c = 0x6E then 0x0A else if c = 0x74 then 0x09 else if c = 0x72 then 0x0D else c

def unescape : List Byte → List Byte
  | [] => []
  | b :: rest =>
    if b = 0x5C then
      match rest with
      | [] => [b]
      | c :: rest => unescapeChar c :: unescape rest
    else b :: unescape rest

def readValue (text : List Byte) : Option (List Byte) :=
  let p := text.dropWhile fun b => b == 0x20 || b == 0x3A || b == 0x09
  if p.head? = some 0x22 then (rawString p.tail).map unescape
  else
    let value := p.takeWhile fun b => !(ascii ",\x7d \n\r\t").contains b
    if value = [] then none else some value

def jsonExtract (s field : List Byte) : Option (List Byte) :=
  let needle := 0x22 :: (field ++ [0x22])
  if 64 ≤ needle.length then none
  else
    match strstr needle s with
    | none => none
    | some i => readValue (s.drop (i + needle.length))

/-- `c2_response_t`: a C string of at most 255 bytes. -/
structure C2Response where
  status : BitVec 32
  body : List Byte
  fits : body.length ≤ 255

def replyText (idstr : Option (List Byte)) (resp : C2Response) : List Byte :=
  let body := if resp.body = [] then ascii "null" else resp.body
  match idstr with
  | some id => ascii "\x7b\"id\":" ++ id ++ ascii ",\"status\":" ++ signed resp.status.toInt ++
      ascii ",\"body\":" ++ body ++ ascii "\x7d"
  | none => ascii "\x7b\"status\":" ++ signed resp.status.toInt ++ ascii ",\"body\":" ++ body ++
      ascii "\x7d"

/-- What `handle_command` passed to `c2_dispatch`, and the reply it sent. -/
structure Handled where
  cmd : Option (List Byte)
  body : Option (List Byte)
  reply : Option (List Byte)

/-- `dispatch` is `c2_dispatch`, with `none` for a null pointer. -/
def handleCommand (dispatch : Option (List Byte) → Option (List Byte) → C2Response)
    (frame : List Byte) : Option Handled :=
  if frame.length = 0 ∨ 65536 < frame.length then none
  else
    let zframe := cString frame
    let cmd := jsonExtract zframe (ascii "cmd")
    let body := jsonExtract zframe (ascii "body")
    let reply := replyText (jsonExtract zframe (ascii "id")) (dispatch cmd body)
    some ⟨cmd, body, if reply.length < 512 then some reply else none⟩

/-! ## Searching for a quoted name -/

def afterFirst (needle s : List Byte) : Option (List Byte) :=
  (strstr needle s).map fun i => s.drop (i + needle.length)

def named (f : List Byte) : List Byte := 0x22 :: (f ++ [0x22])

theorem afterFirst_of_starts (needle rest : List Byte) :
    afterFirst needle (needle ++ rest) = some rest := by
  rw [afterFirst, strstr_of_starts (prefix_append _ _)]
  simp

variable {needle rest f t s u : List Byte} {b c x : Byte} {ps : List (List Byte)}

theorem afterFirst_skip {l : List Byte} (h : ∀ i < l.length, ¬needle <+: (l ++ rest).drop i) :
    afterFirst needle (l ++ rest) = afterFirst needle rest := by
  rw [afterFirst, afterFirst, strstr_skip needle l rest h, Option.map_map]
  congr 1
  funext i
  rw [Function.comp_apply, show i + l.length + needle.length = l.length + (i + needle.length) by omega,
    ← drop_drop, drop_left]

theorem afterFirst_cons (h : ¬needle <+: b :: rest) :
    afterFirst needle (b :: rest) = afterFirst needle rest := by
  refine afterFirst_skip (l := [b]) fun i hi => ?_
  obtain rfl : i = 0 := by simpa using hi
  exact h

theorem afterFirst_named_skip (ht : ∀ b ∈ t, b ≠ 0x22) (rest : List Byte) :
    afterFirst (named f) (t ++ rest) = afterFirst (named f) rest := by
  induction t with
  | nil => rfl
  | cons b t ih =>
    rw [cons_append, afterFirst_cons, ih fun c hc => ht c (mem_cons_of_mem _ hc)]
    intro hstarts
    exact ht b mem_cons_self (cons_prefix_cons.mp hstarts).1.symm

theorem flatten_eq_of_starts (hps : ∀ q ∈ ps, IsPiece q) (hf : Calm f) (hc : c = 0x22 ∨ c = 0x5C)
    (h : f ++ [0x22] <+: ps.flatten ++ c :: rest) : ps.flatten = f ∧ c = 0x22 := by
  induction ps generalizing f with
  | nil =>
    rw [flatten_nil, nil_append] at h
    cases f with
    | nil => exact ⟨rfl, (cons_prefix_cons.mp h).1.symm⟩
    | cons x f =>
      have hx := (cons_prefix_cons.mp h).1
      obtain ⟨hquote, hback, -⟩ := hf x mem_cons_self
      rcases hc with rfl | rfl
      · exact absurd hx hquote
      · exact absurd hx hback
  | cons q ps ih =>
    rcases hps q mem_cons_self with hcalm | ⟨x, tail, rfl, -, -, -⟩
    · rw [flatten_cons, append_assoc] at h
      obtain ⟨behind, hbehind⟩ := h
      rw [append_assoc] at hbehind
      rcases append_eq_append_iff.mp hbehind with ⟨t, rfl, ht⟩ | ⟨t, rfl, ht⟩
      · -- the piece reaches beyond the name, over its closing quote
        cases t with
        | nil =>
          rw [nil_append] at ht
          obtain ⟨hflat, rfl⟩ := ih (fun p hp => hps p (mem_cons_of_mem _ hp)) (f := [])
            (fun b hb => absurd hb not_mem_nil) ⟨behind, ht⟩
          exact ⟨by rw [flatten_cons, hflat, append_nil, append_nil], rfl⟩
        | cons y t =>
          rw [singleton_append, cons_append, cons.injEq] at ht
          exact absurd ht.1.symm (hcalm y (by simp)).1
      · obtain ⟨hflat, rfl⟩ := ih (fun p hp => hps p (mem_cons_of_mem _ hp)) (f := t)
          (fun b hb => hf b (mem_append_right _ hb))
          ⟨behind, by rw [append_assoc]; exact ht.symm⟩
        rw [flatten_cons, hflat]
        exact ⟨rfl, rfl⟩
    · -- an escape begins with a backslash
      rw [flatten_cons, cons_append, cons_append] at h
      cases f with
      | nil => exact absurd (cons_prefix_cons.mp h).1 (by decide)
      | cons y f => exact absurd (cons_prefix_cons.mp h).1 (hf y mem_cons_self).2.1

theorem afterFirst_pieces (hps : ∀ q ∈ ps, IsPiece q) (hf : Calm f) (hc : c = 0x22 ∨ c = 0x5C)
    (hfree : c = 0x22 → ∀ front back, ps = front ++ [0x5C, 0x22] :: back → back.flatten ≠ f) :
    afterFirst (named f) (ps.flatten ++ c :: rest) = afterFirst (named f) (c :: rest) := by
  induction ps with
  | nil => rfl
  | cons q ps ih =>
    have hlater : ∀ p ∈ ps, IsPiece p := fun p hp => hps p (mem_cons_of_mem _ hp)
    have ih' := ih hlater fun heq front back hsplit => hfree heq (q :: front) back (by rw [hsplit]; rfl)
    rw [flatten_cons, append_assoc]
    rcases hps q mem_cons_self with hcalm | ⟨x, tail, rfl, -, htail, hends⟩
    · rw [afterFirst_named_skip fun b hb => (hcalm b hb).1, ih']
    · rw [cons_append, cons_append, afterFirst_cons, afterFirst_cons,
        afterFirst_named_skip fun b hb => (htail b hb).1, ih']
      · -- at the escaped character
        intro hstarts
        obtain ⟨rfl, hname⟩ := cons_prefix_cons.mp hstarts
        obtain rfl := hends rfl
        obtain ⟨hflat, rfl⟩ := flatten_eq_of_starts hlater hf hc hname
        exact hfree rfl [] ps rfl hflat
      · intro hstarts
        exact absurd (cons_prefix_cons.mp hstarts).1 (by decide)

def Trap (f s : List Byte) : Prop := 0x22 :: f <:+ 0x22 :: s

instance (f s : List Byte) : Decidable (Trap f s) := inferInstanceAs (Decidable (_ <:+ _))

def IsName (f : List Byte) : Prop := ∀ b ∈ f, isHtmlSafe b = true

theorem IsName.calm (h : IsName f) : Calm f := by
  have hall : ∀ b : Byte, isHtmlSafe b = true → b ≠ 0x22 ∧ b ≠ 0x5C ∧ b ≠ 0 := by decide
  exact fun b hb => hall b (h b hb)

theorem quote_eq_of_starts (hf : IsName f) (h : named f <+: 0x22 :: (quote s ++ 0x22 :: rest)) :
    quote s = f := by
  rw [← flatten_pieces] at h ⊢
  exact (flatten_eq_of_starts (fun q hq => isPiece_of_mem_pieces hq) hf.calm (.inl rfl)
    (cons_prefix_cons.mp h).2).1

/-- **Search.** In a written string that is a trap the name is found, and what follows
it is what follows the string. -/
theorem afterFirst_string_trap (hf : IsName f) (h : Trap f s) (rest : List Byte) :
    afterFirst (named f) (0x22 :: (quote s ++ 0x22 :: rest)) = some rest := by
  rcases suffix_cons_iff.mp h with hwhole | ⟨t, ht⟩
  · obtain rfl : f = s := (cons.inj hwhole).2
    have hquote : quote f = f := by
      have hsafe := flatMap_quoteUnit_of_safe (fun u hu => isUnit_of_mem_units hu)
        (show ∀ b ∈ (units f).flatten, isHtmlSafe b = true by rw [flatten_units]; exact hf)
      rwa [flatten_units] at hsafe
    rw [hquote, show 0x22 :: (f ++ 0x22 :: rest) = named f ++ rest by simp [named]]
    exact afterFirst_of_starts _ _
  · obtain ⟨front, back, hunits, -, hback⟩ := exists_units_of_flatten
      (fun u hu => isUnit_of_mem_units hu) (by decide) ((flatten_units s).trans ht.symm)
    have hmem : ∀ u ∈ front ++ [0x22] :: back, IsUnit u := by
      rw [← hunits]
      exact fun u hu => isUnit_of_mem_units hu
    have hname : back.flatMap quoteUnit = f := by
      rw [flatMap_quoteUnit_of_safe (fun u hu => hmem u (by simp [hu])) (by rw [hback]; exact hf),
        hback]
    have hquote : quote s = (front.map quoteUnit).flatten ++ 0x5C :: 0x22 :: f := by
      rw [quote, hunits, flatMap_append, flatMap_cons, hname, flatMap_def]
      rfl
    rw [afterFirst_cons]
    · rw [hquote, append_assoc, cons_append, cons_append, afterFirst_pieces,
        afterFirst_cons, show 0x22 :: (f ++ 0x22 :: rest) = named f ++ rest by simp [named]]
      · exact afterFirst_of_starts _ _
      · exact fun hstarts => absurd (cons_prefix_cons.mp hstarts).1 (by decide)
      · intro q hq
        obtain ⟨u, hu, rfl⟩ := mem_map.mp hq
        exact isPiece_quoteUnit (hmem u (by simp [hu]))
      · exact hf.calm
      · exact .inr rfl
      · exact fun hne => absurd hne (by decide)
    · -- the string holds a backslash, the name does not
      intro hstarts
      have heq := quote_eq_of_starts hf hstarts
      rw [hquote] at heq
      exact absurd rfl (hf.calm 0x5C (by rw [← heq]; simp)).2.1

theorem afterFirst_string_free (hf : IsName f) (h : ¬Trap f s) (rest : List Byte) :
    afterFirst (named f) (0x22 :: (quote s ++ 0x22 :: rest)) =
      afterFirst (named f) (0x22 :: rest) := by
  have hunit : ∀ u ∈ units s, IsUnit u := fun u hu => isUnit_of_mem_units hu
  rw [afterFirst_cons]
  · rw [← flatten_pieces]
    refine afterFirst_pieces (fun q hq => isPiece_of_mem_pieces hq) hf.calm (.inl rfl) ?_
    intro _ front back hsplit hback
    obtain ⟨us, vs, hunits, -, hvs⟩ := map_eq_append_iff.mp hsplit
    obtain ⟨u, ws, rfl, hu, hws⟩ := map_eq_cons_iff.mp hvs
    rw [hunits] at hunit
    have hquote := eq_quote_of_quoteUnit (hunit u (by simp)) hu
    have hname : ws.flatten = f := by
      have hcalm := flatMap_quoteUnit_of_calm (fun v hv => hunit v (by simp [hv]))
        (show Calm (ws.flatMap quoteUnit) by
          rw [flatMap_def, hws, hback]
          exact hf.calm)
      rw [← hcalm, flatMap_def, hws, hback]
    refine h (suffix_cons_iff.mpr (.inr ⟨us.flatten, ?_⟩))
    rw [← flatten_units s, hunits, flatten_append, flatten_cons, hquote, hname]
    rfl
  · intro hstarts
    have heq := quote_eq_of_starts hf hstarts
    have hcalm := flatMap_quoteUnit_of_calm hunit (show Calm (quote s) by rw [heq]; exact hf.calm)
    rw [flatten_units] at hcalm
    exact h (suffix_cons_iff.mpr (.inl (by rw [← heq, quote, hcalm])))

/-! ## Reading a string back -/

theorem rawString_calm (ht : Calm t) (rest : List Byte) :
    rawString (t ++ rest) = (rawString rest).map (t ++ ·) := by
  induction t with
  | nil => simp
  | cons b t ih =>
    obtain ⟨hquote, hback, -⟩ := ht b mem_cons_self
    rw [cons_append, rawString.eq_def]
    simp only [if_neg hquote, if_neg hback, ih fun c hc => ht c (mem_cons_of_mem _ hc),
      Option.map_map]
    rfl

theorem rawString_pieces (hps : ∀ q ∈ ps, IsPiece q) (rest : List Byte) :
    rawString (ps.flatten ++ 0x22 :: rest) = some ps.flatten := by
  induction ps with
  | nil => rw [flatten_nil, nil_append, rawString.eq_def]; exact if_pos rfl
  | cons q ps ih =>
    have ih' := ih fun p hp => hps p (mem_cons_of_mem _ hp)
    rw [flatten_cons, append_assoc]
    rcases hps q mem_cons_self with hcalm | ⟨x, tail, rfl, -, htail, -⟩
    · rw [rawString_calm hcalm, ih', map_some]
    · rw [cons_append, cons_append, rawString.eq_def]
      simp only [show ¬(0x5C : Byte) = 0x22 by decide, if_false, if_true]
      rw [rawString_calm htail, ih', map_some, map_some]
      rfl

theorem unescape_calm_append (ht : Calm t) (rest : List Byte) :
    unescape (t ++ rest) = t ++ unescape rest := by
  induction t with
  | nil => rfl
  | cons b t ih =>
    rw [cons_append, unescape.eq_def]
    simp only [if_neg (ht b mem_cons_self).2.1,
      ih fun c hc => ht c (mem_cons_of_mem _ hc), cons_append]

theorem unescape_piece_append {q : List Byte} (hq : IsPiece q) (rest : List Byte) :
    unescape (q ++ rest) = unescape q ++ unescape rest := by
  rcases hq with hcalm | ⟨x, tail, rfl, -, htail, -⟩
  · have hself := unescape_calm_append hcalm []
    rw [append_nil] at hself
    rw [unescape_calm_append hcalm, hself]
    simp [unescape]
  · have hself := unescape_calm_append htail []
    rw [append_nil] at hself
    rw [cons_append, cons_append, unescape.eq_def, unescape.eq_def (0x5C :: x :: tail)]
    simp only [if_true, unescape_calm_append htail, hself, cons_append]
    simp [unescape]

/-- Read back as it was: ASCII that Go leaves alone or escapes with a quote, a backslash, `n`, `r`
or `t`, or a longer character other than the two separators. -/
def isReadable (u : List Byte) : Bool :=
  match u with
  | [b] =>
    decide (b < 0x80) &&
      ((decide (0x20 ≤ b) && !(ascii "<>&").contains b) || (ascii "\n\r\t").contains b)
  | _ => decide (u ≠ [0xE2, 0x80, 0xA8]) && decide (u ≠ [0xE2, 0x80, 0xA9])

def Readable (s : List Byte) : Prop := ∀ u ∈ units s, isReadable u = true

instance (s : List Byte) : Decidable (Readable s) := inferInstanceAs (Decidable (∀ u ∈ units s, _))

theorem unescape_quoteUnit (hu : IsUnit u) (h : isReadable u = true) :
    unescape (quoteUnit u) = u := by
  rcases hu with ⟨b, rfl⟩ | ⟨hlong, hwide⟩
  · have hall : ∀ b : Byte, isReadable [b] = true → unescape (quoteUnit [b]) = [b] := by
      decide +kernel
    exact hall b h
  · have hself : quoteUnit u = u := by
      match u, hlong, h with
      | _ :: _ :: _, _, h =>
        simp only [isReadable, Bool.and_eq_true, decide_eq_true_eq] at h
        simp only [quoteUnit, if_neg h.1, if_neg h.2]
    have happend := unescape_calm_append (calm_of_wide hwide) []
    rw [append_nil] at happend
    rw [hself, happend]
    simp [unescape]

theorem head_unescape_quoteUnit (hu : IsUnit u) (h : isReadable u = false) :
    (unescape (quoteUnit u)).head? ≠ u.head? ∧ unescape (quoteUnit u) ≠ [] := by
  rcases hu with ⟨b, rfl⟩ | ⟨hlong, -⟩
  · have hall : ∀ b : Byte, isReadable [b] = false →
        (unescape (quoteUnit [b])).head? ≠ some b ∧ unescape (quoteUnit [b]) ≠ [] := by
      decide +kernel
    exact hall b h
  · have hseparator : u = [0xE2, 0x80, 0xA8] ∨ u = [0xE2, 0x80, 0xA9] := by
      rw [isReadable.eq_def] at h
      split at h
      · simp at hlong
      · simp only [ne_eq, Bool.and_eq_false_iff, decide_eq_false_iff_not, not_not] at h
        exact h
    rcases hseparator with rfl | rfl <;> decide

/-- **Reading.** A written string is read back as it was exactly when every character
is readable. -/
theorem unescape_quote_iff (s : List Byte) : unescape (quote s) = s ↔ Readable s := by
  have hgeneral : ∀ us : List (List Byte), (∀ u ∈ us, IsUnit u) →
      (unescape (us.flatMap quoteUnit) = us.flatten ↔ ∀ u ∈ us, isReadable u = true) := by
    intro us
    induction us with
    | nil => exact fun _ => ⟨fun _ u hu => absurd hu not_mem_nil, fun _ => rfl⟩
    | cons u us ih =>
      intro hus
      have hu := hus u mem_cons_self
      have ih' := ih fun v hv => hus v (mem_cons_of_mem _ hv)
      rw [flatMap_cons, unescape_piece_append (isPiece_quoteUnit hu), flatten_cons,
        forall_mem_cons, ← ih']
      cases hreadable : isReadable u with
      | true =>
        rw [unescape_quoteUnit hu hreadable, append_cancel_left_eq]
        simp
      | false =>
        obtain ⟨hhead, hne⟩ := head_unescape_quoteUnit hu hreadable
        have hune : u ≠ [] := by
          rcases hu with ⟨b, rfl⟩ | ⟨hlong, -⟩
          · simp
          · rintro rfl
            simp at hlong
        refine ⟨fun heq => absurd ?_ hhead, fun hcon => absurd hcon.1 (by decide)⟩
        have := congrArg head? heq
        rwa [head?_append_of_ne_nil _ hne, head?_append_of_ne_nil _ hune] at this
  have hs := hgeneral (units s) fun u hu => isUnit_of_mem_units hu
  rwa [flatten_units] at hs

/-! ## The fields of the envelope -/

theorem jsonExtract_eq (hf : f.length < 62) :
    jsonExtract s f = (afterFirst (named f) s).bind readValue := by
  rw [jsonExtract, afterFirst]
  rw [if_neg (by simp; omega), ← named]
  cases strstr (named f) s with
  | none => rfl
  | some i => rfl

theorem readValue_string (s rest : List Byte) :
    readValue (0x3A :: 0x22 :: (quote s ++ 0x22 :: rest)) = some (unescape (quote s)) := by
  have hraw := rawString_pieces (fun q hq => isPiece_of_mem_pieces (s := s) hq) rest
  rw [flatten_pieces] at hraw
  rw [readValue, dropWhile_cons_of_pos (by decide), dropWhile_cons_of_neg (by decide)]
  rw [if_pos (head?_cons ..), tail_cons, hraw, map_some]

theorem readValue_comma (rest : List Byte) : readValue (0x2C :: rest) = none := by
  rw [readValue, dropWhile_cons_of_neg (by decide), head?_cons]
  rw [if_neg (by decide), takeWhile_cons_of_neg (by decide)]
  exact if_pos rfl

theorem readValue_id (id : BitVec 64) :
    readValue (0x3A :: (signed id.toInt ++ ascii "\x7d")) = some (signed id.toInt) := by
  have hall : ∀ b : Byte, isPrintfChar b = true →
      (b == 0x20 || b == 0x3A || b == 0x09) = false ∧ b ≠ 0x22 ∧
        (!(ascii ",\x7d \n\r\t").contains b) = true := by
    decide
  have hchars := isPrintfChar_signed id.toInt
  obtain ⟨b, t, hbt⟩ := exists_cons_of_ne_nil (signed_ne_nil id.toInt)
  have hstop : (signed id.toInt ++ ascii "\x7d").takeWhile
      (fun b => !(ascii ",\x7d \n\r\t").contains b) = signed id.toInt := by
    rw [takeWhile_append_of_pos fun c hc => (hall c (hchars c hc)).2.2,
      show (ascii "\x7d").takeWhile (fun b => !(ascii ",\x7d \n\r\t").contains b) = [] by decide,
      append_nil]
  have hb := hall b (hchars b (by rw [hbt]; exact mem_cons_self))
  have hskip : (0x3A :: (signed id.toInt ++ ascii "\x7d")).dropWhile
      (fun b => b == 0x20 || b == 0x3A || b == 0x09) = signed id.toInt ++ ascii "\x7d" := by
    rw [dropWhile_cons_of_pos (by decide), hbt, cons_append,
      dropWhile_cons_of_neg (by rw [hb.1]; decide)]
  rw [readValue]
  rw [hskip, hstop, if_neg (signed_ne_nil _), if_neg]
  rw [hbt, cons_append, head?_cons]
  exact fun h => hb.2.1 (Option.some.inj h)

theorem not_starts (h : b ≠ 0x22 ∨ c ≠ x) : ¬named (x :: f) <+: b :: c :: rest := by
  intro hstarts
  obtain ⟨hb, hrest⟩ := cons_prefix_cons.mp hstarts
  have hc := (cons_prefix_cons.mp hrest).1
  rcases h with hne | hne
  · exact hne hb.symm
  · exact hne hc.symm

theorem afterFirst_member {name : List Byte} (hx : x ≠ 0x3A) (hcalm : ∀ b ∈ name, b ≠ 0x22)
    (hfirst : name.head? ≠ some x) (hne : name ≠ []) :
    afterFirst (named (x :: f)) (named name ++ 0x3A :: rest) =
      afterFirst (named (x :: f)) rest := by
  obtain ⟨y, name', rfl⟩ := exists_cons_of_ne_nil hne
  have hy : y ≠ x := fun h => hfirst (by rw [h]; rfl)
  have htext : named (y :: name') ++ 0x3A :: rest = 0x22 :: (y :: name' ++ 0x22 :: 0x3A :: rest) := by
    simp [named]
  rw [htext, cons_append, afterFirst_cons (not_starts (.inr hy)), ← cons_append,
    afterFirst_named_skip hcalm, afterFirst_cons (not_starts (.inr (Ne.symm hx)))]
  refine afterFirst_cons ?_
  intro hstarts
  exact absurd (cons_prefix_cons.mp hstarts).1 (by decide)

theorem afterFirst_comma (hx : x ≠ 0x2C) :
    afterFirst (named (x :: f)) (0x22 :: 0x2C :: rest) = afterFirst (named (x :: f)) rest := by
  rw [afterFirst_cons (not_starts (.inr (Ne.symm hx)))]
  refine afterFirst_cons fun hstarts => ?_
  exact absurd (cons_prefix_cons.mp hstarts).1 (by decide)

theorem envelope_eq (cmd body : List Byte) (id : BitVec 64) :
    envelope cmd body id = 0x7B :: (named (ascii "cmd") ++ 0x3A :: 0x22 ::
      (quote cmd ++ 0x22 :: (bodyMember body ++ idMember id))) := rfl

theorem idMember_eq (id : BitVec 64) :
    idMember id = 0x2C :: (named (ascii "id") ++ 0x3A :: (signed id.toInt ++ ascii "\x7d")) := rfl

theorem bodyMember_append {body : List Byte} (h : body ≠ []) (rest : List Byte) :
    bodyMember body ++ rest =
      0x2C :: (named (ascii "body") ++ 0x3A :: 0x22 :: (quote body ++ 0x22 :: rest)) := by
  rw [bodyMember, if_neg h, append_assoc, cons_append, append_assoc]
  rfl

theorem isName_body : IsName (ascii "body") := by unfold IsName; decide

theorem isName_id : IsName (ascii "id") := by unfold IsName; decide

theorem afterFirst_opening (hx : x ≠ 0x3A) (hc : x ≠ 0x63) (cmd body : List Byte) (id : BitVec 64) :
    afterFirst (named (x :: f)) (envelope cmd body id) =
      afterFirst (named (x :: f))
        (0x22 :: (quote cmd ++ 0x22 :: (bodyMember body ++ idMember id))) := by
  rw [envelope_eq, afterFirst_cons, afterFirst_member hx (by decide) ?_ (by decide)]
  · exact fun h => hc (Option.some.inj h).symm
  · intro hstarts
    exact absurd (cons_prefix_cons.mp hstarts).1 (by decide)

theorem extract_cmd (cmd body : List Byte) (id : BitVec 64) :
    jsonExtract (envelope cmd body id) (ascii "cmd") = some (unescape (quote cmd)) := by
  rw [jsonExtract_eq (by decide), envelope_eq, afterFirst_cons, afterFirst_of_starts,
    bind_some, readValue_string]
  intro hstarts
  exact absurd (cons_prefix_cons.mp hstarts).1 (by decide)

theorem extract_body (cmd body : List Byte) (id : BitVec 64) :
    jsonExtract (envelope cmd body id) (ascii "body") =
      if body = [] ∨ Trap (ascii "body") cmd then none else some (unescape (quote body)) := by
  rw [jsonExtract_eq (by decide), show ascii "body" = 0x62 :: ascii "ody" from rfl,
    afterFirst_opening (by decide) (by decide), ← show ascii "body" = 0x62 :: ascii "ody" from rfl]
  by_cases htrap : Trap (ascii "body") cmd
  · -- what follows the command is a comma
    rw [afterFirst_string_trap isName_body htrap, if_pos (.inr htrap), bind_some]
    by_cases hbody : body = []
    · rw [bodyMember, if_pos hbody, nil_append, idMember_eq, readValue_comma]
    · rw [bodyMember_append hbody, readValue_comma]
  rw [afterFirst_string_free isName_body htrap]
  by_cases hbody : body = []
  · rw [if_pos (.inl hbody), bodyMember, if_pos hbody, nil_append, idMember_eq,
      show ascii "body" = 0x62 :: ascii "ody" from rfl, afterFirst_comma (by decide),
      afterFirst_member (by decide) (by decide) (by decide) (by decide)]
    have hend : ∀ b ∈ signed id.toInt ++ ascii "\x7d", b ≠ 0x22 := by
      intro b hb
      rcases mem_append.mp hb with hdigit | hbrace
      · rintro rfl
        exact absurd (isPrintfChar_signed _ _ hdigit) (by decide)
      · rw [mem_singleton.mp hbrace]
        decide
    have hnone := afterFirst_named_skip (f := 0x62 :: ascii "ody") hend []
    rw [append_nil] at hnone
    rw [hnone]
    rfl
  · rw [if_neg (by simp [hbody, htrap]), bodyMember_append hbody,
      show ascii "body" = 0x62 :: ascii "ody" from rfl, afterFirst_comma (by decide),
      ← show ascii "body" = 0x62 :: ascii "ody" from rfl, afterFirst_of_starts, bind_some,
      readValue_string]

theorem extract_id (cmd body : List Byte) (id : BitVec 64) :
    jsonExtract (envelope cmd body id) (ascii "id") =
      if Trap (ascii "id") cmd ∨ Trap (ascii "id") body then none else some (signed id.toInt) := by
  have hname : ascii "id" = 0x69 :: ascii "d" := rfl
  have hfinal : ∀ t, afterFirst (named (ascii "id")) (0x22 :: 0x2C :: (named (ascii "id") ++ t)) =
      some t := by
    intro t
    rw [hname, afterFirst_comma (by decide), afterFirst_of_starts]
  rw [jsonExtract_eq (by decide), hname, afterFirst_opening (by decide) (by decide), ← hname]
  by_cases hcmd : Trap (ascii "id") cmd
  · rw [afterFirst_string_trap isName_id hcmd, if_pos (.inl hcmd), bind_some]
    by_cases hbody : body = []
    · rw [bodyMember, if_pos hbody, nil_append, idMember_eq, readValue_comma]
    · rw [bodyMember_append hbody, readValue_comma]
  rw [afterFirst_string_free isName_id hcmd]
  by_cases hbody : body = []
  · have hnone : ¬Trap (ascii "id") body := by
      rw [hbody]
      decide
    rw [if_neg (by simp [hcmd, hnone]), bodyMember, if_pos hbody, nil_append, idMember_eq, hfinal,
      bind_some, readValue_id]
  rw [bodyMember_append hbody, hname, afterFirst_comma (by decide),
    afterFirst_member (by decide) (by decide) (by decide) (by decide), ← hname]
  by_cases htrap : Trap (ascii "id") body
  · rw [afterFirst_string_trap isName_id htrap, if_pos (.inr htrap), bind_some, idMember_eq,
      readValue_comma]
  · rw [afterFirst_string_free isName_id htrap, if_neg (by simp [hcmd, htrap]), idMember_eq, hfinal,
      bind_some, readValue_id]

/-! ## The whole exchange -/

theorem zero_notMem_quote (s : List Byte) : 0 ∉ quote s := by
  rw [← flatten_pieces]
  intro hzero
  obtain ⟨q, hq, hmem⟩ := mem_flatten.mp hzero
  rcases isPiece_of_mem_pieces hq with hcalm | ⟨x, tail, rfl, hx, htail, -⟩
  · exact (hcalm 0 hmem).2.2 rfl
  · rcases mem_cons.mp hmem with hback | hmem
    · exact absurd hback (by decide)
    rcases mem_cons.mp hmem with hx' | hmem
    · exact hx hx'.symm
    · exact (htail 0 hmem).2.2 rfl

theorem zero_notMem_signed (i : Int) : 0 ∉ signed i := fun h =>
  absurd (isPrintfChar_signed i 0 h) (by decide)

theorem cString_envelope (cmd body : List Byte) (id : BitVec 64) :
    cString (envelope cmd body id) = envelope cmd body id := by
  have hid : 0 ∉ idMember id := by
    simp only [idMember, mem_append, not_or]
    exact ⟨⟨by decide, zero_notMem_signed _⟩, by decide⟩
  have hbody : 0 ∉ bodyMember body := by
    rw [bodyMember]
    split
    · exact not_mem_nil
    · simp only [mem_append, mem_cons, not_or]
      exact ⟨by decide, by decide, zero_notMem_quote body, by decide, not_mem_nil⟩
  have hnone : 0 ∉ envelope cmd body id := by
    simp only [envelope, mem_append, mem_cons, not_or]
    exact ⟨by decide, by decide, zero_notMem_quote cmd, by decide, hbody, hid⟩
  have hcopy := cString_of_not_mem hnone []
  rwa [append_nil, show cString [] = [] from rfl, append_nil] at hcopy

theorem length_replyText_lt (id : BitVec 64) (resp : C2Response) :
    (replyText (some (signed id.toInt)) resp).length < 512 := by
  have hid : (signed id.toInt).length ≤ 19 + 1 :=
    length_signed_le (by decide) (by have := BitVec.toInt_lt (x := id); have := BitVec.le_toInt id; omega)
  have hstatus : (signed resp.status.toInt).length ≤ 10 + 1 :=
    length_signed_le (by decide) (by
      have := BitVec.toInt_lt (x := resp.status)
      have := BitVec.le_toInt resp.status
      omega)
  have hbody : (if resp.body = [] then ascii "null" else resp.body).length ≤ 255 := by
    split
    · decide
    · exact resp.fits
  simp only [replyText, length_append, show (ascii "\x7b\"id\":").length = 6 by decide,
    show (ascii ",\"status\":").length = 10 by decide,
    show (ascii ",\"body\":").length = 8 by decide, show (ascii "\x7d").length = 1 by decide]
  omega

def bodyPointer (body : List Byte) : Option (List Byte) := if body = [] then none else some body

def Received (dispatch : Option (List Byte) → Option (List Byte) → C2Response)
    (cmd body : List Byte) (id : BitVec 64) : Prop :=
  ∃ handled, handleCommand dispatch (envelope cmd body id) = some handled ∧
    handled.cmd = some cmd ∧ handled.body = bodyPointer body ∧
    handled.reply =
      some (replyText (some (signed id.toInt)) (dispatch (some cmd) (bodyPointer body)))

theorem replyText_none_ne (id : List Byte) (resp resp' : C2Response) :
    replyText none resp ≠ replyText (some id) resp' := by
  intro heq
  have hnone : (replyText none resp)[2]? = some 0x73 := rfl
  have hsome : (replyText (some id) resp')[2]? = some 0x69 := rfl
  rw [heq, hsome] at hnone
  exact absurd hnone (by decide)

theorem handled_body_iff (cmd body : List Byte) :
    (if body = [] ∨ Trap (ascii "body") cmd then none else some (unescape (quote body))) =
        bodyPointer body ↔
      Readable body ∧ (body = [] ∨ ¬Trap (ascii "body") cmd) := by
  by_cases hbody : body = []
  · subst hbody
    exact ⟨fun _ => ⟨fun u hu => absurd hu not_mem_nil, .inl rfl⟩, fun _ => rfl⟩
  · rw [bodyPointer, if_neg hbody]
    by_cases htrap : Trap (ascii "body") cmd
    · rw [if_pos (.inr htrap)]
      simp [hbody, htrap]
    · rw [if_neg (by simp [hbody, htrap]), Option.some.injEq, unescape_quote_iff]
      simp [htrap]

/-- **Envelope.** Command, body and id arrive exactly when the envelope is not too long, both texts
are readable, neither ends in the quoted name `id`, and the command does not hide the body. -/
theorem envelope_received_iff (dispatch : Option (List Byte) → Option (List Byte) → C2Response)
    (cmd body : List Byte) (id : BitVec 64) :
    Received dispatch cmd body id ↔
      (envelope cmd body id).length ≤ 65536 ∧ Readable cmd ∧ Readable body ∧
        ¬Trap (ascii "id") cmd ∧ ¬Trap (ascii "id") body ∧
        (body = [] ∨ ¬Trap (ascii "body") cmd) := by
  rw [Received, handleCommand]
  by_cases hlength : (envelope cmd body id).length = 0 ∨ 65536 < (envelope cmd body id).length
  · rw [if_pos hlength]
    refine ⟨fun ⟨_, h, _⟩ => (nomatch h), fun ⟨h, _⟩ => ?_⟩
    rcases hlength with hempty | hlong
    · cases hempty
    · omega
  rw [if_neg hlength, cString_envelope]
  dsimp only
  rw [extract_cmd, extract_body, extract_id]
  simp only [not_or, not_lt] at hlength
  constructor
  · rintro ⟨handled, hhandled, hcmd, hbody, hreply⟩
    obtain rfl := Option.some.inj hhandled
    obtain ⟨hreadable, hvisible⟩ := (handled_body_iff cmd body).mp hbody
    have hfree : ¬(Trap (ascii "id") cmd ∨ Trap (ascii "id") body) := by
      intro htrap
      dsimp only at hbody hreply
      rw [if_pos htrap, hbody] at hreply
      split at hreply
      · exact replyText_none_ne _ _ _ (Option.some.inj hreply)
      · cases hreply
    rw [not_or] at hfree
    exact ⟨hlength.2, (unescape_quote_iff cmd).mp (Option.some.inj hcmd), hreadable, hfree.1, hfree.2,
      hvisible⟩
  · rintro ⟨-, hcmd, hbody, hidCmd, hidBody, hvisible⟩
    have hcmd' := (unescape_quote_iff cmd).mpr hcmd
    have hbody' := (handled_body_iff cmd body).mpr ⟨hbody, hvisible⟩
    refine ⟨_, rfl, by rw [hcmd'], hbody', ?_⟩
    have hnotrap : ¬(Trap (ascii "id") cmd ∨ Trap (ascii "id") body) := by
      rintro (htrap | htrap)
      · exact hidCmd htrap
      · exact hidBody htrap
    rw [hcmd', hbody', if_neg hnotrap]
    exact if_pos (length_replyText_lt id _)

def accepted : C2Response := ⟨200, [], by decide⟩

/-- An ampersand arrives as its escape without the backslash, and a body that is a field
name loses the id. -/
theorem envelope_changed :
    (handleCommand (fun _ _ => accepted) (envelope (ascii "share_url") (ascii "a&b") 7)).map
        (·.body) = some (some (ascii "au0026b")) ∧
      (handleCommand (fun _ _ => accepted) (envelope (ascii "keys_add") (ascii "id") 7)).map
        (·.reply) = some (some (ascii "\x7b\"status\":200,\"body\":null\x7d")) := by
  decide +kernel

end MeshcoreSniffer.Fusion.C2
