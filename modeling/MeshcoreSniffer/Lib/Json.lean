import MeshcoreSniffer.Lib.Printf
import MeshcoreSniffer.Lib.TextCodes

/-!
# JSON texts

A recogniser over bytes; those from 0x80 on stand for themselves inside strings. `IsValue` is the
rule to reason with: a text read as a whole in front of anything that cannot continue a number.
-/

namespace MeshcoreSniffer.Lib.Json

open Lib.Printf List Option

/-! ## The recogniser -/

def isWs (c : Byte) : Bool := c == 0x20 || c == 0x09 || c == 0x0A || c == 0x0D

def skipWs (s : List Byte) : List Byte := s.dropWhile isWs

def scanString : List Byte → Option (List Byte)
  | [] => none
  | c :: r =>
    if c = 0x22 then some r
    else if c = 0x5C then
      match r with
      | [] => none
      | e :: r =>
        if e = 0x75 then
          match r with
          | h₁ :: h₂ :: h₃ :: h₄ :: r =>
            if [h₁, h₂, h₃, h₄].all fun h => (hexNibble h).isSome then scanString r else none
          | _ => none
        else if e ∈ ascii "\"\\/bfnrt" then scanString r
        else none
    else if c < 0x20 then none
    else scanString r

def isNumberChar (c : Byte) : Bool :=
  isDigit c || c == 0x2B || c == 0x2D || c == 0x2E || c == 0x65 || c == 0x45

def validExponent : List Byte → Bool
  | [] => true
  | e :: r =>
    let digits := match r with
      | c :: r' => if c = 0x2B ∨ c = 0x2D then r' else r
      | [] => r
    (e == 0x65 || e == 0x45) && !digits.isEmpty && digits.all isDigit

def validFraction : List Byte → Bool
  | [] => true
  | c :: r =>
    if c = 0x2E then !(r.takeWhile isDigit).isEmpty && validExponent (r.dropWhile isDigit)
    else validExponent (c :: r)

def validMagnitude : List Byte → Bool
  | [] => false
  | c :: r =>
    if c = 0x30 then validFraction r
    else isDigit c && validFraction (r.dropWhile isDigit)

def validNumber : List Byte → Bool
  | [] => false
  | c :: r => if c = 0x2D then validMagnitude r else validMagnitude (c :: r)

def scanAtom (s : List Byte) : Option (List Byte) :=
  if ascii "true" <+: s then some (s.drop 4)
  else if ascii "false" <+: s then some (s.drop 5)
  else if ascii "null" <+: s then some (s.drop 4)
  else if validNumber (s.takeWhile isNumberChar) then some (s.dropWhile isNumberChar)
  else none

mutual

/-- Every call takes a byte before the next one, so the length of the text is fuel enough. -/
def scanValue : Nat → List Byte → Option (List Byte)
  | 0, _ => none
  | fuel + 1, s =>
    match skipWs s with
    | [] => none
    | c :: r =>
      if c = 0x22 then scanString r
      else if c = 0x7B then
        match skipWs r with
        | [] => none
        | c' :: r' => if c' = 0x7D then some r' else scanMembers fuel (c' :: r')
      else if c = 0x5B then
        match skipWs r with
        | [] => none
        | c' :: r' => if c' = 0x5D then some r' else scanElements fuel (c' :: r')
      else scanAtom (c :: r)

def scanMembers : Nat → List Byte → Option (List Byte)
  | 0, _ => none
  | fuel + 1, s =>
    match skipWs s with
    | [] => none
    | q :: r =>
      if q = 0x22 then
        match (scanString r).map skipWs with
        | some (c :: r) =>
          if c = 0x3A then
            match (scanValue fuel r).map skipWs with
            | some (c :: r) =>
              if c = 0x2C then scanMembers fuel r else if c = 0x7D then some r else none
            | _ => none
          else none
        | _ => none
      else none

def scanElements : Nat → List Byte → Option (List Byte)
  | 0, _ => none
  | fuel + 1, s =>
    match (scanValue fuel s).map skipWs with
    | some (c :: r) =>
      if c = 0x2C then scanElements fuel r else if c = 0x5D then some r else none
    | _ => none

end

/-- The text is one JSON object. Bytes from `0x80` on are opaque: any of them may stand in a string. -/
def isObject (s : List Byte) : Bool :=
  (skipWs s).head? == some 0x7B && (scanValue (s.length + 1) s).map skipWs == some []

example : isObject (ascii "\x7b\"a\":[1,-2.50,\x7b\x7d],\"b\":\"\\u00e9\\n\",\"c\":null\x7d\n") = true := by
  decide +kernel

example : isObject (ascii "\x7b\"a\":nan\x7d") = false := by
  decide +kernel

/-! ## Values -/

def Follow (rest : List Byte) : Prop := ∀ c, rest.head? = some c → isNumberChar c = false

variable {c : Byte} {t body r rest tail u r' : List Byte} {ts : List (List Byte)} {fuel : Nat}
  {m : List Byte × List Byte} {ms ms' : List (List Byte × List Byte)}

theorem follow_cons (h : isNumberChar c = false) (rest : List Byte) : Follow (c :: rest) := by
  intro c' hc
  obtain rfl := some.inj hc
  exact h

structure IsValue (t : List Byte) : Prop where
  start : ∃ c r, t = c :: r ∧ isWs c = false ∧ c ≠ 0x5D
  scan : ∀ fuel, t.length ≤ fuel → ∀ rest, Follow rest → scanValue fuel (t ++ rest) = some rest

theorem skipWs_cons (h : isWs c = false) (r : List Byte) : skipWs (c :: r) = c :: r :=
  dropWhile_cons_of_neg (by simp [h])

/-! ## Strings -/

def Transparent (p : List Byte) : Prop := ∀ rest, scanString (p ++ rest) = scanString rest

theorem transparent_nil : Transparent [] := fun _ => rfl

theorem Transparent.append {p q : List Byte} (hp : Transparent p) (hq : Transparent q) :
    Transparent (p ++ q) := by
  intro rest
  rw [append_assoc, hp, hq]

theorem transparent_char (hquote : c ≠ 0x22) (hback : c ≠ 0x5C) (hctl : ¬c < 0x20) :
    Transparent [c] := by
  intro rest
  rw [singleton_append, scanString.eq_def]
  dsimp only
  rw [if_neg hquote, if_neg hback, if_neg hctl]

theorem transparent_plain (h : ∀ c ∈ t, c ≠ 0x22 ∧ c ≠ 0x5C ∧ ¬c < 0x20) : Transparent t := by
  induction t with
  | nil => exact transparent_nil
  | cons c t ih =>
    obtain ⟨hquote, hback, hctl⟩ := h c mem_cons_self
    exact (transparent_char hquote hback hctl).append
      (ih fun c' hc' => h c' (mem_cons_of_mem c hc'))

theorem transparent_escape {e : Byte} (hu : e ≠ 0x75) (he : e ∈ ascii "\"\\/bfnrt") :
    Transparent [0x5C, e] := by
  intro rest
  rw [cons_append, singleton_append, scanString.eq_def]
  dsimp only
  rw [if_neg (by decide), if_pos rfl, if_neg hu, if_pos he]

theorem transparent_unicode {h₁ h₂ h₃ h₄ : Byte}
    (h : ([h₁, h₂, h₃, h₄].all fun h => (hexNibble h).isSome) = true) :
    Transparent [0x5C, 0x75, h₁, h₂, h₃, h₄] := by
  intro rest
  simp only [cons_append, nil_append]
  rw [scanString.eq_def]
  dsimp only
  rw [if_neg (by decide), if_pos rfl, if_pos rfl, if_pos h]

def quoted (body : List Byte) : List Byte := 0x22 :: (body ++ [0x22])

theorem scanString_quoted (h : Transparent body) (rest : List Byte) :
    scanString (body ++ [0x22] ++ rest) = some rest := by
  rw [append_assoc, h, singleton_append, scanString.eq_def]
  exact if_pos rfl

theorem isValue_string (h : Transparent body) : IsValue (quoted body) where
  start := ⟨_, _, rfl, by decide, by decide⟩
  scan := by
    intro fuel hfuel rest _
    obtain ⟨n, rfl⟩ : ∃ n, fuel = n + 1 := ⟨fuel - 1, by simp [quoted] at hfuel; omega⟩
    rw [quoted, cons_append, scanValue, skipWs_cons (by decide)]
    dsimp only
    rw [if_pos rfl, scanString_quoted h]

/-! ## Literals and numbers -/

theorem isValue_atom (hws : isWs c = false) (hspecial : c ∉ [0x22, 0x7B, 0x5B, 0x5D])
    (hatom : ∀ rest, Follow rest → scanAtom (c :: r ++ rest) = some rest) : IsValue (c :: r) where
  start := by
    refine ⟨c, r, rfl, hws, ?_⟩
    rintro rfl
    exact hspecial (by decide)
  scan := by
    intro fuel hfuel rest hrest
    obtain ⟨n, rfl⟩ : ∃ n, fuel = n + 1 := ⟨fuel - 1, by simp at hfuel; omega⟩
    simp only [mem_cons, not_mem_nil, or_false, not_or] at hspecial
    rw [cons_append, scanValue, skipWs_cons hws]
    dsimp only
    rw [if_neg hspecial.1, if_neg hspecial.2.1, if_neg hspecial.2.2.1]
    exact hatom rest hrest

theorem isValue_true : IsValue (ascii "true") := by
  refine isValue_atom (c := 0x74) (r := ascii "rue") (by decide) (by decide) fun rest _ => ?_
  have hname : ascii "true" <+: ascii "true" ++ rest := prefix_append _ _
  exact if_pos hname

theorem isValue_false : IsValue (ascii "false") := by
  refine isValue_atom (c := 0x66) (r := ascii "alse") (by decide) (by decide) fun rest _ => ?_
  have htrue : ¬ascii "true" <+: ascii "false" ++ rest := by
    rintro ⟨tail, htail⟩
    exact absurd (cons.inj htail).1 (by decide)
  have hname : ascii "false" <+: ascii "false" ++ rest := prefix_append _ _
  exact (if_neg htrue).trans (if_pos hname)

theorem takeWhile_number (ht : ∀ c ∈ t, isNumberChar c = true) (hrest : Follow rest) :
    (t ++ rest).takeWhile isNumberChar = t ∧ (t ++ rest).dropWhile isNumberChar = rest := by
  rw [takeWhile_append_of_pos ht, dropWhile_append_of_pos ht]
  cases rest with
  | nil => simp
  | cons c rest => simp [hrest c rfl]

theorem isNumberChar_of_isWs (h : isWs c = true) : isNumberChar c = false := by
  simp only [isWs, Bool.or_eq_true, beq_iff_eq] at h
  rcases h with ((rfl | rfl) | rfl) | rfl <;> rfl

theorem isValue_number (ht : ∀ c ∈ t, isNumberChar c = true) (hvalid : validNumber t = true) :
    IsValue t := by
  cases t with
  | nil => cases hvalid
  | cons c r =>
    have hc := ht c mem_cons_self
    -- no literal and no other value starts like a number
    have hne : ∀ {x : Byte}, isNumberChar x = false → c ≠ x := by
      rintro x hx rfl
      exact absurd hc (Bool.eq_false_iff.mp hx)
    have hws : isWs c = false := Bool.eq_false_iff.mpr fun h => hne (isNumberChar_of_isWs h) rfl
    have hspecial : c ∉ [0x22, 0x7B, 0x5B, 0x5D] := by
      simp only [mem_cons, not_mem_nil, or_false, not_or]
      exact ⟨hne rfl, hne rfl, hne rfl, hne rfl⟩
    refine isValue_atom hws hspecial fun rest hrest => ?_
    obtain ⟨htake, hdrop⟩ := takeWhile_number ht hrest
    have hname : ∀ {x : Byte} {name : List Byte}, c ≠ x → ¬x :: name <+: c :: r ++ rest := by
      rintro x name hne ⟨tail, htail⟩
      exact hne (cons.inj htail).1.symm
    have htrue : ¬ascii "true" <+: c :: r ++ rest := hname (hne rfl)
    have hfalse : ¬ascii "false" <+: c :: r ++ rest := hname (hne rfl)
    have hnull : ¬ascii "null" <+: c :: r ++ rest := hname (hne rfl)
    rw [scanAtom, if_neg htrue, if_neg hfalse, if_neg hnull, htake, hdrop, if_pos hvalid]

/-! ## What `printf` writes -/

theorem isNumberChar_of_isDigit (h : isDigit c = true) : isNumberChar c = true := by
  simp [isNumberChar, h]

theorem validMagnitude_decimal (n : Nat) (htail : ∀ c, tail.head? = some c → isDigit c = false) :
    validMagnitude (decimal n ++ tail) = validFraction tail := by
  by_cases h : n = 0
  · rw [h, decimal, if_pos rfl, singleton_append, validMagnitude, if_pos rfl]
  · obtain ⟨d, rest, hd, hpos, hlt⟩ := decimal_of_ne_zero h
    have hne : digit d ≠ 0x30 := by
      intro heq
      have := congrArg BitVec.toNat heq
      rw [digit_toNat hlt] at this
      change 0x30 + d = 0x30 at this
      omega
    have hrest : ∀ c ∈ rest, isDigit c = true := by
      intro c hc
      exact isDigit_decimal n c (hd ▸ mem_cons_of_mem _ hc)
    have hstop : tail.dropWhile isDigit = tail := by
      cases tail with
      | nil => rfl
      | cons c tail => simp [htail c rfl]
    rw [hd, cons_append, validMagnitude, if_neg hne, isDigit_digit hlt, Bool.true_and,
      dropWhile_append_of_pos hrest, hstop]

theorem validNumber_withSign (neg : Bool) (n : Nat) (tail : List Byte) :
    validNumber (withSign neg (decimal n ++ tail)) = validMagnitude (decimal n ++ tail) := by
  cases neg with
  | true => rw [withSign, if_pos rfl, validNumber, if_pos rfl]
  | false =>
    have hfirst : ∃ c rest, decimal n = c :: rest ∧ c ≠ 0x2D := by
      obtain ⟨c, rest, hdec⟩ := exists_cons_of_ne_nil (decimal_ne_nil n)
      refine ⟨c, rest, hdec, ?_⟩
      rintro rfl
      exact absurd (isDigit_decimal n 0x2D (by simp [hdec])) (by decide)
    obtain ⟨c, rest, hdec, hne⟩ := hfirst
    rw [withSign, if_neg Bool.false_ne_true, hdec, cons_append, validNumber, if_neg hne]

theorem isNumberChar_withSign (neg : Bool) (h : ∀ c ∈ t, isNumberChar c = true) :
    ∀ c ∈ withSign neg t, isNumberChar c = true := by
  intro c hc
  cases neg with
  | true =>
    rcases mem_cons.mp hc with rfl | hc
    · decide
    · exact h c hc
  | false => exact h c hc

theorem isValue_withSign_decimal (neg : Bool) (n : Nat) : IsValue (withSign neg (decimal n)) := by
  refine isValue_number (isNumberChar_withSign neg ?_) ?_
  · intro c hc
    exact isNumberChar_of_isDigit (isDigit_decimal n c hc)
  · have htail : ∀ c : Byte, ([] : List Byte).head? = some c → isDigit c = false := by
      intro c hc
      cases hc
    have hvalid := validNumber_withSign neg n []
    rw [validMagnitude_decimal n htail, append_nil] at hvalid
    exact hvalid

theorem isValue_decimal (n : Nat) : IsValue (decimal n) := isValue_withSign_decimal false n

theorem isValue_signed (i : Int) : IsValue (signed i) := by
  unfold signed
  split
  · exact isValue_withSign_decimal true i.natAbs
  · exact isValue_withSign_decimal false i.natAbs

theorem isValue_fixed {k : Nat} (hk : 0 < k) (neg : Bool) (mag : ℚ) :
    IsValue ((CFloat.fin neg mag).fixed k) := by
  have hdigits := isDigit_lastDigits k (roundHalfEven (mag.num.natAbs * 10 ^ k) mag.den)
  have hplaces : lastDigits k (roundHalfEven (mag.num.natAbs * 10 ^ k) mag.den) ≠ [] := by
    obtain ⟨m, rfl⟩ : ∃ m, k = m + 1 := ⟨k - 1, by omega⟩
    simp [lastDigits]
  rw [CFloat.fixed, fixedDigits]
  refine isValue_number (isNumberChar_withSign neg ?_) ?_
  · intro c hc
    rcases mem_append.mp hc with hc | hc
    · exact isNumberChar_of_isDigit (isDigit_decimal _ c hc)
    rcases mem_cons.mp hc with rfl | hc
    · decide
    · exact isNumberChar_of_isDigit (hdigits c hc)
  · rw [validNumber_withSign, validMagnitude_decimal]
    · rw [validFraction, if_pos rfl, takeWhile_eq_self_iff.mpr hdigits,
        dropWhile_eq_nil_iff.mpr hdigits]
      simp [hplaces, validExponent]
    · intro c hc
      obtain rfl := some.inj hc
      decide

/-! ## Arrays and objects -/

def commas : List (List Byte) → List Byte
  | [] => []
  | [t] => t
  | t :: u :: ts => t ++ 0x2C :: commas (u :: ts)

def arrayText (ts : List (List Byte)) : List Byte := 0x5B :: (commas ts ++ [0x5D])

def memberText (m : List Byte × List Byte) : List Byte := quoted m.1 ++ 0x3A :: m.2

def objectText (ms : List (List Byte × List Byte)) : List Byte :=
  0x7B :: (commas (ms.map memberText) ++ [0x7D])

def IsMember (m : List Byte × List Byte) : Prop := Transparent m.1 ∧ IsValue m.2

theorem follow_comma (rest : List Byte) : Follow (0x2C :: rest) := follow_cons (by decide) rest

theorem follow_bracket (rest : List Byte) : Follow (0x5D :: rest) := follow_cons (by decide) rest

theorem follow_brace (rest : List Byte) : Follow (0x7D :: rest) := follow_cons (by decide) rest

theorem scanElements_commas (hne : ts ≠ []) (h : ∀ t ∈ ts, IsValue t)
    (hfuel : (commas ts).length < fuel) (rest : List Byte) :
    scanElements fuel (commas ts ++ 0x5D :: rest) = some rest := by
  induction ts generalizing fuel with
  | nil => exact absurd rfl hne
  | cons t ts ih =>
    obtain ⟨n, rfl⟩ : ∃ n, fuel = n + 1 := ⟨fuel - 1, by omega⟩
    have ht : IsValue t := h t mem_cons_self
    cases ts with
    | nil =>
      have hscan := ht.scan n (by simp only [commas] at hfuel; omega) _ (follow_bracket rest)
      rw [commas, scanElements, hscan, map_some, skipWs_cons (by decide)]
      dsimp only
      rw [if_neg (by decide), if_pos rfl]
    | cons u ts =>
      simp only [commas, length_append, length_cons] at hfuel
      have hscan := ht.scan n (by omega) _ (follow_comma (commas (u :: ts) ++ 0x5D :: rest))
      have hmore := ih (cons_ne_nil u ts) (fun t' ht' => h t' (mem_cons_of_mem _ ht'))
        (show (commas (u :: ts)).length < n by omega)
      rw [commas, append_assoc, cons_append, scanElements, hscan, map_some,
        skipWs_cons (by decide)]
      dsimp only
      rw [if_pos rfl, hmore]

theorem scanValue_array (h : ∀ t ∈ ts, IsValue t) (hfuel : (arrayText ts).length ≤ fuel)
    (rest : List Byte) : scanValue fuel (arrayText ts ++ rest) = some rest := by
  simp only [arrayText, length_cons, length_append, length_nil] at hfuel
  obtain ⟨n, rfl⟩ : ∃ n, fuel = n + 1 := ⟨fuel - 1, by omega⟩
  rw [arrayText, cons_append, append_assoc, singleton_append, scanValue,
    skipWs_cons (by decide)]
  dsimp only
  rw [if_neg (by decide), if_neg (by decide), if_pos rfl]
  cases ts with
  | nil =>
    rw [commas, nil_append, skipWs_cons (by decide)]
    exact if_pos rfl
  | cons t ts =>
    -- the first element starts with a character of its own
    obtain ⟨c, r, ht, hws, hclose⟩ := (h t mem_cons_self).start
    obtain ⟨tail, htail⟩ : ∃ tail, commas (t :: ts) = c :: tail := by
      cases ts with
      | nil => exact ⟨r, ht⟩
      | cons u ts => exact ⟨r ++ 0x2C :: commas (u :: ts), by rw [commas, ht, cons_append]⟩
    have hscan := scanElements_commas (cons_ne_nil t ts) h (show _ < n by omega) rest
    rw [htail, cons_append] at hscan ⊢
    rw [skipWs_cons hws]
    dsimp only
    rw [if_neg hclose, hscan]

theorem isValue_array (h : ∀ t ∈ ts, IsValue t) : IsValue (arrayText ts) where
  start := ⟨_, _, rfl, by decide, by decide⟩
  scan := by
    intro fuel hfuel rest _
    exact scanValue_array h hfuel rest

theorem append_nil_of_arrayText {us : List (List Byte)} (hts : ∀ t ∈ ts, IsValue t)
    (hus : ∀ u ∈ us, IsValue u) (h : arrayText ts ++ rest = arrayText us) : rest = [] := by
  have hlen : (arrayText ts).length ≤ (arrayText us).length := by
    rw [← h, length_append]
    omega
  have hshort := scanValue_array hts hlen rest
  have hlong := scanValue_array hus le_rfl []
  rw [h] at hshort
  rw [append_nil, hshort] at hlong
  exact some.inj hlong

theorem scanMembers_member (hname : Transparent m.1) (fuel : Nat) (rest : List Byte) :
    scanMembers (fuel + 1) (memberText m ++ rest) =
      match (scanValue fuel (m.2 ++ rest)).map skipWs with
      | some (c :: r) => if c = 0x2C then scanMembers fuel r else if c = 0x7D then some r else none
      | _ => none := by
  rw [memberText, quoted, append_assoc, cons_append, cons_append, scanMembers,
    skipWs_cons (by decide)]
  dsimp only
  rw [if_pos rfl, scanString_quoted hname, map_some, skipWs_cons (by decide)]
  dsimp only
  rw [if_pos rfl]

theorem commas_member_cons (m m' : List Byte × List Byte) (ms : List (List Byte × List Byte)) :
    commas ((m :: m' :: ms).map memberText) =
      memberText m ++ 0x2C :: commas ((m' :: ms).map memberText) := rfl

theorem length_memberText (m : List Byte × List Byte) : m.2.length < (memberText m).length := by
  simp only [memberText, quoted, length_append, length_cons]
  omega

theorem scanMembers_commas (hne : ms ≠ []) (h : ∀ m ∈ ms, IsMember m)
    (hfuel : (commas (ms.map memberText)).length < fuel) (rest : List Byte) :
    scanMembers fuel (commas (ms.map memberText) ++ 0x7D :: rest) = some rest := by
  induction ms generalizing fuel with
  | nil => exact absurd rfl hne
  | cons m ms ih =>
    obtain ⟨n, rfl⟩ : ∃ n, fuel = n + 1 := ⟨fuel - 1, by omega⟩
    obtain ⟨hname, hvalue⟩ := h m mem_cons_self
    have hlen := length_memberText m
    cases ms with
    | nil =>
      rw [map_singleton, commas] at hfuel ⊢
      have hscan := hvalue.scan n (by omega) _ (follow_brace rest)
      rw [scanMembers_member hname, hscan, map_some, skipWs_cons (by decide)]
      dsimp only
      rw [if_neg (by decide), if_pos rfl]
    | cons m' ms =>
      rw [commas_member_cons, length_append, length_cons] at hfuel
      have hmore := ih (cons_ne_nil m' ms) (fun m'' hm => h m'' (mem_cons_of_mem _ hm))
        (show (commas ((m' :: ms).map memberText)).length < n by omega)
      have hscan := hvalue.scan n (by omega) _
        (follow_comma (commas ((m' :: ms).map memberText) ++ 0x7D :: rest))
      rw [commas_member_cons, append_assoc, cons_append, scanMembers_member hname, hscan,
        map_some, skipWs_cons (by decide)]
      dsimp only
      rw [if_pos rfl, hmore]

theorem commas_members (m : List Byte × List Byte) (ms : List (List Byte × List Byte)) :
    ∃ tail, commas ((m :: ms).map memberText) = 0x22 :: tail := by
  cases ms with
  | nil => exact ⟨_, rfl⟩
  | cons m' ms => exact ⟨_, rfl⟩

theorem scanValue_object (ms : List (List Byte × List Byte)) (fuel : Nat) (rest : List Byte) :
    scanValue (fuel + 1) (objectText ms ++ rest) =
      if ms = [] then some rest
      else scanMembers fuel (commas (ms.map memberText) ++ 0x7D :: rest) := by
  rw [objectText, cons_append, append_assoc, singleton_append, scanValue,
    skipWs_cons (by decide)]
  dsimp only
  rw [if_neg (by decide), if_pos rfl]
  cases ms with
  | nil =>
    rw [map_nil, commas, nil_append, skipWs_cons (by decide), if_pos rfl]
    exact if_pos rfl
  | cons m ms =>
    obtain ⟨tail, htail⟩ := commas_members m ms
    rw [htail, cons_append, skipWs_cons (by decide), if_neg (cons_ne_nil m ms)]
    exact if_neg (by decide)

theorem isValue_object (h : ∀ m ∈ ms, IsMember m) : IsValue (objectText ms) where
  start := ⟨_, _, rfl, by decide, by decide⟩
  scan := by
    intro fuel hfuel rest _
    simp only [objectText, length_cons, length_append, length_nil] at hfuel
    obtain ⟨n, rfl⟩ : ∃ n, fuel = n + 1 := ⟨fuel - 1, by omega⟩
    rw [scanValue_object]
    split
    next => rfl
    next hne => exact scanMembers_commas hne h (by omega) rest

theorem isObject_objectText (h : ∀ m ∈ ms, IsMember m) (htail : ∀ c ∈ tail, isWs c = true) :
    isObject (objectText ms ++ tail) = true := by
  have hfollow : Follow tail := fun c hc => isNumberChar_of_isWs (htail c (mem_of_mem_head? hc))
  have hscan := (isValue_object h).scan ((objectText ms ++ tail).length + 1)
    (by rw [length_append]; omega) tail hfollow
  have hskip : skipWs tail = [] := dropWhile_eq_nil_iff.mpr htail
  have hfirst : (skipWs (objectText ms ++ tail)).head? = some 0x7B := by
    rw [objectText, cons_append, skipWs_cons (by decide), head?_cons]
  rw [isObject, hfirst, hscan, map_some, hskip]
  decide

/-! ## Control characters -/

def Printable (t : List Byte) : Prop := ∀ c ∈ t, ¬c < 0x20

theorem Printable.append (ht : Printable t) (hu : Printable u) :
    Printable (t ++ u) := forall_mem_append.mpr ⟨ht, hu⟩

theorem Printable.cons {c : Byte} {t : List Byte} (hc : ¬c < 0x20) (ht : Printable t) :
    Printable (c :: t) := forall_mem_cons.mpr ⟨hc, ht⟩

theorem printable_nil : Printable [] := forall_mem_nil _

theorem printable_printf (h : ∀ c ∈ t, isPrintfChar c = true) : Printable t := by
  intro c hc
  rcases Bool.or_eq_true_iff.mp (h c hc) with hdigit | hmem
  · have hlow : 0x30 ≤ c := of_decide_eq_true (Bool.and_eq_true_iff.mp hdigit).1
    bv_omega
  · have hall : ∀ x ∈ ascii "-.infa", ¬x < 0x20 := by decide
    exact hall c (contains_iff_mem.mp hmem)

theorem printable_quoted (h : Printable body) : Printable (quoted body) :=
  (h.append (printable_nil.cons (by decide))).cons (by decide)

theorem printable_commas (h : ∀ t ∈ ts, Printable t) : Printable (commas ts) := by
  induction ts with
  | nil => exact printable_nil
  | cons t ts ih =>
    obtain ⟨ht, hts⟩ := forall_mem_cons.mp h
    cases ts with
    | nil => exact ht
    | cons u ts => exact ht.append ((ih hts).cons (by decide))

theorem printable_arrayText (h : ∀ t ∈ ts, Printable t) : Printable (arrayText ts) :=
  ((printable_commas h).append (printable_nil.cons (by decide))).cons (by decide)

theorem printable_objectText (h : ∀ m ∈ ms, Printable m.1 ∧ Printable m.2) :
    Printable (objectText ms) := by
  refine ((printable_commas ?_).append (printable_nil.cons (by decide))).cons (by decide)
  intro t ht
  obtain ⟨m, hm, rfl⟩ := mem_map.mp ht
  exact (printable_quoted (h m hm).1).append ((h m hm).2.cons (by decide))

/-! ## Reading members back

Members whose values are strings or contain none of `"`, `,` and `}` can be told
apart, whether or not the values are ones a reader accepts. -/

def Flat (t : List Byte) : Prop :=
  (∃ body, Transparent body ∧ t = quoted body) ∨ ∀ c ∈ t, c ≠ 0x22 ∧ c ≠ 0x2C ∧ c ≠ 0x7D

theorem flat_printf (h : ∀ c ∈ t, isPrintfChar c = true) : Flat t := by
  have hne : ∀ {c x : Byte}, c ∈ t → isPrintfChar x = false → c ≠ x := by
    rintro c x hc hx rfl
    exact absurd (h c hc) (Bool.eq_false_iff.mp hx)
  exact .inr fun c hc => ⟨hne hc (by decide), hne hc (by decide), hne hc (by decide)⟩

def Stops (r : List Byte) : Prop := ∃ c s, r = c :: s ∧ (c = 0x2C ∨ c = 0x7D)

theorem quoted_cancel {b b' : List Byte} (hb : Transparent b) (hb' : Transparent b')
    (h : quoted b ++ r = quoted b' ++ r') : b = b' ∧ r = r' := by
  have hbody : b ++ [0x22] ++ r = b' ++ [0x22] ++ r' := (cons.inj h).2
  have hscan := scanString_quoted hb r
  rw [hbody, scanString_quoted hb' r', some.injEq] at hscan
  subst hscan
  rw [append_assoc, append_assoc] at hbody
  exact ⟨append_cancel_right hbody, rfl⟩

theorem plain_cancel (ht : ∀ c ∈ t, c ≠ 0x22 ∧ c ≠ 0x2C ∧ c ≠ 0x7D)
    (hu : ∀ c ∈ u, c ≠ 0x22 ∧ c ≠ 0x2C ∧ c ≠ 0x7D) (hr : Stops r) (hr' : Stops r')
    (h : t ++ r = u ++ r') : t = u ∧ r = r' := by
  have hcut : ∀ {t r : List Byte}, (∀ c ∈ t, c ≠ 0x22 ∧ c ≠ 0x2C ∧ c ≠ 0x7D) → Stops r →
      (t ++ r).takeWhile (fun c => c != 0x2C && c != 0x7D) = t := by
    rintro t _ ht ⟨c, s, rfl, hc⟩
    have hall : ∀ c ∈ t, (c != 0x2C && c != 0x7D) = true := by
      intro c hc
      obtain ⟨-, hcomma, hbrace⟩ := ht c hc
      rw [Bool.and_eq_true, bne_iff_ne, bne_iff_ne]
      exact ⟨hcomma, hbrace⟩
    rw [takeWhile_append_of_pos hall]
    rcases hc with rfl | rfl
    · exact append_nil t
    · exact append_nil t
  have htu : t = u := by rw [← hcut ht hr, h, hcut hu hr']
  subst htu
  exact ⟨rfl, append_cancel_left h⟩

theorem Flat.cancel (ht : Flat t) (hu : Flat u) (hr : Stops r) (hr' : Stops r')
    (h : t ++ r = u ++ r') : t = u ∧ r = r' := by
  -- a text that starts with a quote is not a plain one
  have hmixed : ∀ {body u r r' : List Byte}, (∀ c ∈ u, c ≠ 0x22 ∧ c ≠ 0x2C ∧ c ≠ 0x7D) →
      Stops r' → quoted body ++ r ≠ u ++ r' := by
    rintro body u r _ hu ⟨c, s, rfl, hc⟩ heq
    cases u with
    | nil =>
      have hq := (cons.inj heq).1
      rcases hc with rfl | rfl <;> exact absurd hq (by decide)
    | cons d u => exact (hu d mem_cons_self).1 (cons.inj heq).1.symm
  rcases ht with ⟨body, hbody, rfl⟩ | ht
  · rcases hu with ⟨body', hbody', rfl⟩ | hu
    · obtain ⟨rfl, hrest⟩ := quoted_cancel hbody hbody' h
      exact ⟨rfl, hrest⟩
    · exact absurd h (hmixed hu hr')
  · rcases hu with ⟨body', hbody', rfl⟩ | hu
    · exact absurd h.symm (hmixed ht hr)
    · exact plain_cancel ht hu hr hr' h

def closing (ms : List (List Byte × List Byte)) : List Byte :=
  (ms.flatMap fun m => 0x2C :: memberText m) ++ [0x7D]

theorem commas_cons (t : List Byte) (ts : List (List Byte)) :
    commas (t :: ts) = t ++ ts.flatMap (0x2C :: ·) := by
  induction ts generalizing t with
  | nil => exact (append_nil t).symm
  | cons u ts ih => rw [commas, ih u, flatMap_cons, cons_append]

theorem objectText_cons (m : List Byte × List Byte) (ms : List (List Byte × List Byte)) :
    objectText (m :: ms) = 0x7B :: (memberText m ++ closing ms) := by
  rw [objectText, map_cons, commas_cons, closing, flatMap_map, append_assoc]

theorem closing_cons (m : List Byte × List Byte) (ms : List (List Byte × List Byte)) :
    closing (m :: ms) = 0x2C :: (memberText m ++ closing ms) := by
  rw [closing, flatMap_cons, cons_append, cons_append, append_assoc]
  rfl

theorem closing_stops (ms : List (List Byte × List Byte)) : Stops (closing ms) := by
  cases ms with
  | nil => exact ⟨_, _, rfl, .inr rfl⟩
  | cons m ms => exact ⟨_, _, rfl, .inl rfl⟩

theorem member_cancel {m' : List Byte × List Byte} (h : Transparent m.1 ∧ Flat m.2)
    (h' : Transparent m'.1 ∧ Flat m'.2)
    (heq : memberText m ++ closing ms = memberText m' ++ closing ms') :
    m = m' ∧ closing ms = closing ms' := by
  rw [memberText, memberText, append_assoc, append_assoc] at heq
  obtain ⟨hname, hrest⟩ := quoted_cancel h.1 h'.1 heq
  obtain ⟨hvalue, hclose⟩ := h.2.cancel h'.2 (closing_stops ms) (closing_stops ms')
    (cons.inj hrest).2
  exact ⟨Prod.ext hname hvalue, hclose⟩

theorem closing_injective (h : ∀ m ∈ ms, Transparent m.1 ∧ Flat m.2)
    (h' : ∀ m ∈ ms', Transparent m.1 ∧ Flat m.2) (heq : closing ms = closing ms') : ms = ms' := by
  induction ms generalizing ms' with
  | nil =>
    cases ms' with
    | nil => rfl
    | cons m' ms' => exact absurd (cons.inj heq).1 (by decide)
  | cons m ms ih =>
    cases ms' with
    | nil => exact absurd (cons.inj heq).1 (by decide)
    | cons m' ms' =>
      rw [closing_cons, closing_cons] at heq
      obtain ⟨hm, hclose⟩ := member_cancel (h m mem_cons_self) (h' m' mem_cons_self)
        (cons.inj heq).2
      have hms := ih (fun x hx => h x (mem_cons_of_mem _ hx))
        (fun x hx => h' x (mem_cons_of_mem _ hx)) hclose
      rw [hm, hms]

/-- **Readback.** The text of an object determines its members. -/
theorem objectText_injective (h : ∀ m ∈ ms, Transparent m.1 ∧ Flat m.2)
    (h' : ∀ m ∈ ms', Transparent m.1 ∧ Flat m.2) (heq : objectText ms = objectText ms') :
    ms = ms' := by
  cases ms with
  | nil =>
    cases ms' with
    | nil => rfl
    | cons m' ms' =>
      rw [objectText_cons] at heq
      exact absurd (cons.inj (cons.inj heq).2).1 (by decide)
  | cons m ms =>
    cases ms' with
    | nil =>
      rw [objectText_cons] at heq
      exact absurd (cons.inj (cons.inj heq).2).1 (by decide)
    | cons m' ms' =>
      rw [objectText_cons, objectText_cons] at heq
      obtain ⟨hm, hclose⟩ := member_cancel (h m mem_cons_self) (h' m' mem_cons_self)
        (cons.inj heq).2
      have hms := closing_injective (fun x hx => h x (mem_cons_of_mem _ hx))
        (fun x hx => h' x (mem_cons_of_mem _ hx)) hclose
      rw [hm, hms]

end MeshcoreSniffer.Lib.Json
