import MeshcoreSniffer.Lib.Printf

/-!
# Strings as Go's `encoding/json` writes them

A text is split into characters (`units`), a byte that starts none becoming U+FFFD, and each written
by itself, plain or as one escape (`isPiece_quoteUnit`).
-/

namespace MeshcoreSniffer.Lib.GoJson

open Lib.Printf List

/-! ## Characters -/

def isCont (b : Byte) : Bool := 0x80 ≤ b && b ≤ 0xBF

/-- The ranges leave out overlong forms, surrogates and what lies above U+10FFFF. -/
def isSecond (first b : Byte) : Bool :=
  if first = 0xE0 then 0xA0 ≤ b && b ≤ 0xBF
  else if first = 0xED then 0x80 ≤ b && b ≤ 0x9F
  else if first = 0xF0 then 0x90 ≤ b && b ≤ 0xBF
  else if first = 0xF4 then 0x80 ≤ b && b ≤ 0x8F
  else isCont b

def charSize : List Byte → Nat
  | [] => 0
  | b :: rest =>
    if b < 0x80 then 1
    else if 0xC2 ≤ b ∧ b ≤ 0xDF then
      match rest with
      | c :: _ => if isSecond b c then 2 else 0
      | _ => 0
    else if 0xE0 ≤ b ∧ b ≤ 0xEF then
      match rest with
      | c :: d :: _ => if isSecond b c && isCont d then 3 else 0
      | _ => 0
    else if 0xF0 ≤ b ∧ b ≤ 0xF4 then
      match rest with
      | c :: d :: e :: _ => if isSecond b c && isCont d && isCont e then 4 else 0
      | _ => 0
    else 0

def chars : Nat → List Byte → List (List Byte)
  | 0, _ => []
  | _ + 1, [] => []
  | n + 1, b :: rest =>
    let size := max 1 (charSize (b :: rest))
    (b :: rest).take size :: chars n ((b :: rest).drop size)

def units (s : List Byte) : List (List Byte) := chars s.length s

def IsUnit (u : List Byte) : Prop := (∃ b, u = [b]) ∨ (2 ≤ u.length ∧ ∀ b ∈ u, ¬b < 0x80)

variable {n : Nat} {s u : List Byte} {b : Byte} {us : List (List Byte)}

theorem flatten_chars (h : s.length ≤ n) : (chars n s).flatten = s := by
  induction n generalizing s with
  | zero => rw [eq_nil_of_length_eq_zero (Nat.le_zero.mp h), chars, flatten_nil]
  | succ n ih =>
    cases s with
    | nil => rfl
    | cons b rest =>
      have hdrop : ((b :: rest).drop (max 1 (charSize (b :: rest)))).length ≤ n := by
        rw [length_drop]
        omega
      rw [chars, flatten_cons, ih hdrop, take_append_drop]

@[simp] theorem flatten_units (s : List Byte) : (units s).flatten = s := flatten_chars (le_refl _)

theorem not_ascii_of_isCont (h : isCont b = true) : ¬b < 0x80 := by
  simp only [isCont, Bool.and_eq_true, decide_eq_true_eq] at h
  exact BitVec.not_lt.mpr h.1

theorem isCont_of_range {lo hi : Byte} (hlo : 0x80 ≤ lo) (hhi : hi ≤ 0xBF)
    (h : (lo ≤ b && b ≤ hi) = true) : isCont b = true := by
  simp only [isCont, Bool.and_eq_true, decide_eq_true_eq] at h ⊢
  exact ⟨BitVec.le_trans hlo h.1, BitVec.le_trans h.2 hhi⟩

theorem not_ascii_of_isSecond {first : Byte} (h : isSecond first b = true) : ¬b < 0x80 := by
  apply not_ascii_of_isCont
  unfold isSecond at h
  split_ifs at h <;> exact isCont_of_range (by decide) (by decide) h

theorem isUnit_take (b : Byte) (rest : List Byte) :
    IsUnit ((b :: rest).take (max 1 (charSize (b :: rest)))) := by
  rw [charSize.eq_def]
  dsimp only
  split
  · exact .inl ⟨b, rfl⟩
  next hb =>
    split
    · split
      · split
        next hc =>
          exact .inr ⟨by simp, forall_mem_cons.mpr
            ⟨hb, forall_mem_singleton.mpr (not_ascii_of_isSecond hc)⟩⟩
        · exact .inl ⟨b, rfl⟩
      · exact .inl ⟨b, rfl⟩
    split
    · split
      · split
        next hcd =>
          rw [Bool.and_eq_true] at hcd
          exact .inr ⟨by simp, forall_mem_cons.mpr ⟨hb, forall_mem_cons.mpr
            ⟨not_ascii_of_isSecond hcd.1,
              forall_mem_singleton.mpr (not_ascii_of_isCont hcd.2)⟩⟩⟩
        · exact .inl ⟨b, rfl⟩
      · exact .inl ⟨b, rfl⟩
    split
    · split
      · split
        next hcde =>
          rw [Bool.and_eq_true, Bool.and_eq_true] at hcde
          exact .inr ⟨by simp, forall_mem_cons.mpr ⟨hb, forall_mem_cons.mpr
            ⟨not_ascii_of_isSecond hcde.1.1, forall_mem_cons.mpr
              ⟨not_ascii_of_isCont hcde.1.2,
                forall_mem_singleton.mpr (not_ascii_of_isCont hcde.2)⟩⟩⟩⟩
        · exact .inl ⟨b, rfl⟩
      · exact .inl ⟨b, rfl⟩
    · exact .inl ⟨b, rfl⟩

theorem isUnit_of_mem_chars (h : u ∈ chars n s) : IsUnit u := by
  induction n generalizing s with
  | zero => cases h
  | succ n ih =>
    cases s with
    | nil => cases h
    | cons b rest =>
      rcases mem_cons.mp h with rfl | hlater
      · exact isUnit_take b rest
      · exact ih hlater

theorem isUnit_of_mem_units (h : u ∈ units s) : IsUnit u := isUnit_of_mem_chars h

theorem exists_units_of_flatten (hus : ∀ u ∈ us, IsUnit u) {t f : List Byte} (hb : b < 0x80)
    (h : us.flatten = t ++ b :: f) :
    ∃ front back, us = front ++ [b] :: back ∧ front.flatten = t ∧ back.flatten = f := by
  induction us generalizing t with
  | nil => simp at h
  | cons u us ih =>
    have hlater : ∀ v ∈ us, IsUnit v := fun v hv => hus v (mem_cons_of_mem _ hv)
    rw [flatten_cons] at h
    rcases append_eq_append_iff.mp h with ⟨t', rfl, ht'⟩ | ⟨u', rfl, hu'⟩
    · -- the first unit lies in front of the cut
      obtain ⟨front, back, rfl, hfront, hback⟩ := ih hlater ht'
      exact ⟨u :: front, back, rfl, by rw [flatten_cons, hfront], hback⟩
    · cases u' with
      | nil =>
        rw [nil_append] at hu'
        obtain ⟨front, back, rfl, hfront, hback⟩ := ih hlater (t := []) hu'.symm
        refine ⟨t :: front, back, ?_, ?_, hback⟩
        · rw [append_nil, cons_append]
        · rw [flatten_cons, hfront, append_nil]
      | cons b' u'' =>
        rw [cons_append, cons.injEq] at hu'
        obtain ⟨rfl, hrest⟩ := hu'
        -- the unit holds the ASCII byte, so it is that byte
        rcases hus (t ++ b :: u'') mem_cons_self with ⟨c, hc⟩ | ⟨-, hwide⟩
        · rcases t with _ | ⟨x, t⟩
          · rw [nil_append, cons.injEq] at hc
            obtain ⟨rfl, rfl⟩ := hc
            exact ⟨[], us, rfl, rfl, hrest.symm⟩
          · simp at hc
        · exact absurd hb (hwide b (by simp))

/-! ## Writing -/

def isHtmlSafe (b : Byte) : Bool :=
  0x20 ≤ b && b < 0x80 && !(b == 0x22 || b == 0x5C || b == 0x3C || b == 0x3E || b == 0x26)

def quoteUnit (u : List Byte) : List Byte :=
  match u with
  | [b] =>
    if b < 0x80 then
      if isHtmlSafe b then [b]
      else if b = 0x22 ∨ b = 0x5C then [0x5C, b]
      else if b = 0x08 then ascii "\\b"
      else if b = 0x0C then ascii "\\f"
      else if b = 0x0A then ascii "\\n"
      else if b = 0x0D then ascii "\\r"
      else if b = 0x09 then ascii "\\t"
      else ascii "\\u00" ++ [hexDigit (b.toNat / 16), hexDigit (b.toNat % 16)]
    else ascii "\\ufffd"
  | _ =>
    if u = [0xE2, 0x80, 0xA8] then ascii "\\u2028"
    else if u = [0xE2, 0x80, 0xA9] then ascii "\\u2029"
    else u

def quote (s : List Byte) : List Byte := (units s).flatMap quoteUnit

def Calm (t : List Byte) : Prop := ∀ b ∈ t, b ≠ 0x22 ∧ b ≠ 0x5C ∧ b ≠ 0

instance (t : List Byte) : Decidable (Calm t) := inferInstanceAs (Decidable (∀ b ∈ t, _))

def IsPiece (q : List Byte) : Prop :=
  Calm q ∨ ∃ x tail, q = 0x5C :: x :: tail ∧ x ≠ 0 ∧ Calm tail ∧ (x = 0x22 → tail = [])

theorem calm_of_wide (h : ∀ b ∈ u, ¬b < 0x80) : Calm u := by
  intro b hb
  have hge := h b hb
  refine ⟨?_, ?_, ?_⟩ <;> rintro rfl <;> exact hge (by decide)

theorem calm_of_safe (h : isHtmlSafe b = true) : Calm [b] := by
  intro c hc
  obtain rfl := mem_singleton.mp hc
  refine ⟨?_, ?_, ?_⟩ <;> rintro rfl <;> exact absurd h (by decide)

theorem calm_hexDigits {m : Nat} (hn : n < 16) (hm : m < 16) : Calm [hexDigit n, hexDigit m] := by
  have hdigit : ∀ n < 16, hexDigit n ≠ 0x22 ∧ hexDigit n ≠ 0x5C ∧ hexDigit n ≠ 0 := by decide
  intro c hc
  rcases mem_cons.mp hc with rfl | hc
  · exact hdigit n hn
  · obtain rfl := mem_singleton.mp hc
    exact hdigit m hm

theorem quoteUnit_byte (b : Byte) :
    (isHtmlSafe b = true ∧ quoteUnit [b] = [b]) ∨ (b = 0x22 ∧ quoteUnit [b] = [0x5C, 0x22]) ∨
      ∃ x tail, quoteUnit [b] = 0x5C :: x :: tail ∧ x ≠ 0 ∧ x ≠ 0x22 ∧ Calm tail := by
  have hletter : ∀ x : Byte, x ≠ 0 → x ≠ 0x22 → ∀ q, q = [0x5C, x] →
      ∃ x tail, q = 0x5C :: x :: tail ∧ x ≠ 0 ∧ x ≠ 0x22 ∧ Calm tail := by
    rintro x h0 hquote q rfl
    exact ⟨x, [], rfl, h0, hquote, forall_mem_nil _⟩
  rw [quoteUnit]
  split
  next =>
    split
    next hsafe => exact .inl ⟨hsafe, rfl⟩
    split
    next hb =>
      rcases hb with rfl | rfl
      · exact .inr (.inl ⟨rfl, rfl⟩)
      · exact .inr (.inr (hletter 0x5C (by decide) (by decide) _ rfl))
    split
    next => exact .inr (.inr (hletter 0x62 (by decide) (by decide) _ (by decide)))
    split
    next => exact .inr (.inr (hletter 0x66 (by decide) (by decide) _ (by decide)))
    split
    next => exact .inr (.inr (hletter 0x6E (by decide) (by decide) _ (by decide)))
    split
    next => exact .inr (.inr (hletter 0x72 (by decide) (by decide) _ (by decide)))
    split
    next => exact .inr (.inr (hletter 0x74 (by decide) (by decide) _ (by decide)))
    next =>
      have hb := b.isLt
      have hzeros : ascii "\\u00" = [0x5C, 0x75, 0x30, 0x30] := by decide
      have hcalm : Calm [0x30, 0x30] := by decide
      refine .inr (.inr ⟨0x75, [0x30, 0x30] ++ [hexDigit (b.toNat / 16), hexDigit (b.toNat % 16)], ?_,
        by decide, by decide, ?_⟩)
      · rw [hzeros]
        rfl
      · exact forall_mem_append.mpr ⟨hcalm, calm_hexDigits (by omega) (by omega)⟩
  next => exact .inr (.inr ⟨0x75, ascii "fffd", by decide, by decide, by decide, by decide⟩)

/-- **Pieces.** Every unit is written as a piece. -/
theorem isPiece_quoteUnit (h : IsUnit u) : IsPiece (quoteUnit u) := by
  rcases h with ⟨b, rfl⟩ | ⟨hlong, hwide⟩
  · rcases quoteUnit_byte b with ⟨hsafe, heq⟩ | ⟨-, heq⟩ | ⟨x, tail, heq, h0, hquote, hcalm⟩
    · rw [heq]
      exact .inl (calm_of_safe hsafe)
    · exact .inr ⟨0x22, [], heq, by decide, forall_mem_nil _, fun _ => rfl⟩
    · exact .inr ⟨x, tail, heq, h0, hcalm, fun hx => absurd hx hquote⟩
  · have hcases : quoteUnit u = ascii "\\u2028" ∨ quoteUnit u = ascii "\\u2029" ∨
        quoteUnit u = u := by
      rw [quoteUnit.eq_def]
      split
      · simp at hlong
      split
      · exact .inl rfl
      split
      · exact .inr (.inl rfl)
      · exact .inr (.inr rfl)
    rcases hcases with heq | heq | heq
    · rw [heq]
      exact .inr ⟨0x75, ascii "2028", rfl, by decide, by decide, by decide⟩
    · rw [heq]
      exact .inr ⟨0x75, ascii "2029", rfl, by decide, by decide, by decide⟩
    · rw [heq]
      exact .inl (calm_of_wide hwide)

theorem quoteUnit_of_calm (h : IsUnit u) (hcalm : Calm (quoteUnit u)) : quoteUnit u = u := by
  rcases h with ⟨b, rfl⟩ | ⟨hlong, -⟩
  · rcases quoteUnit_byte b with ⟨-, heq⟩ | ⟨-, heq⟩ | ⟨x, tail, heq, -⟩
    · exact heq
    · rw [heq] at hcalm
      exact absurd rfl (hcalm 0x5C mem_cons_self).2.1
    · rw [heq] at hcalm
      exact absurd rfl (hcalm 0x5C mem_cons_self).2.1
  · rw [quoteUnit.eq_def] at hcalm ⊢
    split at hcalm
    · simp at hlong
    split at hcalm
    · exact absurd hcalm (by decide)
    next h2028 =>
      split at hcalm
      · exact absurd hcalm (by decide)
      next h2029 => rw [if_neg h2028, if_neg h2029]

theorem flatMap_quoteUnit_of_safe (hus : ∀ u ∈ us, IsUnit u)
    (hsafe : ∀ b ∈ us.flatten, isHtmlSafe b = true) : us.flatMap quoteUnit = us.flatten := by
  induction us with
  | nil => rfl
  | cons u us ih =>
    rw [flatMap_cons, flatten_cons]
    rw [flatten_cons] at hsafe
    rw [ih (fun v hv => hus v (mem_cons_of_mem _ hv))
      fun b hb => hsafe b (mem_append_right _ hb)]
    have hfirst : ∀ b ∈ u, isHtmlSafe b = true := fun b hb => hsafe b (mem_append_left _ hb)
    have hascii : ∀ b : Byte, isHtmlSafe b = true → b < 0x80 := by decide
    rcases hus u mem_cons_self with ⟨b, rfl⟩ | ⟨hlong, hwide⟩
    · have hb := hfirst b (mem_singleton.mpr rfl)
      rw [quoteUnit, if_pos (hascii b hb), if_pos hb]
    · obtain ⟨b, hb⟩ := exists_mem_of_length_pos (l := u) (by omega)
      exact absurd (hascii b (hfirst b hb)) (hwide b hb)

theorem flatMap_quoteUnit_of_calm (hus : ∀ u ∈ us, IsUnit u) (hcalm : Calm (us.flatMap quoteUnit)) :
    us.flatMap quoteUnit = us.flatten := by
  induction us with
  | nil => rfl
  | cons u us ih =>
    rw [flatMap_cons] at hcalm
    rw [flatMap_cons, flatten_cons,
      quoteUnit_of_calm (hus u mem_cons_self) fun b hb => hcalm b (mem_append_left _ hb),
      ih (fun v hv => hus v (mem_cons_of_mem _ hv))
        fun b hb => hcalm b (mem_append_right _ hb)]

theorem eq_quote_of_quoteUnit (h : IsUnit u) (hq : quoteUnit u = [0x5C, 0x22]) : u = [0x22] := by
  rcases h with ⟨b, rfl⟩ | ⟨hlong, hwide⟩
  · rcases quoteUnit_byte b with ⟨-, heq⟩ | ⟨rfl, -⟩ | ⟨x, tail, heq, -, hquote, -⟩
    · rw [heq] at hq
      cases hq
    · rfl
    · rw [heq] at hq
      cases hq
      exact absurd rfl hquote
  · rw [quoteUnit.eq_def] at hq
    split at hq
    · simp at hlong
    split at hq
    · exact absurd hq (by decide)
    split at hq
    · exact absurd hq (by decide)
    · rw [hq] at hwide
      exact absurd (by decide) (hwide 0x22 (by simp))

def pieces (s : List Byte) : List (List Byte) := (units s).map quoteUnit

theorem flatten_pieces (s : List Byte) : (pieces s).flatten = quote s := flatMap_def.symm

theorem isPiece_of_mem_pieces {q : List Byte} (h : q ∈ pieces s) : IsPiece q := by
  obtain ⟨u, hu, rfl⟩ := mem_map.mp h
  exact isPiece_quoteUnit (isUnit_of_mem_units hu)

end MeshcoreSniffer.Lib.GoJson
