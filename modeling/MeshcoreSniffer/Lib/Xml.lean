import MeshcoreSniffer.Lib.CString

/-!
# Well-formed XML documents

Character data, tags and CDATA sections. `closes` runs the tokens over the stack of open elements,
and `Effect s s' out` says what `out` does to it. A raw `>` in character data, comments and
processing instructions are left out.
-/

namespace MeshcoreSniffer.Lib.Xml

open List

/-! ## Characters -/

/-- The production `Char`; surrogates are no characters to begin with. -/
def isXmlChar (c : Char) : Bool :=
  c.toNat == 0x9 || c.toNat == 0xA || c.toNat == 0xD
    || (0x20 ≤ c.toNat && c.toNat != 0xFFFE && c.toNat != 0xFFFF)

def utf8 (c : Char) : List Byte := (String.utf8EncodeChar c).map UInt8.toBitVec

def Legal (t : List Byte) : Prop := ∃ cs : List Char, (∀ c ∈ cs, isXmlChar c = true) ∧ cs.flatMap utf8 = t

def isXmlByte (b : Byte) : Bool :=
  b == 0x9 || b == 0xA || b == 0xD || (0x20 ≤ b.toNat && b.toNat < 128)

variable {c : Char} {a b t out v : List Byte} {α : Type} {f : α → List Byte} {l : List α}
  {s s' : List Name} {prev : Byte}

theorem utf8_of_ascii (h : c.toNat < 128) : utf8 c = [BitVec.ofNat 8 c.toNat] := by
  have hle : c.val.toNat ≤ 127 := Nat.le_of_lt_succ h
  rw [utf8, String.utf8EncodeChar]
  simp only [if_pos hle]
  rfl

theorem toNat_ofNat (n : Nat) : (UInt8.ofNat n).toBitVec.toNat = n % 256 := rfl

theorem utf8_of_wide (h : 128 ≤ c.toNat) : ∀ b ∈ utf8 c, 128 ≤ b.toNat := by
  have hle : ¬c.val.toNat ≤ 127 := Nat.not_le.mpr h
  have htail : ∀ n, 128 ≤ (UInt8.ofNat (n % 64 + 128)).toBitVec.toNat := by
    intro n
    rw [toNat_ofNat]
    omega
  rw [utf8, String.utf8EncodeChar]
  simp only [if_neg hle]
  split
  next =>
    refine forall_mem_cons.mpr ⟨?_, forall_mem_singleton.mpr (htail _)⟩
    rw [toNat_ofNat]
    omega
  next =>
    split
    next =>
      refine forall_mem_cons.mpr ⟨?_, forall_mem_cons.mpr
        ⟨htail _, forall_mem_singleton.mpr (htail _)⟩⟩
      rw [toNat_ofNat]
      omega
    next =>
      refine forall_mem_cons.mpr ⟨?_, forall_mem_cons.mpr ⟨htail _,
        forall_mem_cons.mpr ⟨htail _, forall_mem_singleton.mpr (htail _)⟩⟩⟩
      rw [toNat_ofNat]
      omega

theorem legal_nil : Legal [] := ⟨[], forall_mem_nil _, rfl⟩

theorem Legal.append (ha : Legal a) (hb : Legal b) : Legal (a ++ b) := by
  obtain ⟨cs, hcs, rfl⟩ := ha
  obtain ⟨ds, hds, rfl⟩ := hb
  exact ⟨cs ++ ds, forall_mem_append.mpr ⟨hcs, hds⟩, flatMap_append⟩

theorem legal_flatMap (h : ∀ x ∈ l, Legal (f x)) : Legal (l.flatMap f) := by
  induction l with
  | nil => exact legal_nil
  | cons x l ih =>
    obtain ⟨hx, hl⟩ := forall_mem_cons.mp h
    exact hx.append (ih hl)

theorem isXmlByte_iff (h : c.toNat < 128) : isXmlByte (BitVec.ofNat 8 c.toNat) = isXmlChar c := by
  rw [isXmlChar]
  generalize c.toNat = n at h
  revert n
  decide +kernel

theorem legal_byte {b : Byte} (h : isXmlByte b = true) : Legal [b] := by
  have hall : ∀ b : Byte, isXmlByte b = true →
      (Char.ofNat b.toNat).toNat = b.toNat ∧ b.toNat < 128 := by decide +kernel
  obtain ⟨hnat, hlt⟩ := hall b h
  rw [← hnat] at hlt
  have hb : BitVec.ofNat 8 (Char.ofNat b.toNat).toNat = b := by
    rw [hnat, BitVec.ofNat_toNat, BitVec.setWidth_eq]
  refine ⟨[Char.ofNat b.toNat], forall_mem_singleton.mpr ?_, ?_⟩
  · rwa [← isXmlByte_iff hlt, hb]
  · rw [flatMap_singleton, utf8_of_ascii hlt, hb]

theorem lt_of_isXmlByte {b : Byte} (h : isXmlByte b = true) : b.toNat < 128 := by
  revert b
  decide +kernel

theorem legal_of_bytes (h : ∀ b ∈ t, isXmlByte b = true) : Legal t := by
  induction t with
  | nil => exact legal_nil
  | cons b t ih =>
    obtain ⟨hb, ht⟩ := forall_mem_cons.mp h
    exact (legal_byte hb).append (ih ht)

theorem Legal.split {f : List Byte} {b : Byte} (hb : b.toNat < 128) (h : Legal (t ++ b :: f)) :
    Legal t ∧ isXmlByte b = true ∧ Legal f := by
  obtain ⟨cs, hcs, heq⟩ := h
  induction cs generalizing t with
  | nil => simp at heq
  | cons c cs ih =>
    obtain ⟨hc, hcs⟩ := forall_mem_cons.mp hcs
    have hfirst : Legal (utf8 c) := ⟨[c], forall_mem_singleton.mpr hc, flatMap_singleton ..⟩
    rw [flatMap_cons] at heq
    rcases append_eq_append_iff.mp heq with ⟨t', rfl, ht'⟩ | ⟨u, hu, hrest⟩
    · -- the first character lies in front of the cut
      obtain ⟨ht, hlegal, hf⟩ := ih hcs ht'
      exact ⟨hfirst.append ht, hlegal, hf⟩
    · rcases u with _ | ⟨x, u⟩
      · obtain ⟨-, hlegal, hf⟩ := ih (t := []) hcs hrest.symm
        rw [append_nil] at hu
        exact ⟨hu ▸ hfirst, hlegal, hf⟩
      · -- the first character holds the byte, so it is that byte
        rw [cons_append, cons.injEq] at hrest
        obtain ⟨rfl, rfl⟩ := hrest
        have hascii : c.toNat < 128 := by
          by_contra hwide
          have hmem : b ∈ utf8 c := by
            rw [hu]
            exact mem_append_right t mem_cons_self
          exact absurd hb (Nat.not_lt.mpr (utf8_of_wide (Nat.not_lt.mp hwide) b hmem))
        rw [utf8_of_ascii hascii] at hu
        rcases t with _ | ⟨y, t⟩
        · rw [nil_append, cons.injEq] at hu
          obtain ⟨rfl, rfl⟩ := hu
          exact ⟨legal_nil, (isXmlByte_iff hascii).trans hc, ⟨cs, hcs, rfl⟩⟩
        · simp at hu

def Shows (out v : List Byte) : Prop :=
  ∃ x y : Byte, x.toNat < 128 ∧ y.toNat < 128 ∧ x :: (v ++ [y]) <:+: out

theorem Shows.legal (h : Shows out v) (hout : Legal out) : Legal v := by
  obtain ⟨x, y, hx, hy, pre, post, rfl⟩ := h
  rw [append_assoc, cons_append, append_assoc] at hout
  obtain ⟨-, -, hrest⟩ := hout.split hx
  exact (hrest.split hy).1

theorem Shows.mono {out' : List Byte} (h : Shows out v) (hpart : out <:+: out') : Shows out' v := by
  obtain ⟨x, y, hx, hy, hv⟩ := h
  exact ⟨x, y, hx, hy, hv.trans hpart⟩

theorem Shows.left (h : Shows a v) (b : List Byte) : Shows (a ++ b) v :=
  h.mono (prefix_append a b).isInfix

theorem Shows.right (h : Shows b v) (a : List Byte) : Shows (a ++ b) v :=
  h.mono (suffix_append a b).isInfix

theorem Shows.flatMap {x : α} (h : Shows (f x) v) (hx : x ∈ l) : Shows (l.flatMap f) v := by
  obtain ⟨front, back, rfl⟩ := append_of_mem hx
  rw [flatMap_append, flatMap_cons]
  exact (h.left _).right _

theorem shows_between {x y : Byte} (ha : a.getLast? = some x) (hb : b.head? = some y)
    (hx : x.toNat < 128) (hy : y.toNat < 128) (v : List Byte) : Shows (a ++ v ++ b) v := by
  obtain ⟨a', rfl⟩ := getLast?_eq_some_iff.mp ha
  obtain ⟨b', rfl⟩ := head?_eq_some_iff.mp hb
  refine ⟨x, y, hx, hy, a', b', ?_⟩
  simp only [append_assoc, cons_append, nil_append]

/-! ## Tokens -/

abbrev Name := List Byte

inductive Token where
  | text (t : List Byte)
  | opening (name : Name) (attrs : List (Name × List Byte))
  | closing (name : Name)
  | cdata (t : List Byte)

def attrText (a : Name × List Byte) : List Byte :=
  ascii " " ++ a.1 ++ ascii "=\"" ++ a.2 ++ ascii "\""

def Token.render : Token → List Byte
  | .text t => t
  | .opening name attrs => ascii "<" ++ name ++ attrs.flatMap attrText ++ ascii ">"
  | .closing name => ascii "</" ++ name ++ ascii ">"
  | .cdata t => ascii "<![CDATA[" ++ t ++ ascii "]]>"

def isNameByte (b : Byte) : Bool :=
  (0x61 ≤ b.toNat && b.toNat ≤ 0x7A) || (0x41 ≤ b.toNat && b.toNat ≤ 0x5A)
    || (0x30 ≤ b.toNat && b.toNat ≤ 0x39) || (ascii ":-._").contains b

def isName (name : Name) : Bool :=
  name.all isNameByte && name.head?.any fun b =>
    (0x61 ≤ b.toNat && b.toNat ≤ 0x7A) || (0x41 ≤ b.toNat && b.toNat ≤ 0x5A)

def references : List (List Byte) :=
  [ascii "&amp;", ascii "&lt;", ascii "&gt;", ascii "&quot;", ascii "&apos;"]

/-- No markup: every `&` begins a reference. -/
inductive CharData : List Byte → Prop
  | nil : CharData []
  | byte {b : Byte} {t : List Byte} : b ≠ 0x3C → b ≠ 0x3E → b ≠ 0x26 → CharData t →
      CharData (b :: t)
  | reference {r t : List Byte} : r ∈ references → CharData t → CharData (r ++ t)

def isAttrValue (v : List Byte) : Bool :=
  v.all fun b => isXmlByte b && b != 0x3C && b != 0x26 && b != 0x22

def Token.Ok : Token → Prop
  | .text t => Legal t ∧ CharData t
  | .opening name attrs => isName name = true
      ∧ (∀ a ∈ attrs, isName a.1 = true ∧ isAttrValue a.2 = true) ∧ (attrs.map Prod.fst).Nodup
  | .closing name => isName name = true
  | .cdata t => Legal t ∧ ¬ascii "]]>" <:+: t

/-! ## Elements -/

/-- Run tokens over the stack of open elements; `none` at a tag that does not fit. -/
def closes : List Name → List Token → Option (List Name)
  | s, [] => some s
  | s, .opening name _ :: ts => closes (name :: s) ts
  | name :: s, .closing name' :: ts => if name = name' then closes s ts else none
  | [], .closing _ :: _ => none
  | s, .text _ :: ts => closes s ts
  | s, .cdata _ :: ts => closes s ts

def Effect (s s' : List Name) (out : List Byte) : Prop :=
  ∃ ts : List Token, ts.flatMap Token.render = out ∧ (∀ t ∈ ts, t.Ok) ∧ closes s ts = some s'

theorem closes_append {a : List Token} (h : closes s a = some s') (outer : List Name)
    (b : List Token) : closes (s ++ outer) (a ++ b) = closes (s' ++ outer) b := by
  induction a generalizing s with
  | nil =>
    cases h
    rfl
  | cons t a ih =>
    cases t with
    | text t => exact ih h
    | cdata t => exact ih h
    | opening name attrs => exact ih h
    | closing name =>
      cases s with
      | nil => cases h
      | cons top s =>
        rw [cons_append, cons_append, closes]
        rw [closes] at h
        split
        next hname => exact ih (by rwa [if_pos hname] at h)
        next hname => rw [if_neg hname] at h; cases h

theorem Effect.append {s'' : List Name} (ha : Effect s s' a) (hb : Effect s' s'' b) :
    Effect s s'' (a ++ b) := by
  obtain ⟨ts, rfl, hts, hcloses⟩ := ha
  obtain ⟨us, rfl, hus, hcloses'⟩ := hb
  refine ⟨ts ++ us, flatMap_append, forall_mem_append.mpr ⟨hts, hus⟩, ?_⟩
  have happend := closes_append hcloses [] us
  rw [append_nil, append_nil] at happend
  exact happend.trans hcloses'

theorem Effect.frame (h : Effect s s' out) (outer : List Name) :
    Effect (s ++ outer) (s' ++ outer) out := by
  obtain ⟨ts, hout, hts, hcloses⟩ := h
  have hframe := closes_append hcloses outer []
  rw [append_nil] at hframe
  exact ⟨ts, hout, hts, hframe⟩

def Balanced (out : List Byte) : Prop := Effect [] [] out

theorem Balanced.append (ha : Balanced a) (hb : Balanced b) : Balanced (a ++ b) :=
  Effect.append ha hb

theorem balanced_nil : Balanced [] := ⟨[], rfl, forall_mem_nil _, rfl⟩

theorem balanced_text (hlegal : Legal t) (hdata : CharData t) : Balanced t :=
  ⟨[.text t], flatMap_singleton .., forall_mem_singleton.mpr ⟨hlegal, hdata⟩, rfl⟩

theorem balanced_cdata {t : List Byte} (hlegal : Legal t) (hend : ¬ascii "]]>" <:+: t) :
    Balanced (ascii "<![CDATA[" ++ t ++ ascii "]]>") :=
  ⟨[.cdata t], flatMap_singleton .., forall_mem_singleton.mpr ⟨hlegal, hend⟩, rfl⟩

theorem balanced_flatMap (h : ∀ x ∈ l, Balanced (f x)) : Balanced (l.flatMap f) := by
  induction l with
  | nil => exact balanced_nil
  | cons x l ih =>
    obtain ⟨hx, hl⟩ := forall_mem_cons.mp h
    exact hx.append (ih hl)

def isSpace (b : Byte) : Bool := b == 0x20 || b == 0x9 || b == 0xA || b == 0xD

def xmlDecl : List Byte := ascii "<?xml version=\"1.0\" encoding=\"UTF-8\"?>"

def IsDocument (out : List Byte) : Prop :=
  ∃ name attrs before inner after, (Token.opening name attrs).Ok ∧ Balanced inner
    ∧ (∀ b ∈ before, isSpace b = true) ∧ (∀ b ∈ after, isSpace b = true)
    ∧ out = xmlDecl ++ before ++ (Token.opening name attrs).render ++ inner
        ++ (Token.closing name).render ++ after

theorem CharData.no_markup (h : CharData t) : 0x3C ∉ t ∧ 0x3E ∉ t := by
  induction h with
  | nil => exact ⟨not_mem_nil, not_mem_nil⟩
  | byte hlt hgt _ _ ih =>
    exact ⟨not_mem_cons_of_ne_of_not_mem hlt.symm ih.1,
      not_mem_cons_of_ne_of_not_mem hgt.symm ih.2⟩
  | @reference r t hr _ ih =>
    have hall : ∀ r ∈ references, 0x3C ∉ r ∧ 0x3E ∉ r := by decide
    obtain ⟨hlt, hgt⟩ := hall r hr
    exact ⟨fun h => (mem_append.mp h).elim hlt ih.1,
      fun h => (mem_append.mp h).elim hgt ih.2⟩

theorem legal_reference {r : List Byte} (h : r ∈ references) : Legal r := by
  have hall : ∀ r ∈ references, ∀ b ∈ r, isXmlByte b = true := by decide
  exact legal_of_bytes (hall r h)

/-! ## Every document is legal text -/

theorem isXmlByte_of_isNameByte {b : Byte} (h : isNameByte b = true) : isXmlByte b = true := by
  revert b
  decide +kernel

theorem legal_name {name : Name} (h : isName name = true) : Legal name := by
  rw [isName, Bool.and_eq_true, all_eq_true] at h
  exact legal_of_bytes fun b hb => isXmlByte_of_isNameByte (h.1 b hb)

theorem legal_ascii {s : String} (h : (ascii s).all isXmlByte = true) : Legal (ascii s) :=
  legal_of_bytes (all_eq_true.mp h)

theorem Token.Ok.legal {t : Token} (h : t.Ok) : Legal t.render := by
  cases t with
  | text t => exact h.1
  | opening name attrs =>
    have hattrs : Legal (attrs.flatMap attrText) := by
      refine legal_flatMap fun a ha => ?_
      obtain ⟨hname, hvalue⟩ := h.2.1 a ha
      have hv : Legal a.2 := legal_of_bytes fun b hb => by
        have hbyte := all_eq_true.mp hvalue b hb
        simp only [Bool.and_eq_true] at hbyte
        exact hbyte.1.1.1
      exact ((((legal_ascii rfl).append (legal_name hname)).append (legal_ascii rfl)).append hv).append
        (legal_ascii rfl)
    exact (((legal_ascii rfl).append (legal_name h.1)).append hattrs).append (legal_ascii rfl)
  | closing name => exact ((legal_ascii rfl).append (legal_name h)).append (legal_ascii rfl)
  | cdata t => exact ((legal_ascii rfl).append h.1).append (legal_ascii rfl)

theorem IsDocument.legal (h : IsDocument out) : Legal out := by
  obtain ⟨name, attrs, before, inner, after, hopen, ⟨ts, rfl, hts, -⟩, hbefore, hafter, rfl⟩ := h
  have hspace : ∀ ws : List Byte, (∀ b ∈ ws, isSpace b = true) → Legal ws := by
    intro ws hws
    refine legal_of_bytes fun b hb => ?_
    have hall : ∀ b : Byte, isSpace b = true → isXmlByte b = true := by decide +kernel
    exact hall b (hws b hb)
  have hclose : Legal (Token.closing name).render := Token.Ok.legal (t := .closing name) hopen.1
  exact (((((legal_ascii rfl).append (hspace before hbefore)).append hopen.legal).append
    (legal_flatMap fun t ht => (hts t ht).legal)).append hclose).append (hspace after hafter)

/-! ## The end of a CDATA section -/

def guarded (prev : Byte) : List Byte → Bool
  | [] => true
  | b :: t => (b != 0x3E || prev != 0x5D) && guarded b t

theorem guarded_of_not_mem (h : 0x3E ∉ t) (prev : Byte) : guarded prev t = true := by
  induction t generalizing prev with
  | nil => rfl
  | cons b t ih =>
    rw [mem_cons, not_or] at h
    rw [guarded, ih h.2, Bool.and_true, bne_iff_ne.mpr (Ne.symm h.1), Bool.true_or]

theorem guarded_append (ha : guarded prev a = true) (hb : guarded 0x5D b = true) :
    guarded prev (a ++ b) = true := by
  induction a generalizing prev with
  | nil =>
    cases b with
    | nil => rfl
    | cons x b =>
      rw [guarded, Bool.and_eq_true] at hb
      rw [nil_append, guarded, Bool.and_eq_true]
      refine ⟨?_, hb.2⟩
      rcases Bool.or_eq_true _ _ ▸ hb.1 with hx | hx
      · rw [hx, Bool.true_or]
      · exact absurd hx (by decide)
  | cons x a ih =>
    rw [guarded, Bool.and_eq_true] at ha
    rw [cons_append, guarded, Bool.and_eq_true]
    exact ⟨ha.1, ih ha.2⟩

theorem guarded_flatMap (h : ∀ x ∈ l, guarded 0x5D (f x) = true) :
    guarded 0x5D (l.flatMap f) = true := by
  induction l with
  | nil => rfl
  | cons x l ih =>
    obtain ⟨hx, hl⟩ := forall_mem_cons.mp h
    exact guarded_append hx (ih hl)

theorem not_infix_of_guarded (h : guarded prev t = true) : ¬ascii "]]>" <:+: t := by
  induction t generalizing prev with
  | nil =>
    intro hpart
    cases infix_nil.mp hpart
  | cons b t ih =>
    rw [guarded, Bool.and_eq_true] at h
    intro hpart
    rcases infix_cons_iff.mp hpart with ⟨rest, hrest⟩ | hlater
    · -- in front: the second `]` and the `>` follow
      have hend : ascii "]]>" = [0x5D, 0x5D, 0x3E] := rfl
      rw [hend] at hrest
      obtain ⟨-, ht⟩ := cons.inj hrest
      rw [← ht] at h
      exact absurd h.2 (by simp [guarded])
    · exact ih h.2 hlater

/-! ## Fixed text -/

/-- The attributes of a tag, ` name="value"` each. -/
def readAttrs : Nat → List Byte → List (Name × List Byte)
  | 0, _ => []
  | _ + 1, [] => []
  | n + 1, _ :: s =>
    let name := s.takeWhile (· != 0x3D)
    let value := (s.drop (name.length + 2)).takeWhile (· != 0x22)
    (name, value) :: readAttrs n (s.drop (name.length + 2 + value.length + 1))

def tokens : Nat → List Byte → List Token
  | 0, _ => []
  | _ + 1, [] => []
  | n + 1, b :: s =>
    if b = 0x3C then
      let body := s.takeWhile (· != 0x3E)
      let rest := s.drop (body.length + 1)
      if body.head? = some 0x2F then .closing (body.drop 1) :: tokens n rest
      else
        .opening (body.takeWhile (· != 0x20)) (readAttrs n (body.dropWhile (· != 0x20)))
          :: tokens n rest
    else
      let text := (b :: s).takeWhile (· != 0x3C)
      .text text :: tokens n ((b :: s).drop text.length)

def Token.isFixed : Token → Bool
  | .text t => t.all fun b => isXmlByte b && b != 0x3C && b != 0x3E && b != 0x26
  | .opening name attrs => isName name && attrs.all (fun a => isName a.1 && isAttrValue a.2)
      && decide (attrs.map Prod.fst).Nodup
  | .closing name => isName name
  | .cdata _ => false

def fixedEffect (s : List Name) (out : List Byte) : Option (List Name) :=
  let ts := tokens out.length out
  if ts.flatMap Token.render = out ∧ ts.all Token.isFixed = true then closes s ts else none

theorem charData_of_bytes (h : ∀ b ∈ t, b ≠ 0x3C ∧ b ≠ 0x3E ∧ b ≠ 0x26) : CharData t := by
  induction t with
  | nil => exact .nil
  | cons b t ih =>
    obtain ⟨⟨hlt, hgt, hamp⟩, ht⟩ := forall_mem_cons.mp h
    exact .byte hlt hgt hamp (ih ht)

theorem Token.ok_of_isFixed {t : Token} (h : t.isFixed = true) : t.Ok := by
  cases t with
  | text t =>
    simp only [Token.isFixed, all_eq_true, Bool.and_eq_true, bne_iff_ne] at h
    exact ⟨legal_of_bytes fun b hb => (h b hb).1.1.1,
      charData_of_bytes fun b hb => ⟨(h b hb).1.1.2, (h b hb).1.2, (h b hb).2⟩⟩
  | opening name attrs =>
    simp only [Token.isFixed, all_eq_true, Bool.and_eq_true, decide_eq_true_eq] at h
    exact ⟨h.1.1, h.1.2, h.2⟩
  | closing name => exact h
  | cdata t => cases h

theorem effect_fixed (h : fixedEffect s out = some s') : Effect s s' out := by
  rw [fixedEffect] at h
  split at h
  next hfixed =>
    exact ⟨_, hfixed.1, fun t ht => Token.ok_of_isFixed (all_eq_true.mp hfixed.2 t ht), h⟩
  next => cases h

theorem balanced_fixed (h : fixedEffect [] out = some []) : Balanced out :=
  effect_fixed h

theorem Balanced.around (hv : Balanced v) (inner : List Name) (ha : fixedEffect [] a = some inner)
    (hb : fixedEffect inner b = some []) : Balanced (a ++ v ++ b) :=
  ((effect_fixed ha).append (hv.frame inner)).append (effect_fixed hb)

end MeshcoreSniffer.Lib.Xml
