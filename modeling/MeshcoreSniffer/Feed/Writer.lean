import MeshcoreSniffer.Lib.JsonString

/-!
# The JSON writer

`jw.c`: a writer into a buffer of fixed capacity that drops what does not fit and carries on. A call
adds a sublist of its text (`Emits`); calls that fit leave exactly `objectText` (`object_fits`).
-/

namespace MeshcoreSniffer.Feed

open Lib List Lib.Printf
open Lib.Json

/-- `jw_t`; `buf` holds the `len` bytes written so far. -/
structure Jw where
  cap : Nat
  buf : List Byte := []
  firstField : Bool := true

def jwInit (cap : Nat) : Jw := { cap }

def jwPutc (j : Jw) (c : Byte) : Jw :=
  if j.buf.length + 1 < j.cap then { j with buf := j.buf ++ [c] } else j

def jwPuts (j : Jw) : List Byte → Jw
  | [] => j
  | c :: s => if j.buf.length + 1 < j.cap then jwPuts { j with buf := j.buf ++ [c] } s else j

def jwPrintf (j : Jw) (text : List Byte) : Jw :=
  if 0 < text.length ∧ text.length < j.cap - j.buf.length then { j with buf := j.buf ++ text } else j

def jwEscaped (j : Jw) (c : Byte) : Jw :=
  if c = 0x22 ∨ c = 0x5C then jwPutc (jwPutc j 0x5C) c
  else if c = 0x0A then jwPuts j (ascii "\\n")
  else if c = 0x0D then jwPuts j (ascii "\\r")
  else if c = 0x09 then jwPuts j (ascii "\\t")
  else if c < 0x20 then jwPrintf j (ascii "\\u" ++ hexPadded 4 c.toNat)
  else jwPutc j c

/-- It reads up to the terminator. -/
def jwStrEscaped (j : Jw) (s : List Byte) : Jw :=
  jwPutc ((cString s).foldl jwEscaped (jwPutc j 0x22)) 0x22

def jwArraySep (j : Jw) : Jw :=
  { (if j.firstField then j else jwPutc j 0x2C) with firstField := false }

def jwFieldName (j : Jw) (name : String) : Jw := jwPutc (jwStrEscaped (jwArraySep j) (ascii name)) 0x3A

inductive Value where
  | str (s : List Byte)
  | u32 (n : Nat)
  | u64 (n : Nat)
  | i32 (i : Int)
  | f32 (v : CFloat)
  | f64 (v : CFloat)
  | bool (b : Bool)

def jwField (j : Jw) (name : String) : Value → Jw
  | .str s => jwStrEscaped (jwFieldName j name) s
  | .u32 n => jwPrintf (jwFieldName j name) (decimal n)
  | .u64 n => jwPrintf (jwFieldName j name) (decimal n)
  | .i32 i => jwPrintf (jwFieldName j name) (signed i)
  | .f32 v => jwPrintf (jwFieldName j name) (v.fixed 4)
  | .f64 v => jwPrintf (jwFieldName j name) (v.fixed 7)
  | .bool b => jwPuts (jwFieldName j name) (if b then ascii "true" else ascii "false")

def jwFieldRaw (j : Jw) (name : String) (json : List Byte) : Jw :=
  if cString json = [] then j else jwPuts (jwFieldName j name) (cString json)

def jwOpen (j : Jw) : Jw := { jwPutc j 0x7B with firstField := true }

def jwClose (j : Jw) : Jw := { jwPutc j 0x7D with firstField := false }

def jwOpenArray (j : Jw) (name : String) : Jw :=
  { jwPutc (jwFieldName j name) 0x5B with firstField := true }

def jwCloseArray (j : Jw) : Jw := { jwPutc j 0x5D with firstField := false }

def jwRow (j : Jw) (row : List (String × Value)) : Jw :=
  jwPutc (row.foldl (fun j m => jwField j m.1 m.2) (jwOpen (jwArraySep j))) 0x7D

/-- What a serialiser asks for at the top level of the event. -/
inductive Field where
  /-- One typed field call. -/
  | scalar (name : String) (value : Value)
  /-- A text that is JSON already. -/
  | raw (name : String) (json : List Byte)
  /-- An array of strings. -/
  | strings (name : String) (items : List (List Byte))
  /-- An array that holds one object. -/
  | object (name : String) (row : List (String × Value))
  /-- An array of objects that each start with their `id`. -/
  | objects (name : String) (rows : List (List Byte × List (String × Value)))

def jwCall (j : Jw) : Field → Jw
  | .scalar name value => jwField j name value
  | .raw name json => jwFieldRaw j name json
  | .strings name items =>
    jwCloseArray (items.foldl (fun j s => jwStrEscaped (jwArraySep j) s) (jwOpenArray j name))
  | .object name row => jwCloseArray (jwRow (jwOpenArray j name) row)
  | .objects name rows =>
    jwCloseArray (rows.foldl (fun j r => jwRow j (("id", .str r.1) :: r.2)) (jwOpenArray j name))

def jwObject (j : Jw) (fields : List Field) : Jw := jwClose (fields.foldl jwCall (jwOpen j))

/-! ## The text a call stands for -/

def escapeByte (c : Byte) : List Byte :=
  if c = 0x22 ∨ c = 0x5C then [0x5C, c]
  else if c = 0x0A then ascii "\\n"
  else if c = 0x0D then ascii "\\r"
  else if c = 0x09 then ascii "\\t"
  else if c < 0x20 then ascii "\\u" ++ hexPadded 4 c.toNat
  else [c]

def escape (s : List Byte) : List Byte := (cString s).flatMap escapeByte

def Value.text : Value → List Byte
  | .str s => quoted (escape s)
  | .u32 n | .u64 n => decimal n
  | .i32 i => signed i
  | .f32 v => v.fixed 4
  | .f64 v => v.fixed 7
  | .bool b => if b then ascii "true" else ascii "false"

def memberOf (m : String × Value) : List Byte × List Byte := (escape (ascii m.1), m.2.text)

def rowText (row : List (String × Value)) : List Byte := objectText (row.map memberOf)

def Field.member : Field → Option (List Byte × List Byte)
  | .scalar name value => some (memberOf (name, value))
  | .raw name json =>
    if cString json = [] then none else some (escape (ascii name), cString json)
  | .strings name items =>
    some (escape (ascii name), arrayText (items.map fun s => quoted (escape s)))
  | .object name row => some (escape (ascii name), arrayText [rowText row])
  | .objects name rows =>
    some (escape (ascii name),
      arrayText (rows.map fun r => rowText (("id", .str r.1) :: r.2)))

def members (fields : List Field) : List (List Byte × List Byte) := fields.filterMap Field.member

/-! ## Loss -/

/-- From `j` to `j'` some of `text` was written, and all of it if it fits. -/
structure Emits (j : Jw) (text : List Byte) (j' : Jw) : Prop where
  cap : j'.cap = j.cap
  kept : ∃ t, t.Sublist text ∧ j'.buf = j.buf ++ t ∧
    (j.buf.length + text.length < j.cap → t = text)

theorem Emits.refl (j : Jw) : Emits j [] j where
  cap := rfl
  kept := ⟨[], List.Sublist.refl _, (append_nil _).symm, fun _ => rfl⟩

variable {j j' : Jw} {text : List Byte} {α : Type} {f : Jw → α → Jw} {fields : List Field}

theorem Emits.trans {j'' : Jw} {text' : List Byte} (h : Emits j text j') (h' : Emits j' text' j'') :
    Emits j (text ++ text') j'' where
  cap := h'.cap.trans h.cap
  kept := by
    obtain ⟨t, hsub, hbuf, hall⟩ := h.kept
    obtain ⟨t', hsub', hbuf', hall'⟩ := h'.kept
    refine ⟨t ++ t', hsub.append hsub', by rw [hbuf', hbuf, append_assoc], ?_⟩
    intro hfit
    rw [length_append] at hfit
    have ht : t = text := hall (by omega)
    have ht' : t' = text' := by
      apply hall'
      rw [hbuf, h.cap, ht, length_append]
      omega
    rw [ht, ht']

theorem Emits.setFirst (h : Emits j text j') (first : Bool) :
    Emits j text { j' with firstField := first } where
  cap := h.cap
  kept := h.kept

theorem putc_emits (j : Jw) (c : Byte) : Emits j [c] (jwPutc j c) := by
  unfold jwPutc
  split
  next => exact ⟨rfl, [c], List.Sublist.refl _, rfl, fun _ => rfl⟩
  next hfull =>
    refine ⟨rfl, [], nil_sublist _, (append_nil _).symm, fun hfit => ?_⟩
    exact absurd hfit hfull

theorem puts_emits (j : Jw) (s : List Byte) : Emits j s (jwPuts j s) := by
  induction s generalizing j with
  | nil => exact Emits.refl j
  | cons c s ih =>
    rw [jwPuts]
    split
    next hroom =>
      have hc := putc_emits j c
      rw [jwPutc, if_pos hroom] at hc
      exact hc.trans (ih _)
    next hfull =>
      refine ⟨rfl, [], nil_sublist _, (append_nil _).symm, fun hfit => ?_⟩
      rw [length_cons] at hfit
      omega

theorem printf_emits (j : Jw) (hne : text ≠ []) : Emits j text (jwPrintf j text) := by
  have hpos := length_pos_iff.mpr hne
  unfold jwPrintf
  split
  next => exact ⟨rfl, text, List.Sublist.refl _, rfl, fun _ => rfl⟩
  next hfull =>
    refine ⟨rfl, [], nil_sublist _, (append_nil _).symm, fun hfit => ?_⟩
    omega

theorem escaped_emits (j : Jw) (c : Byte) : Emits j (escapeByte c) (jwEscaped j c) := by
  unfold jwEscaped escapeByte
  split
  next => exact (putc_emits j 0x5C).trans (putc_emits _ c)
  split
  next => exact puts_emits j _
  split
  next => exact puts_emits j _
  split
  next => exact puts_emits j _
  split
  next => exact printf_emits j (by simp [ascii])
  next => exact putc_emits j c

theorem foldl_emits {text : α → List Byte} (hf : ∀ j a, Emits j (text a) (f j a)) (as : List α)
    (j : Jw) : Emits j (as.flatMap text) (as.foldl f j) := by
  induction as generalizing j with
  | nil => exact Emits.refl j
  | cons a as ih => exact (hf j a).trans (ih _)

theorem strEscaped_emits (j : Jw) (s : List Byte) :
    Emits j (quoted (escape s)) (jwStrEscaped j s) :=
  (putc_emits j 0x22).trans ((foldl_emits escaped_emits (cString s) _).trans (putc_emits _ 0x22))

/-! ## Items and their commas -/

theorem putc_firstField (j : Jw) (c : Byte) : (jwPutc j c).firstField = j.firstField := by
  unfold jwPutc
  split
  next => rfl
  next => rfl

theorem puts_firstField (j : Jw) (s : List Byte) : (jwPuts j s).firstField = j.firstField := by
  induction s generalizing j with
  | nil => rfl
  | cons c s ih =>
    rw [jwPuts]
    split
    next => exact ih _
    next => rfl

theorem printf_firstField (j : Jw) (text : List Byte) :
    (jwPrintf j text).firstField = j.firstField := by
  unfold jwPrintf
  split
  next => rfl
  next => rfl

theorem escaped_firstField (j : Jw) (c : Byte) : (jwEscaped j c).firstField = j.firstField := by
  unfold jwEscaped
  simp only [apply_ite Jw.firstField, putc_firstField, puts_firstField, printf_firstField, ite_self]

theorem strEscaped_firstField (j : Jw) (s : List Byte) :
    (jwStrEscaped j s).firstField = j.firstField := by
  have hloop : ∀ (cs : List Byte) (j : Jw), (cs.foldl jwEscaped j).firstField = j.firstField := by
    intro cs
    induction cs with
    | nil => exact fun _ => rfl
    | cons c cs ih => exact fun j => (ih _).trans (escaped_firstField j c)
  rw [jwStrEscaped, putc_firstField, hloop, putc_firstField]

def sep (first : Bool) : List Byte := if first then [] else [0x2C]

def joined : Bool → List (List Byte) → List Byte
  | _, [] => []
  | first, t :: ts => sep first ++ t ++ joined false ts

theorem joined_true (ts : List (List Byte)) : joined true ts = commas ts := by
  have hrest : ∀ ts : List (List Byte), joined false ts = ts.flatMap (0x2C :: ·) := by
    intro ts
    induction ts with
    | nil => rfl
    | cons t ts ih =>
      rw [joined, ih]
      rfl
  cases ts with
  | nil => rfl
  | cons t ts =>
    rw [joined, hrest, commas_cons]
    rfl

def AddsItem {α : Type} (f : Jw → α → Jw) (item : α → Option (List Byte)) : Prop :=
  ∀ j a, (item a = none → f j a = j) ∧ ∀ t, item a = some t →
    Emits j (sep j.firstField ++ t) (f j a) ∧ (f j a).firstField = false

/-- **Items.** A loop of such calls leaves the items joined by commas. -/
theorem AddsItem.foldl {item : α → Option (List Byte)} (hf : AddsItem f item) (as : List α) (j : Jw) :
    Emits j (joined j.firstField (as.filterMap item)) (as.foldl f j) ∧
      (as.foldl f j).firstField = (j.firstField && (as.filterMap item).isEmpty) := by
  induction as generalizing j with
  | nil => exact ⟨Emits.refl j, by simp⟩
  | cons a as ih =>
    obtain ⟨hnone, hsome⟩ := hf j a
    rw [foldl_cons]
    cases hitem : item a with
    | none =>
      rw [hnone hitem, filterMap_cons_none hitem]
      exact ih j
    | some t =>
      obtain ⟨hemit, hfirst⟩ := hsome t hitem
      have hrest := ih (f j a)
      rw [hfirst] at hrest
      rw [filterMap_cons_some hitem, joined]
      exact ⟨hemit.trans hrest.1, by simp [hrest.2]⟩

theorem arraySep_emits (j : Jw) : Emits j (sep j.firstField) (jwArraySep j) := by
  unfold jwArraySep sep
  cases j.firstField with
  | true => exact (Emits.refl j).setFirst false
  | false => exact (putc_emits j 0x2C).setFirst false

def namePart (name : String) : List Byte := quoted (escape (ascii name)) ++ [0x3A]

theorem namePart_append (name : String) (value : List Byte) :
    namePart name ++ value = memberText (escape (ascii name), value) := by
  rw [namePart, memberText, append_assoc]
  rfl

theorem fieldName_emits (j : Jw) (name : String) :
    Emits j (sep j.firstField ++ namePart name) (jwFieldName j name) :=
  (arraySep_emits j).trans ((strEscaped_emits _ _).trans (putc_emits _ 0x3A))

theorem fieldName_firstField (j : Jw) (name : String) : (jwFieldName j name).firstField = false := by
  rw [jwFieldName, putc_firstField, strEscaped_firstField]
  rfl

theorem value_emits (j : Jw) (name : String) {f : Jw → Jw} (hemits : ∀ j, Emits j text (f j))
    (hfirst : ∀ j, (f j).firstField = j.firstField) :
    Emits j (sep j.firstField ++ memberText (escape (ascii name), text)) (f (jwFieldName j name)) ∧
      (f (jwFieldName j name)).firstField = false := by
  refine ⟨?_, (hfirst _).trans (fieldName_firstField j name)⟩
  rw [← namePart_append, ← append_assoc]
  exact (fieldName_emits j name).trans (hemits _)

theorem number_emits (j : Jw) (name : String) (hne : text ≠ []) :
    Emits j (sep j.firstField ++ memberText (escape (ascii name), text))
        (jwPrintf (jwFieldName j name) text) ∧
      (jwPrintf (jwFieldName j name) text).firstField = false :=
  value_emits j name (f := (jwPrintf · text)) (fun j => printf_emits j hne)
    fun j => printf_firstField j text

theorem field_emits (j : Jw) (name : String) (value : Value) :
    Emits j (sep j.firstField ++ memberText (memberOf (name, value))) (jwField j name value) ∧
      (jwField j name value).firstField = false := by
  cases value with
  | str s =>
    exact value_emits j name (f := (jwStrEscaped · s)) (strEscaped_emits · s)
      (strEscaped_firstField · s)
  | bool b => exact value_emits j name (f := (jwPuts · _)) (puts_emits · _) (puts_firstField · _)
  | u32 n => exact number_emits j name (decimal_ne_nil n)
  | u64 n => exact number_emits j name (decimal_ne_nil n)
  | i32 i => exact number_emits j name (signed_ne_nil i)
  | f32 v => exact number_emits j name (fixed_ne_nil 4 v)
  | f64 v => exact number_emits j name (fixed_ne_nil 7 v)

theorem field_addsItem :
    AddsItem (fun j (m : String × Value) => jwField j m.1 m.2)
      fun m => some (memberText (memberOf m)) := by
  refine fun j m => ⟨nofun, ?_⟩
  rintro t ⟨⟩
  exact field_emits j m.1 m.2

theorem row_emits (j : Jw) (row : List (String × Value)) :
    Emits j (sep j.firstField ++ rowText row) (jwRow j row) ∧
      (jwRow j row).firstField = row.isEmpty := by
  obtain ⟨hemit, hfirst⟩ := field_addsItem.foldl row (jwOpen (jwArraySep j))
  have hopen : (jwOpen (jwArraySep j)).firstField = true := rfl
  have htexts : row.map (fun m => memberText (memberOf m)) = (row.map memberOf).map memberText := by
    rw [map_map]
    rfl
  rw [hopen, joined_true, filterMap_eq_map', htexts] at hemit
  rw [hopen, filterMap_eq_map', Bool.true_and, isEmpty_map] at hfirst
  refine ⟨?_, (putc_firstField _ _).trans hfirst⟩
  exact (arraySep_emits j).trans (((putc_emits _ 0x7B).setFirst true).trans
    (hemit.trans (putc_emits _ 0x7D)))

theorem openArray_emits (j : Jw) (name : String) :
    Emits j (sep j.firstField ++ namePart name ++ [0x5B]) (jwOpenArray j name) :=
  ((fieldName_emits j name).trans (putc_emits _ 0x5B)).setFirst true

theorem array_emits {name : String} {ts : List (List Byte)}
    (hitems : Emits (jwOpenArray j name) (commas ts) j') :
    Emits j (sep j.firstField ++ memberText (escape (ascii name), arrayText ts)) (jwCloseArray j') := by
  have hall := ((openArray_emits j name).trans hitems).trans ((putc_emits j' 0x5D).setFirst false)
  rw [← namePart_append, arrayText]
  simp only [append_assoc, cons_append, nil_append] at hall ⊢
  exact hall

theorem call_addsItem : AddsItem jwCall fun field => field.member.map memberText := by
  intro j field
  cases field with
  | scalar name value =>
    refine ⟨nofun, ?_⟩
    rintro t ⟨⟩
    exact field_emits j name value
  | raw name json =>
    by_cases hempty : cString json = []
    · simp [Field.member, jwCall, jwFieldRaw, hempty]
    · simp only [Field.member, jwCall, jwFieldRaw, if_neg hempty, Option.map_some, reduceCtorEq,
        false_implies, Option.some.injEq, forall_eq', true_and]
      exact value_emits j name (f := (jwPuts · (cString json))) (puts_emits · _)
        (puts_firstField · _)
  | strings name items =>
    refine ⟨nofun, ?_⟩
    rintro t ⟨⟩
    refine ⟨array_emits ?_, rfl⟩
    have hitem : AddsItem (fun j s => jwStrEscaped (jwArraySep j) s)
        fun s => some (quoted (escape s)) := by
      refine fun j s => ⟨nofun, ?_⟩
      rintro t ⟨⟩
      exact ⟨(arraySep_emits j).trans (strEscaped_emits _ s), strEscaped_firstField _ s⟩
    have hloop := (hitem.foldl items (jwOpenArray j name)).1
    rwa [show (jwOpenArray j name).firstField = true from rfl, joined_true,
      filterMap_eq_map'] at hloop
  | object name row =>
    refine ⟨nofun, ?_⟩
    rintro t ⟨⟩
    refine ⟨array_emits ?_, rfl⟩
    exact (row_emits (jwOpenArray j name) row).1
  | objects name rows =>
    refine ⟨nofun, ?_⟩
    rintro t ⟨⟩
    refine ⟨array_emits ?_, rfl⟩
    have hitem : AddsItem (fun j (r : List Byte × List (String × Value)) =>
        jwRow j (("id", .str r.1) :: r.2)) fun r => some (rowText (("id", .str r.1) :: r.2)) := by
      refine fun j r => ⟨nofun, ?_⟩
      rintro t ⟨⟩
      exact row_emits j _
    have hloop := (hitem.foldl rows (jwOpenArray j name)).1
    rwa [show (jwOpenArray j name).firstField = true from rfl, joined_true,
      filterMap_eq_map'] at hloop

/-- **Loss.** A serialiser writes some of its text, and all of it when it fits. -/
theorem object_emits (j : Jw) (fields : List Field) :
    Emits j (objectText (members fields)) (jwObject j fields) := by
  have hloop := (call_addsItem.foldl fields (jwOpen j)).1
  rw [show (jwOpen j).firstField = true from rfl, joined_true, ← map_filterMap] at hloop
  exact ((putc_emits j 0x7B).setFirst true).trans
    (hloop.trans ((putc_emits _ 0x7D).setFirst false))

/-- **Shape.** A text that fits is left as it is. -/
theorem object_fits {cap : Nat} (hfit : (objectText (members fields)).length < cap) :
    (jwObject (jwInit cap) fields).buf = objectText (members fields) := by
  obtain ⟨t, -, hbuf, hall⟩ := (object_emits (jwInit cap) fields).kept
  rw [hbuf, hall (by simpa [jwInit] using hfit)]
  rfl

/-! ## The text of values -/

theorem escapeByte_transparent (c : Byte) : Transparent (escapeByte c) := by
  unfold escapeByte
  split
  next h =>
    rcases h with rfl | rfl
    · exact transparent_escape (by decide) (by decide)
    · exact transparent_escape (by decide) (by decide)
  next hplain =>
  rw [not_or] at hplain
  split
  next => exact transparent_escape (by decide) (by decide)
  split
  next => exact transparent_escape (by decide) (by decide)
  split
  next => exact transparent_escape (by decide) (by decide)
  split
  next h =>
    have hdigit : ∀ d < 16, (hexNibble (hexDigit d)).isSome = true := by decide
    refine transparent_unicode (all_eq_true.mpr fun x hx => ?_)
    obtain ⟨d, hd, rfl⟩ := mem_hexPadded (k := 4) (n := c.toNat) hx
    exact hdigit d hd
  next h => exact transparent_char hplain.1 hplain.2 h

theorem escape_transparent (s : List Byte) : Transparent (escape s) := by
  unfold escape
  induction cString s with
  | nil => exact transparent_nil
  | cons c cs ih => exact (escapeByte_transparent c).append ih

theorem escapeByte_readsBack (c : Byte) : ReadsBack escapeByte c := by
  intro r
  unfold escapeByte
  split
  next h => rcases h with rfl | rfl <;> rfl
  next hplain =>
  rw [not_or] at hplain
  split
  next h => rw [h]; rfl
  split
  next h => rw [h]; rfl
  split
  next h => rw [h]; rfl
  split
  next h =>
    have hcode : ∀ n < 32, hexPairs 2 (hexPadded 4 n) = some [0, BitVec.ofNat 8 n] := by decide
    have hlt : c.toNat < 32 := BitVec.lt_def.mp h
    have hpairs : hexPairs 2 (hexPadded 4 c.toNat ++ r) = hexPairs 2 (hexPadded 4 c.toNat) := rfl
    have hquad : hexQuad (hexPadded 4 c.toNat ++ r) = some (c.toNat, r) := by
      rw [hexQuad, hpairs, hcode _ hlt, BitVec.ofNat_toNat, BitVec.setWidth_eq]
      show some ((0 : Byte).toNat * 256 + c.toNat, r) = some (c.toNat, r)
      simp
    show readUnicode (hexPadded 4 c.toNat ++ r) = some ([c], r)
    rw [readUnicode, hquad]
    dsimp only
    rw [if_pos (.inl (by omega)), utf8, if_pos (by omega), BitVec.ofNat_toNat, BitVec.setWidth_eq]
  next h =>
    show (if c = 0x5C then _ else if c = 0x22 ∨ c < 0x20 then none else some ([c], r)) = _
    rw [if_neg hplain.2, if_neg (not_or.mpr ⟨hplain.1, h⟩)]

theorem escapeByte_cancel {c c' : Byte} {r r' : List Byte}
    (h : escapeByte c ++ r = escapeByte c' ++ r') : c = c' ∧ r = r' := by
  have hread := escapeByte_readsBack c r
  rw [h, escapeByte_readsBack] at hread
  obtain ⟨hc, hr⟩ := Prod.mk.inj (Option.some.inj hread)
  exact ⟨(List.head_eq_of_cons_eq hc).symm, hr.symm⟩

theorem escape_injective {s s' : List Byte} (h : escape s = escape s') : cString s = cString s' := by
  unfold escape at h
  generalize cString s = t at h ⊢
  generalize cString s' = t' at h ⊢
  induction t generalizing t' with
  | nil =>
    cases t' with
    | nil => rfl
    | cons c' t' => exact absurd (append_eq_nil_iff.mp h.symm).1 (escapeByte_readsBack c').ne_nil
  | cons c t ih =>
    cases t' with
    | nil => exact absurd (append_eq_nil_iff.mp h).1 (escapeByte_readsBack c).ne_nil
    | cons c' t' =>
      obtain ⟨rfl, hrest⟩ := escapeByte_cancel h
      rw [ih t' hrest]

theorem Value.flat_text (v : Value) : Flat v.text := by
  cases v with
  | str s => exact .inl ⟨_, escape_transparent s, rfl⟩
  | u32 n => exact flat_printf (isPrintfChar_decimal n)
  | u64 n => exact flat_printf (isPrintfChar_decimal n)
  | i32 i => exact flat_printf (isPrintfChar_signed i)
  | f32 v => exact flat_printf (isPrintfChar_fixed 4 v)
  | f64 v => exact flat_printf (isPrintfChar_fixed 7 v)
  | bool b => cases b <;> exact .inr (by decide)

/-! ## Lines have no control characters -/

theorem escapeByte_printable (c : Byte) : Printable (escapeByte c) := by
  unfold escapeByte
  split
  next h =>
    refine (printable_nil.cons ?_).cons (by decide)
    rcases h with rfl | rfl <;> decide
  split
  next => exact (printable_nil.cons (by decide)).cons (by decide)
  split
  next => exact (printable_nil.cons (by decide)).cons (by decide)
  split
  next => exact (printable_nil.cons (by decide)).cons (by decide)
  split
  next =>
    have hdigit : ∀ d < 16, ¬hexDigit d < 0x20 := by decide
    refine Printable.cons (by decide) (Printable.cons (by decide) fun x hx => ?_)
    obtain ⟨d, hd, rfl⟩ := mem_hexPadded hx
    exact hdigit d hd
  next h => exact printable_nil.cons h

theorem escape_printable (s : List Byte) : Printable (escape s) := by
  intro x hx
  obtain ⟨c, -, hc⟩ := mem_flatMap.mp hx
  exact escapeByte_printable c x hc

theorem Value.printable_text (v : Value) : Printable v.text := by
  cases v with
  | str s => exact printable_quoted (escape_printable s)
  | u32 n => exact printable_printf (isPrintfChar_decimal n)
  | u64 n => exact printable_printf (isPrintfChar_decimal n)
  | i32 i => exact printable_printf (isPrintfChar_signed i)
  | f32 v => exact printable_printf (isPrintfChar_fixed 4 v)
  | f64 v => exact printable_printf (isPrintfChar_fixed 7 v)
  | bool b =>
    have hwords : ∀ b : Bool, ∀ c ∈ (Value.bool b).text, ¬c < 0x20 := by decide
    exact hwords b

theorem printable_rowText (row : List (String × Value)) : Printable (rowText row) := by
  refine printable_objectText fun m hm => ?_
  obtain ⟨r, -, rfl⟩ := mem_map.mp hm
  exact ⟨escape_printable _, r.2.printable_text⟩

theorem Field.printable_member {f : Field} (hraw : ∀ name json, f = .raw name json → Printable json)
    {m : List Byte × List Byte} (hm : f.member = some m) : Printable m.1 ∧ Printable m.2 := by
  cases f with
  | scalar name value =>
    cases hm
    exact ⟨escape_printable _, value.printable_text⟩
  | raw name json =>
    rw [Field.member] at hm
    split at hm
    next => cases hm
    next =>
      cases hm
      exact ⟨escape_printable _, fun c hc => hraw name json rfl c
        ((takeWhile_sublist _).mem hc)⟩
  | strings name items =>
    cases hm
    refine ⟨escape_printable _, printable_arrayText fun t ht => ?_⟩
    obtain ⟨s, -, rfl⟩ := mem_map.mp ht
    exact printable_quoted (escape_printable s)
  | object name row =>
    cases hm
    refine ⟨escape_printable _, printable_arrayText fun t ht => ?_⟩
    rw [mem_singleton.mp ht]
    exact printable_rowText row
  | objects name rows =>
    cases hm
    refine ⟨escape_printable _, printable_arrayText fun t ht => ?_⟩
    obtain ⟨r, -, rfl⟩ := mem_map.mp ht
    exact printable_rowText _

/-- **No control character** gets into the text but through a raw text. -/
theorem printable_objectText_members (hraw : ∀ name json, .raw name json ∈ fields → Printable json) :
    Printable (objectText (members fields)) := by
  refine printable_objectText fun m hm => ?_
  obtain ⟨f, hf, hmember⟩ := mem_filterMap.mp hm
  exact Field.printable_member (fun name json heq => hraw name json (heq ▸ hf)) hmember

end MeshcoreSniffer.Feed
