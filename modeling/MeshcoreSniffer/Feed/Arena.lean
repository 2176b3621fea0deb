import MeshcoreSniffer.Feed.Writer

/-!
# The JSON writer in its memory

The writer stores into memory as `jw.c` does; `vsnprintf` writes what it can even of a text that
does not fit. While `len < cap` every call does what the call of `Feed.Writer` does to the list
(`Mirrors`).
-/

namespace MeshcoreSniffer.Feed

open Lib List Lib.Printf
open Lib.Json

/-! ## The calls -/

/-- `jw_t`, with the memory from `buf` on. -/
structure Arena where
  mem : Nat → Byte
  cap : BitVec 64
  len : BitVec 64 := 0
  firstField : Bool := true

namespace Arena

def init (mem : Nat → Byte) (cap : BitVec 64) : Arena := { mem, cap }

def store (mem : Nat → Byte) (off : Nat) (s : List Byte) : Nat → Byte := fun i =>
  if off ≤ i then s.getD (i - off) (mem i) else mem i

def putc (a : Arena) (c : Byte) : Arena :=
  if a.len + 1 < a.cap then { a with mem := store a.mem a.len.toNat [c], len := a.len + 1 } else a

def puts (a : Arena) : List Byte → Arena
  | [] => a
  | c :: s =>
    if a.len + 1 < a.cap then
      puts { a with mem := store a.mem a.len.toNat [c], len := a.len + 1 } s
    else a

def vsnprintf (mem : Nat → Byte) (off size : Nat) (text : List Byte) : Nat → Byte :=
  if size = 0 then mem else store mem off (text.take (size - 1) ++ [0])

/-- `jw_printf`; the text is stored before it is known to fit. -/
def printf (a : Arena) (text : List Byte) : Arena :=
  let size := (a.cap - a.len).toNat
  { a with
    mem := vsnprintf a.mem a.len.toNat size text
    len := if 0 < text.length ∧ text.length < size then a.len + BitVec.ofNat 64 text.length else a.len }

def escaped (a : Arena) (c : Byte) : Arena :=
  if c = 0x22 ∨ c = 0x5C then putc (putc a 0x5C) c
  else if c = 0x0A then puts a (ascii "\\n")
  else if c = 0x0D then puts a (ascii "\\r")
  else if c = 0x09 then puts a (ascii "\\t")
  else if c < 0x20 then printf a (ascii "\\u" ++ hexPadded 4 c.toNat)
  else putc a c

def strEscaped (a : Arena) (s : List Byte) : Arena :=
  putc ((cString s).foldl escaped (putc a 0x22)) 0x22

def arraySep (a : Arena) : Arena :=
  { (if a.firstField then a else putc a 0x2C) with firstField := false }

def fieldName (a : Arena) (name : String) : Arena := putc (strEscaped (arraySep a) (ascii name)) 0x3A

def field (a : Arena) (name : String) : Value → Arena
  | .str s => strEscaped (fieldName a name) s
  | .u32 n => printf (fieldName a name) (decimal n)
  | .u64 n => printf (fieldName a name) (decimal n)
  | .i32 i => printf (fieldName a name) (signed i)
  | .f32 v => printf (fieldName a name) (v.fixed 4)
  | .f64 v => printf (fieldName a name) (v.fixed 7)
  | .bool b => puts (fieldName a name) (if b then ascii "true" else ascii "false")

def fieldRaw (a : Arena) (name : String) (json : List Byte) : Arena :=
  if cString json = [] then a else puts (fieldName a name) (cString json)

def openObject (a : Arena) : Arena := { putc a 0x7B with firstField := true }

def closeObject (a : Arena) : Arena := { putc a 0x7D with firstField := false }

def openArray (a : Arena) (name : String) : Arena :=
  { putc (fieldName a name) 0x5B with firstField := true }

def closeArray (a : Arena) : Arena := { putc a 0x5D with firstField := false }

def text (a : Arena) : List Byte := (List.range a.len.toNat).map a.mem

def view (a : Arena) : Jw := { cap := a.cap.toNat, buf := a.text, firstField := a.firstField }

end Arena

/-- One call of `jw.h`; a null pointer makes `jw_field_str` and `jw_field_raw` return. -/
inductive JwCall where
  | putc (c : Byte)
  | puts (s : List Byte)
  | printf (text : List Byte)
  | strEscaped (s : List Byte)
  | fieldName (name : String)
  | fieldNull (name : String)
  | field (name : String) (value : Value)
  | fieldRaw (name : String) (json : List Byte)
  | openObject
  | closeObject
  | openArray (name : String)
  | closeArray
  | arraySep

def JwCall.run (a : Arena) : JwCall → Arena
  | .putc c => a.putc c
  | .puts s => a.puts (cString s)
  | .printf text => a.printf text
  | .strEscaped s => a.strEscaped s
  | .fieldName name => a.fieldName name
  | .fieldNull _ => a
  | .field name value => a.field name value
  | .fieldRaw name json => a.fieldRaw name json
  | .openObject => a.openObject
  | .closeObject => a.closeObject
  | .openArray name => a.openArray name
  | .closeArray => a.closeArray
  | .arraySep => a.arraySep

def JwCall.runList (j : Jw) : JwCall → Jw
  | .putc c => jwPutc j c
  | .puts s => jwPuts j (cString s)
  | .printf text => jwPrintf j text
  | .strEscaped s => jwStrEscaped j s
  | .fieldName name => jwFieldName j name
  | .fieldNull _ => j
  | .field name value => jwField j name value
  | .fieldRaw name json => jwFieldRaw j name json
  | .openObject => jwOpen j
  | .closeObject => jwClose j
  | .openArray name => jwOpenArray j name
  | .closeArray => jwCloseArray j
  | .arraySep => jwArraySep j

/-! ## Stores -/

variable {off i : Nat} {s : List Byte} {f : Arena → Arena} {g : Jw → Jw} {a : Arena}
  {mem : Nat → Byte}

theorem store_below (mem : Nat → Byte) (s : List Byte) (h : i < off) :
    Arena.store mem off s i = mem i := by
  rw [Arena.store, if_neg (by omega)]

theorem store_above (mem : Nat → Byte) (h : off + s.length ≤ i) :
    Arena.store mem off s i = mem i := by
  rw [Arena.store, if_pos (by omega), getD_eq_default _ _ (by omega)]

theorem map_store (mem : Nat → Byte) (off : Nat) (s : List Byte) :
    (range (off + s.length)).map (Arena.store mem off s) = (range off).map mem ++ s := by
  rw [range_add, map_append, map_map]
  congr 1
  · apply map_congr_left
    intro i hi
    exact store_below mem s (mem_range.mp hi)
  · apply ext_getElem
    · simp
    · intro i hi hs
      simp [Arena.store, getElem?_eq_getElem hs]

theorem store_terminated (mem : Nat → Byte) (h : i < off + s.length) :
    Arena.store mem off (s ++ [0]) i = Arena.store mem off s i := by
  unfold Arena.store
  split
  next => rw [getD_append _ _ _ _ (by omega)]
  next => rfl

/-! ## Mirrors -/

/-- From `a` to `a'` the writer stayed in its buffer and did to the text what led to `j'`. -/
structure Mirrors (a a' : Arena) (j' : Jw) : Prop where
  cap : a'.cap = a.cap
  room : a'.len < a'.cap
  beyond : ∀ i, a.cap.toNat ≤ i → a'.mem i = a.mem i
  view : a'.view = j'

def Mirrored (f : Arena → Arena) (g : Jw → Jw) : Prop :=
  ∀ a : Arena, a.len < a.cap → Mirrors a (f a) (g a.view)

theorem mirrored_id : Mirrored id id := by
  intro a h
  exact ⟨rfl, h, fun _ _ => rfl, rfl⟩

theorem Mirrored.comp {f' : Arena → Arena} {g' : Jw → Jw} (h' : Mirrored f' g') (h : Mirrored f g) :
    Mirrored (fun a => f' (f a)) (fun j => g' (g j)) := by
  intro a ha
  have hf := h a ha
  have hf' := h' (f a) hf.room
  rw [hf.view] at hf'
  refine ⟨hf'.cap.trans hf.cap, hf'.room, ?_, hf'.view⟩
  intro i hi
  exact (hf'.beyond i (by rwa [hf.cap])).trans (hf.beyond i hi)

theorem Mirrored.setFirst (h : Mirrored f g) (first : Bool) :
    Mirrored (fun a => { f a with firstField := first }) (fun j => { g j with firstField := first }) := by
  intro a ha
  have hf := h a ha
  refine ⟨hf.cap, hf.room, hf.beyond, ?_⟩
  show { (f a).view with firstField := first } = { g a.view with firstField := first }
  rw [hf.view]

theorem Mirrored.foldl {α : Type} {f : Arena → α → Arena} {g : Jw → α → Jw}
    (h : ∀ x, Mirrored (f · x) (g · x)) (xs : List α) :
    Mirrored (fun a => xs.foldl f a) (fun j => xs.foldl g j) := by
  induction xs with
  | nil => exact mirrored_id
  | cons x xs ih => exact ih.comp (h x)

theorem mirrors_append (hfit : a.len.toNat + s.length < a.cap.toNat)
    (hmem : ∀ i < a.len.toNat + s.length, mem i = Arena.store a.mem a.len.toNat s i)
    (hbeyond : ∀ i, a.cap.toNat ≤ i → mem i = a.mem i) :
    Mirrors a { a with mem := mem, len := a.len + BitVec.ofNat 64 s.length }
      { a.view with buf := a.view.buf ++ s } := by
  have hlen : (a.len + BitVec.ofNat 64 s.length).toNat = a.len.toNat + s.length := by
    rw [BitVec.toNat_add, BitVec.toNat_ofNat, Nat.add_mod_mod]
    exact Nat.mod_eq_of_lt (by omega)
  refine ⟨rfl, BitVec.lt_def.mpr (hlen.symm ▸ hfit), hbeyond, ?_⟩
  have htext : (range (a.len.toNat + s.length)).map mem = a.text ++ s := by
    rw [Arena.text, ← map_store]
    apply map_congr_left
    intro i hi
    exact hmem i (mem_range.mp hi)
  simp only [Arena.view, Arena.text, hlen] at htext ⊢
  rw [htext]

theorem mirrors_scratch (h : a.len < a.cap) (hmem : ∀ i < a.len.toNat, mem i = a.mem i)
    (hbeyond : ∀ i, a.cap.toNat ≤ i → mem i = a.mem i) :
    Mirrors a { a with mem := mem } a.view := by
  refine ⟨rfl, h, hbeyond, ?_⟩
  have htext : (range a.len.toNat).map mem = a.text := by
    apply map_congr_left
    intro i hi
    exact hmem i (mem_range.mp hi)
  simp only [Arena.view, Arena.text] at htext ⊢
  rw [htext]

/-! ## Every call is mirrored -/

@[simp] theorem length_view (a : Arena) : a.view.buf.length = a.len.toNat := by
  simp [Arena.view, Arena.text]

theorem room_iff (h : a.len < a.cap) : a.len + 1 < a.cap ↔ a.view.buf.length + 1 < a.view.cap := by
  rw [length_view]
  show a.len + 1 < a.cap ↔ a.len.toNat + 1 < a.cap.toNat
  bv_omega

theorem putc_mirrored (c : Byte) : Mirrored (Arena.putc · c) (jwPutc · c) := by
  intro a ha
  have hroom := room_iff ha
  show Mirrors a (Arena.putc a c) (jwPutc a.view c)
  unfold Arena.putc jwPutc
  by_cases hfit : a.view.buf.length + 1 < a.view.cap
  · rw [if_pos (hroom.mpr hfit), if_pos hfit]
    rw [length_view] at hfit
    apply mirrors_append (s := [c]) hfit
    · intro i hi
      rfl
    · intro i hi
      exact store_above a.mem (Nat.le_of_lt (Nat.lt_of_lt_of_le hfit hi))
  · rw [if_neg (mt hroom.mp hfit), if_neg hfit]
    exact mirrored_id a ha

theorem puts_mirrored (s : List Byte) : Mirrored (Arena.puts · s) (jwPuts · s) := by
  induction s with
  | nil => exact mirrored_id
  | cons c s ih =>
    intro a ha
    have hroom := room_iff ha
    show Mirrors a (Arena.puts a (c :: s)) (jwPuts a.view (c :: s))
    rw [Arena.puts, jwPuts]
    by_cases hfit : a.view.buf.length + 1 < a.view.cap
    · -- the loop goes on behind one character
      have hstep := ih.comp (putc_mirrored c) a ha
      dsimp only [Arena.putc, jwPutc] at hstep
      rw [if_pos (hroom.mpr hfit), if_pos hfit] at hstep
      rw [if_pos (hroom.mpr hfit), if_pos hfit]
      exact hstep
    · rw [if_neg (mt hroom.mp hfit), if_neg hfit]
      exact mirrored_id a ha

theorem vsnprintf_frame (mem : Nat → Byte) {size : Nat} (text : List Byte)
    (h : i < off ∨ off + size ≤ i) : Arena.vsnprintf mem off size text i = mem i := by
  unfold Arena.vsnprintf
  split
  next => rfl
  next hsize =>
    rcases h with h | h
    · exact store_below mem _ h
    · apply store_above
      rw [length_append, length_take, length_singleton]
      omega

theorem printf_mirrored (text : List Byte) : Mirrored (Arena.printf · text) (jwPrintf · text) := by
  intro a ha
  have hcap : a.view.cap = a.cap.toNat := rfl
  have hsize : (a.cap - a.len).toNat = a.view.cap - a.view.buf.length := by
    rw [length_view, hcap]
    bv_omega
  have hbeyond : ∀ i, a.cap.toNat ≤ i →
      Arena.vsnprintf a.mem a.len.toNat (a.view.cap - a.view.buf.length) text i = a.mem i := by
    intro i hi
    have hlt := BitVec.lt_def.mp ha
    rw [length_view, hcap]
    exact vsnprintf_frame a.mem text (.inr (by omega))
  show Mirrors a (Arena.printf a text) (jwPrintf a.view text)
  unfold Arena.printf jwPrintf
  dsimp only
  rw [hsize]
  by_cases hfit : 0 < text.length ∧ text.length < a.view.cap - a.view.buf.length
  · rw [if_pos hfit, if_pos hfit]
    rw [length_view, hcap] at hfit
    refine mirrors_append (by omega) ?_ hbeyond
    intro i hi
    rw [Arena.vsnprintf, length_view, hcap, if_neg (by omega), take_of_length_le (by omega)]
    exact store_terminated a.mem hi
  · rw [if_neg hfit, if_neg hfit]
    refine mirrors_scratch ha ?_ hbeyond
    intro i hi
    exact vsnprintf_frame a.mem text (.inl hi)

theorem escaped_mirrored (c : Byte) : Mirrored (Arena.escaped · c) (jwEscaped · c) := by
  unfold Arena.escaped jwEscaped
  split
  next => exact (putc_mirrored c).comp (putc_mirrored 0x5C)
  split
  next => exact puts_mirrored _
  split
  next => exact puts_mirrored _
  split
  next => exact puts_mirrored _
  split
  next => exact printf_mirrored _
  next => exact putc_mirrored c

theorem strEscaped_mirrored (s : List Byte) :
    Mirrored (Arena.strEscaped · s) (jwStrEscaped · s) :=
  (putc_mirrored 0x22).comp
    ((Mirrored.foldl escaped_mirrored (cString s)).comp (putc_mirrored 0x22))

theorem arraySep_mirrored : Mirrored Arena.arraySep jwArraySep := by
  intro a ha
  have hfirst : a.view.firstField = a.firstField := rfl
  unfold Arena.arraySep jwArraySep
  rw [hfirst]
  cases a.firstField with
  | true => exact (mirrored_id.setFirst false) a ha
  | false => exact ((putc_mirrored 0x2C).setFirst false) a ha

theorem fieldName_mirrored (name : String) :
    Mirrored (Arena.fieldName · name) (jwFieldName · name) :=
  (putc_mirrored 0x3A).comp ((strEscaped_mirrored (ascii name)).comp arraySep_mirrored)

theorem field_mirrored (name : String) (value : Value) :
    Mirrored (Arena.field · name value) (jwField · name value) := by
  cases value with
  | str s => exact (strEscaped_mirrored s).comp (fieldName_mirrored name)
  | u32 n => exact (printf_mirrored _).comp (fieldName_mirrored name)
  | u64 n => exact (printf_mirrored _).comp (fieldName_mirrored name)
  | i32 i => exact (printf_mirrored _).comp (fieldName_mirrored name)
  | f32 v => exact (printf_mirrored _).comp (fieldName_mirrored name)
  | f64 v => exact (printf_mirrored _).comp (fieldName_mirrored name)
  | bool b => exact (puts_mirrored _).comp (fieldName_mirrored name)

theorem fieldRaw_mirrored (name : String) (json : List Byte) :
    Mirrored (Arena.fieldRaw · name json) (jwFieldRaw · name json) := by
  unfold Arena.fieldRaw jwFieldRaw
  split
  next => exact mirrored_id
  next => exact (puts_mirrored _).comp (fieldName_mirrored name)

theorem call_mirrored (call : JwCall) : Mirrored (JwCall.run · call) (JwCall.runList · call) := by
  cases call with
  | putc c => exact putc_mirrored c
  | puts s => exact puts_mirrored (cString s)
  | printf text => exact printf_mirrored text
  | strEscaped s => exact strEscaped_mirrored s
  | fieldName name => exact fieldName_mirrored name
  | fieldNull name => exact mirrored_id
  | field name value => exact field_mirrored name value
  | fieldRaw name json => exact fieldRaw_mirrored name json
  | openObject => exact (putc_mirrored 0x7B).setFirst true
  | closeObject => exact (putc_mirrored 0x7D).setFirst false
  | openArray name => exact ((putc_mirrored 0x5B).comp (fieldName_mirrored name)).setFirst true
  | closeArray => exact (putc_mirrored 0x5D).setFirst false
  | arraySep => exact arraySep_mirrored

/-- **Run.** Any calls in any order. -/
theorem run_mirrors (calls : List JwCall) :
    Mirrored (fun a => calls.foldl JwCall.run a) (fun j => calls.foldl JwCall.runList j) :=
  Mirrored.foldl call_mirrored calls

/-! ## Strings -/

theorem readLiteral_escape (h : 0 ∉ s) : readLiteral (quoted (escape s)) = some s := by
  have hstr : cString s = s := by
    have hall := cString_of_not_mem h []
    rwa [append_nil, show cString [] = [] from rfl, append_nil] at hall
  rw [escape, hstr]
  exact readLiteral_quoted fun c _ => escapeByte_readsBack c

theorem text_strEscaped (hfit : a.len.toNat + (quoted (escape s)).length < a.cap.toNat) :
    (a.strEscaped s).text = a.text ++ quoted (escape s) := by
  have hroom : a.len < a.cap := BitVec.lt_def.mpr (by omega)
  have hview : (a.strEscaped s).view = jwStrEscaped a.view s := (strEscaped_mirrored s a hroom).view
  obtain ⟨t, -, hbuf, hall⟩ := (strEscaped_emits a.view s).kept
  have ht : t = quoted (escape s) := by
    apply hall
    rw [length_view]
    exact hfit
  calc (a.strEscaped s).text
      = (jwStrEscaped a.view s).buf := congrArg Jw.buf hview
    _ = a.text ++ quoted (escape s) := by rw [hbuf, ht]; rfl

/-- **Escaping and capacity.** A literal that fits is read back as its string, and no calls bring
`len` to `cap` or write a byte from there on. -/
theorem escaping_roundtrip :
    (∀ (a : Arena) (s : List Byte), 0 ∉ s →
        a.len.toNat + (quoted (escape s)).length < a.cap.toNat →
        ∃ lit, (a.strEscaped s).text = a.text ++ lit ∧ readLiteral lit = some s ∧
          ∀ c ∈ lit, ¬c < 0x20) ∧
      ∀ (mem : Nat → Byte) (cap : BitVec 64), 1 ≤ cap → ∀ calls : List JwCall,
        (calls.foldl JwCall.run (Arena.init mem cap)).len < cap ∧
          ∀ i, cap.toNat ≤ i → (calls.foldl JwCall.run (Arena.init mem cap)).mem i = mem i := by
  refine ⟨?_, ?_⟩
  · intro a s hs hfit
    exact ⟨_, text_strEscaped hfit, readLiteral_escape hs, printable_quoted (escape_printable s)⟩
  · intro mem cap hcap calls
    have hroom : (Arena.init mem cap).len < (Arena.init mem cap).cap := by
      show (0 : BitVec 64) < cap
      bv_omega
    have hrun := run_mirrors calls (Arena.init mem cap) hroom
    refine ⟨?_, hrun.beyond⟩
    have hlt := hrun.room
    rwa [hrun.cap] at hlt

theorem escaping_roundtrip_control :
    (∃ lit, ((Arena.init (fun _ => 0) 16).strEscaped [0x22, 0x01]).text =
        (Arena.init (fun _ => 0) 16).text ++ lit ∧
      readLiteral lit = some [0x22, 0x01] ∧ ∀ c ∈ lit, ¬c < 0x20) ∧
    (([.openObject, .field "k" (.u32 7)] : List JwCall).foldl JwCall.run
      (Arena.init (fun _ => 0) 1)).len < 1 :=
  ⟨escaping_roundtrip.1 _ _ (by decide) (by decide),
    (escaping_roundtrip.2 (fun _ => 0) 1 (by decide) _).1⟩

end MeshcoreSniffer.Feed
