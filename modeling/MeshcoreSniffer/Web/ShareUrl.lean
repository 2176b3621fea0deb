import MeshcoreSniffer.Meshtastic.Keyset
import MeshcoreSniffer.Meshtastic.Wire

/-!
# Channel share links

`decode_channel_share` of `web.c` reads the channels of a share link with base64 and protobuf loops
of its own. They have one shape (`shareLoop`), a fold up to the cut on a message cut anywhere
(`shareLoop_cut`).
-/

namespace MeshcoreSniffer.Web

open Lib Lib.Wire Meshtastic List Option

/-! ## The decoder -/

def shareVarintLoop : List Byte → Nat → BitVec 64 → BitVec 64 × List Byte
  | [], _, v => (v, [])
  | b :: p, shift, v =>
    let v := v ||| (b &&& 0x7F).setWidth 64 <<< shift
    if b &&& 0x80 = 0 then (v, p) else shareVarintLoop p (shift + 7) v

def shareVarint (p : List Byte) : BitVec 64 × List Byte := shareVarintLoop p 0 0

/-- The loop over a varint stops where `shareVarint` does. -/
def shareSkip (p : List Byte) (wt : BitVec 3) : Option (List Byte) :=
  if wt = 0 then some (shareVarint p).2
  else if wt = 1 then if p.length < 8 then none else some (p.drop 8)
  else if wt = 2 then
    let (l, p) := shareVarint p
    if p.length < l.toNat then none else some (p.drop l.toNat)
  else if wt = 5 then if p.length < 4 then none else some (p.drop 4)
  else none

/-- A loop over the fields of a message; its body gives `none` to leave it. -/
def shareLoop {σ : Type} (body : Handler σ) : Nat → List Byte → σ → σ
  | 0, _, s => s
  | fuel + 1, p, s =>
    if p = [] then s
    else
      let (tag, p) := shareVarint p
      match body ((tag >>> 3).setWidth 32) (tag.setWidth 3) p s with
      | none => s
      | some (s, p) => shareLoop body fuel p s

def shareMessage {σ : Type} (body : Handler σ) (p : List Byte) (s : σ) : σ :=
  shareLoop body (p.length + 1) p s

/-- `psk` with its length, and the array `name`. -/
structure SharedSettings where
  psk : List Byte := []
  name : List Byte := []

/-- The loop over a `ChannelSettings`: field 2 is the key, field 3 the name. -/
def settingsBody : Handler SharedSettings := fun fld wt p s =>
  if wt ≠ 2 then (shareSkip p wt).map (s, ·)
  else
    let (l, p) := shareVarint p
    if p.length < l.toNat then none
    else
      let content := p.take l.toNat
      some (if fld = 2 ∧ l.toNat ≤ 32 then { s with psk := content }
        else if fld = 3 ∧ l.toNat < 32 then { s with name := content }
        else s, p.drop l.toNat)

/-- The loop over a `Channel`: field 2 is its settings. -/
def channelBody : Handler SharedSettings := fun fld wt p s =>
  if fld ≠ 2 ∨ wt ≠ 2 then (shareSkip p wt).map (s, ·)
  else
    let (l, p) := shareVarint p
    if p.length < l.toNat then none
    else some (shareMessage settingsBody (p.take l.toNat) s, p.drop l.toNat)

def addShared (acc : Keyset × Nat) (s : SharedSettings) : Keyset × Nat :=
  if s.psk = [] then acc
  else
    match keysetAddPsk acc.1 (cString s.name) s.psk with
    | some ks => (ks, acc.2 + 1)
    | none => acc

/-- The loop over a `ChannelSet`: field 1 is a channel. -/
def channelSetBody : Handler (Keyset × Nat) := fun fld wt p acc =>
  if wt = 2 then
    let (l, p) := shareVarint p
    if p.length < l.toNat then none
    else
      some (if fld ≠ 1 then acc else addShared acc (shareMessage channelBody (p.take l.toNat) {}),
        p.drop l.toNat)
  else if wt = 0 then some (acc, (shareVarint p).2)
  else if wt = 1 then some (acc, p.drop 8)
  else if wt = 5 then some (acc, p.drop 4)
  else some (acc, p)

def shareBufBytes : Nat := 256

def endsShare (c : Byte) : Bool := c == 0x3D || c == 0x26 || c == 0x20 || c == 0x0D || c == 0x0A

def shareB64 : List Byte → Nat → Nat → List Byte → Option (List Byte)
  | [], _, _, out => some out
  | c :: cs, accum, bits, out =>
    if shareBufBytes ≤ out.length then some out
    else if endsShare c then some out
    else
      match b64Value c with
      | none => none
      | some v =>
        let accum := (accum <<< 6 ||| v) % 2 ^ 32
        if 8 ≤ bits + 6 then
          shareB64 cs accum (bits + 6 - 8) (out ++ [BitVec.ofNat 8 (accum >>> (bits + 6 - 8))])
        else shareB64 cs accum (bits + 6) out

def decodeChannelShare (ks : Keyset) (urlOrB64 : List Byte) : Option Nat × Keyset :=
  match shareB64 (behindFirst 0x3D (behindFirst 0x23 urlOrB64)) 0 0 [] with
  | none => (none, ks)
  | some buf =>
    if buf = [] then (none, ks)
    else
      let (ks', added) := shareMessage channelSetBody buf (ks, 0)
      (some added, ks')

/-! ## Share links -/

structure SharedChannel where
  name : List Byte
  psk : List Byte
  name_short : name.length < 32
  psk_length : psk.length = 1 ∨ psk.length = 16 ∨ psk.length = 32

def fieldsAt (number : Nat) (fields : List Field) : List Field := fields.filter (·.number == number)

/-- A `ChannelSettings` of the channel, with any other fields; an empty name may be left out. -/
def IsSettings (ch : SharedChannel) (content : List Byte) : Prop :=
  ∃ fields, Complete fields content ∧ fieldsAt 2 fields = [⟨2, .bytes ch.psk⟩] ∧
    (fieldsAt 3 fields = [⟨3, .bytes ch.name⟩] ∨ ch.name = [] ∧ fieldsAt 3 fields = [])

/-- A `Channel` with these settings, with any other fields. -/
def IsChannel (ch : SharedChannel) (content : List Byte) : Prop :=
  ∃ fields settings, Complete fields content ∧ fieldsAt 2 fields = [⟨2, .bytes settings⟩] ∧
    IsSettings ch settings

def CarriesChannel (ch : SharedChannel) (f : Field) : Prop :=
  ∃ content, f.value = .bytes content ∧ IsChannel ch content

/-- The fields of a `ChannelSet` of these channels, in order, with any other fields. -/
def IsChannelSet (channels : List SharedChannel) (fields : List Field) : Prop :=
  List.Forall₂ CarriesChannel channels (fieldsAt 1 fields)

/-- The other alphabet: `-` for `+` and `_` for `/`. -/
def urlDigit (c : Byte) : Byte := if c = 0x2B then 0x2D else if c = 0x2F then 0x5F else c

/-- How the bytes are written: alphabet, padding, and what stands before a `#`. -/
structure ShareForm where
  urlAlphabet : Bool
  padded : Bool
  lead : Option (List Byte)
  lead_noHash : ∀ l ∈ lead, 0x23 ∉ l

def ShareForm.digits (form : ShareForm) (bytes : List Byte) : List Byte :=
  if form.urlAlphabet then (Base64.encodeBody bytes).map urlDigit else Base64.encodeBody bytes

def ShareForm.body (form : ShareForm) (bytes : List Byte) : List Byte :=
  form.digits bytes ++ if form.padded then Base64.padding bytes else []

def ShareForm.text (form : ShareForm) (bytes : List Byte) : List Byte :=
  match form.lead with
  | none => form.body bytes
  | some lead => lead ++ 0x23 :: form.body bytes

def addAll (ks : Keyset) (channels : List SharedChannel) : Option Keyset :=
  channels.foldlM (fun ks ch => keysetAddPsk ks ch.name ch.psk) ks

def Imports (ks : Keyset) (channels : List SharedChannel) (text : List Byte) : Prop :=
  ∃ ks', addAll ks channels = some ks' ∧ decodeChannelShare ks text = (some channels.length, ks')

def EndsInBuffer (fields : List Field) (bytes : List Byte) : Prop :=
  ∃ front back bs rest, fields = front ++ back ∧ Complete front bs ∧ Complete back rest ∧
    bytes = bs ++ rest ∧ bs.length ≤ shareBufBytes ∧ fieldsAt 1 back = []

/-! ## The text -/

theorem b64Value_urlDigit : ∀ c : Byte, b64Value (urlDigit c) = b64Value c := by
  decide

theorem plain_digit : ∀ v < 64, endsShare (Base64.digit v) = false ∧
    endsShare (urlDigit (Base64.digit v)) = false ∧ Base64.digit v ≠ 0x23 ∧
    urlDigit (Base64.digit v) ≠ 0x23 := by
  decide +kernel

theorem b64Loop_map_urlDigit (maxOut : Nat) (cs : List Byte) (accum bits : Nat) (out : List Byte) :
    b64Loop maxOut (cs.map urlDigit) accum bits out = b64Loop maxOut cs accum bits out := by
  induction cs generalizing accum bits out with
  | nil => rfl
  | cons c cs ih =>
    rw [map_cons, b64Loop, b64Loop, b64Value_urlDigit]
    simp only [ih]

variable {maxOut accum bits : Nat} {cs out full : List Byte}

theorem prefix_of_b64Loop (h : b64Loop maxOut cs accum bits out = some full) : out <+: full := by
  induction cs generalizing accum bits out with
  | nil =>
    obtain rfl := some.inj h
    exact prefix_refl out
  | cons c cs ih =>
    rw [b64Loop] at h
    split at h
    next => cases h
    next v _ =>
      dsimp only at h
      split at h
      next =>
        split at h
        next => cases h
        next => exact (prefix_append _ _).trans (ih h)
      next => exact ih h

theorem shareB64_of_b64Loop (h : b64Loop maxOut cs accum bits out = some full)
    (hplain : ∀ c ∈ cs, endsShare c = false) (hout : out.length ≤ shareBufBytes) :
    shareB64 cs accum bits out = some (full.take shareBufBytes) := by
  induction cs generalizing accum bits out with
  | nil =>
    obtain rfl := some.inj h
    rw [shareB64, take_of_length_le hout]
  | cons c cs ih =>
    obtain ⟨hc, hcs⟩ := forall_mem_cons.mp hplain
    rw [shareB64]
    split
    next hfull =>
      have hlen : out.length = shareBufBytes := le_antisymm hout hfull
      rw [← hlen, ← prefix_iff_eq_take.mp (prefix_of_b64Loop h)]
    next hroom =>
      rw [if_neg (by rw [hc]; exact Bool.false_ne_true)]
      rw [b64Loop] at h
      cases hv : b64Value c with
      | none =>
        rw [hv] at h
        cases h
      | some v =>
        rw [hv] at h
        dsimp only at h ⊢
        split
        next hbits =>
          rw [if_pos hbits] at h
          split at h
          next => cases h
          next =>
            refine ih h hcs ?_
            rw [length_append, length_singleton]
            omega
        next hbits =>
          rw [if_neg hbits] at h
          exact ih h hcs hout

namespace ShareForm

variable (form : ShareForm) (bytes : List Byte)

theorem b64Loop_digits : b64Loop bytes.length (form.digits bytes) 0 0 [] = some bytes := by
  have hbody := b64Loop_encodeBody bytes.length bytes 0 [] (by simp)
  rw [digits]
  split
  next => rw [b64Loop_map_urlDigit, hbody, nil_append]
  next => rw [hbody, nil_append]

theorem plain_of_mem_digits {c : Byte} (h : c ∈ form.digits bytes) : endsShare c = false ∧ c ≠ 0x23 := by
  rw [digits] at h
  split at h
  next =>
    obtain ⟨d, hd, rfl⟩ := mem_map.mp h
    obtain ⟨v, hv, rfl⟩ := Base64.exists_digit_of_mem hd
    exact ⟨(plain_digit v hv).2.1, (plain_digit v hv).2.2.2⟩
  next =>
    obtain ⟨v, hv, rfl⟩ := Base64.exists_digit_of_mem h
    exact ⟨(plain_digit v hv).1, (plain_digit v hv).2.2.1⟩

theorem separator_not_mem_digits : 0x3D ∉ form.digits bytes := by
  intro hmem
  exact absurd (form.plain_of_mem_digits bytes hmem).1 (by decide)

theorem behindFirst_text : behindFirst 0x23 (form.text bytes) = form.body bytes := by
  have hbody : (0x23 : Byte) ∉ form.body bytes := by
    intro hmem
    rcases mem_append.mp hmem with hdigit | hpad
    · exact (form.plain_of_mem_digits bytes hdigit).2 rfl
    · split at hpad
      next => exact absurd (eq_of_mem_replicate hpad) (by decide)
      next => cases hpad
  rw [text]
  split
  next => exact behindFirst_of_not_mem hbody
  next lead hlead => exact behindFirst_append (form.lead_noHash lead hlead) _

theorem shareB64_unpadded (h : form.padded = true → bytes.length % 3 = 0) :
    shareB64 (behindFirst 0x3D (behindFirst 0x23 (form.text bytes))) 0 0 [] =
      some (bytes.take shareBufBytes) := by
  have hpad : (if form.padded then Base64.padding bytes else []) = [] := by
    split
    next hpadded => simp [Base64.padding, h hpadded]
    next => rfl
  rw [form.behindFirst_text, body, hpad, append_nil,
    behindFirst_of_not_mem (form.separator_not_mem_digits bytes)]
  exact shareB64_of_b64Loop (form.b64Loop_digits bytes)
    (fun c hc => (form.plain_of_mem_digits bytes hc).1) (Nat.zero_le _)

theorem shareB64_padded (hpadded : form.padded = true) (h : bytes.length % 3 ≠ 0) :
    shareB64 (behindFirst 0x3D (behindFirst 0x23 (form.text bytes))) 0 0 [] = some [] := by
  have hpad : ∃ n, Base64.padding bytes = 0x3D :: replicate n 0x3D := by
    refine ⟨(3 - bytes.length % 3) % 3 - 1, ?_⟩
    rw [← replicate_succ, Base64.padding]
    congr 1
    omega
  obtain ⟨n, hpad⟩ := hpad
  rw [form.behindFirst_text, body, if_pos hpadded, hpad,
    behindFirst_append (form.separator_not_mem_digits bytes)]
  cases n with
  | zero => rfl
  | succ n => rfl

end ShareForm

/-! ## The walk -/

variable {v : BitVec 64} {bs : List Byte} {k : Nat}

theorem shareVarintLoop_of_some {p rest : List Byte} {shift : Nat} {w : BitVec 64}
    (h : varintLoop p shift v = (some w, rest)) : shareVarintLoop p shift v = (w, rest) := by
  induction p generalizing shift v with
  | nil => cases h
  | cons b p ih =>
    rw [varintLoop] at h
    rw [shareVarintLoop]
    split
    next htop =>
      rw [if_pos htop] at h
      obtain ⟨hw, rfl⟩ := Prod.mk.inj h
      rw [some.inj hw]
    next htop =>
      rw [if_neg htop] at h
      split at h
      next => cases h
      next => exact ih h

theorem shareVarint_lax (h : IsLaxVarint v bs) (rest : List Byte) :
    shareVarint (bs ++ rest) = (v, rest) :=
  shareVarintLoop_of_some (pbReadVarint_lax h rest)

theorem shareVarintLoop_cut {n : Nat} (h : Groups n bs) (hk : k < bs.length) (shift : Nat)
    (v : BitVec 64) : (shareVarintLoop (bs.take k) shift v).2 = [] := by
  induction h generalizing k shift v with
  | last b hb =>
    obtain rfl : k = 0 := by simpa using hk
    rfl
  | more b hb hbs ih =>
    cases k with
    | zero => rfl
    | succ k =>
      rw [take_succ_cons, shareVarintLoop]
      simp only [topBit_eq_zero_iff, Nat.not_lt.mpr hb, if_false]
      exact ih (by simpa using hk) _ _

theorem shareVarint_cut (h : IsLaxVarint v bs) (hk : k < bs.length) :
    (shareVarint (bs.take k)).2 = [] := by
  obtain ⟨n, hbs, -⟩ := h
  exact shareVarintLoop_cut hbs hk 0 0

theorem shareVarint_bytes {content : List Byte} (h : Value.Complete (.bytes content) bs)
    (rest : List Byte) :
    ∃ l, shareVarint (bs ++ rest) = (l, content ++ rest) ∧ l.toNat = content.length := by
  cases h with
  | bytes hl hlen => exact ⟨_, by rw [append_assoc, shareVarint_lax hl], hlen.symm⟩

theorem shareSkip_complete {v : Value} (h : v.Complete bs) (rest : List Byte) :
    shareSkip (bs ++ rest) (BitVec.ofNat 3 v.wireType) = some rest := by
  cases h with
  | varint hv => simp [shareSkip, Value.wireType, shareVarint_lax hv]
  | fixed64 bs => simp [shareSkip, Value.wireType]
  | bytes hl hlen => simp [shareSkip, Value.wireType, shareVarint_lax hl, ← hlen]
  | fixed32 v => simp [shareSkip, Value.wireType, leBytes]

section Loop

variable {σ : Type} {body : Handler σ} {step : Field → σ → σ}

def Takes (body : Handler σ) (step : Field → σ → σ) : Prop :=
  ∀ (f : Field) (fld : BitVec 32) (val rest : List Byte) (s : σ), fld.toNat = f.number →
    f.value.Complete val → body fld (BitVec.ofNat 3 f.value.wireType) (val ++ rest) s = some (step f s, rest)

theorem shareLoop_nil (body : Handler σ) (fuel : Nat) (s : σ) : shareLoop body fuel [] s = s := by
  cases fuel <;> rfl

variable {bs : List Byte} {fields : List Field}

theorem shareLoop_field (htakes : Takes body step) {f : Field} (hf : f.Complete bs)
    (rest : List Byte) (fuel : Nat) (s : σ) :
    shareLoop body (fuel + 1) (bs ++ rest) s = shareLoop body fuel rest (step f s) := by
  obtain ⟨hlegal, htag, hval⟩ := hf
  rename_i tag val
  obtain ⟨hnum, hwt⟩ := tag_split hlegal
  have hne : tag ++ (val ++ rest) ≠ [] := by
    have hpos := htag.length_pos
    exact append_ne_nil_of_left_ne_nil (ne_nil_of_length_pos hpos) _
  rw [append_assoc, shareLoop, if_neg hne, shareVarint_lax htag]
  dsimp only
  rw [hwt, htakes f _ val rest s hnum hval]

/-- **Complete messages.** The fields in front are folded. -/
theorem shareLoop_append (htakes : Takes body step) (h : Complete fields bs) (rest : List Byte)
    {fuel : Nat} (hfuel : bs.length + rest.length < fuel) (s : σ) :
    ∃ fuel', rest.length < fuel' ∧ shareLoop body fuel (bs ++ rest) s =
      shareLoop body fuel' rest (fields.foldl (fun s f => step f s) s) := by
  induction h generalizing fuel s with
  | nil => exact ⟨fuel, by simpa using hfuel, rfl⟩
  | @cons f fs bs bs' hf _ ih =>
    obtain ⟨fuel, rfl⟩ : ∃ k, fuel = k + 1 := ⟨fuel - 1, by omega⟩
    have hpos : 0 < bs.length := by
      obtain ⟨-, htag, -⟩ := hf
      rw [length_append]
      exact Nat.add_pos_left htag.length_pos _
    rw [length_append] at hfuel
    rw [append_assoc, shareLoop_field htakes hf, foldl_cons]
    exact ih (by omega) _

theorem shareMessage_complete (htakes : Takes body step) (h : Complete fields bs) (s : σ) :
    shareMessage body bs s = fields.foldl (fun s f => step f s) s := by
  obtain ⟨fuel, -, hloop⟩ := shareLoop_append htakes h []
    (show bs.length + ([] : List Byte).length < bs.length + 1 by simp) s
  rw [append_nil, shareLoop_nil] at hloop
  exact hloop

end Loop

/-! ## Settings, channels, sets -/

def fitting (number limit : Nat) (f : Field) (old : List Byte) : List Byte :=
  match f.value with
  | .bytes content => if f.number = number ∧ content.length ≤ limit then content else old
  | _ => old

def settingsStep (f : Field) (s : SharedSettings) : SharedSettings :=
  ⟨fitting 2 32 f s.psk, fitting 3 31 f s.name⟩

def channelStep (f : Field) (s : SharedSettings) : SharedSettings :=
  match f.value with
  | .bytes content => if f.number = 2 then shareMessage settingsBody content s else s
  | _ => s

def channelSetStep (f : Field) (acc : Keyset × Nat) : Keyset × Nat :=
  match f.value with
  | .bytes content => if f.number = 1 then addShared acc (shareMessage channelBody content {}) else acc
  | _ => acc

variable {content bs : List Byte} {number k : Nat} {ch : SharedChannel} {fields : List Field}

theorem content_at (h : Value.Complete (.bytes content) bs) (rest : List Byte) :
    ∃ l, shareVarint (bs ++ rest) = (l, content ++ rest) ∧ l.toNat = content.length ∧
      ¬(content ++ rest).length < content.length := by
  obtain ⟨l, hread, hl⟩ := shareVarint_bytes h rest
  refine ⟨l, hread, hl, ?_⟩
  rw [length_append]
  omega

theorem settingsBody_takes : Takes settingsBody settingsStep := by
  intro f fld val rest s hfld hval
  have h2 : fld = 2 ↔ f.number = 2 := hfld ▸ toNat_eq_iff fld (by decide)
  have h3 : fld = 3 ↔ f.number = 3 := hfld ▸ toNat_eq_iff fld (by decide)
  obtain ⟨number, value⟩ := f
  cases value with
  | bytes content =>
    obtain ⟨l, hread, hl, hroom⟩ := content_at hval rest
    rw [settingsBody, if_neg (by simp [Value.wireType])]
    simp only [hread, hl, if_neg hroom, take_left, drop_left, h2, h3, settingsStep, fitting,
      Nat.lt_succ_iff]
    by_cases hpsk : number = 2
    · simp [hpsk]
      split <;> rfl
    · by_cases hname : number = 3
      · simp [hname]
        split <;> rfl
      · simp [hpsk, hname]
  | _ =>
    rw [settingsBody, if_pos (by simp [Value.wireType]), shareSkip_complete hval]
    rfl

theorem channelBody_takes : Takes channelBody channelStep := by
  intro f fld val rest s hfld hval
  have h2 : fld = 2 ↔ f.number = 2 := hfld ▸ toNat_eq_iff fld (by decide)
  obtain ⟨number, value⟩ := f
  cases value with
  | bytes content =>
    by_cases hnumber : number = 2
    · obtain ⟨l, hread, hl, hroom⟩ := content_at hval rest
      have hsettings : fld = 2 := h2.mpr hnumber
      rw [channelBody, if_neg (by simp [Value.wireType, hsettings])]
      simp only [hread, hl, if_neg hroom, take_left, drop_left, channelStep, hnumber, if_true]
    · rw [channelBody, if_pos (Or.inl (fun h => hnumber (h2.mp h))), shareSkip_complete hval]
      simp only [map_some, channelStep, hnumber, if_false]
  | _ =>
    rw [channelBody, if_pos (Or.inr (by simp [Value.wireType])), shareSkip_complete hval]
    rfl

theorem channelSetBody_takes : Takes channelSetBody channelSetStep := by
  intro f fld val rest acc hfld hval
  have h1 : fld = 1 ↔ f.number = 1 := hfld ▸ toNat_eq_iff fld (by decide)
  obtain ⟨number, value⟩ := f
  cases value with
  | bytes content =>
    obtain ⟨l, hread, hl, hroom⟩ := content_at hval rest
    rw [channelSetBody, if_pos (by simp [Value.wireType])]
    simp only [hread, hl, if_neg hroom, take_left, drop_left, channelSetStep, ne_eq, ite_not, h1]
  | varint v =>
    cases hval with
    | varint hv => simp [channelSetBody, Value.wireType, shareVarint_lax hv, channelSetStep]
  | fixed64 bs =>
    cases hval with
    | fixed64 => simp [channelSetBody, Value.wireType, channelSetStep]
  | fixed32 v =>
    cases hval with
    | fixed32 => simp [channelSetBody, Value.wireType, channelSetStep, leBytes]

theorem foldl_fieldsAt {σ : Type} {step : Field → σ → σ}
    (hskip : ∀ f s, f.number ≠ number → step f s = s) (fields : List Field) (s : σ) :
    fields.foldl (fun s f => step f s) s = (fieldsAt number fields).foldl (fun s f => step f s) s := by
  induction fields generalizing s with
  | nil => rfl
  | cons f fields ih =>
    rw [foldl_cons, ih, fieldsAt, fieldsAt, filter_cons]
    split
    next => rfl
    next hf => rw [hskip f s (by simpa using hf)]

theorem foldl_settingsStep (fields : List Field) (s : SharedSettings) :
    fields.foldl (fun s f => settingsStep f s) s =
      ⟨fields.foldl (fun psk f => fitting 2 32 f psk) s.psk,
        fields.foldl (fun name f => fitting 3 31 f name) s.name⟩ := by
  induction fields generalizing s with
  | nil => rfl
  | cons f fields ih => exact ih (settingsStep f s)

theorem fitting_of_ne {limit : Nat} (f : Field) (old : List Byte) (h : f.number ≠ number) :
    fitting number limit f old = old := by
  rw [fitting]
  split
  next => exact if_neg fun hf => h hf.1
  next => rfl

theorem shareMessage_settings (h : IsSettings ch content) :
    shareMessage settingsBody content {} = ⟨ch.psk, ch.name⟩ := by
  obtain ⟨fields, hcontent, hpsk, hname⟩ := h
  have hshort : ch.name.length ≤ 31 := Nat.lt_succ_iff.mp ch.name_short
  have hkey : ch.psk.length ≤ 32 := by
    have := ch.psk_length
    omega
  rw [shareMessage_complete settingsBody_takes hcontent, foldl_settingsStep,
    foldl_fieldsAt (fun f psk hf => fitting_of_ne f psk hf) fields, hpsk,
    foldl_fieldsAt (fun f name hf => fitting_of_ne f name hf) fields]
  rcases hname with hname | ⟨hempty, hname⟩
  · rw [hname]
    simp [fitting, hkey, hshort]
  · rw [hname, hempty]
    simp [fitting, hkey]

theorem shareMessage_channel (h : IsChannel ch content) :
    shareMessage channelBody content {} = ⟨ch.psk, ch.name⟩ := by
  obtain ⟨fields, settings, hcontent, hfields, hsettings⟩ := h
  have hskip : ∀ f s, f.number ≠ 2 → channelStep f s = s := by
    intro f s hf
    rw [channelStep]
    split
    next => exact if_neg hf
    next => rfl
  rw [shareMessage_complete channelBody_takes hcontent, foldl_fieldsAt hskip, hfields]
  exact shareMessage_settings hsettings

theorem foldl_channelSetStep {channels : List SharedChannel} (h : IsChannelSet channels fields)
    (acc : Keyset × Nat) : fields.foldl (fun acc f => channelSetStep f acc) acc =
      channels.foldl (fun acc ch => addShared acc ⟨ch.psk, ch.name⟩) acc := by
  have hskip : ∀ f acc, f.number ≠ 1 → channelSetStep f acc = acc := by
    intro f acc hf
    rw [channelSetStep]
    split
    next => exact if_neg hf
    next => rfl
  rw [foldl_fieldsAt hskip]
  have hnumber : ∀ f ∈ fieldsAt 1 fields, f.number = 1 := by
    intro f hf
    simpa using (mem_filter.mp hf).2
  rw [IsChannelSet] at h
  generalize fieldsAt 1 fields = carried at h hnumber
  induction h generalizing acc with
  | nil => rfl
  | @cons ch f channels fields hch _ ih =>
    obtain ⟨content, hvalue, hchannel⟩ := hch
    obtain ⟨hf, hfields⟩ := forall_mem_cons.mp hnumber
    rw [foldl_cons, foldl_cons, ih _ hfields, channelSetStep, hvalue]
    dsimp only
    rw [if_pos hf, shareMessage_channel hchannel]

/-! ## A message cut by the end of the buffer -/

def Idles (acc : Keyset × Nat) (result : Option ((Keyset × Nat) × List Byte)) : Prop :=
  result = none ∨ result = some (acc, [])

theorem addShared_empty (acc : Keyset × Nat) : addShared acc (shareMessage channelBody [] {}) = acc := rfl

theorem idles_bytes (fld : BitVec 32) {p : List Byte} (hrest : (shareVarint p).2 = [])
    (acc : Keyset × Nat) : Idles acc (channelSetBody fld 2 p acc) := by
  rw [channelSetBody, if_pos rfl]
  generalize shareVarint p = read at hrest
  obtain ⟨l, rest⟩ := read
  obtain rfl : rest = [] := hrest
  dsimp only
  split
  next => exact .inl rfl
  next =>
    rw [take_nil, drop_nil, addShared_empty, ite_self]
    exact .inr rfl

theorem idles_nil (fld : BitVec 32) (wt : BitVec 3) (acc : Keyset × Nat) :
    Idles acc (channelSetBody fld wt [] acc) := by
  by_cases h2 : wt = 2
  · rw [h2]
    exact idles_bytes fld rfl acc
  · rw [channelSetBody, if_neg h2]
    right
    split_ifs <;> rfl

theorem idles_cut {v : Value} {val : List Byte} (h : v.Complete val) (hk : k < val.length)
    (fld : BitVec 32) (acc : Keyset × Nat) :
    Idles acc (channelSetBody fld (BitVec.ofNat 3 v.wireType) (val.take k) acc) := by
  cases h with
  | varint hv =>
    right
    simp [channelSetBody, Value.wireType, shareVarint_cut hv hk]
  | fixed64 bs =>
    right
    simp only [Vector.length_toList] at hk
    simp [channelSetBody, Value.wireType, hk.le]
  | fixed32 v =>
    right
    have hk : k < 4 := hk
    simp [channelSetBody, Value.wireType, leBytes, hk.le]
  | @bytes l bs content hl hlen =>
    rcases Nat.lt_or_ge k bs.length with hlength | hcontent
    · rw [take_append_of_le_length hlength.le]
      exact idles_bytes fld (shareVarint_cut hl hlength) acc
    · left
      rw [length_append] at hk
      have hshort : (content.take (k - bs.length)).length < l.toNat := by
        rw [length_take]
        omega
      rw [take_append, take_of_length_le hcontent, channelSetBody,
        if_pos (by simp [Value.wireType]), shareVarint_lax hl]
      exact if_pos hshort

theorem shareLoop_cut_field {f : Field} (h : f.Complete bs) (hk : k < bs.length) (fuel : Nat)
    (acc : Keyset × Nat) : shareLoop channelSetBody fuel (bs.take k) acc = acc := by
  obtain ⟨hlegal, htag, hval⟩ := h
  rename_i tag val
  cases fuel with
  | zero => rfl
  | succ fuel =>
    rw [shareLoop]
    split
    next => rfl
    next =>
      rcases Nat.lt_or_ge k tag.length with hcut | hwhole
      · have hrest := shareVarint_cut htag hcut
        rw [take_append_of_le_length hcut.le]
        generalize shareVarint (tag.take k) = read at hrest
        obtain ⟨t, rest⟩ := read
        obtain rfl : rest = [] := hrest
        dsimp only
        rcases idles_nil ((t >>> 3).setWidth 32) (t.setWidth 3) acc with hidle | hidle
        · rw [hidle]
        · rw [hidle]
          exact shareLoop_nil channelSetBody fuel acc
      · rw [length_append] at hk
        rw [take_append, take_of_length_le hwhole, shareVarint_lax htag]
        dsimp only
        rw [(tag_split hlegal).2]
        rcases idles_cut hval (show k - tag.length < val.length by omega)
          ((BitVec.ofNat 64 f.tag >>> 3).setWidth 32) acc with hidle | hidle
        · rw [hidle]
        · rw [hidle]
          exact shareLoop_nil channelSetBody fuel acc

/-- **Cut messages.** The loop adds what the fields in front of the cut give. -/
theorem shareLoop_cut {bytes : List Byte} (h : Complete fields bytes) (n : Nat) {fuel : Nat}
    (hfuel : (bytes.take n).length < fuel) (acc : Keyset × Nat) :
    ∃ front back bs rest, fields = front ++ back ∧ Complete front bs ∧ Complete back rest ∧
      bytes = bs ++ rest ∧ bs.length ≤ n ∧ shareLoop channelSetBody fuel (bytes.take n) acc =
        front.foldl (fun acc f => channelSetStep f acc) acc := by
  induction h generalizing n fuel acc with
  | nil => exact ⟨[], [], [], [], rfl, .nil, .nil, rfl, Nat.zero_le _, by rw [take_nil, shareLoop_nil]; rfl⟩
  | @cons f fs bs rest hf hfs ih =>
    rcases Nat.lt_or_ge n bs.length with hcut | hwhole
    · refine ⟨[], f :: fs, [], bs ++ rest, rfl, .nil, .cons hf hfs, rfl, Nat.zero_le _, ?_⟩
      rw [take_append_of_le_length hcut.le, shareLoop_cut_field hf hcut]
      rfl
    · obtain ⟨fuel, rfl⟩ : ∃ k, fuel = k + 1 := ⟨fuel - 1, by omega⟩
      have hpos : 0 < bs.length := by
        obtain ⟨-, htag, -⟩ := hf
        rw [length_append]
        exact Nat.add_pos_left htag.length_pos _
      rw [take_append, take_of_length_le hwhole, length_append] at hfuel
      obtain ⟨front, back, bs', rest', rfl, hfront, hback, rfl, hlen, hloop⟩ :=
        ih (n - bs.length) (show _ < fuel by omega) (channelSetStep f acc)
      refine ⟨f :: front, back, bs ++ bs', rest', rfl, .cons hf hfront, hback, by simp, ?_, ?_⟩
      · rw [length_append]
        omega
      · rw [take_append, take_of_length_le hwhole, shareLoop_field channelSetBody_takes hf, hloop]
        rfl

/-! ## What is added -/

theorem fieldsAt_append (number : Nat) (front back : List Field) :
    fieldsAt number (front ++ back) = fieldsAt number front ++ fieldsAt number back :=
  filter_append ..

section Import

variable {ks ks' : Keyset} {channels : List SharedChannel} {fields : List Field} {bytes : List Byte}

theorem shareMessage_buffer (hset : IsChannelSet channels fields) (hbytes : Complete fields bytes)
    (acc : Keyset × Nat) :
    ∃ front back, channels = front ++ back ∧ (back = [] → EndsInBuffer fields bytes) ∧
      shareMessage channelSetBody (bytes.take shareBufBytes) acc =
        front.foldl (fun acc ch => addShared acc ⟨ch.psk, ch.name⟩) acc := by
  obtain ⟨front, back, bs, rest, rfl, hfront, hback, rfl, hlen, hloop⟩ :=
    shareLoop_cut hbytes shareBufBytes (Nat.lt_succ_self _) acc
  rw [IsChannelSet, fieldsAt_append] at hset
  refine ⟨channels.take (fieldsAt 1 front).length, channels.drop (fieldsAt 1 front).length,
    (take_append_drop _ _).symm, fun hnone => ?_, ?_⟩
  · have hlater := forall₂_drop_append _ _ _ hset
    rw [hnone, forall₂_nil_left_iff] at hlater
    exact ⟨front, back, bs, rest, rfl, hfront, hback, rfl, hlen, hlater⟩
  · rw [shareMessage, hloop]
    exact foldl_channelSetStep (forall₂_take_append _ _ _ hset) acc

theorem shareMessage_whole (hset : IsChannelSet channels fields) (hends : EndsInBuffer fields bytes)
    (acc : Keyset × Nat) :
    shareMessage channelSetBody (bytes.take shareBufBytes) acc =
      channels.foldl (fun acc ch => addShared acc ⟨ch.psk, ch.name⟩) acc := by
  obtain ⟨front, back, bs, rest, rfl, hfront, hback, rfl, hlen, hnone⟩ := hends
  rw [IsChannelSet, fieldsAt_append, hnone, append_nil] at hset
  rw [shareMessage, take_append, take_of_length_le hlen]
  obtain ⟨fuel, hfuel, hloop⟩ := shareLoop_append channelSetBody_takes hfront
    (rest.take (shareBufBytes - bs.length))
    (show _ < (bs ++ rest.take (shareBufBytes - bs.length)).length + 1 by rw [length_append]; omega) acc
  obtain ⟨front', back', -, -, rfl, -, -, -, -, hcut⟩ := shareLoop_cut hback (shareBufBytes - bs.length)
    hfuel (front.foldl (fun acc f => channelSetStep f acc) acc)
  rw [fieldsAt_append, append_eq_nil_iff] at hnone
  have hidle : IsChannelSet [] front' := by
    rw [IsChannelSet, hnone.1]
    exact .nil
  rw [hloop, hcut, foldl_channelSetStep hidle, foldl_channelSetStep hset]
  rfl

def fullKey : List Byte → List Byte
  | [b] => makeSimplePsk b
  | psk => psk

theorem entries_of_keysetAddPsk {name psk : List Byte} (h : keysetAddPsk ks name psk = some ks') :
    ks'.entries = ks.entries ++ [keysetEntry name (fullKey psk)] := by
  unfold keysetAddPsk at h
  split at h
  next b => exact entries_of_keysetAdd h
  next hne =>
    split at h
    next =>
      rw [fullKey]
      · exact entries_of_keysetAdd h
      · exact hne
    next => cases h

theorem addAll_cons (ch : SharedChannel) :
    addAll ks (ch :: channels) = (keysetAddPsk ks ch.name ch.psk).bind (addAll · channels) := by
  rw [addAll, foldlM_cons]
  rfl

theorem entries_of_addAll (h : addAll ks channels = some ks') :
    ks'.entries = ks.entries ++ channels.map fun ch => keysetEntry ch.name (fullKey ch.psk) := by
  induction channels generalizing ks with
  | nil =>
    obtain rfl := some.inj h
    rw [map_nil, append_nil]
  | cons ch channels ih =>
    rw [addAll_cons] at h
    obtain ⟨ks₁, hadd, hrest⟩ := bind_eq_some_iff.mp h
    rw [ih hrest, entries_of_keysetAddPsk hadd, append_assoc]
    rfl

theorem psk_ne_nil (ch : SharedChannel) : ch.psk ≠ [] := by
  intro hnil
  have := ch.psk_length
  rw [hnil] at this
  simp at this

theorem addShared_channel (acc : Keyset × Nat) (ch : SharedChannel) :
    addShared acc ⟨ch.psk, ch.name⟩ =
      match keysetAddPsk acc.1 (cString ch.name) ch.psk with
      | some ks => (ks, acc.2 + 1)
      | none => acc :=
  if_neg (psk_ne_nil ch)

theorem cString_self {s : List Byte} (h : 0 ∉ s) : cString s = s := by
  have := cString_of_not_mem h []
  rwa [append_nil, show cString [] = [] from rfl, append_nil] at this

theorem foldl_addShared (h : addAll ks channels = some ks') (hnames : ∀ ch ∈ channels, 0 ∉ ch.name)
    (n : Nat) : channels.foldl (fun acc ch => addShared acc ⟨ch.psk, ch.name⟩) (ks, n) =
      (ks', n + channels.length) := by
  induction channels generalizing ks n with
  | nil =>
    obtain rfl := some.inj h
    rfl
  | cons ch channels ih =>
    obtain ⟨hname, hnames⟩ := forall_mem_cons.mp hnames
    rw [addAll_cons] at h
    obtain ⟨ks₁, hadd, hrest⟩ := bind_eq_some_iff.mp h
    rw [foldl_cons, addShared_channel, cString_self hname, hadd]
    dsimp only
    rw [ih hrest hnames, length_cons]
    congr 1
    omega

theorem count_foldl_le (channels : List SharedChannel) (acc : Keyset × Nat) :
    (channels.foldl (fun acc ch => addShared acc ⟨ch.psk, ch.name⟩) acc).2 ≤ acc.2 + channels.length := by
  induction channels generalizing acc with
  | nil => exact le_refl _
  | cons ch channels ih =>
    rw [foldl_cons, length_cons]
    refine (ih _).trans ?_
    have hone : (addShared acc ⟨ch.psk, ch.name⟩).2 ≤ acc.2 + 1 := by
      rw [addShared_channel]
      split
      next => exact le_refl _
      next => exact Nat.le_succ _
    omega

theorem entries_foldl (acc : Keyset × Nat)
    (h : (channels.foldl (fun acc ch => addShared acc ⟨ch.psk, ch.name⟩) acc).2 = acc.2 + channels.length) :
    (channels.foldl (fun acc ch => addShared acc ⟨ch.psk, ch.name⟩) acc).1.entries =
      acc.1.entries ++ channels.map fun ch => keysetEntry (cString ch.name) (fullKey ch.psk) := by
  induction channels generalizing acc with
  | nil => rw [foldl_nil, map_nil, append_nil]
  | cons ch channels ih =>
    rw [foldl_cons, length_cons] at h
    rw [foldl_cons]
    have hle := count_foldl_le channels (addShared acc ⟨ch.psk, ch.name⟩)
    rw [addShared_channel] at h hle ⊢
    cases hadd : keysetAddPsk acc.1 (cString ch.name) ch.psk with
    | none =>
      rw [hadd] at h hle
      dsimp only at h hle
      omega
    | some ks =>
      rw [hadd] at h
      dsimp only at h ⊢
      rw [ih _ (by rw [h]; dsimp only; omega), entries_of_keysetAddPsk hadd, append_assoc]
      rfl

theorem name_of_keysetEntry {ch : SharedChannel}
    (h : keysetEntry (cString ch.name) (fullKey ch.psk) = keysetEntry ch.name (fullKey ch.psk)) :
    0 ∉ ch.name := by
  intro hnul
  have hname := congrArg KeysetEntry.channelName h
  have hshort : ch.name.length ≤ keysetMaxName - 1 := Nat.lt_succ_iff.mp ch.name_short
  have hstored : (keysetEntry ch.name (fullKey ch.psk)).channelName = ch.name := by
    rw [keysetEntry]
    dsimp only
    rw [if_neg (ne_nil_of_mem hnul), take_of_length_le hshort]
  have hclean : 0 ∉ (keysetEntry (cString ch.name) (fullKey ch.psk)).channelName := by
    intro hmem
    rw [keysetEntry] at hmem
    have hmem := mem_of_mem_take hmem
    split at hmem
    next => exact absurd hmem (by decide)
    next => exact absurd (mem_takeWhile_imp hmem) (by decide)
  rw [hname, hstored] at hclean
  exact hclean hnul

end Import

/-- **Import.** For every list of channels that fits the key set and every link that carries them:
the link adds exactly the channels and returns their number if and only if its text has no padding,
it carries a byte at all, its last channel ends within the buffer and no name has a NUL. -/
theorem shareImport_iff (ks : Keyset) (channels : List SharedChannel) (fields : List Field)
    (bytes : List Byte) (hset : IsChannelSet channels fields) (hbytes : Complete fields bytes)
    (hfits : (addAll ks channels).isSome = true) (form : ShareForm) :
    Imports ks channels (form.text bytes) ↔
      (form.padded = true → bytes.length % 3 = 0) ∧ bytes ≠ [] ∧ EndsInBuffer fields bytes ∧
        ∀ ch ∈ channels, 0 ∉ ch.name := by
  obtain ⟨ks', hadd⟩ := isSome_iff_exists.mp hfits
  by_cases hpad : form.padded = true → bytes.length % 3 = 0
  · rw [and_iff_right hpad, Imports, decodeChannelShare, form.shareB64_unpadded bytes hpad]
    dsimp only
    by_cases hnil : bytes = []
    · rw [hnil, take_nil, if_pos rfl]
      refine iff_of_false ?_ fun h => h.1 rfl
      rintro ⟨ks₁, -, hfailed⟩
      cases hfailed
    · have hbuf : bytes.take shareBufBytes ≠ [] := by simp [shareBufBytes, hnil]
      rw [and_iff_right hnil, if_neg hbuf]
      constructor
      · rintro ⟨ks₁, hadd₁, hresult⟩
        obtain rfl := some.inj (hadd.symm.trans hadd₁)
        obtain ⟨hcount, hks⟩ := Prod.mk.inj hresult
        have hcount := some.inj hcount
        obtain ⟨front, back, rfl, hends, hmessage⟩ := shareMessage_buffer hset hbytes (ks, 0)
        rw [hmessage] at hcount hks
        have hle := count_foldl_le front (ks, 0)
        rw [hcount, length_append] at hle
        obtain rfl : back = [] := length_eq_zero_iff.mp (by omega)
        rw [append_nil] at hcount hadd
        have hentries := entries_foldl (ks, 0) (by rw [hcount, Nat.zero_add])
        rw [hks, entries_of_addAll hadd, append_cancel_left_eq] at hentries
        refine ⟨hends rfl, fun ch hch => name_of_keysetEntry ?_⟩
        rw [append_nil] at hch
        exact (map_inj_left.mp hentries ch hch).symm
      · rintro ⟨hends, hnames⟩
        refine ⟨ks', hadd, ?_⟩
        rw [shareMessage_whole hset hends, foldl_addShared hadd hnames, Nat.zero_add]
  · refine iff_of_false ?_ fun h => hpad h.1
    rw [Classical.not_imp] at hpad
    rw [Imports, decodeChannelShare, form.shareB64_padded bytes hpad.1 hpad.2]
    rintro ⟨ks₁, -, hfailed⟩
    cases hfailed

/-! ## One channel -/

def abChannel : SharedChannel where
  name := ascii "ab"
  psk := [1]
  name_short := by decide
  psk_length := Or.inl rfl

def abSettings : List Byte := encode [⟨2, .bytes [1]⟩, ⟨3, .bytes (ascii "ab")⟩]

def abContent : List Byte := encode [⟨2, .bytes abSettings⟩, ⟨3, .varint 1⟩]

def abFields : List Field := [⟨1, .bytes abContent⟩]

def linkForm (padded : Bool) : ShareForm where
  urlAlphabet := true
  padded := padded
  lead := some (ascii "meshtastic.org/e/?")
  lead_noHash := by decide +kernel

theorem abFields_carry : IsChannelSet [abChannel] abFields := by
  have hsettings : IsSettings abChannel abSettings :=
    ⟨_, (encodes_encode (by decide)).complete, rfl, Or.inl rfl⟩
  have hchannel : IsChannel abChannel abContent :=
    ⟨_, abSettings, (encodes_encode (by decide)).complete, rfl, hsettings⟩
  exact .cons ⟨abContent, rfl, hchannel⟩ .nil

theorem abFields_complete : Complete abFields (encode abFields) :=
  (encodes_encode (by decide)).complete

theorem shareImport_iff_unpadded :
    Imports keysetCreate [abChannel] ((linkForm false).text (encode abFields)) := by
  have hends : EndsInBuffer abFields (encode abFields) :=
    ⟨abFields, [], encode abFields, [], (append_nil _).symm, abFields_complete, .nil,
      (append_nil _).symm, by decide +kernel, rfl⟩
  exact (shareImport_iff keysetCreate [abChannel] abFields (encode abFields) abFields_carry
    abFields_complete (by decide +kernel) (linkForm false)).mpr
    ⟨Bool.false_ne_true.elim, by decide +kernel, hends, by decide +kernel⟩

/-- **A padded link.** The same bytes with their padding are refused. -/
theorem share_refuses_padded :
    IsChannelSet [abChannel] abFields ∧ Complete abFields (encode abFields) ∧
      (addAll keysetCreate [abChannel]).isSome = true ∧
      (linkForm true).text (encode abFields) = ascii "meshtastic.org/e/?#CgsSBxIBARoCYWIYAQ==" ∧
      (decodeChannelShare keysetCreate (ascii "meshtastic.org/e/?#CgsSBxIBARoCYWIYAQ==")).1 = none := by
  exact ⟨abFields_carry, abFields_complete, by decide +kernel, by decide +kernel, by decide +kernel⟩

end MeshcoreSniffer.Web
