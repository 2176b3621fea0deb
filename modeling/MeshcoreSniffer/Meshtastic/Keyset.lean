import MeshcoreSniffer.Lib.TextCodes

/-!
# The key set and its specifications

`keyset.c`: the channel keys with their dispatch table, and `keysetParseSpec`, which reads
`[Name=]SPEC`. The forms of `SPEC` overlap: hex digits are base64 digits, and `=` is both separator
and padding.
-/

namespace MeshcoreSniffer.Meshtastic

open Lib List Option

/-! ## Decoders -/

/-- Unlike the one of the recovery scan it refuses what does not fit. -/
def hexDecode (hex : List Byte) (maxOut : Nat) : Option (List Byte) :=
  if hex.length % 2 ≠ 0 then none
  else if maxOut < hex.length / 2 then none
  else hexPairs (hex.length / 2) hex

def b64Value (c : Byte) : Option Nat :=
  if 0x41 ≤ c ∧ c ≤ 0x5A then some (c - 0x41).toNat
  else if 0x61 ≤ c ∧ c ≤ 0x7A then some ((c - 0x61).toNat + 26)
  else if 0x30 ≤ c ∧ c ≤ 0x39 then some ((c - 0x30).toNat + 52)
  else if c = 0x2B ∨ c = 0x2D then some 62
  else if c = 0x2F ∨ c = 0x5F then some 63
  else none

def b64Trimmed (c : Byte) : Bool := c == 0x3D || c == 0x0A || c == 0x0D || c == 0x20

/-- A 32-bit accumulator, pending bits, output so far. -/
def b64Loop (maxOut : Nat) : List Byte → Nat → Nat → List Byte → Option (List Byte)
  | [], _, _, out => some out
  | c :: cs, accum, bits, out =>
    match b64Value c with
    | none => none
    | some v =>
      let accum := (accum <<< 6 ||| v) % 2 ^ 32
      if 8 ≤ bits + 6 then
        if maxOut ≤ out.length then none
        else b64Loop maxOut cs accum (bits + 6 - 8)
          (out ++ [BitVec.ofNat 8 (accum >>> (bits + 6 - 8))])
      else b64Loop maxOut cs accum (bits + 6) out

def b64Decode (b64 : List Byte) (maxOut : Nat) : Option (List Byte) :=
  b64Loop maxOut (b64.rdropWhile b64Trimmed) 0 0 []

/-! ## The key set -/

def keysetMaxEntries : Nat := 64

def keysetMaxName : Nat := 32

def keysetMaxPskBytes : Nat := 32

def bucketSize : Nat := 7

structure KeysetEntry where
  channelName : List Byte
  psk : List Byte
  channelHash : Byte
  deriving DecidableEq

/-- The entries, and for every hash byte the indices filed under it. -/
structure Keyset where
  entries : List KeysetEntry
  buckets : Byte → List Nat
  length_entries : entries.length ≤ keysetMaxEntries
  length_bucket : ∀ hash, (buckets hash).length ≤ bucketSize

def keysetCreate : Keyset where
  entries := []
  buckets := fun _ => []
  length_entries := by decide
  length_bucket := fun _ => by decide

def xorBytes (p : List Byte) : Byte := p.foldl (· ^^^ ·) 0

/-- The entry `keyset_add` fills in; no name or an empty one is the default. -/
def keysetEntry (channelName psk : List Byte) : KeysetEntry :=
  let name := (if channelName = [] then ascii "LongFast" else channelName).take (keysetMaxName - 1)
  { channelName := name, psk := psk, channelHash := xorBytes name ^^^ xorBytes psk }

/-- The count and `bucket_push`, which is the second test and the new bucket. -/
def Keyset.file (k : Keyset) (e : KeysetEntry) : Option Keyset :=
  if hfull : keysetMaxEntries ≤ k.entries.length then none
  else if hbucket : (k.buckets e.channelHash).length < bucketSize then
    some
      { entries := k.entries ++ [e]
        buckets := Function.update k.buckets e.channelHash
          (k.buckets e.channelHash ++ [k.entries.length])
        length_entries := by
          rw [List.length_append, List.length_singleton]
          omega
        length_bucket := by
          intro hash
          by_cases h : hash = e.channelHash
          · rw [h, Function.update_self, List.length_append, List.length_singleton]
            omega
          · rw [Function.update_of_ne h]
            exact k.length_bucket hash }
  else none

def keysetAdd (k : Keyset) (channelName psk : List Byte) : Option Keyset :=
  if psk.length ≠ 0 ∧ psk.length ≠ 16 ∧ psk.length ≠ 32 then none
  else k.file (keysetEntry channelName psk)

def Keyset.HasRoom (k : Keyset) (channelHash : Byte) : Prop :=
  k.entries.length < keysetMaxEntries ∧ (k.buckets channelHash).length < bucketSize

variable {k : Keyset} {e : KeysetEntry} {maxOut v accum bits : Nat} {out key text value : List Byte}
  {b : Byte}

theorem Keyset.file_of_room (h : k.HasRoom e.channelHash) :
    ∃ k', k.file e = some k' ∧ k'.entries = k.entries ++ [e] ∧
      k'.buckets = Function.update k.buckets e.channelHash
        (k.buckets e.channelHash ++ [k.entries.length]) := by
  rw [Keyset.file, dif_neg (not_le.mpr h.1), dif_pos h.2]
  exact ⟨_, rfl, rfl, rfl⟩

theorem Keyset.file_of_full (h : ¬k.HasRoom e.channelHash) : k.file e = none := by
  rw [Keyset.file]
  split
  next => rfl
  next hfull => rw [dif_neg fun hbucket => h ⟨not_le.mp hfull, hbucket⟩]

/-- The hash is given, and an empty name is "(discovered)". -/
def keysetAddRaw (k : Keyset) (channelHash : Byte) (psk displayName : List Byte) : Option Keyset :=
  if psk.length ≠ 0 ∧ psk.length ≠ 16 ∧ psk.length ≠ 32 then none
  else
    let name := (if displayName = [] then ascii "(discovered)" else displayName).take (keysetMaxName - 1)
    k.file { channelName := name, psk := psk, channelHash := channelHash }

def meshDefaultPsk : List Byte :=
  [0xd4, 0xf1, 0xbb, 0x3a, 0x20, 0x29, 0x07, 0x59, 0xf0, 0xbc, 0xff, 0xab, 0xcf, 0x4e, 0x69, 0x01]

def makeSimplePsk (n : Byte) : List Byte := meshDefaultPsk.take 15 ++ [n]

def keysetAddPsk (k : Keyset) (channelName psk : List Byte) : Option Keyset :=
  match psk with
  | [b] => keysetAdd k channelName (makeSimplePsk b)
  | _ =>
    if psk.length = 0 ∨ psk.length = 16 ∨ psk.length = 32 then keysetAdd k channelName psk else none

/-! ## Specifications -/

def meshPresetChannels : List (List Byte) :=
  [ascii "ShortTurbo", ascii "ShortFast", ascii "ShortSlow", ascii "MediumFast", ascii "MediumSlow",
    ascii "LongFast", ascii "LongMod", ascii "LongSlow", ascii "LongTurbo"]

/-- `strtol` stops at its largest value, and the result is cut to an `int`. -/
def atoi (s : List Byte) : Int :=
  let n := (s.takeWhile isDigit).foldl (fun n c => 10 * n + (c - 0x30).toNat) 0
  (BitVec.ofNat 32 (min n (2 ^ 63 - 1))).toInt

def nonEmptyKey (psk : Option (List Byte)) : Option (List Byte) :=
  psk.filter fun key => key ≠ []

/-- The alternatives of `keyset_parse_spec` for the value, in their order. -/
def parsePsk (value : List Byte) : Option (List Byte) :=
  if strcasecmp value (ascii "default") then some (makeSimplePsk 1)
  else if strcasecmp value (ascii "none") ∨ strcasecmp value (ascii "unencrypted") then some []
  else if strncasecmp value (ascii "simple") 6 ∧ isDigit (value.getD 6 0) then
    let n := atoi (value.drop 6)
    if n < 0 ∨ 255 < n then none
    else if n = 0 then some []
    else some (makeSimplePsk (BitVec.ofInt 8 n))
  else if strncasecmp value (ascii "hex:") 4 then
    nonEmptyKey (hexDecode (value.drop 4) keysetMaxPskBytes)
  else if strncasecmp value (ascii "base64:") 7 then
    nonEmptyKey (b64Decode (value.drop 7) keysetMaxPskBytes)
  else
    match nonEmptyKey (b64Decode value keysetMaxPskBytes) with
    | some psk => some psk
    | none => nonEmptyKey (hexDecode value keysetMaxPskBytes)

/-- A preset that does not fit fails the call; the others are added. -/
def addPresets (k : Keyset) : Bool × Keyset :=
  meshPresetChannels.foldl
    (fun (ok, k) name =>
      match keysetAdd k name (makeSimplePsk 1) with
      | some k' => (ok, k')
      | none => (false, k))
    (true, k)

def orRefuse (k : Keyset) : Option Keyset → Bool × Keyset
  | some k' => (true, k')
  | none => (false, k)

/-- Whether it returned 0, and the set after the call. -/
def keysetParseSpec (k : Keyset) (spec : List Byte) : Bool × Keyset :=
  let spec := skipBlanks spec
  if spec = [] then (true, k)
  else
    match spec.findIdx? (· == 0x3D) with
    | none =>
      if strcasecmp spec (ascii "default") then addPresets k
      else orRefuse k ((parsePsk spec).bind (keysetAddPsk k []))
    | some eq =>
      let name := ((spec.take eq).take (keysetMaxName - 1)).rdropWhile isBlank
      orRefuse k ((parsePsk (skipBlanks (spec.drop (eq + 1)))).bind (keysetAddPsk k name))

/-! ## Base64 undone -/

theorem b64Value_digit : ∀ v < 64, b64Value (Base64.digit v) = some v := by
  unfold Base64.digit
  rw [ascii_ofList]
  decide

theorem b64Loop_pending (hv : v < 64) (hbits : bits < 2) (cs out : List Byte) :
    b64Loop maxOut (Base64.digit v :: cs) accum bits out =
      b64Loop maxOut cs ((accum * 64 + v) % 2 ^ 32) (bits + 6) out := by
  have hor : accum <<< 6 ||| v = accum * 64 + v := by
    rw [← Nat.shiftLeft_add_eq_or_of_lt (show v < 2 ^ 6 from hv), Nat.shiftLeft_eq]
  rw [b64Loop, b64Value_digit v hv]
  dsimp only
  rw [hor, if_neg (by omega)]

theorem b64Loop_byte (hv : v < 64) (hbits : 2 ≤ bits) (hroom : out.length < maxOut) (cs : List Byte) :
    b64Loop maxOut (Base64.digit v :: cs) accum bits out =
      b64Loop maxOut cs ((accum * 64 + v) % 2 ^ 32) (bits - 2)
        (out ++ [BitVec.ofNat 8 ((accum * 64 + v) % 2 ^ 32 / 2 ^ (bits - 2))]) := by
  have hor : accum <<< 6 ||| v = accum * 64 + v := by
    rw [← Nat.shiftLeft_add_eq_or_of_lt (show v < 2 ^ 6 from hv), Nat.shiftLeft_eq]
  have hleft : bits + 6 - 8 = bits - 2 := by omega
  rw [b64Loop, b64Value_digit v hv]
  dsimp only
  rw [hor, if_pos (by omega), if_neg (not_le.mpr hroom), hleft, Nat.shiftRight_eq_div_pow]

theorem ofNat_eq_byte {n : Nat} (h : n % 256 = b.toNat) : BitVec.ofNat 8 n = b :=
  BitVec.eq_of_toNat_eq (by rw [BitVec.toNat_ofNat]; exact h)

theorem b64Loop_first {x : Nat} (a : Byte) (hx : x < 16) (accum : Nat) (hroom : out.length < maxOut) :
    ∃ accum', accum' % 16 = x ∧ ∀ cs,
      b64Loop maxOut (Base64.digit (a.toNat / 4) :: Base64.digit (a.toNat % 4 * 16 + x) :: cs)
          accum 0 out =
        b64Loop maxOut cs accum' 4 (out ++ [a]) := by
  have ha := a.isLt
  refine ⟨((accum * 64 + a.toNat / 4) % 2 ^ 32 * 64 + (a.toNat % 4 * 16 + x)) % 2 ^ 32, by omega,
    fun cs => ?_⟩
  rw [b64Loop_pending (by omega) (by omega), b64Loop_byte (by omega) (by omega) hroom,
    ofNat_eq_byte (b := a) (by simp only [Nat.reduceAdd, Nat.reduceSub]; omega)]

theorem b64Loop_second {y : Nat} (hacc : accum % 16 = b.toNat / 16) (hy : y < 4)
    (hroom : out.length < maxOut) : ∃ accum', accum' % 4 = y ∧ ∀ cs,
      b64Loop maxOut (Base64.digit (b.toNat % 16 * 4 + y) :: cs) accum 4 out =
        b64Loop maxOut cs accum' 2 (out ++ [b]) := by
  have hb := b.isLt
  refine ⟨(accum * 64 + (b.toNat % 16 * 4 + y)) % 2 ^ 32, by omega, fun cs => ?_⟩
  rw [b64Loop_byte (by omega) (by omega) hroom,
    ofNat_eq_byte (b := b) (by simp only [Nat.reduceSub]; omega)]

theorem b64Loop_third {c : Byte} (hacc : accum % 4 = c.toNat / 64) (hroom : out.length < maxOut)
    (cs : List Byte) : ∃ accum', b64Loop maxOut (Base64.digit (c.toNat % 64) :: cs) accum 2 out =
      b64Loop maxOut cs accum' 0 (out ++ [c]) := by
  have hc := c.isLt
  refine ⟨(accum * 64 + c.toNat % 64) % 2 ^ 32, ?_⟩
  rw [b64Loop_byte (by omega) (by omega) hroom,
    ofNat_eq_byte (b := c) (by simp only [Nat.reduceSub]; omega)]

theorem b64Loop_encodeBody (maxOut : Nat) (bytes : List Byte) (accum : Nat) (out : List Byte)
    (hroom : out.length + bytes.length ≤ maxOut) :
    b64Loop maxOut (Base64.encodeBody bytes) accum 0 out = some (out ++ bytes) := by
  induction bytes using Base64.encodeBody.induct generalizing accum out with
  | case1 => simp [Base64.encodeBody, b64Loop]
  | case2 a =>
    simp only [length_cons, length_nil] at hroom
    obtain ⟨_, -, hfirst⟩ := b64Loop_first (x := 0) a (by decide) accum (show out.length < maxOut by omega)
    exact hfirst []
  | case3 a b =>
    simp only [length_cons, length_nil] at hroom
    have hb := b.isLt
    obtain ⟨accum₁, hacc, hfirst⟩ := b64Loop_first (x := b.toNat / 16) a (by omega) accum
      (show out.length < maxOut by omega)
    obtain ⟨_, -, hsecond⟩ := b64Loop_second (y := 0) hacc (by decide)
      (show (out ++ [a]).length < maxOut by simp; omega)
    rw [Base64.encodeBody, hfirst]
    refine (hsecond []).trans ?_
    rw [b64Loop, append_assoc]
    rfl
  | case4 a b c rest ih =>
    simp only [length_cons] at hroom
    have hb := b.isLt
    have hc := c.isLt
    obtain ⟨accum₁, hacc, hfirst⟩ := b64Loop_first (x := b.toNat / 16) a (by omega) accum
      (show out.length < maxOut by omega)
    obtain ⟨accum₂, hacc', hsecond⟩ := b64Loop_second (y := c.toNat / 64) hacc (by omega)
      (show (out ++ [a]).length < maxOut by simp; omega)
    obtain ⟨accum₃, hthird⟩ := b64Loop_third hacc'
      (show (out ++ [a] ++ [b]).length < maxOut by simp; omega) (Base64.encodeBody rest)
    rw [Base64.encodeBody, cons_append, cons_append, cons_append, cons_append,
      nil_append, hfirst, hsecond, hthird, ih accum₃ _ (by simp; omega)]
    simp

theorem b64Trimmed_digit : ∀ v < 64, b64Trimmed (Base64.digit v) = false := by
  unfold Base64.digit
  rw [ascii_ofList]
  decide

theorem rdropWhile_append_of {p : Byte → Bool} {l r : List Byte} (hl : ∀ c ∈ l, p c = false)
    (hr : ∀ c ∈ r, p c = true) : (l ++ r).rdropWhile p = l := by
  have hkeep : l.rdropWhile p = l := by
    rw [rdropWhile_eq_self_iff]
    intro hne
    rw [hl _ (getLast_mem hne)]
    exact Bool.false_ne_true
  rw [rdropWhile, reverse_append,
    dropWhile_append_of_pos fun c hc => hr c (mem_reverse.mp hc)]
  exact hkeep

/-- **Base64 round trip.** -/
theorem b64Decode_encode (bytes : List Byte) (hroom : bytes.length ≤ maxOut) :
    b64Decode (Base64.encode bytes) maxOut = some bytes := by
  have htrim : (Base64.encode bytes).rdropWhile b64Trimmed = Base64.encodeBody bytes := by
    refine rdropWhile_append_of (fun c hc => ?_) fun c hc => ?_
    · obtain ⟨v, hv, rfl⟩ := Base64.exists_digit_of_mem hc
      exact b64Trimmed_digit v hv
    · rw [eq_of_mem_replicate hc]
      decide
  rw [b64Decode, htrim, b64Loop_encodeBody maxOut bytes 0 [] (by simpa using hroom), nil_append]

/-! ## Hex read as hex, and as base64 -/

theorem hexDecode_of_hexOf (h : HexOf key text) (hroom : key.length ≤ maxOut) :
    hexDecode text maxOut = some key := by
  have hlen := h.length_eq
  have hhalf : text.length / 2 = key.length := by omega
  rw [hexDecode, if_neg (by omega), if_neg (by omega), hhalf, hexPairs_of_hexOf h]

theorem b64Loop_length (cs : List Byte) (hdigits : ∀ c ∈ cs, (b64Value c).isSome = true)
    (accum : Nat) (hbits : bits < 8) (hout : out.length ≤ maxOut) :
    (b64Loop maxOut cs accum bits out).map length =
      if out.length + (bits + 6 * cs.length) / 8 ≤ maxOut then
        some (out.length + (bits + 6 * cs.length) / 8)
      else none := by
  induction cs generalizing accum bits out with
  | nil =>
    have hbytes : out.length + (bits + 6 * 0) / 8 = out.length := by omega
    rw [b64Loop, map_some, length_nil, hbytes, if_pos hout]
  | cons c cs ih =>
    obtain ⟨v, hv⟩ := isSome_iff_exists.mp (hdigits c mem_cons_self)
    have hrest : ∀ c ∈ cs, (b64Value c).isSome = true :=
      fun c hc => hdigits c (mem_cons_of_mem _ hc)
    rw [b64Loop, hv, length_cons]
    dsimp only
    by_cases hbyte : 8 ≤ bits + 6
    · rw [if_pos hbyte]
      by_cases hfull : maxOut ≤ out.length
      · rw [if_pos hfull, map_none, if_neg (by omega)]
      · have hout' : ∀ b : Byte, (out ++ [b]).length = out.length + 1 := by
          intro b
          rw [length_append, length_singleton]
        have hcount : out.length + 1 + (bits + 6 - 8 + 6 * cs.length) / 8 =
            out.length + (bits + 6 * (cs.length + 1)) / 8 := by omega
        rw [if_neg hfull, ih hrest _ (by omega) (by rw [hout']; omega), hout', hcount]
    · have hcount : bits + 6 + 6 * cs.length = bits + 6 * (cs.length + 1) := by omega
      rw [if_neg hbyte, ih hrest _ (by omega) hout, hcount]

/-- **Hex digits are base64 digits**: of a 16-byte key 24 bytes, of a 32-byte key more than fit. -/
theorem b64Decode_hex (h : HexOf key text) : (b64Decode text keysetMaxPskBytes).map length =
      if key.length * 3 / 2 ≤ keysetMaxPskBytes then some (key.length * 3 / 2) else none := by
  have htrim : text.rdropWhile b64Trimmed = text := by
    have := rdropWhile_append_of (r := []) (h.forall (P := fun c => b64Trimmed c = false) (by decide))
      (by simp)
    rwa [append_nil] at this
  have hdigits : ∀ c ∈ text, (b64Value c).isSome = true := h.forall (by decide)
  have hcount : 0 + (0 + 6 * text.length) / 8 = key.length * 3 / 2 := by
    rw [h.length_eq]
    omega
  rw [b64Decode, htrim, b64Loop_length text hdigits 0 (by decide) (Nat.zero_le _), length_nil,
    hcount]

/-! ## The forms of a specification -/

inductive KeyForm where
  | hex
  | base64
  | bareHex
  | bareBase64

/-- The text spells the key in the form; digits may be of either letter case. -/
inductive Spells (key : List Byte) : KeyForm → List Byte → Prop where
  | hex {text : List Byte} (digits : HexOf key text) : Spells key .hex (ascii "hex:" ++ text)
  | base64 : Spells key .base64 (ascii "base64:" ++ Base64.encode key)
  | bareHex {text : List Byte} (digits : HexOf key text) : Spells key .bareHex text
  | bareBase64 : Spells key .bareBase64 (Base64.encode key)

def named (name : Option (List Byte)) (text : List Byte) : List Byte :=
  match name with
  | none => text
  | some n => n ++ 0x3D :: text

/-- Not empty, shorter than 32 bytes, without `=`, blanks and the separators of a list. -/
def IsChannelName (n : List Byte) : Prop :=
  n ≠ [] ∧ n.length < 32 ∧ ∀ b ∈ n, b ∉ ascii "= \t,;\n" ∧ b ≠ 0

def readsAsSimple (value : List Byte) : Prop :=
  strncasecmp value (ascii "simple") 6 = true ∧ isDigit (value.getD 6 0) = true

/-! ## What the value is read as -/

theorem not_word_of_long (h : 11 < value.length) :
    strcasecmp value (ascii "default") = false ∧ strcasecmp value (ascii "none") = false ∧
      strcasecmp value (ascii "unencrypted") = false := by
  refine ⟨strcasecmp_of_length_ne ?_, strcasecmp_of_length_ne ?_, strcasecmp_of_length_ne ?_⟩
  · rw [show (ascii "default").length = 7 by decide]
    omega
  · rw [show (ascii "none").length = 4 by decide]
    omega
  · rw [show (ascii "unencrypted").length = 11 by decide]
    omega

theorem parsePsk_of_long (h : 11 < value.length) (hsimple : ¬readsAsSimple value) : parsePsk value =
      if strncasecmp value (ascii "hex:") 4 then
        nonEmptyKey (hexDecode (value.drop 4) keysetMaxPskBytes)
      else if strncasecmp value (ascii "base64:") 7 then
        nonEmptyKey (b64Decode (value.drop 7) keysetMaxPskBytes)
      else
        match nonEmptyKey (b64Decode value keysetMaxPskBytes) with
        | some psk => some psk
        | none => nonEmptyKey (hexDecode value keysetMaxPskBytes) := by
  obtain ⟨hdefault, hnone, hplain⟩ := not_word_of_long h
  unfold readsAsSimple at hsimple
  rw [parsePsk, hdefault, hnone, hplain, if_neg Bool.false_ne_true, if_neg (by simp), if_neg hsimple]

theorem nonEmptyKey_some (h : key ≠ []) : nonEmptyKey (some key) = some key := by
  simp [nonEmptyKey, h]

section Forms

variable {key text : List Byte} (hkey : key.length = 16 ∨ key.length = 32)
include hkey

theorem key_ne_nil : key ≠ [] := by
  rintro rfl
  simp at hkey

theorem key_length_le : key.length ≤ keysetMaxPskBytes := by
  unfold keysetMaxPskBytes
  omega

theorem parsePsk_hex (digits : HexOf key text) : parsePsk (ascii "hex:" ++ text) = some key := by
  have hlen := digits.length_eq
  have hlong : 11 < (ascii "hex:" ++ text).length := by
    rw [length_append, hlen]
    omega
  have hsimple : ¬readsAsSimple (ascii "hex:" ++ text) := by
    rintro ⟨hcmp, -⟩
    -- no hex digit is an s
    have htag : ∀ x ∈ ascii "hex:", toLower x ≠ 0x73 := by decide
    have hnot : ∀ x ∈ ascii "hex:" ++ text, toLower x ≠ 0x73 := by
      intro x hx
      rcases mem_append.mp hx with hx | hx
      · exact htag x hx
      · exact digits.forall (P := fun x => toLower x ≠ 0x73) (by decide) x hx
    rw [strncasecmp_of_not_mem 0x73 (by decide) hnot] at hcmp
    cases hcmp
  have hcmp : strncasecmp (ascii "hex:" ++ text) (ascii "hex:") 4 = true := by
    rw [strncasecmp, take_left' (by decide)]
    decide
  rw [parsePsk_of_long hlong hsimple, if_pos hcmp, drop_left' (by decide),
    hexDecode_of_hexOf digits (key_length_le hkey), nonEmptyKey_some (key_ne_nil hkey)]

theorem length_encode : 11 < (Base64.encode key).length := by
  rw [Base64.encode, length_append, Base64.length_encodeBody]
  omega

theorem parsePsk_base64 : parsePsk (ascii "base64:" ++ Base64.encode key) = some key := by
  have hencode := length_encode hkey
  have hlong : 11 < (ascii "base64:" ++ Base64.encode key).length := by
    rw [length_append]
    omega
  have hsimple : ¬readsAsSimple (ascii "base64:" ++ Base64.encode key) := by
    rintro ⟨hcmp, -⟩
    rw [strncasecmp, take_append_of_le_length (by decide)] at hcmp
    exact absurd hcmp (by decide)
  have hhex : ¬strncasecmp (ascii "base64:" ++ Base64.encode key) (ascii "hex:") 4 = true := by
    rw [strncasecmp, take_append_of_le_length (by decide)]
    decide
  have hcmp : strncasecmp (ascii "base64:" ++ Base64.encode key) (ascii "base64:") 7 = true := by
    rw [strncasecmp, take_left' (by decide)]
    decide
  rw [parsePsk_of_long hlong hsimple, if_neg hhex, if_pos hcmp, drop_left' (by decide),
    b64Decode_encode key (key_length_le hkey), nonEmptyKey_some (key_ne_nil hkey)]

theorem parsePsk_bareBase64 (hsimple : ¬readsAsSimple (Base64.encode key)) :
    parsePsk (Base64.encode key) = some key := by
  have hcolon : ∀ x ∈ Base64.encode key, toLower x ≠ 0x3A := by
    have hdigit : ∀ v < 64, toLower (Base64.digit v) ≠ 0x3A := by
      unfold Base64.digit
      rw [ascii_ofList]
      decide
    intro x hx
    rcases mem_append.mp hx with hx | hx
    · obtain ⟨v, hv, rfl⟩ := Base64.exists_digit_of_mem hx
      exact hdigit v hv
    · rw [eq_of_mem_replicate hx]
      decide
  rw [parsePsk_of_long (length_encode hkey) hsimple,
    strncasecmp_of_not_mem 0x3A (by decide) hcolon, strncasecmp_of_not_mem 0x3A (by decide) hcolon,
    if_neg Bool.false_ne_true, if_neg Bool.false_ne_true, b64Decode_encode key (key_length_le hkey),
    nonEmptyKey_some (key_ne_nil hkey)]

theorem parsePsk_bareHex (digits : HexOf key text) :
    parsePsk text =
      match nonEmptyKey (b64Decode text keysetMaxPskBytes) with
      | some psk => some psk
      | none => some key := by
  have hlen := digits.length_eq
  have hnot : ∀ x ∈ text, toLower x ≠ 0x73 ∧ toLower x ≠ 0x3A := digits.forall (by decide)
  have hs : ∀ x ∈ text, toLower x ≠ 0x73 := fun x hx => (hnot x hx).1
  have hcolon : ∀ x ∈ text, toLower x ≠ 0x3A := fun x hx => (hnot x hx).2
  have hsimple : ¬readsAsSimple text := by
    rintro ⟨hcmp, -⟩
    rw [strncasecmp_of_not_mem 0x73 (by decide) hs] at hcmp
    cases hcmp
  rw [parsePsk_of_long (by omega) hsimple, strncasecmp_of_not_mem 0x3A (by decide) hcolon,
    strncasecmp_of_not_mem 0x3A (by decide) hcolon, if_neg Bool.false_ne_true,
    if_neg Bool.false_ne_true, hexDecode_of_hexOf digits (key_length_le hkey),
    nonEmptyKey_some (key_ne_nil hkey)]

theorem parsePsk_bareHex_long (h32 : key.length = 32) (digits : HexOf key text) :
    parsePsk text = some key := by
  have hdecode := b64Decode_hex digits
  rw [h32, if_neg (by decide), map_eq_none_iff] at hdecode
  rw [parsePsk_bareHex hkey digits, hdecode]
  rfl

theorem parsePsk_bareHex_short (h16 : key.length = 16) (digits : HexOf key text) :
    ∃ psk, parsePsk text = some psk ∧ psk.length = 24 := by
  have hdecode := b64Decode_hex digits
  rw [h16, if_pos (by decide), map_eq_some_iff] at hdecode
  obtain ⟨psk, hpsk, hlen⟩ := hdecode
  have hne : psk ≠ [] := by
    rintro rfl
    simp at hlen
  refine ⟨psk, ?_, hlen⟩
  rw [parsePsk_bareHex hkey digits, hpsk, nonEmptyKey_some hne]

theorem ne_of_readsAsSimple (n : Byte) (hsimple : readsAsSimple (Base64.encode key)) :
    makeSimplePsk n ≠ key := by
  rintro rfl
  have hcmp := hsimple.1
  have hfirst : ∃ rest, Base64.encode (makeSimplePsk n) = 0x31 :: rest := by
    simp only [Base64.encode, makeSimplePsk, meshDefaultPsk, take_succ_cons, take_zero,
      cons_append, nil_append, Base64.encodeBody]
    exact ⟨_, rfl⟩
  obtain ⟨rest, hrest⟩ := hfirst
  rw [hrest, strncasecmp, beq_iff_eq] at hcmp
  have hletter : toLower 0x31 = toLower 0x73 := congrArg (fun l => l.getD 0 0) hcmp
  exact absurd hletter (by decide)

theorem parsePsk_simple (hsimple : readsAsSimple (Base64.encode key)) {psk : List Byte}
    (h : parsePsk (Base64.encode key) = some psk) : psk.length ≠ 1 ∧ psk ≠ key := by
  obtain ⟨hdefault, hnone, hplain⟩ := not_word_of_long (length_encode hkey)
  have hbranch : strncasecmp (Base64.encode key) (ascii "simple") 6 = true ∧
      isDigit ((Base64.encode key).getD 6 0) = true := hsimple
  rw [parsePsk, hdefault, hnone, hplain, if_neg Bool.false_ne_true, if_neg (by simp),
    if_pos hbranch] at h
  dsimp only at h
  split_ifs at h with hrange hzero
  · obtain rfl := some.inj h
    exact ⟨by decide, (key_ne_nil hkey).symm⟩
  · obtain rfl := some.inj h
    exact ⟨by simp [makeSimplePsk, meshDefaultPsk], ne_of_readsAsSimple hkey _ hsimple⟩

end Forms

/-! ## Splitting off the name -/

def StartsText (text : List Byte) : Prop := ∃ c rest, text = c :: rest ∧ isBlank c = false

variable {text before n : List Byte} {k : Keyset}

theorem StartsText.skipBlanks_eq (h : StartsText text) : skipBlanks text = text := by
  obtain ⟨c, rest, rfl, hc⟩ := h
  exact skipBlanks_cons hc rest

theorem StartsText.append (h : StartsText text) (rest : List Byte) : StartsText (text ++ rest) := by
  obtain ⟨c, tail, rfl, hc⟩ := h
  exact ⟨c, tail ++ rest, rfl, hc⟩

theorem StartsText.ne_nil (h : StartsText text) : text ≠ [] := by
  obtain ⟨c, rest, rfl, -⟩ := h
  exact cons_ne_nil c rest

theorem keysetParseSpec_split (k : Keyset) {rest : List Byte} (hstart : StartsText before)
    (h : 0x3D ∉ before) : keysetParseSpec k (before ++ 0x3D :: rest) =
      orRefuse k ((parsePsk (skipBlanks rest)).bind
        (keysetAddPsk k ((before.take (keysetMaxName - 1)).rdropWhile isBlank))) := by
  have hskip := (hstart.append (0x3D :: rest)).skipBlanks_eq
  have hne := (hstart.append (0x3D :: rest)).ne_nil
  have hrest : (before ++ 0x3D :: rest).drop (before.length + 1) = rest := by
    rw [append_cons]
    exact drop_left' (by simp)
  unfold keysetParseSpec
  dsimp only
  rw [hskip, if_neg hne, findIdx?_append_cons h]
  dsimp only
  rw [take_left' rfl, hrest]

theorem keysetParseSpec_bare (k : Keyset) (hstart : StartsText text) (h : 0x3D ∉ text)
    (hlong : 11 < text.length) :
    keysetParseSpec k text = orRefuse k ((parsePsk text).bind (keysetAddPsk k [])) := by
  unfold keysetParseSpec
  dsimp only
  rw [hstart.skipBlanks_eq, if_neg hstart.ne_nil, findIdx?_of_not_mem h]
  dsimp only
  rw [(not_word_of_long hlong).1, if_neg Bool.false_ne_true]

theorem IsChannelName.startsText (h : IsChannelName n) : StartsText n := by
  obtain ⟨c, rest, rfl⟩ := exists_cons_of_ne_nil h.1
  refine ⟨c, rest, rfl, ?_⟩
  have hc := (h.2.2 c mem_cons_self).1
  rw [isBlank, Bool.or_eq_false_iff, beq_eq_false_iff_ne, beq_eq_false_iff_ne]
  refine ⟨?_, ?_⟩
  · rintro rfl
    exact hc (by decide)
  · rintro rfl
    exact hc (by decide)

theorem keysetParseSpec_named (k : Keyset) (hn : IsChannelName n) (hstart : StartsText text) :
    keysetParseSpec k (n ++ 0x3D :: text) =
      orRefuse k ((parsePsk text).bind (keysetAddPsk k n)) := by
  have hsep : (0x3D : Byte) ∉ n := by
    intro hmem
    exact (hn.2.2 _ hmem).1 (by decide)
  have hkeep : n.rdropWhile isBlank = n := by
    rw [rdropWhile_eq_self_iff]
    intro hne hblank
    have hlast := (hn.2.2 _ (getLast_mem hne)).1
    rw [isBlank, Bool.or_eq_true, beq_iff_eq, beq_iff_eq] at hblank
    rcases hblank with hspace | htab
    · rw [hspace] at hlast
      exact hlast (by decide)
    · rw [htab] at hlast
      exact hlast (by decide)
  have hshort : n.take (keysetMaxName - 1) = n := by
    refine take_of_length_le ?_
    have := hn.2.1
    simp only [keysetMaxName]
    omega
  rw [keysetParseSpec_split k hn.startsText hsep, hshort, hkeep, hstart.skipBlanks_eq]

theorem keysetParseSpec_padding (k : Keyset) (hstart : StartsText before) (h : 0x3D ∉ before)
    {n : Nat} (hn : n = 1 ∨ n = 2) :
    keysetParseSpec k (before ++ replicate n 0x3D) = (false, k) := by
  have hempty : parsePsk (skipBlanks []) = none := by decide
  have hequals : parsePsk (skipBlanks [0x3D]) = none := by decide
  rcases hn with rfl | rfl
  · rw [replicate_one, keysetParseSpec_split k hstart h, hempty]
    rfl
  · rw [replicate_succ, replicate_one, keysetParseSpec_split k hstart h, hequals]
    rfl

/-! ## Adding the key -/

def AddsEntry (k : Keyset) (spec key channelName : List Byte) : Prop :=
  ∃ k' e, keysetParseSpec k spec = (true, k') ∧ k'.entries = k.entries ++ [e] ∧
    e.psk = key ∧ e.channelName = channelName

def HasPlace (k : Keyset) (channelName key : List Byte) : Prop :=
  (k.buckets (xorBytes channelName ^^^ xorBytes key)).length < bucketSize

def nameOrDefault (name : Option (List Byte)) : List Byte := name.getD (ascii "LongFast")

theorem keysetEntry_name {name : Option (List Byte)} (hname : ∀ n ∈ name, IsChannelName n)
    (key : List Byte) :
    keysetEntry (name.getD []) key =
      { channelName := nameOrDefault name
        psk := key
        channelHash := xorBytes (nameOrDefault name) ^^^ xorBytes key } := by
  have hstored : (if name.getD [] = [] then ascii "LongFast" else name.getD []).take
      (keysetMaxName - 1) = nameOrDefault name := by
    cases name with
    | none => decide
    | some n =>
      have hn := hname n rfl
      rw [getD_some, if_neg hn.1, nameOrDefault, getD_some]
      refine take_of_length_le ?_
      have := hn.2.1
      simp only [keysetMaxName]
      omega
  rw [keysetEntry, hstored]

theorem entries_of_keysetAdd {k' : Keyset} {name psk : List Byte}
    (h : keysetAdd k name psk = some k') : k'.entries = k.entries ++ [keysetEntry name psk] := by
  rw [keysetAdd] at h
  split at h
  next => cases h
  next =>
    by_cases hroom : k.HasRoom (keysetEntry name psk).channelHash
    · obtain ⟨k₁, hfile, hentries, -⟩ := Keyset.file_of_room hroom
      rw [hfile] at h
      obtain rfl := some.inj h
      exact hentries
    · rw [Keyset.file_of_full hroom] at h
      cases h

theorem keysetAdd_isSome {key : List Byte} (name : List Byte)
    (hkey : key.length = 16 ∨ key.length = 32) (hroom : k.entries.length < keysetMaxEntries) :
    (keysetAdd k name key).isSome = true ↔
      (k.buckets (keysetEntry name key).channelHash).length < bucketSize := by
  have hlen : ¬(key.length ≠ 0 ∧ key.length ≠ 16 ∧ key.length ≠ 32) := by omega
  rw [keysetAdd, if_neg hlen, Keyset.file, dif_neg (not_le.mpr hroom)]
  split
  next hplace => simp [hplace]
  next hplace => simp [hplace]

section Added

variable {k : Keyset} {spec value key : List Byte} {name : Option (List Byte)}
  (hparse : keysetParseSpec k spec =
    orRefuse k ((parsePsk value).bind (keysetAddPsk k (name.getD []))))
include hparse

theorem addsEntry_iff (hname : ∀ n ∈ name, IsChannelName n)
    (hkey : key.length = 16 ∨ key.length = 32) (hroom : k.entries.length < keysetMaxEntries)
    (hvalue : parsePsk value = some key) :
    AddsEntry k spec key (nameOrDefault name) ↔ HasPlace k (nameOrDefault name) key := by
  have hadd : keysetAddPsk k (name.getD []) key = keysetAdd k (name.getD []) key := by
    unfold keysetAddPsk
    split
    next => simp at hkey
    next => rw [if_pos (by omega)]
  have hplace := keysetAdd_isSome (name.getD []) hkey hroom
  rw [keysetEntry_name hname] at hplace
  rw [HasPlace, ← hplace]
  rw [hvalue, bind_some, hadd] at hparse
  constructor
  · rintro ⟨k', e, hok, -⟩
    cases hk : keysetAdd k (name.getD []) key with
    | none =>
      rw [hparse, hk] at hok
      cases hok
    | some k'' => rfl
  · intro hsome
    obtain ⟨k', hk⟩ := isSome_iff_exists.mp hsome
    refine ⟨k', _, ?_, entries_of_keysetAdd hk, ?_, ?_⟩
    · rw [hparse, hk]
      rfl
    · rw [keysetEntry_name hname]
    · rw [keysetEntry_name hname]

theorem not_addsEntry (hvalue : ∀ psk, parsePsk value = some psk → psk.length ≠ 1 ∧ psk ≠ key) :
    ¬AddsEntry k spec key (nameOrDefault name) := by
  rintro ⟨k', e, hok, hentries, hpsk, -⟩
  rw [hparse] at hok
  cases hread : parsePsk value with
  | none =>
    rw [hread] at hok
    cases hok
  | some psk =>
    obtain ⟨hone, hne⟩ := hvalue psk hread
    rw [hread, bind_some] at hok
    have hadd : keysetAddPsk k (name.getD []) psk = some k' := by
      cases hk : keysetAddPsk k (name.getD []) psk with
      | none =>
        rw [hk] at hok
        cases hok
      | some k'' =>
        rw [hk] at hok
        exact congrArg some (Prod.mk.inj hok).2
    unfold keysetAddPsk at hadd
    split at hadd
    next => exact hone rfl
    next =>
      split at hadd
      next =>
        have hlast := entries_of_keysetAdd hadd
        rw [hentries, append_cancel_left_eq, singleton_inj] at hlast
        apply hne
        rw [← hpsk, hlast]
        rfl
      next => cases hadd

end Added

/-! ## The forms -/

section Starts

variable {key text : List Byte} (hkey : key.length = 16 ∨ key.length = 32)
include hkey

theorem startsText_hex (digits : HexOf key text) : StartsText text := by
  have hlen := digits.length_eq
  have hblank : ∀ c ∈ text, isBlank c = false := digits.forall (by decide)
  cases text with
  | nil =>
    rw [length_nil] at hlen
    omega
  | cons c rest => exact ⟨c, rest, rfl, hblank c mem_cons_self⟩

theorem startsText_encodeBody : StartsText (Base64.encodeBody key) := by
  have hlen := Base64.length_encodeBody key
  cases hbody : Base64.encodeBody key with
  | nil =>
    rw [hbody, length_nil] at hlen
    omega
  | cons c rest =>
    have hdigit : ∀ v < 64, isBlank (Base64.digit v) = false := by
      unfold Base64.digit
      rw [ascii_ofList]
      decide
    obtain ⟨v, hv, rfl⟩ := Base64.exists_digit_of_mem (hbody ▸ mem_cons_self : c ∈ _)
    exact ⟨_, rest, rfl, hdigit v hv⟩

theorem padding_eq : ∃ n, (n = 1 ∨ n = 2) ∧ Base64.padding key = replicate n 0x3D := by
  refine ⟨(3 - key.length % 3) % 3, ?_, rfl⟩
  omega

end Starts

theorem separator_not_mem_encodeBody (key : List Byte) : 0x3D ∉ Base64.encodeBody key := by
  have hdigit : ∀ v < 64, Base64.digit v ≠ 0x3D := by
    unfold Base64.digit
    rw [ascii_ofList]
    decide
  intro hmem
  obtain ⟨v, hv, heq⟩ := Base64.exists_digit_of_mem hmem
  exact hdigit v hv heq.symm

theorem separator_not_mem_hex {key text : List Byte} (digits : HexOf key text) : 0x3D ∉ text := by
  have hdigit : ∀ c ∈ text, c ≠ 0x3D := digits.forall (by decide)
  intro hmem
  exact hdigit _ hmem rfl

theorem keysetParseSpec_value (k : Keyset) {name : Option (List Byte)}
    (hname : ∀ n ∈ name, IsChannelName n) {text : List Byte} (hstart : StartsText text)
    (hbare : name = none → 0x3D ∉ text ∧ 11 < text.length) :
    keysetParseSpec k (named name text) =
      orRefuse k ((parsePsk text).bind (keysetAddPsk k (name.getD []))) := by
  cases name with
  | none => exact keysetParseSpec_bare k hstart (hbare rfl).1 (hbare rfl).2
  | some n => exact keysetParseSpec_named k (hname n rfl) hstart

/-- A tagged hex text always; a base64 text behind a name, and bare only if it is not taken for a
`simpleN` key; bare hex only of a 32-byte key. -/
def Readable (key : List Byte) (name : Option (List Byte)) : KeyForm → Prop
  | .hex => True
  | .base64 => name.isSome = true
  | .bareHex => key.length = 32
  | .bareBase64 => name.isSome = true ∧ ¬readsAsSimple (Base64.encode key)

theorem not_addsEntry_padded {k : Keyset} {before key name : List Byte}
    (hkey : key.length = 16 ∨ key.length = 32) (hstart : StartsText before) (h : 0x3D ∉ before) :
    ¬AddsEntry k (before ++ Base64.padding key) key name := by
  rintro ⟨k', e, hok, -⟩
  obtain ⟨n, hn, hpad⟩ := padding_eq hkey
  rw [hpad, keysetParseSpec_padding k hstart h hn] at hok
  cases hok

/-- **Which specifications spell their key.** For every key set with a free entry, 16- or 32-byte
key, form and proper name or none: the call adds exactly the key under the name if and only if the
channel's bucket has a place and the form is `Readable`. -/
theorem keysetParseSpec_iff (k : Keyset) (hroom : k.entries.length < keysetMaxEntries)
    (key : List Byte) (hkey : key.length = 16 ∨ key.length = 32)
    (name : Option (List Byte)) (hname : ∀ n ∈ name, IsChannelName n)
    (form : KeyForm) (text : List Byte) (hspells : Spells key form text) :
    AddsEntry k (named name text) key (nameOrDefault name) ↔
      HasPlace k (nameOrDefault name) key ∧ Readable key name form := by
  cases hspells with
  | @hex text digits =>
    have hstart : StartsText (ascii "hex:" ++ text) := ⟨_, _, rfl, by decide⟩
    have hlen := digits.length_eq
    have hparse := keysetParseSpec_value k hname hstart fun _ => by
      rw [mem_append, not_or, length_append]
      exact ⟨⟨by decide, separator_not_mem_hex digits⟩, by omega⟩
    rw [addsEntry_iff hparse hname hkey hroom (parsePsk_hex hkey digits)]
    exact (and_iff_left trivial).symm
  | base64 =>
    have hstart : StartsText (ascii "base64:" ++ Base64.encode key) := ⟨_, _, rfl, by decide⟩
    cases name with
    | none =>
      refine iff_of_false ?_ (fun h => Bool.false_ne_true h.2)
      have hbefore : (0x3D : Byte) ∉ ascii "base64:" ++ Base64.encodeBody key := by
        rw [mem_append, not_or]
        exact ⟨by decide, separator_not_mem_encodeBody key⟩
      rw [named, Base64.encode, ← append_assoc]
      exact not_addsEntry_padded hkey ⟨_, _, rfl, by decide⟩ hbefore
    | some n =>
      have hparse := keysetParseSpec_value k hname hstart (fun h => by cases h)
      rw [addsEntry_iff hparse hname hkey hroom (parsePsk_base64 hkey)]
      exact (and_iff_left rfl).symm
  | bareHex digits =>
    have hlen := digits.length_eq
    have hparse := keysetParseSpec_value k hname (startsText_hex hkey digits)
      fun _ => ⟨separator_not_mem_hex digits, by omega⟩
    rcases hkey with h16 | h32
    · -- read as base64: 24 bytes
      obtain ⟨psk, hpsk, hlen⟩ := parsePsk_bareHex_short (Or.inl h16) h16 digits
      refine iff_of_false (not_addsEntry hparse ?_) ?_
      · intro psk' hpsk'
        obtain rfl := some.inj (hpsk.symm.trans hpsk')
        refine ⟨by omega, ?_⟩
        rintro rfl
        omega
      · rintro ⟨-, h32 : key.length = 32⟩
        omega
    · rw [addsEntry_iff hparse hname (Or.inr h32) hroom (parsePsk_bareHex_long (Or.inr h32) h32 digits)]
      exact (and_iff_left h32).symm
  | bareBase64 =>
    have hstart : StartsText (Base64.encode key) := (startsText_encodeBody hkey).append _
    cases name with
    | none =>
      refine iff_of_false ?_ (fun h => Bool.false_ne_true h.2.1)
      exact not_addsEntry_padded hkey (startsText_encodeBody hkey) (separator_not_mem_encodeBody key)
    | some n =>
      have hparse := keysetParseSpec_value k hname hstart (fun h => by cases h)
      by_cases hsimple : readsAsSimple (Base64.encode key)
      · exact iff_of_false (not_addsEntry hparse fun psk => parsePsk_simple hkey hsimple)
          fun h => h.2.2 hsimple
      · rw [addsEntry_iff hparse hname hkey hroom (parsePsk_bareBase64 hkey hsimple)]
        exact (and_iff_left ⟨rfl, hsimple⟩).symm

instance (n : List Byte) : Decidable (IsChannelName n) :=
  inferInstanceAs (Decidable (n ≠ [] ∧ n.length < 32 ∧ ∀ b ∈ n, b ∉ ascii "= \t,;\n" ∧ b ≠ 0))

theorem keysetParseSpec_iff_named :
    AddsEntry keysetCreate (ascii "Ops=base64:1PG7OiApB1nwvP+rz05pAQ==") meshDefaultPsk
      (ascii "Ops") := by
  have hname : ∀ n ∈ some (ascii "Ops"), IsChannelName n := by
    intro n hn
    obtain rfl := some.inj hn
    decide
  have hspec : ascii "Ops=base64:1PG7OiApB1nwvP+rz05pAQ==" =
      named (some (ascii "Ops")) (ascii "base64:" ++ Base64.encode meshDefaultPsk) := by
    decide +kernel
  rw [hspec]
  exact (keysetParseSpec_iff keysetCreate (by decide) meshDefaultPsk (Or.inl rfl) _ hname .base64 _
    .base64).mpr ⟨Nat.zero_lt_succ _, rfl⟩

/-- **A padded key needs a name.** The documented form `base64:` is refused with padding. -/
theorem keysetParseSpec_refuses_padded :
    Spells meshDefaultPsk .base64 (ascii "base64:1PG7OiApB1nwvP+rz05pAQ==") ∧
      ¬AddsEntry keysetCreate (ascii "base64:1PG7OiApB1nwvP+rz05pAQ==") meshDefaultPsk
        (ascii "LongFast") := by
  have hencode : ascii "base64:1PG7OiApB1nwvP+rz05pAQ==" =
      ascii "base64:" ++ Base64.encode meshDefaultPsk := by
    decide +kernel
  have hrefused : (keysetParseSpec keysetCreate (ascii "base64:1PG7OiApB1nwvP+rz05pAQ==")).1 =
      false := by
    decide +kernel
  refine ⟨hencode ▸ .base64, ?_⟩
  rintro ⟨k', e, hok, -⟩
  rw [hok] at hrefused
  cases hrefused

end MeshcoreSniffer.Meshtastic
