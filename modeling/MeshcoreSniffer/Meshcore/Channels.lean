import MeshcoreSniffer.Meshcore.GroupText
import MeshcoreSniffer.Lib.KeyedTable
import MeshcoreSniffer.Lib.TextCodes

/-!
# The channel set

`meshcore.c`: how a channel is written, how its secret is decoded, how at most 32 channels are kept,
under the name cut to 31 bytes, and in which order a group frame tries them.
-/

namespace MeshcoreSniffer.Meshcore

open Lib Option

local instance lawfulByte : LawfulBEq Byte := inferInstance

/-- What the channel set takes from its cryptographic library. -/
structure ChannelLib where
  sha256 : List Byte → List Byte
  /-- `EVP_DecodeBlock`; `none` for a negative result. -/
  evpDecodeBlock : List Byte → Option (List Byte)

variable (lib : ChannelLib)

def meshcoreChannelHash (secret : List Byte) : Byte := (lib.sha256 secret).getD 0 0

/-! ## Secrets -/

def channelSecretBytes : Nat := 32

def hexDecode (hex : List Byte) (maxOut : Nat) : Option (List Byte) :=
  if hex.length % 2 ≠ 0 then none
  else if maxOut < hex.length / 2 then none
  else hexPairs (hex.length / 2) hex

def isStrictHex (s : List Byte) : Bool := s.all fun c => (hexNibble c).isSome

def isBase64Char (c : Byte) : Bool :=
  (0x41 ≤ c && c ≤ 0x5A) || (0x61 ≤ c && c ≤ 0x7A) || (0x30 ≤ c && c ≤ 0x39) || c == 0x2B || c == 0x2F

def base64Pad (b64 : List Byte) : Nat :=
  (if b64.getD (b64.length - 1) 0 = 0x3D then 1 else 0) +
    if b64.getD (b64.length - 2) 0 = 0x3D then 1 else 0

def base64Allowed (b64 : List Byte) : Bool :=
  (b64.take (b64.length - 2)).all isBase64Char &&
    (b64.drop (b64.length - 2)).all fun c => isBase64Char c || c == 0x3D

def base64Decode (b64 : List Byte) (maxOut : Nat) : Option (List Byte) :=
  if b64.length = 0 ∨ b64.length % 4 ≠ 0 then none
  else if base64Allowed b64 = false then none
  else if 128 < b64.length / 4 * 3 then none
  else
    match lib.evpDecodeBlock b64 with
    | none => none
    | some bytes =>
      let n := bytes.length - base64Pad b64
      if maxOut < n then none else some (bytes.take n)

def secretLength (n : Nat) : Bool := n == 16 || n == 32

def takenForHex (str : List Byte) : Bool :=
  (str.length == 32 || str.length == 64) && isStrictHex str

/-- The base64 branch of `meshcore_decode_psk`. -/
def decodePskBase64 (str : List Byte) : Option (List Byte) :=
  (base64Decode lib str channelSecretBytes).filter fun secret => secretLength secret.length

def meshcoreDecodePsk (str : List Byte) : Option (List Byte) :=
  if takenForHex str then
    match (hexDecode str channelSecretBytes).filter fun secret => secretLength secret.length with
    | some secret => some secret
    | none => decodePskBase64 lib str
  else decodePskBase64 lib str

/-! ## Additions -/

/-- Both callers cut the name to the 31 bytes the entry has room for, so the name compared is the
name stored. -/
def addChannelLocked (cs : ChannelSet) (ch : Channel) : Option ChannelSet :=
  match cs.entries.findIdx? (·.name == ch.name) with
  | some i => some ⟨cs.entries.set i ch, by rw [List.length_set]; exact cs.length_le⟩
  | none =>
    if h : cs.entries.length < channelMaxEntries then
      some ⟨cs.entries ++ [ch], by rw [List.length_append]; exact h⟩
    else none

def channelNameRoom : Nat := 31

/-- The channel that `name:secret` describes. -/
def specChannel (spec : List Byte) : Option Channel :=
  if 0x3A ∈ spec then
    let name := spec.takeWhile (· != 0x3A)
    (meshcoreDecodePsk lib (spec.drop (name.length + 1))).map fun secret =>
      ⟨name.take channelNameRoom, secret, meshcoreChannelHash lib secret⟩
  else none

/-- `none` for −1. -/
def meshcoreChannelsetAddSpec (cs : ChannelSet) (spec : List Byte) : Option ChannelSet :=
  (specChannel lib spec).bind (addChannelLocked cs)

def defaultPublicSpec : List Byte := ascii "Public:izOH6cXN6mrJ5e26oRXNcg=="

def meshcoreChannelsetAddDefaultPublic (cs : ChannelSet) : Option ChannelSet :=
  meshcoreChannelsetAddSpec lib cs defaultPublicSpec

def meshcoreChannelHashtagSecret (name : List Byte) : List Byte :=
  (lib.sha256 (0x23 :: name.take 32)).take 16

def withoutHash : List Byte → List Byte
  | [] => []
  | c :: rest => if c = 0x23 then rest else c :: rest

def hashtagChannel (name : List Byte) : Option Channel :=
  let tag := withoutHash name
  if tag = [] then none
  else if strcasecmp tag (ascii "public") then specChannel lib defaultPublicSpec
  else
    let secret := meshcoreChannelHashtagSecret lib tag
    some ⟨(0x23 :: tag).take channelNameRoom, secret, meshcoreChannelHash lib secret⟩

def meshcoreChannelsetAddHashtag (cs : ChannelSet) (name : List Byte) : Option ChannelSet :=
  (hashtagChannel lib name).bind (addChannelLocked cs)

/-! ## Lookup -/

/-- One pass of `meshcore_channelset_lookup`: it writes no more than `maxOut`. -/
def lookupPass (wanted : Channel → Bool) (maxOut : Nat) : List (Channel × Nat) → List Nat → List Nat
  | [], out => out
  | (ch, i) :: rest, out =>
    lookupPass wanted maxOut rest
      (if out.length < maxOut ∧ wanted ch = true then out ++ [i] else out)

/-- The indices with that hash, then the others. -/
def meshcoreChannelsetLookup (cs : ChannelSet) (hash : Byte) (maxOut : Nat) : List Nat :=
  lookupPass (·.hash != hash) maxOut cs.entries.zipIdx
    (lookupPass (·.hash == hash) maxOut cs.entries.zipIdx [])

/-! ## What additions do -/

variable {lib}

theorem addChannelLocked_entries (cs : ChannelSet) (ch : Channel) :
    (addChannelLocked cs ch).map (·.entries) =
      KeyedTable.put Channel.name channelMaxEntries cs.entries ch := by
  rw [addChannelLocked, KeyedTable.put]
  simp only [beq_eq_decide]
  cases cs.entries.findIdx? fun y => decide (y.name = ch.name) with
  | some i => rfl
  | none =>
    dsimp only
    split
    next => rfl
    next => rfl

inductive Addition where
  | spec (text : List Byte)
  | hashtag (name : List Byte)
  | defaultPublic

namespace Addition

variable (lib)

def givenName : Addition → List Byte
  | spec text => text.takeWhile (· != 0x3A)
  | hashtag name => name
  | defaultPublic => ascii "Public"

def channel : Addition → Option Channel
  | spec text => specChannel lib text
  | hashtag name => hashtagChannel lib name
  | defaultPublic => specChannel lib defaultPublicSpec

def call (cs : ChannelSet) : Addition → Option ChannelSet
  | spec text => meshcoreChannelsetAddSpec lib cs text
  | hashtag name => meshcoreChannelsetAddHashtag lib cs name
  | defaultPublic => meshcoreChannelsetAddDefaultPublic lib cs

def step (cs : ChannelSet) (op : Addition) : ChannelSet := (op.call lib cs).getD cs

def run (cs : ChannelSet) (ops : List Addition) : ChannelSet := ops.foldl (step lib) cs

variable {lib}

theorem call_eq (cs : ChannelSet) (op : Addition) :
    op.call lib cs = (op.channel lib).bind (addChannelLocked cs) := by
  cases op with
  | spec text => rfl
  | hashtag name => rfl
  | defaultPublic => rfl

theorem call_entries (cs : ChannelSet) {op : Addition} {ch : Channel}
    (hch : op.channel lib = some ch) :
    (op.call lib cs).map (·.entries) = KeyedTable.put Channel.name channelMaxEntries cs.entries ch := by
  rw [call_eq, hch, bind_some, addChannelLocked_entries]

/-- **Step.** A call is refused, or stores a channel as the table does. -/
theorem step_cases (lib : ChannelLib) (cs : ChannelSet) (op : Addition) :
    (op.call lib cs = none ∧ step lib cs op = cs) ∨
    ∃ ch, op.channel lib = some ch ∧ op.call lib cs = some (step lib cs op) ∧
      KeyedTable.put Channel.name channelMaxEntries cs.entries ch = some (step lib cs op).entries := by
  cases hcall : op.call lib cs with
  | none => exact Or.inl ⟨rfl, by rw [step, hcall, getD_none]⟩
  | some cs' =>
    have hstep : step lib cs op = cs' := by rw [step, hcall, getD_some]
    rw [call_eq] at hcall
    obtain ⟨ch, hch, hadd⟩ := bind_eq_some_iff.mp hcall
    have hput := addChannelLocked_entries cs ch
    rw [hadd, map_some] at hput
    exact Or.inr ⟨ch, hch, by rw [hstep], by rw [hstep, hput]⟩

theorem nodup_run {cs : ChannelSet} (hcs : (cs.entries.map Channel.name).Nodup)
    (ops : List Addition) : ((run lib cs ops).entries.map Channel.name).Nodup := by
  induction ops generalizing cs with
  | nil => exact hcs
  | cons op ops ih =>
    apply ih
    rcases step_cases lib cs op with ⟨-, hsame⟩ | ⟨ch, -, -, hput⟩
    · rwa [hsame]
    · exact KeyedTable.nodup_put hcs hput

theorem run_snoc (cs : ChannelSet) (ops : List Addition) (op : Addition) :
    run lib cs (ops ++ [op]) = step lib (run lib cs ops) op := by
  rw [run, List.foldl_append]
  rfl

theorem kept_step_iff {cs : ChannelSet} (hcs : (cs.entries.map Channel.name).Nodup) (op : Addition) :
    cs.entries ⊆ (step lib cs op).entries ↔
      ∀ ch, op.channel lib = some ch → ∀ c ∈ cs.entries, c.name = ch.name → c = ch := by
  cases hch : op.channel lib with
  | none =>
    have hsame : step lib cs op = cs := by
      rw [step, call_eq, hch, bind_none, getD_none]
    simp [hsame]
  | some ch =>
    simp only [some.injEq, forall_eq']
    rcases step_cases lib cs op with ⟨hrefused, hsame⟩ | ⟨ch', hch', -, hput⟩
    · -- refused for want of room: no entry has the name
      have hnone := call_entries cs hch
      rw [hrefused, map_none] at hnone
      rw [hsame]
      refine iff_of_true (List.Subset.refl _) ?_
      intro c hc hname
      obtain ⟨_, _, _, -, -, -, hput⟩ := KeyedTable.put_present channelMaxEntries hc hname
      rw [hput] at hnone
      cases hnone
    · obtain rfl : ch' = ch := some.inj (hch'.symm.trans hch)
      exact KeyedTable.subset_put_iff hcs hput

/-- **Additions.** The stored names are distinct, an addition under a known name replaces that entry
alone, one that finds the set full changes nothing, and every channel is kept exactly as long as no
addition has the stored name of a different one. -/
theorem additions_kept_iff (lib : ChannelLib) (cs : ChannelSet)
    (hcs : (cs.entries.map Channel.name).Nodup) (ops : List Addition) :
    ((run lib cs ops).entries.map Channel.name).Nodup ∧
    (∀ op ch, op.channel lib = some ch →
      ((∃ c ∈ (run lib cs ops).entries, c.name = ch.name) →
        ∃ before old after, (run lib cs ops).entries = before ++ old :: after ∧ old.name = ch.name ∧
          (run lib cs (ops ++ [op])).entries = before ++ ch :: after) ∧
      ((∀ c ∈ (run lib cs ops).entries, c.name ≠ ch.name) →
        channelMaxEntries ≤ (run lib cs ops).entries.length →
          op.call lib (run lib cs ops) = none ∧ run lib cs (ops ++ [op]) = run lib cs ops)) ∧
    ((∀ pre op, pre ++ [op] <+: ops →
        (run lib cs pre).entries ⊆ (run lib cs (pre ++ [op])).entries) ↔
      ∀ pre op ch, pre ++ [op] <+: ops → op.channel lib = some ch →
        ∀ c ∈ (run lib cs pre).entries, c.name = ch.name → c = ch) := by
  refine ⟨nodup_run hcs ops, ?_, ?_⟩
  · intro op ch hch
    have hentries := call_entries (run lib cs ops) hch
    rw [run_snoc]
    constructor
    · rintro ⟨c, hc, hname⟩
      obtain ⟨before, old, after, hrows, hold, -, hput⟩ :=
        KeyedTable.put_present channelMaxEntries hc hname
      rw [hput] at hentries
      obtain ⟨cs', hcall, hcs'⟩ := map_eq_some_iff.mp hentries
      refine ⟨before, old, after, hrows, hold, ?_⟩
      rw [step, hcall, getD_some, hcs']
    · intro habsent hfull
      rw [KeyedTable.put_absent habsent, if_neg (by omega), map_eq_none_iff] at hentries
      exact ⟨hentries, by rw [step, hentries, getD_none]⟩
  · constructor
    · intro hkept pre op ch hpre hch
      have hsub := hkept pre op hpre
      rw [run_snoc] at hsub
      exact (kept_step_iff (nodup_run hcs pre) op).mp hsub ch hch
    · intro hsame pre op hpre
      rw [run_snoc]
      exact (kept_step_iff (nodup_run hcs pre) op).mpr fun ch hch => hsame pre op ch hpre hch

end Addition

def standInLib : ChannelLib := ⟨id, fun _ => none⟩

def emptySet : ChannelSet := ⟨[], Nat.zero_le _⟩

def lyonSet : ChannelSet := ⟨[⟨ascii "#lyon", List.replicate 16 0x4C, 0x4C⟩], by decide⟩

theorem additions_kept_short :
    lyonSet.entries ⊆ (Addition.run standInLib lyonSet [.hashtag (ascii "paris")]).entries := by
  refine (Addition.additions_kept_iff standInLib lyonSet (by decide) [.hashtag (ascii "paris")]).2.2.mpr
    ?_ [] _ (List.prefix_refl _)
  rintro pre op ch ⟨rest, hrest⟩ hch c hc hname
  have hdiffer : ∀ c ∈ lyonSet.entries,
      some c.name ≠ ((Addition.hashtag (ascii "paris")).channel standInLib).map Channel.name := by
    decide +kernel
  cases pre with
  | nil =>
    obtain ⟨rfl, -⟩ := List.cons.inj hrest
    rw [hch, map_some] at hdiffer
    exact absurd (congrArg some hname) (hdiffer c hc)
  | cons first pre =>
    have hlen := congrArg List.length hrest
    simp at hlen

def longSpec (last digit : Byte) : List Byte :=
  List.replicate 31 0x41 ++ [last, 0x3A] ++ List.replicate 32 digit

/-- The second of two long names takes the place of the first, and its secret is gone. -/
theorem additions_overwrite :
    ([Addition.spec (longSpec 0x31 0x30), .spec (longSpec 0x32 0x31)].map Addition.givenName).Nodup ∧
    (Addition.run standInLib emptySet [.spec (longSpec 0x31 0x30)]).entries =
      [⟨List.replicate 31 0x41, List.replicate 16 0x00, 0x00⟩] ∧
    (Addition.run standInLib emptySet
        [.spec (longSpec 0x31 0x30), .spec (longSpec 0x32 0x31)]).entries =
      [⟨List.replicate 31 0x41, List.replicate 16 0x11, 0x11⟩] := by
  decide +kernel

/-! ## Completeness of the lookup -/

def indicesWhere (wanted : Channel → Bool) (l : List (Channel × Nat)) : List Nat :=
  (l.filter fun p => wanted p.1).map Prod.snd

variable {wanted : Channel → Bool} (cs : ChannelSet)

theorem lookupPass_room {maxOut : Nat} {l : List (Channel × Nat)} {out : List Nat}
    (hroom : out.length + (indicesWhere wanted l).length ≤ maxOut) :
    lookupPass wanted maxOut l out = out ++ indicesWhere wanted l := by
  induction l generalizing out with
  | nil => simp [lookupPass, indicesWhere]
  | cons p l ih =>
    obtain ⟨ch, i⟩ := p
    rw [lookupPass]
    by_cases hch : wanted ch = true
    · have hcons : indicesWhere wanted ((ch, i) :: l) = i :: indicesWhere wanted l := by
        simp [indicesWhere, hch]
      rw [hcons, List.length_cons] at hroom
      rw [if_pos ⟨by omega, hch⟩, ih (by rw [List.length_append, List.length_singleton]; omega),
        hcons, List.append_assoc, List.singleton_append]
    · have hcons : indicesWhere wanted ((ch, i) :: l) = indicesWhere wanted l := by
        simp [indicesWhere, hch]
      rw [hcons] at hroom
      rw [if_neg fun h => hch h.2, ih hroom, hcons]

theorem perm_indicesWhere (hash : Byte) : (indicesWhere (·.hash == hash) cs.entries.zipIdx ++
      indicesWhere (·.hash != hash) cs.entries.zipIdx).Perm (List.range cs.entries.length) := by
  have hparts := (List.filter_append_perm (fun p : Channel × Nat => p.1.hash == hash)
    cs.entries.zipIdx).map Prod.snd
  rw [List.map_append, List.zipIdx_map_snd, ← List.range_eq_range'] at hparts
  exact hparts

theorem meshcoreChannelsetLookup_eq (hash : Byte) :
    meshcoreChannelsetLookup cs hash channelMaxEntries =
      indicesWhere (·.hash == hash) cs.entries.zipIdx ++
        indicesWhere (·.hash != hash) cs.entries.zipIdx := by
  have hparts := (perm_indicesWhere cs hash).length_eq
  have hroom := cs.length_le
  rw [List.length_append, List.length_range] at hparts
  have hfirst : lookupPass (·.hash == hash) channelMaxEntries cs.entries.zipIdx [] =
      indicesWhere (·.hash == hash) cs.entries.zipIdx := by
    rw [lookupPass_room (by rw [List.length_nil]; omega), List.nil_append]
  rw [meshcoreChannelsetLookup, hfirst, lookupPass_room (by omega)]

theorem entry_of_mem_indicesWhere {cs : ChannelSet} {i : Nat}
    (h : i ∈ indicesWhere wanted cs.entries.zipIdx) :
    ∃ ch, cs.entries[i]? = some ch ∧ wanted ch = true := by
  obtain ⟨⟨ch, j⟩, hmem, rfl⟩ := List.mem_map.mp h
  obtain ⟨hzip, hwanted⟩ := List.mem_filter.mp hmem
  exact ⟨ch, List.mk_mem_zipIdx_iff_getElem?.mp hzip, hwanted⟩

theorem entries_indicesWhere (wanted : Channel → Bool) :
    (indicesWhere wanted cs.entries.zipIdx).filterMap (cs.entries[·]?) =
      cs.entries.filter wanted := by
  have hfollow : ∀ p ∈ cs.entries.zipIdx.filter (fun p => wanted p.1),
      cs.entries[p.2]? = some p.1 := by
    intro p hp
    exact List.mk_mem_zipIdx_iff_getElem?.mp (List.mem_of_mem_filter hp)
  have hfirst : (cs.entries.zipIdx.filter (wanted ∘ Prod.fst)).map Prod.fst =
      cs.entries.filter wanted := by
    rw [← List.filter_map, List.zipIdx_map_fst]
  calc (indicesWhere wanted cs.entries.zipIdx).filterMap (cs.entries[·]?)
      = (cs.entries.zipIdx.filter fun p => wanted p.1).filterMap fun p => cs.entries[p.2]? := by
        rw [indicesWhere, List.filterMap_map]
        rfl
    _ = (cs.entries.zipIdx.filter fun p => wanted p.1).filterMap (some ∘ Prod.fst) :=
        List.filterMap_congr hfollow
    _ = (cs.entries.zipIdx.filter fun p => wanted p.1).map Prod.fst := by
        rw [List.filterMap_eq_map]
    _ = cs.entries.filter wanted := hfirst

theorem entries_lookup (hash : Byte) :
    (meshcoreChannelsetLookup cs hash channelMaxEntries).filterMap (cs.entries[·]?) =
      cs.lookup hash := by
  rw [meshcoreChannelsetLookup_eq, List.filterMap_append, entries_indicesWhere,
    entries_indicesWhere, cs.lookup_eq]

theorem verify_isSome_iff (c : Crypto) (secret : List Byte) {enc : List Byte}
    (henc : enc.length ≤ maxPacketPayload) :
    (meshcoreVerifyAndDecrypt c secret enc).isSome ↔
      secretLength secret.length = true ∧ AuthenticUnder c secret enc := by
  have hlength : secretLength secret.length = true ↔
      ¬(secret.length ≠ 16 ∧ secret.length ≠ 32) := by
    rw [secretLength, Bool.or_eq_true, beq_iff_eq, beq_iff_eq]
    omega
  rw [hlength, AuthenticUnder, meshcoreVerifyAndDecrypt]
  by_cases hsecret : secret.length ≠ 16 ∧ secret.length ≠ 32
  · simp [hsecret]
  rw [if_neg hsecret]
  by_cases hshort : enc.length < cipherMacSize
  · simp [hshort]
  rw [if_neg hshort]
  by_cases hmac : macOf c secret (enc.drop cipherMacSize) = enc.take cipherMacSize
  · -- the padded ciphertext always fits
    have hfits : ¬maxPacketPayload + cipherBlockSize <
        (enc.drop cipherMacSize ++ List.replicate
          (((enc.drop cipherMacSize).length + cipherBlockSize - 1) / cipherBlockSize * cipherBlockSize -
            (enc.drop cipherMacSize).length) (0 : Byte)).length := by
      rw [List.length_append, List.length_replicate, List.length_drop]
      simp only [cipherBlockSize, cipherMacSize, maxPacketPayload] at *
      omega
    dsimp only
    rw [if_neg (not_not.mpr hmac), if_neg hfits]
    exact iff_of_true rfl ⟨hsecret, not_lt.mp hshort, hmac⟩
  · simp [hmac]

def openWith (c : Crypto) (pkt : Packet) (ch : Channel) : Option (List Byte × Channel) :=
  (meshcoreVerifyAndDecrypt c ch.secret (pkt.payload.drop 1)).map fun plain => (plain, ch)

theorem openWith_isSome_iff (c : Crypto) (pkt : Packet) (ch : Channel) :
    (openWith c pkt ch).isSome ↔ secretLength ch.secret.length = true ∧
      AuthenticUnder c ch.secret (pkt.payload.drop 1) := by
  have hlen : (pkt.payload.drop 1).length ≤ maxPacketPayload := by
    have hle := pkt.payload_le
    rw [List.length_drop]
    omega
  rw [openWith, isSome_map, verify_isSome_iff c ch.secret hlen]

theorem of_openWith {c : Crypto} {pkt : Packet} {ch ch' : Channel} {plain : List Byte}
    (h : openWith c pkt ch = some (plain, ch')) :
    ch' = ch ∧ AuthenticUnder c ch.secret (pkt.payload.drop 1) := by
  obtain ⟨plain', hplain, heq⟩ := map_eq_some_iff.mp h
  exact ⟨(Prod.mk.inj heq).2.symm, authentic_of_verifyAndDecrypt c hplain⟩

theorem grpDecrypt_eq (c : Crypto) (cs : ChannelSet) (pkt : Packet) :
    grpDecrypt c (some cs) pkt =
      ((cs.entries.filter (·.hash == pkt.payload.getD 0 0)).findSome? (openWith c pkt)).or
        ((cs.entries.filter (·.hash != pkt.payload.getD 0 0)).findSome? (openWith c pkt)) := by
  rw [← List.findSome?_append, ← cs.lookup_eq, grpDecrypt]
  split
  next hshort =>
    symm
    rw [List.findSome?_eq_none_iff]
    intro ch _
    cases hopen : openWith c pkt ch with
    | none => rfl
    | some opened =>
      obtain ⟨plain, ch'⟩ := opened
      have hlong := (of_openWith hopen).2.1
      rw [List.length_drop] at hlong
      simp only [cipherMacSize] at hshort hlong
      omega
  next => rfl

/-- **Lookup.** Every index is returned once, the matching ones first: a frame opens exactly if some
channel verifies its code, and then under one with its hash byte if one of those verifies. -/
theorem lookup_complete (cs : ChannelSet) (hash : Byte) (c : Crypto) (pkt : Packet) :
    (meshcoreChannelsetLookup cs hash channelMaxEntries).Perm (List.range cs.entries.length) ∧
    (∃ matching others, meshcoreChannelsetLookup cs hash channelMaxEntries = matching ++ others ∧
      (∀ i ∈ matching, ∃ ch, cs.entries[i]? = some ch ∧ ch.hash = hash) ∧
      ∀ i ∈ others, ∃ ch, cs.entries[i]? = some ch ∧ ch.hash ≠ hash) ∧
    (meshcoreChannelsetLookup cs hash channelMaxEntries).filterMap (cs.entries[·]?) =
      cs.lookup hash ∧
    ((grpDecrypt c (some cs) pkt).isSome ↔
      ∃ ch ∈ cs.entries, secretLength ch.secret.length = true ∧
        AuthenticUnder c ch.secret (pkt.payload.drop 1)) ∧
    ∀ plain ch, grpDecrypt c (some cs) pkt = some (plain, ch) →
      ch ∈ cs.entries ∧ AuthenticUnder c ch.secret (pkt.payload.drop 1) ∧
      ((∃ other ∈ cs.entries, other.hash = pkt.payload.getD 0 0 ∧
          secretLength other.secret.length = true ∧
          AuthenticUnder c other.secret (pkt.payload.drop 1)) →
        ch.hash = pkt.payload.getD 0 0) := by
  refine ⟨?_, ?_, entries_lookup cs hash, ?_, ?_⟩
  · rw [meshcoreChannelsetLookup_eq]
    exact perm_indicesWhere cs hash
  · refine ⟨_, _, meshcoreChannelsetLookup_eq cs hash, ?_, ?_⟩
    · intro i hi
      obtain ⟨ch, hentry, hhash⟩ := entry_of_mem_indicesWhere hi
      exact ⟨ch, hentry, by simpa using hhash⟩
    · intro i hi
      obtain ⟨ch, hentry, hhash⟩ := entry_of_mem_indicesWhere hi
      exact ⟨ch, hentry, by simpa using hhash⟩
  · rw [grpDecrypt_eq, ← List.findSome?_append, ← cs.lookup_eq, List.findSome?_isSome_iff]
    constructor
    · rintro ⟨ch, hmem, hopen⟩
      exact ⟨ch, cs.mem_of_mem_lookup hmem, (openWith_isSome_iff c pkt ch).mp hopen⟩
    · rintro ⟨ch, hmem, hverifies⟩
      exact ⟨ch, cs.mem_lookup _ hmem, (openWith_isSome_iff c pkt ch).mpr hverifies⟩
  · intro plain ch hopened
    rw [grpDecrypt_eq] at hopened
    rcases or_eq_some_iff.mp hopened with hfirst | ⟨hnone, hsecond⟩
    · -- found among the matching channels
      obtain ⟨ch', hmem, hopen⟩ := List.exists_of_findSome?_eq_some hfirst
      obtain ⟨rfl, hmac⟩ := of_openWith hopen
      obtain ⟨hentry, hhash⟩ := List.mem_filter.mp hmem
      exact ⟨hentry, hmac, fun _ => by simpa using hhash⟩
    · obtain ⟨ch', hmem, hopen⟩ := List.exists_of_findSome?_eq_some hsecond
      obtain ⟨rfl, hmac⟩ := of_openWith hopen
      refine ⟨List.mem_of_mem_filter hmem, hmac, ?_⟩
      -- no matching channel opened it
      rintro ⟨other, hother, hhash, hverifies⟩
      have hclosed := List.findSome?_eq_none_iff.mp hnone other
        (List.mem_filter.mpr ⟨hother, by simpa using hhash⟩)
      have hsome := (openWith_isSome_iff c pkt other).mpr hverifies
      rw [hclosed] at hsome
      cases hsome

/-! ## The two notations of a secret -/

/-- Three bytes for four characters, with zero bytes for the padding. -/
def DecodesBase64 (decodeBlock : List Byte → Option (List Byte)) (bytes : List Byte) : Prop :=
  decodeBlock (Base64.encode bytes) =
    some (bytes ++ List.replicate ((3 - bytes.length % 3) % 3) 0)

theorem isBase64Char_digit {v : Nat} (hv : v < 64) :
    isBase64Char (Base64.digit v) = true ∧ Base64.digit v ≠ 0x3D := by
  revert v
  unfold Base64.digit
  rw [ascii_ofList]
  decide

theorem base64_body {bytes : List Byte} {c : Byte} (h : c ∈ Base64.encodeBody bytes) :
    isBase64Char c = true ∧ c ≠ 0x3D := by
  obtain ⟨v, hv, rfl⟩ := Base64.exists_digit_of_mem h
  exact isBase64Char_digit hv

section Secret

variable {secret text : List Byte} (hsecret : secret.length = 16 ∨ secret.length = 32)

include hsecret

theorem filter_secretLength :
    (some secret).filter (fun secret => secretLength secret.length) = some secret := by
  apply filter_some_pos
  rw [secretLength, Bool.or_eq_true, beq_iff_eq, beq_iff_eq]
  exact hsecret

theorem takenForHex_hex (h : HexOf secret text) : takenForHex text = true := by
  have hlen := h.length_eq
  rw [takenForHex, Bool.and_eq_true, Bool.or_eq_true, beq_iff_eq, beq_iff_eq]
  refine ⟨by omega, List.all_eq_true.mpr ?_⟩
  intro c hc
  obtain ⟨v, hv, hdigit⟩ := h.isHexDigit c hc
  rw [hexNibble_of_isHexDigit hv hdigit]
  rfl

theorem decodePsk_hex (h : HexOf secret text) : meshcoreDecodePsk lib text = some secret := by
  have hlen := h.length_eq
  have hhalf : text.length / 2 = secret.length := by omega
  have hhex : hexDecode text channelSecretBytes = some secret := by
    rw [hexDecode, if_neg (by omega), if_neg (by simp only [channelSecretBytes]; omega), hhalf,
      hexPairs_of_hexOf h]
  rw [meshcoreDecodePsk, if_pos (takenForHex_hex hsecret h), hhex, filter_secretLength hsecret]

theorem length_encode_secret :
    (Base64.encodeBody secret).length + (3 - secret.length % 3) % 3 = (Base64.encode secret).length ∧
      ((Base64.encode secret).length = 24 ∧ secret.length = 16 ∨
        (Base64.encode secret).length = 44 ∧ secret.length = 32) := by
  have hbody := Base64.length_encodeBody secret
  have hlen : (Base64.encode secret).length =
      (Base64.encodeBody secret).length + (3 - secret.length % 3) % 3 := by
    rw [Base64.encode, List.length_append, Base64.padding, List.length_replicate]
  omega

theorem takenForHex_base64 : takenForHex (Base64.encode secret) = false := by
  have hlen := (length_encode_secret hsecret).2
  rw [takenForHex, Bool.and_eq_false_iff, Bool.or_eq_false_iff, beq_eq_false_iff_ne,
    beq_eq_false_iff_ne]
  exact Or.inl (by omega)

theorem base64Allowed_encode : base64Allowed (Base64.encode secret) = true := by
  obtain ⟨hsum, hlen⟩ := length_encode_secret hsecret
  rw [base64Allowed, Bool.and_eq_true, List.all_eq_true, List.all_eq_true]
  constructor
  · intro c hc
    rw [Base64.encode, List.take_append_of_le_length (by rw [← Base64.encode]; omega)] at hc
    exact (base64_body (List.mem_of_mem_take hc)).1
  · intro c hc
    rcases List.mem_append.mp (List.mem_of_mem_drop hc) with hbody | hpad
    · rw [(base64_body hbody).1]
      rfl
    · rw [List.eq_of_mem_replicate hpad]
      decide

theorem base64Pad_encode : base64Pad (Base64.encode secret) = (3 - secret.length % 3) % 3 := by
  obtain ⟨hsum, hlen⟩ := length_encode_secret hsecret
  have hbehind : ∀ i, (Base64.encodeBody secret).length ≤ i → i < (Base64.encode secret).length →
      (Base64.encode secret).getD i 0 = 0x3D := by
    intro i hge hlt
    rw [Base64.encode, List.getD_append_right _ _ _ _ hge, Base64.padding, List.getD_replicate]
    omega
  have hbody : ∀ i < (Base64.encodeBody secret).length, (Base64.encode secret).getD i 0 ≠ 0x3D := by
    intro i hlt
    rw [Base64.encode, List.getD_append _ _ _ _ hlt, List.getD_eq_getElem _ _ hlt]
    exact (base64_body (List.getElem_mem hlt)).2
  rw [base64Pad, hbehind _ (by omega) (by omega), if_pos rfl]
  rcases hlen with ⟨hlen, hbytes⟩ | ⟨hlen, hbytes⟩
  · rw [hbehind _ (by omega) (by omega), if_pos rfl, hbytes]
  · rw [if_neg (hbody _ (by omega)), hbytes]

theorem decodePsk_base64 (hlib : DecodesBase64 lib.evpDecodeBlock secret) :
    meshcoreDecodePsk lib (Base64.encode secret) = some secret := by
  obtain ⟨-, hlen⟩ := length_encode_secret hsecret
  have hdecode : base64Decode lib (Base64.encode secret) channelSecretBytes = some secret := by
    rw [base64Decode, if_neg (by omega), if_neg (by simp [base64Allowed_encode hsecret]),
      if_neg (by omega), hlib]
    dsimp only
    rw [base64Pad_encode hsecret, List.length_append, List.length_replicate, Nat.add_sub_cancel,
      if_neg (by simp only [channelSecretBytes]; omega), List.take_left]
  rw [meshcoreDecodePsk, if_neg (by simp [takenForHex_base64 hsecret]), decodePskBase64, hdecode,
    filter_secretLength hsecret]

end Secret

theorem specChannel_of {name text secret : List Byte} (hname : name.length < 32)
    (hcolon : 0x3A ∉ name) (hpsk : meshcoreDecodePsk lib text = some secret) :
    specChannel lib (name ++ 0x3A :: text) =
      some ⟨name, secret, meshcoreChannelHash lib secret⟩ := by
  have hsplit : (name ++ 0x3A :: text).takeWhile (· != 0x3A) = name := by
    rw [List.takeWhile_append_of_pos]
    · simp
    · intro c hc
      simpa using fun heq : c = 0x3A => hcolon (heq ▸ hc)
  have hrest : (name ++ 0x3A :: text).drop (name.length + 1) = text := by
    rw [List.append_cons, List.drop_left' (by simp)]
  rw [specChannel, if_pos (List.mem_append_right _ List.mem_cons_self)]
  dsimp only
  rw [hsplit, hrest, hpsk, map_some, List.take_of_length_le (by rw [channelNameRoom]; omega)]

/-- **Secrets.** A secret of 16 or 32 bytes, in hexadecimal or padded base64 behind a short name, is
stored under that name with exactly its bytes. -/
theorem addSpec_secret (lib : ChannelLib) (cs : ChannelSet)
    (hroom : cs.entries.length < channelMaxEntries) (name secret text : List Byte)
    (hlib : DecodesBase64 lib.evpDecodeBlock secret) (hname : name.length < 32) (hcolon : 0x3A ∉ name)
    (hsecret : secret.length = 16 ∨ secret.length = 32)
    (htext : HexOf secret text ∨ text = Base64.encode secret) :
    (∃ cs', meshcoreChannelsetAddSpec lib cs (name ++ 0x3A :: text) = some cs' ∧
      cs'.entries.find? (fun ch => ch.name = name) =
        some ⟨name, secret, meshcoreChannelHash lib secret⟩) ∧
    (HexOf secret text → takenForHex text = true) ∧
    (text = Base64.encode secret → takenForHex text = false) := by
  have hpsk : meshcoreDecodePsk lib text = some secret := by
    rcases htext with hhex | rfl
    · exact decodePsk_hex hsecret hhex
    · exact decodePsk_base64 hsecret hlib
  refine ⟨?_, takenForHex_hex hsecret, ?_⟩
  · obtain ⟨entries, hput, hfind⟩ := KeyedTable.find?_put Channel.name
      ⟨name, secret, meshcoreChannelHash lib secret⟩ hroom
    rw [← addChannelLocked_entries] at hput
    obtain ⟨cs', hadd, rfl⟩ := map_eq_some_iff.mp hput
    refine ⟨cs', ?_, hfind⟩
    rw [meshcoreChannelsetAddSpec, specChannel_of hname hcolon hpsk, bind_some, hadd]
  · rintro rfl
    exact takenForHex_base64 hsecret

def publicSecret : List Byte :=
  [0x8B, 0x33, 0x87, 0xE9, 0xC5, 0xCD, 0xEA, 0x6A, 0xC9, 0xE5, 0xED, 0xBA, 0xA1, 0x15, 0xCD, 0x72]

/-- The SHA-256 of the public secret, and its base64 text decoded with two bytes of padding. -/
def publicLib : ChannelLib where
  sha256 _ :=
    [0x11, 0x55, 0xF1, 0x87, 0x0F, 0x91, 0x77, 0x86, 0x46, 0x97, 0x2B, 0x7B, 0xDE, 0x74, 0x7D, 0x98,
      0x9C, 0xF9, 0xF9, 0x54, 0x16, 0xB5, 0x08, 0x29, 0x66, 0x60, 0x36, 0x56, 0x33, 0x65, 0x42, 0x4D]
  evpDecodeBlock _ := some (publicSecret ++ [0, 0])

theorem addSpec_secret_public :
    ∃ cs', meshcoreChannelsetAddDefaultPublic publicLib emptySet = some cs' ∧
      cs'.entries.find? (fun ch => ch.name = ascii "Public") =
        some ⟨ascii "Public", publicSecret, 0x11⟩ := by
  have hspec : defaultPublicSpec = ascii "Public" ++ 0x3A :: Base64.encode publicSecret := by
    decide +kernel
  rw [meshcoreChannelsetAddDefaultPublic, hspec]
  exact (addSpec_secret publicLib emptySet (by decide) (ascii "Public") publicSecret _ rfl
    (by decide +kernel) (by decide +kernel) (Or.inl rfl) (Or.inr rfl)).1

end MeshcoreSniffer.Meshcore
