import MeshcoreSniffer.Lib.Blocks
import MeshcoreSniffer.Lib.Search
import MeshcoreSniffer.Meshcore.Decoders

/-!
# Group messages, from sender to event

The sending side of a GRP_TXT message, as `meshcore_packet.c` describes it: zero-padded plaintext,
AES-128-ECB, two bytes of HMAC over the ciphertext. `BlockCipher` is known only by its inverse.
-/

namespace MeshcoreSniffer.Meshcore

open Lib List

/-- The encrypting side of a block cipher whose decrypting side is given. -/
structure BlockCipher (c : Crypto) where
  encrypt : List Byte → List Byte → List Byte
  length_encrypt : ∀ key block, block.length = cipherBlockSize →
    (encrypt key block).length = cipherBlockSize
  decrypt_encrypt : ∀ key block, block.length = cipherBlockSize →
    c.aes128Decrypt key (encrypt key block) = block

section Sender

variable {c : Crypto} (cipher : BlockCipher c)

def ecbEncrypt (key : List Byte) : Nat → List Byte → List Byte
  | 0, _ => []
  | blocks + 1, input =>
    cipher.encrypt key (input.take cipherBlockSize) ++
      ecbEncrypt key blocks (input.drop cipherBlockSize)

def zeroPadded (plain : List Byte) : List Byte :=
  padTo (blockCount cipherBlockSize plain.length * cipherBlockSize) 0 plain

def encryptThenMac (secret plain : List Byte) : List Byte :=
  let ciphertext := ecbEncrypt cipher (secret.take 16) (blockCount cipherBlockSize plain.length)
    (zeroPadded plain)
  (c.hmacSha256 (padTo pubKeySize 0 secret) ciphertext).take cipherMacSize ++ ciphertext

def wrLe32 (v : BitVec 32) : List Byte :=
  [v.setWidth 8, (v >>> 8).setWidth 8, (v >>> 16).setWidth 8, (v >>> 24).setWidth 8]

def groupTextPayload (ch : Channel) (timestamp : BitVec 32) (txtType : Byte) (text : List Byte) :
    List Byte :=
  ch.hash :: encryptThenMac cipher ch.secret (wrLe32 timestamp ++ txtType :: text)

end Sender

/-! ## Decryption undoes encryption -/

section Decrypt

variable {c : Crypto} (cipher : BlockCipher c) (key : List Byte)

omit cipher key in
theorem length_take_block {n : Nat} {plain : List Byte} (h : plain.length = (n + 1) * cipherBlockSize) :
    (plain.take cipherBlockSize).length = cipherBlockSize ∧
      (plain.drop cipherBlockSize).length = n * cipherBlockSize := by
  rw [Nat.succ_mul] at h
  rw [length_take, length_drop]
  omega

theorem length_ecbEncrypt (n : Nat) (plain : List Byte) (hlen : plain.length = n * cipherBlockSize) :
    (ecbEncrypt cipher key n plain).length = n * cipherBlockSize := by
  induction n generalizing plain with
  | zero => simp [ecbEncrypt]
  | succ n ih =>
    obtain ⟨hblock, hrest⟩ := length_take_block hlen
    rw [ecbEncrypt, length_append, cipher.length_encrypt _ _ hblock, ih _ hrest, Nat.succ_mul]
    omega

theorem ecbDecrypt_ecbEncrypt (n : Nat) (plain : List Byte)
    (hlen : plain.length = n * cipherBlockSize) :
    ecbDecrypt c key n (ecbEncrypt cipher key n plain) = plain := by
  induction n generalizing plain with
  | zero =>
    rw [Nat.zero_mul, length_eq_zero_iff] at hlen
    rw [hlen, ecbDecrypt]
  | succ n ih =>
    obtain ⟨hblock, hrest⟩ := length_take_block hlen
    have hfirst := cipher.length_encrypt key _ hblock
    rw [ecbEncrypt, ecbDecrypt, take_left' hfirst, drop_left' hfirst,
      cipher.decrypt_encrypt _ _ hblock, ih _ hrest, take_append_drop]

theorem length_zeroPadded (plain : List Byte) :
    (zeroPadded plain).length = blockCount cipherBlockSize plain.length * cipherBlockSize :=
  length_padTo (le_blockCount_mul _ (by decide))

theorem length_mac (k msg : List Byte) : ((c.hmacSha256 k msg).take cipherMacSize).length = 2 :=
  length_take_of_le (c.two_le_hmac k msg)

theorem length_encryptThenMac (secret plain : List Byte) :
    (encryptThenMac cipher secret plain).length =
      cipherMacSize + blockCount cipherBlockSize plain.length * cipherBlockSize := by
  rw [encryptThenMac, length_append, length_mac,
    length_ecbEncrypt _ _ _ _ (length_zeroPadded plain)]
  rfl

theorem verifyAndDecrypt_of_blocks {secret ciphertext : List Byte} {n : Nat}
    (hsecret : secret.length = 16 ∨ secret.length = 32)
    (hlen : ciphertext.length = n * cipherBlockSize)
    (hfits : n * cipherBlockSize ≤ maxPacketPayload + cipherBlockSize) :
    meshcoreVerifyAndDecrypt c secret (macOf c secret ciphertext ++ ciphertext) =
      some ((ecbDecrypt c (secret.take 16) n ciphertext).take ciphertext.length) := by
  have hmac : (macOf c secret ciphertext).length = cipherMacSize := length_mac _ _
  have hknown : ¬(secret.length ≠ 16 ∧ secret.length ≠ 32) := by omega
  have hlong : ¬(macOf c secret ciphertext ++ ciphertext).length < cipherMacSize := by
    rw [length_append, hmac]
    omega
  have hblocks : (ciphertext.length + cipherBlockSize - 1) / cipherBlockSize = n := by
    rw [hlen]
    simp only [cipherBlockSize]
    omega
  unfold meshcoreVerifyAndDecrypt
  rw [if_neg hknown, if_neg hlong]
  simp only [drop_left' hmac, take_left' hmac, ne_eq, not_true_eq_false, if_false]
  -- whole blocks need no padding
  rw [hblocks, hlen, Nat.sub_self, replicate_zero, append_nil, hlen,
    if_neg (not_lt.mpr hfits)]

/-- **Encrypt-then-MAC is undone.** -/
theorem verifyAndDecrypt_encryptThenMac {secret : List Byte} (plain : List Byte)
    (hsecret : secret.length = 16 ∨ secret.length = 32)
    (hfits : blockCount cipherBlockSize plain.length * cipherBlockSize ≤
      maxPacketPayload + cipherBlockSize) :
    meshcoreVerifyAndDecrypt c secret (encryptThenMac cipher secret plain) =
      some (zeroPadded plain) := by
  have hpad := length_zeroPadded plain
  have hlen := length_ecbEncrypt cipher (secret.take 16) _ _ hpad
  have hdec := ecbDecrypt_ecbEncrypt cipher (secret.take 16) _ _ hpad
  refine (verifyAndDecrypt_of_blocks hsecret hlen hfits).trans ?_
  rw [hdec, hlen, ← hpad, take_length]

end Decrypt

/-! ## Choosing the channel -/

theorem ChannelSet.lookup_eq (cs : ChannelSet) (hash : Byte) :
    cs.lookup hash =
      cs.entries.filter (·.hash == hash) ++ cs.entries.filter (·.hash != hash) := by
  have hall : (cs.entries.filter (·.hash == hash) ++ cs.entries.filter (·.hash != hash)).length ≤
      channelMaxEntries := by
    have hsplit := length_eq_length_filter_add (l := cs.entries) (·.hash == hash)
    rw [length_append]
    exact hsplit.symm.le.trans cs.length_le
  rw [ChannelSet.lookup, take_of_length_le hall]

theorem ChannelSet.mem_lookup {cs : ChannelSet} {ch : Channel} (hash : Byte)
    (h : ch ∈ cs.entries) : ch ∈ cs.lookup hash := by
  rw [cs.lookup_eq, mem_append]
  by_cases hhash : ch.hash = hash
  · exact Or.inl (mem_filter.mpr ⟨h, by simpa using hhash⟩)
  · exact Or.inr (mem_filter.mpr ⟨h, by simpa using hhash⟩)

theorem grpDecrypt_of_unique {c : Crypto} {cs : ChannelSet} {ch : Channel} {pkt : Packet}
    {plain : List Byte} (hlen : 1 + cipherMacSize ≤ pkt.payload.length) (hmem : ch ∈ cs.entries)
    (hdec : meshcoreVerifyAndDecrypt c ch.secret (pkt.payload.drop 1) = some plain)
    (hother : ∀ other ∈ cs.entries, other ≠ ch →
      ¬AuthenticUnder c other.secret (pkt.payload.drop 1)) :
    grpDecrypt c (some cs) pkt = some (plain, ch) := by
  rw [grpDecrypt, if_neg (not_lt.mpr hlen)]
  refine Search.findSome?_of_unique (cs.mem_lookup _ hmem) (by rw [hdec]; rfl) ?_
  intro other hlook hne
  cases hverify : meshcoreVerifyAndDecrypt c other.secret (pkt.payload.drop 1) with
  | none => rfl
  | some plain' =>
    exact absurd (authentic_of_verifyAndDecrypt c hverify)
      (hother other (cs.mem_of_mem_lookup hlook) hne)

/-! ## The message in the event -/

theorem rdLe32_wrLe32 (v : BitVec 32) (rest : List Byte) : rdLe32 (wrLe32 v ++ rest) = v := by
  simp only [rdLe32, wrLe32, cons_append, nil_append, getD_cons_zero,
    getD_cons_succ]
  apply BitVec.eq_of_getLsbD_eq
  intro i hi
  simp only [BitVec.getLsbD_or, BitVec.getLsbD_shiftLeft, BitVec.getLsbD_setWidth,
    BitVec.getLsbD_ushiftRight]
  rcases Nat.lt_or_ge i 8 with h8 | h8
  · simp [hi, h8, show i < 16 by omega, show i < 24 by omega]
  rcases Nat.lt_or_ge i 16 with h16 | h16
  · simp [hi, show ¬i < 8 by omega, h16, show i < 24 by omega, show i - 8 < 8 by omega,
      show i - 8 < 32 by omega, show 8 + (i - 8) = i by omega]
  rcases Nat.lt_or_ge i 24 with h24 | h24
  · simp [hi, show ¬i < 8 by omega, show ¬i < 16 by omega, h24, show ¬i - 8 < 8 by omega,
      show i - 16 < 8 by omega, show i - 16 < 32 by omega, show 16 + (i - 16) = i by omega]
  · simp [hi, show ¬i < 8 by omega, show ¬i < 16 by omega, show ¬i < 24 by omega,
      show ¬i - 8 < 8 by omega, show ¬i - 16 < 8 by omega, show i - 24 < 8 by omega,
      show i - 24 < 32 by omega, show 24 + (i - 24) = i by omega]

theorem copyPrintable_padded {text : List Byte} {max : Nat} (n : Nat) (hnul : 0 ∉ text)
    (hmax : text.length < max) : copyPrintable (text ++ replicate n 0) max = text := by
  have htext : text.takeWhile (· != 0) = text := by
    rw [takeWhile_eq_self_iff]
    intro b hb
    simpa using fun h : b = 0 => hnul (h ▸ hb)
  have hzeros : (replicate (min (max - 1 - text.length) n) (0 : Byte)).takeWhile (· != 0) = [] := by
    cases min (max - 1 - text.length) n <;> rfl
  rw [copyPrintable, take_append, take_of_length_le (by omega), take_replicate,
    takeWhile_append, htext, if_pos rfl, hzeros, append_nil]

section Received

variable {env : Env} (cipher : BlockCipher env.crypto) {ch : Channel} {text : List Byte}

theorem groupTextPayload_fits {timestamp : BitVec 32} {txtType : Byte}
    (hfits : (groupTextPayload cipher ch timestamp txtType text).length ≤ maxPacketPayload) :
    blockCount cipherBlockSize (wrLe32 timestamp ++ txtType :: text).length * cipherBlockSize ≤
      maxPacketPayload - 3 := by
  rw [groupTextPayload, length_cons, length_encryptThenMac] at hfits
  simp only [maxPacketPayload, cipherMacSize] at hfits ⊢
  omega

theorem shiftRight_two_of_le_three : ∀ txtType : Byte, txtType ≤ 3 → txtType >>> 2 = 0 := by
  decide

theorem decodeGrpTxt_of_decrypt {channels : Option ChannelSet} {pkt : Packet} {ev : MeshEvent}
    {timestamp : BitVec 32} {txtType : Byte} {n : Nat}
    (hdec : grpDecrypt env.crypto channels pkt =
      some (wrLe32 timestamp ++ (txtType :: (text ++ replicate n 0)), ch))
    (htype : txtType ≤ 3) (hnul : 0 ∉ text) (hshort : text.length < 256)
    (hname : ch.name.length ≤ 31) :
    ∃ ev', meshcoreDecodeGrpTxt env channels pkt ev = some ev' ∧
      ev'.decrypted = true ∧ ev'.mcTimestamp = timestamp ∧ ev'.mcTxtType = txtType ∧
      ev'.mcText = text ∧ ev'.channelName = ch.name := by
  have hlong : ¬(wrLe32 timestamp ++ (txtType :: (text ++ replicate n 0))).length < 5 := by
    simp [wrLe32]
  have hknown : ¬(wrLe32 timestamp ++ (txtType :: (text ++ replicate n 0))).getD 4 0 >>> 2 ≠ 0 :=
    not_not.mpr (shiftRight_two_of_le_three txtType htype)
  rw [meshcoreDecodeGrpTxt, hdec]
  dsimp only
  rw [if_neg hlong, if_neg hknown]
  refine ⟨_, rfl, rfl, rdLe32_wrLe32 _ _, rfl, copyPrintable_padded n hnul hshort, ?_⟩
  exact take_of_length_le hname

/-- **A group message arrives.** A GRP_TXT frame with an encrypted and authenticated message of
channel `ch` is decoded with the message's timestamp, type and text and the channel's name, provided
that no other key verifies the packet. -/
theorem grpTxt_received (cs : ChannelSet) (radio : Radio) (frame : List Byte) (pkt : Packet)
    (timestamp : BitVec 32) (txtType : Byte)
    (hmem : ch ∈ cs.entries) (hsecret : ch.secret.length = 16 ∨ ch.secret.length = 32)
    (hname : ch.name.length ≤ 31) (htype : txtType ≤ 3) (hnul : 0 ∉ text)
    (hfits : (groupTextPayload cipher ch timestamp txtType text).length ≤ maxPacketPayload)
    (hother : ∀ other ∈ cs.entries, other ≠ ch → ¬AuthenticUnder env.crypto other.secret
      ((groupTextPayload cipher ch timestamp txtType text).drop 1))
    (hparse : meshcorePacketParse frame = some pkt) (hgrp : pkt.payloadType = .grpTxt)
    (hpayload : pkt.payload = groupTextPayload cipher ch timestamp txtType text) :
    ∃ ev, meshcorePacketDecodeWithRadio env (some cs) radio frame = some ev ∧
      ev.decrypted = true ∧ ev.mcTimestamp = timestamp ∧ ev.mcTxtType = txtType ∧
      ev.mcText = text ∧ ev.channelName = ch.name := by
  have hroom := groupTextPayload_fits cipher hfits
  -- the padded plaintext, field by field
  obtain ⟨n, hplain⟩ : ∃ n, zeroPadded (wrLe32 timestamp ++ txtType :: text) =
      wrLe32 timestamp ++ (txtType :: (text ++ replicate n 0)) :=
    ⟨_, by rw [zeroPadded, padTo, append_assoc, cons_append]⟩
  have hdec := verifyAndDecrypt_encryptThenMac cipher
    (wrLe32 timestamp ++ txtType :: text) hsecret (hroom.trans (by decide))
  have hgrpDec : grpDecrypt env.crypto (some cs) pkt =
      some (wrLe32 timestamp ++ (txtType :: (text ++ replicate n 0)), ch) := by
    refine grpDecrypt_of_unique ?_ hmem ?_ (hpayload ▸ hother)
    · rw [hpayload, groupTextPayload, length_cons, length_encryptThenMac]
      omega
    · rw [hpayload, groupTextPayload, drop_one, tail_cons, hdec, hplain]
  have hshort : text.length < 256 := by
    have hcover := le_blockCount_mul (wrLe32 timestamp ++ txtType :: text).length
      (show 0 < cipherBlockSize by decide)
    simp only [length_append, length_cons, maxPacketPayload] at hcover hroom
    omega
  rw [meshcorePacketDecodeWithRadio, hparse, Option.bind_some, decodePayload, hgrp]
  exact decodeGrpTxt_of_decrypt hgrpDec htype hnul hshort hname

end Received

/-- A message "Ann: hi", and its encryption under the key of the public channel. -/
def annPlain : List Byte :=
  [0x00, 0xF1, 0x53, 0x65, 0x00, 0x41, 0x6E, 0x6E, 0x3A, 0x20, 0x68, 0x69, 0, 0, 0, 0]

def annCipher : List Byte :=
  [0x42, 0x3D, 0x48, 0xDE, 0x8B, 0x99, 0xDC, 0x74, 0x02, 0x66, 0x3C, 0xB7, 0x27, 0x6A, 0xE2, 0x23]

def annSwap (block : List Byte) : List Byte :=
  if block = annPlain then annCipher else if block = annCipher then annPlain else block

theorem length_annSwap (block : List Byte) : (annSwap block).length = block.length := by
  unfold annSwap
  split_ifs with hplain hcipher
  · rw [hplain]
    rfl
  · rw [hcipher]
    rfl
  · rfl

theorem annSwap_annSwap (block : List Byte) : annSwap (annSwap block) = block := by
  unfold annSwap
  split_ifs <;> simp_all

def annEnv : Env where
  crypto :=
    { hmacSha256 := fun _ _ =>
        [0x9C, 0xA8, 0x01, 0xAA, 0xE1, 0x5F, 0x40, 0x6E, 0x26, 0x04, 0x7F, 0xE4, 0xC7, 0xA5, 0x98, 0xFA,
          0xEB, 0xDB, 0x5F, 0x8E, 0x6B, 0x4F, 0x62, 0x8E, 0xC6, 0x13, 0x7F, 0x55, 0xAC, 0x66, 0x3A, 0x1C]
      aes128Decrypt := fun _ => annSwap
      ed25519Verify := fun _ _ _ => false
      two_le_hmac := fun _ _ => by simp
      length_aes := fun _ block h => (length_annSwap block).trans h }
  regionResolveFast := fun _ _ _ => none
  lppDecode := fun _ => none

def annBlockCipher : BlockCipher annEnv.crypto where
  encrypt := fun _ => annSwap
  length_encrypt := fun _ block h => (length_annSwap block).trans h
  decrypt_encrypt := fun _ block _ => annSwap_annSwap block

def publicChannel : Channel where
  name := [0x50, 0x75, 0x62, 0x6C, 0x69, 0x63]
  secret :=
    [0x8B, 0x33, 0x87, 0xE9, 0xC5, 0xCD, 0xEA, 0x6A, 0xC9, 0xE5, 0xED, 0xBA, 0xA1, 0x15, 0xCD, 0x72]
  hash := 0x11

def publicSet : ChannelSet where
  entries := [publicChannel]
  length_le := by decide

def annFrame : List Byte := [0x15, 0x00, 0x11, 0x9C, 0xA8] ++ annCipher

theorem grpTxt_received_ann :
    ∃ ev, meshcorePacketDecodeWithRadio annEnv (some publicSet) ⟨7, 8, 1, 62500⟩ annFrame = some ev ∧
      ev.decrypted = true ∧ ev.mcTimestamp = 0x6553F100 ∧ ev.mcTxtType = 0 ∧
      ev.mcText = [0x41, 0x6E, 0x6E, 0x3A, 0x20, 0x68, 0x69] ∧
      ev.channelName = publicChannel.name := by
  obtain ⟨pkt, hparse⟩ := Option.isSome_iff_exists.mp
    (show (meshcorePacketParse annFrame).isSome by decide)
  have hfields : (meshcorePacketParse annFrame).map (fun pkt => (pkt.payloadType, pkt.payload)) =
      some (.grpTxt, groupTextPayload annBlockCipher publicChannel 0x6553F100 0
        [0x41, 0x6E, 0x6E, 0x3A, 0x20, 0x68, 0x69]) := by decide +kernel
  rw [hparse, Option.map_some, Option.some.injEq, Prod.mk.injEq] at hfields
  refine grpTxt_received annBlockCipher publicSet _ annFrame pkt _ _
    (mem_singleton.mpr rfl) (Or.inl rfl) (by decide) (by decide) (by decide)
    (by decide +kernel) ?_ hparse hfields.1 hfields.2
  intro other hmem hne
  exact absurd (mem_singleton.mp hmem) hne

end MeshcoreSniffer.Meshcore
