import MeshcoreSniffer.Meshtastic.Packet

/-!
# The PSK dictionary

`psk_dict.c`: a thread tries the keys of a wordlist on frames the live keys do not open.
`parse_psk_spec` strips a `Name=` and `keyset_parse_spec` strips one again; a failed trial queues
the frame again, and nothing asks whether the key is known.
-/

namespace MeshcoreSniffer.Meshtastic

open Lib Lib.Printf Meshcore List Function Option

/-! ## The wordlist -/

/-- Without a name, up to a line end or a comment, at most 255 bytes, without trailing blanks. -/
def wordlistText (line : List Byte) : List Byte :=
  (((behindFirst 0x3D (skipBlanks line)).takeWhile fun c => c != 0x0A && c != 0x0D && c != 0x23).take
    255).rdropWhile isBlank

def parsePskSpec (line : List Byte) : Option (List Byte) :=
  let buf := wordlistText line
  if buf = [] then none
  else
    match keysetParseSpec keysetCreate buf with
    | (false, _) => none
    | (true, tmp) =>
      match tmp.entries with
      | [] => none
      | e :: _ => if e.psk.length = 0 ∨ keysetMaxPskBytes < e.psk.length then none else some e.psk

def specValue (spec : List Byte) : List Byte := skipBlanks (behindFirst 0x3D (skipBlanks spec))

/-- The key that `keyset_add_psk` stores: one byte stands for a simple key. -/
def expandKey : List Byte → Option (List Byte)
  | [b] => some (makeSimplePsk b)
  | psk => if psk.length = 0 ∨ psk.length = 16 ∨ psk.length = 32 then some psk else none

def spelledKey (value : List Byte) : Option (List Byte) := (parsePsk value).bind expandKey

def Keyset.firstKey (k : Keyset) : Option (List Byte) := k.entries.head?.map (·.psk)

theorem length_makeSimplePsk (b : Byte) : (makeSimplePsk b).length = 16 := rfl

variable {key line name : List Byte}

theorem length_expandKey {psk : List Byte} (h : expandKey psk = some key) :
    key.length = 0 ∨ key.length = 16 ∨ key.length = 32 := by
  unfold expandKey at h
  split at h
  next b =>
    obtain rfl := some.inj h
    exact Or.inr (Or.inl (length_makeSimplePsk b))
  next =>
    split at h
    next hlen =>
      obtain rfl := some.inj h
      exact hlen
    next => cases h

theorem keysetAdd_create (name : List Byte) (h : key.length = 0 ∨ key.length = 16 ∨ key.length = 32) :
    ∃ k, keysetAdd keysetCreate name key = some k ∧ k.firstKey = some key := by
  have hfull : ¬keysetMaxEntries ≤ keysetCreate.entries.length := by decide
  rw [keysetAdd, if_neg (by omega), Keyset.file, dif_neg hfull,
    dif_pos (show (keysetCreate.buckets _).length < bucketSize from Nat.zero_lt_succ 6)]
  exact ⟨_, rfl, rfl⟩

theorem orRefuse_create (name : List Byte) (psk : Option (List Byte)) :
    (orRefuse keysetCreate (psk.bind (keysetAddPsk keysetCreate name))).1 = (psk.bind expandKey).isSome ∧
      (orRefuse keysetCreate (psk.bind (keysetAddPsk keysetCreate name))).2.firstKey =
        psk.bind expandKey := by
  cases psk with
  | none => exact ⟨rfl, rfl⟩
  | some psk =>
    have hadds : ∀ {key}, (key.length = 0 ∨ key.length = 16 ∨ key.length = 32) →
        (orRefuse keysetCreate (keysetAdd keysetCreate name key)).1 = true ∧
          (orRefuse keysetCreate (keysetAdd keysetCreate name key)).2.firstKey = some key := by
      intro key hkey
      obtain ⟨k, hadd, hfirst⟩ := keysetAdd_create name hkey
      rw [hadd]
      exact ⟨rfl, hfirst⟩
    have hother : ∀ {psk : List Byte}, (∀ b, psk ≠ [b]) →
        (orRefuse keysetCreate (keysetAddPsk keysetCreate name psk)).1 = (expandKey psk).isSome ∧
          (orRefuse keysetCreate (keysetAddPsk keysetCreate name psk)).2.firstKey = expandKey psk := by
      intro psk hne
      rw [keysetAddPsk, expandKey]
      · split
        next hlen => exact hadds hlen
        next => exact ⟨rfl, rfl⟩
      · exact hne
      · exact hne
    rw [bind_some, bind_some]
    rcases psk with _ | ⟨b, _ | ⟨c, rest⟩⟩
    · exact hother fun b h => by cases h
    · exact hadds (Or.inr (Or.inl (length_makeSimplePsk b)))
    · exact hother fun b h => by cases h

theorem skipBlanks_skipBlanks (s : List Byte) : skipBlanks (skipBlanks s) = skipBlanks s := by
  rw [skipBlanks, skipBlanks, dropWhile_idempotent]

/-- **Command line.** A text is accepted exactly if its value spells a key, the first of the set. -/
theorem keysetParseSpec_create (spec : List Byte) :
    ((keysetParseSpec keysetCreate spec).1 = true ↔
      skipBlanks spec = [] ∨ (spelledKey (specValue spec)).isSome = true) ∧
    (keysetParseSpec keysetCreate spec).2.firstKey = spelledKey (specValue spec) := by
  have hempty : spelledKey [] = none := by decide
  have hpresets : (addPresets keysetCreate).1 = true ∧
      (addPresets keysetCreate).2.firstKey = some (makeSimplePsk 1) := by decide
  unfold keysetParseSpec specValue behindFirst
  dsimp only
  by_cases hblank : skipBlanks spec = []
  · rw [if_pos hblank, hblank]
    exact ⟨iff_of_true rfl (Or.inl rfl), hempty.symm⟩
  rw [if_neg hblank]
  cases (skipBlanks spec).findIdx? (· == 0x3D) with
  | none =>
    dsimp only
    rw [skipBlanks_skipBlanks, spelledKey]
    by_cases hdefault : strcasecmp (skipBlanks spec) (ascii "default") = true
    · have hkey : parsePsk (skipBlanks spec) = some (makeSimplePsk 1) := by
        rw [parsePsk, if_pos hdefault]
      rw [if_pos hdefault, hkey]
      exact ⟨iff_of_true hpresets.1 (Or.inr rfl), hpresets.2⟩
    · rw [if_neg hdefault]
      obtain ⟨hok, hfirst⟩ := orRefuse_create [] (parsePsk (skipBlanks spec))
      rw [hok]
      simpa [hblank] using hfirst
  | some eq =>
    dsimp only
    obtain ⟨hok, hfirst⟩ := orRefuse_create
      (((skipBlanks spec).take eq |>.take (keysetMaxName - 1)).rdropWhile isBlank)
      (parsePsk (skipBlanks ((skipBlanks spec).drop (eq + 1))))
    rw [spelledKey, hok]
    simpa [hblank] using hfirst

/-- **Wordlist.** The key of a line is what the value of its text spells. -/
theorem parsePskSpec_eq (line : List Byte) :
    parsePskSpec line = nonEmptyKey (spelledKey (specValue (wordlistText line))) := by
  obtain ⟨hok, hfirst⟩ := keysetParseSpec_create (wordlistText line)
  have hempty : spelledKey [] = none := by decide
  rw [parsePskSpec]
  split
  next hbuf =>
    rw [hbuf]
    decide
  next hbuf =>
    generalize hkey : spelledKey (specValue (wordlistText line)) = key at hok hfirst ⊢
    generalize keysetParseSpec keysetCreate (wordlistText line) = parsed at hok hfirst ⊢
    obtain ⟨ok, tmp⟩ := parsed
    dsimp only at hok hfirst
    cases ok with
    | false =>
      cases key with
      | none => rfl
      | some key => cases hok.mpr (Or.inr rfl)
    | true =>
      rw [Keyset.firstKey] at hfirst
      obtain ⟨entries, buckets, _⟩ := tmp
      cases entries with
      | nil =>
        obtain rfl := hfirst
        rfl
      | cons e rest =>
        rw [head?_cons, map_some] at hfirst
        obtain rfl := hfirst
        obtain ⟨psk, -, hexpand⟩ := Option.bind_eq_some_iff.mp hkey
        have hlen := length_expandKey hexpand
        have hmax : ¬keysetMaxPskBytes < e.psk.length := by
          rw [keysetMaxPskBytes]
          omega
        dsimp only
        by_cases hnil : e.psk = []
        · rw [if_pos (Or.inl (length_eq_zero_iff.mpr hnil)), hnil]
          rfl
        · rw [if_neg (by simp [hnil, hmax]), nonEmptyKey_some hnil]

/-- A key the command line takes is the key of the wordlist, and a line it refuses has no key there.
-/
def GrammarAgrees (line : List Byte) : Prop :=
  (∀ key, key ≠ [] → (keysetParseSpec keysetCreate line).1 = true →
    (keysetParseSpec keysetCreate line).2.firstKey = some key → parsePskSpec line = some key) ∧
  ((keysetParseSpec keysetCreate line).1 = false → parsePskSpec line = none)

/-- No second `=`, no line end, no comment, no trailing blank, and within the buffer. -/
structure PlainValue (line : List Byte) : Prop where
  single : 0x3D ∉ behindFirst 0x3D (skipBlanks line)
  inLine : ∀ c ∈ behindFirst 0x3D (skipBlanks line), c ≠ 0x0A ∧ c ≠ 0x0D ∧ c ≠ 0x23
  short : (behindFirst 0x3D (skipBlanks line)).length ≤ 255
  trimmed : (behindFirst 0x3D (skipBlanks line)).rdropWhile isBlank = behindFirst 0x3D (skipBlanks line)

theorem wordlistText_eq {text : List Byte} (hvalue : behindFirst 0x3D (skipBlanks line) = text)
    (hline : ∀ c ∈ text, c ≠ 0x0A ∧ c ≠ 0x0D ∧ c ≠ 0x23) (hshort : text.length ≤ 255)
    (htrim : text.rdropWhile isBlank = text) : wordlistText line = text := by
  have hall : ∀ c ∈ text, (c != 0x0A && c != 0x0D && c != 0x23) = true := by
    intro c hc
    simpa [and_assoc] using hline c hc
  rw [wordlistText, hvalue, takeWhile_eq_self_iff.mpr hall, take_of_length_le hshort, htrim]

theorem PlainValue.specValue_eq (h : PlainValue line) :
    specValue (wordlistText line) = specValue line := by
  have hsep : (0x3D : Byte) ∉ skipBlanks (behindFirst 0x3D (skipBlanks line)) :=
    fun hmem => h.single ((dropWhile_sublist _).mem hmem)
  rw [wordlistText_eq rfl h.inLine h.short h.trimmed, specValue, specValue,
    behindFirst_of_not_mem hsep, skipBlanks_skipBlanks]

theorem grammarAgrees_iff_spelledKey (line : List Byte) :
    GrammarAgrees line ↔ spelledKey (specValue line) = some [] ∨
      nonEmptyKey (spelledKey (specValue (wordlistText line))) = spelledKey (specValue line) := by
  obtain ⟨hok, hfirst⟩ := keysetParseSpec_create line
  have hblank : skipBlanks line = [] →
      spelledKey (specValue line) = none ∧ spelledKey (specValue (wordlistText line)) = none := by
    intro h
    rw [specValue, wordlistText, h]
    decide
  rw [GrammarAgrees, hfirst, hok, parsePskSpec_eq, ← Bool.not_eq_true, hok]
  cases hkey : spelledKey (specValue line) with
  | none =>
    by_cases hline : skipBlanks line = []
    · simp [hline, (hblank hline).2, nonEmptyKey]
    · simp [hline]
  | some key =>
    by_cases hnil : key = []
    · rw [hnil]
      refine iff_of_true ⟨?_, ?_⟩ (Or.inl rfl)
      · intro key hne _ heq
        exact absurd (some.inj heq).symm hne
      · intro hno
        exact absurd (Or.inr rfl) hno
    · refine ⟨fun h => Or.inr (h.1 key hnil (Or.inr rfl) rfl), ?_⟩
      rintro (hempty | heq)
      · exact absurd (some.inj hempty) hnil
      · refine ⟨?_, ?_⟩
        · intro key' _ _ hkey'
          rw [heq, hkey']
        · intro hno
          exact absurd (Or.inr rfl) hno

theorem behindFirst_named (hname : IsChannelName name) (text : List Byte) :
    behindFirst 0x3D (skipBlanks (name ++ 0x3D :: text)) = text := by
  have hsep : (0x3D : Byte) ∉ name := fun hmem => (hname.2.2 _ hmem).1 (by decide)
  rw [(hname.startsText.append _).skipBlanks_eq, behindFirst_append hsep]

theorem spelledKey_padded (hname : IsChannelName name) (hkey : key.length = 16 ∨ key.length = 32) :
    spelledKey (specValue (wordlistText (name ++ 0x3D :: Base64.encode key))) = none := by
  obtain ⟨n, hn, hpad⟩ := padding_eq hkey
  have hstart := startsText_encodeBody hkey
  have hsep := separator_not_mem_encodeBody key
  have hchars : ∀ c ∈ Base64.encode key, c ≠ 0x0A ∧ c ≠ 0x0D ∧ c ≠ 0x23 ∧ isBlank c = false := by
    have hdigit : ∀ v < 64, Base64.digit v ≠ 0x0A ∧ Base64.digit v ≠ 0x0D ∧
        Base64.digit v ≠ 0x23 ∧ isBlank (Base64.digit v) = false := by
      decide +kernel
    intro c hc
    rw [Base64.encode, hpad, mem_append, mem_replicate] at hc
    rcases hc with hbody | ⟨-, rfl⟩
    · obtain ⟨v, hv, rfl⟩ := Base64.exists_digit_of_mem hbody
      exact hdigit v hv
    · decide
  have hlen : (Base64.encode key).length ≤ 255 := by
    rw [Base64.encode, hpad, length_append, length_replicate, Base64.length_encodeBody]
    omega
  have htrim : (Base64.encode key).rdropWhile isBlank = Base64.encode key := by
    rw [rdropWhile_eq_self_iff]
    intro hne hblank
    rw [(hchars _ (getLast_mem hne)).2.2.2] at hblank
    cases hblank
  have htext : wordlistText (name ++ 0x3D :: Base64.encode key) = Base64.encode key :=
    wordlistText_eq (behindFirst_named hname _)
      (fun c hc => ⟨(hchars c hc).1, (hchars c hc).2.1, (hchars c hc).2.2.1⟩) hlen htrim
  have hempty : spelledKey (skipBlanks []) = none := by decide
  have hequals : spelledKey (skipBlanks [0x3D]) = none := by decide
  rw [htext, specValue, Base64.encode, (hstart.append _).skipBlanks_eq, hpad]
  rcases hn with rfl | rfl
  · rw [replicate_one, behindFirst_append hsep, hempty]
  · rw [replicate_succ, replicate_one, behindFirst_append hsep, hequals]

theorem spelledKey_named (hname : IsChannelName name) (hkey : key.length = 16 ∨ key.length = 32)
    (hsimple : ¬readsAsSimple (Base64.encode key)) :
    spelledKey (specValue (name ++ 0x3D :: Base64.encode key)) = some key := by
  have hstart : StartsText (Base64.encode key) := (startsText_encodeBody hkey).append _
  rw [specValue, behindFirst_named hname, hstart.skipBlanks_eq, spelledKey,
    parsePsk_bareBase64 hkey hsimple, bind_some, expandKey, if_pos (Or.inr hkey)]
  rintro b rfl
  simp at hkey

/-- **Grammar.** The two readings agree exactly if the value the command line reads spells the empty
key, or the text of the wordlist, read once more, spells the same key; so on every plain value, and
never on a padded base64 key behind a name. -/
theorem grammarAgrees_iff (line : List Byte) :
    (GrammarAgrees line ↔ spelledKey (specValue line) = some [] ∨
      nonEmptyKey (spelledKey (specValue (wordlistText line))) = spelledKey (specValue line)) ∧
    (PlainValue line → GrammarAgrees line) ∧
    ∀ name key, IsChannelName name → key.length = 16 ∨ key.length = 32 →
      ¬readsAsSimple (Base64.encode key) → line = name ++ 0x3D :: Base64.encode key →
        ¬GrammarAgrees line := by
  refine ⟨grammarAgrees_iff_spelledKey line, ?_, ?_⟩
  · intro hplain
    rw [grammarAgrees_iff_spelledKey, hplain.specValue_eq]
    cases hkey : spelledKey (specValue line) with
    | none => exact Or.inr rfl
    | some key =>
      by_cases hnil : key = []
      · exact Or.inl (congrArg some hnil)
      · exact Or.inr (nonEmptyKey_some hnil)
  · rintro name key hname hkey hsimple rfl
    rw [grammarAgrees_iff_spelledKey, spelledKey_padded hname hkey,
      spelledKey_named hname hkey hsimple, some.injEq]
    rintro (hnil | hnone)
    · exact key_ne_nil hkey hnil
    · cases hnone

theorem grammarAgrees_iff_named :
    GrammarAgrees (ascii "Ops=simple5") ∧
      ¬GrammarAgrees (ascii "Ops" ++ 0x3D :: Base64.encode meshDefaultPsk) := by
  have hplain : PlainValue (ascii "Ops=simple5") := by
    constructor <;> decide +kernel
  exact ⟨(grammarAgrees_iff _).2.1 hplain,
    (grammarAgrees_iff _).2.2 (ascii "Ops") meshDefaultPsk (by decide) (Or.inl rfl)
      (fun h => absurd h.1 (by decide +kernel)) rfl⟩

/-- **A line of the documented form.** The command line reads the key, the wordlist none. -/
theorem wordlist_refuses_padded :
    ¬GrammarAgrees (ascii "LongFast=1PG7OiApB1nwvP+rz05pAQ==") ∧
      (keysetParseSpec keysetCreate (ascii "LongFast=1PG7OiApB1nwvP+rz05pAQ==")).2.firstKey =
        some meshDefaultPsk ∧
      parsePskSpec (ascii "LongFast=1PG7OiApB1nwvP+rz05pAQ==") = none ∧
      ¬GrammarAgrees (ascii "default ") := by
  have hread : (keysetParseSpec keysetCreate (ascii "LongFast=1PG7OiApB1nwvP+rz05pAQ==")).1 = true ∧
      (keysetParseSpec keysetCreate (ascii "LongFast=1PG7OiApB1nwvP+rz05pAQ==")).2.firstKey =
        some meshDefaultPsk := by
    decide +kernel
  have hnone : parsePskSpec (ascii "LongFast=1PG7OiApB1nwvP+rz05pAQ==") = none := by
    decide +kernel
  have hblank : (keysetParseSpec keysetCreate (ascii "default ")).1 = false ∧
      parsePskSpec (ascii "default ") ≠ none := by
    decide +kernel
  refine ⟨?_, hread.2, hnone, ?_⟩
  · intro hagrees
    have hkey := hagrees.1 meshDefaultPsk (by decide) hread.1 hread.2
    rw [hnone] at hkey
    cases hkey
  · intro hagrees
    exact hblank.2 (hagrees.2 hblank.1)

/-! ## The dictionary thread -/

def pskQueueSize : Nat := 128

def pskFrameMaxBytes : Nat := 256

def pskMaxCandidates : Nat := 32768

def loadWordlist (lines : List (List Byte)) : List (List Byte) :=
  ((lines.filter fun line => line.getD 0 0 != 0x23 && line.getD 0 0 != 0x0A && line.getD 0 0 != 0).filterMap
    parsePskSpec).take pskMaxCandidates

structure PskFrame where
  bytes : List Byte
  rssiDb : CFloat
  snrDb : ℚ
  sf : Nat
  cr : Nat
  bwHz : Nat

def PskFrame.channelHash (f : PskFrame) : Byte := f.bytes.getD 13 0

/-- The ring keeps one cell free; when it is full the oldest frame goes. Its array and indices are in
`Pipeline.DictQueues`. -/
def pskDictEnqueue (queue : List PskFrame) (f : PskFrame) : List PskFrame :=
  if f.bytes = [] then queue
  else
    (if queue.length + 1 = pskQueueSize then queue.drop 1 else queue) ++
      [{ f with bytes := f.bytes.take pskFrameMaxBytes }]

/-- With the frame on trial and the candidates not tried yet. -/
structure DictState where
  queue : List PskFrame
  live : Keyset
  trial : Option (PskFrame × List (List Byte))

/-- A call of the receiver for a frame, a bare `psk_dict_enqueue` (of a receiver that asked the key
set earlier), or the worker. -/
inductive DictStep where
  | hear (f : PskFrame)
  | enqueue (f : PskFrame)
  | work

section Worker

variable (aesCtr : AesCtr)

def PskFrame.decode (keys : Keyset) (f : PskFrame) : Option FeedEvent :=
  meshPacketDecodeWithRadio aesCtr (some keys) f.bytes f.rssiDb f.snrDb f.sf f.cr f.bwHz

/-- The decoder queues what it reports as undecrypted, whoever calls it. -/
def tryCandidate (s : DictState) (f : PskFrame) (psk : List Byte) (rest : List (List Byte)) :
    DictState :=
  match keysetAddRaw keysetCreate f.channelHash psk (ascii "(trial)") with
  | none => { s with trial := some (f, rest) }
  | some tmp =>
    match f.decode aesCtr tmp with
    | none => { s with trial := some (f, rest) }
    | some ev =>
      if ev.decrypted then
        { s with
          live := (keysetAddRaw s.live f.channelHash psk ev.channelName).getD s.live
          trial := none }
      else { s with queue := pskDictEnqueue s.queue f, trial := some (f, rest) }

/-- Take a frame, or try the next candidate on the one in hand. -/
def workerStep (candidates : List (List Byte)) (s : DictState) : DictState :=
  match s.trial with
  | none =>
    match s.queue with
    | [] => s
    | f :: queue =>
      { s with queue := queue, trial := if f.bytes.length < 16 then none else some (f, candidates) }
  | some (_, []) => { s with trial := none }
  | some (f, psk :: rest) => tryCandidate aesCtr s f psk rest

def dictStep (candidates : List (List Byte)) (s : DictState) : DictStep → DictState
  | .hear f =>
    match f.decode aesCtr s.live with
    | some ev => if ev.decrypted then s else { s with queue := pskDictEnqueue s.queue f }
    | none => s
  | .enqueue f => { s with queue := pskDictEnqueue s.queue f }
  | .work => workerStep aesCtr candidates s

def dictRun (candidates : List (List Byte)) (s : DictState) (steps : List DictStep) : DictState :=
  steps.foldl (dictStep aesCtr candidates) s

def PskFrame.opensWith (f : PskFrame) (psk : List Byte) : Bool :=
  ((keysetAddRaw keysetCreate f.channelHash psk (ascii "(trial)")).bind (f.decode aesCtr)).any
    (·.decrypted)

def PskFrame.decrypts (f : PskFrame) (keys : Keyset) : Bool := (f.decode aesCtr keys).any (·.decrypted)

end Worker

def Keyset.pairs (k : Keyset) : List (Byte × List Byte) :=
  k.entries.map fun e => (e.channelHash, e.psk)

def Keyset.Distinct (k : Keyset) : Prop := k.pairs.Nodup

def Keyset.Filed (k : Keyset) : Prop :=
  ∀ i e, k.entries[i]? = some e → i ∈ k.buckets e.channelHash

/-- The candidate opens the frame, the live set has room, and it is not there yet under the hash. -/
def FindsNew (aesCtr : AesCtr) (s : DictState) : Prop :=
  ∀ f psk rest, s.trial = some (f, psk :: rest) → f.opensWith aesCtr psk = true →
    s.live.HasRoom f.channelHash → (f.channelHash, psk) ∉ s.live.pairs

def LiveFails (aesCtr : AesCtr) (s : DictState) : Prop :=
  ∀ f rest, s.trial = some (f, rest) → f.decrypts aesCtr s.live = false

/-! ## One addition -/

variable {k : Keyset} {channelHash : Byte} {psk : List Byte}

theorem keysetAddRaw_of_room (name : List Byte)
    (hlen : psk.length = 0 ∨ psk.length = 16 ∨ psk.length = 32) (hroom : k.HasRoom channelHash) :
    ∃ k' shown, keysetAddRaw k channelHash psk name = some k' ∧
      k'.entries = k.entries ++ [⟨shown, psk, channelHash⟩] ∧
      k'.buckets = update k.buckets channelHash
        (k.buckets channelHash ++ [k.entries.length]) := by
  rw [keysetAddRaw, if_neg (by omega)]
  dsimp only
  obtain ⟨k', hfile, hentries, hbuckets⟩ := Keyset.file_of_room (k := k)
    (e := ⟨(if name = [] then ascii "(discovered)" else name).take (keysetMaxName - 1), psk, channelHash⟩)
    hroom
  exact ⟨k', _, hfile, hentries, hbuckets⟩

theorem keysetAddRaw_of_full (psk name : List Byte) (hroom : ¬k.HasRoom channelHash) :
    keysetAddRaw k channelHash psk name = none := by
  rw [keysetAddRaw]
  split
  next => rfl
  next => exact Keyset.file_of_full hroom

theorem length_of_keysetAddRaw {k' : Keyset} {name : List Byte}
    (h : keysetAddRaw k channelHash psk name = some k') :
    psk.length = 0 ∨ psk.length = 16 ∨ psk.length = 32 := by
  rw [keysetAddRaw] at h
  split at h
  next => cases h
  next hlen => omega

theorem distinct_addRaw (name : List Byte)
    (hlen : psk.length = 0 ∨ psk.length = 16 ∨ psk.length = 32) :
    ((keysetAddRaw k channelHash psk name).getD k).Distinct ↔
      k.Distinct ∧ (k.HasRoom channelHash → (channelHash, psk) ∉ k.pairs) := by
  by_cases hroom : k.HasRoom channelHash
  · obtain ⟨k', shown, hadd, hentries, -⟩ := keysetAddRaw_of_room name hlen hroom
    have hpairs : k'.pairs = k.pairs.concat (channelHash, psk) := by
      rw [Keyset.pairs, hentries, map_append, concat_eq_append]
      rfl
    rw [hadd, getD_some, Keyset.Distinct, hpairs, nodup_concat, and_comm, Keyset.Distinct]
    exact and_congr_right fun _ => ⟨fun h _ => h, fun h => h hroom⟩
  · rw [keysetAddRaw_of_full psk name hroom, getD_none]
    exact (and_iff_left fun h => absurd h hroom).symm

theorem filed_addRaw (h : k.Filed) (channelHash : Byte) (name : List Byte)
    (hlen : psk.length = 0 ∨ psk.length = 16 ∨ psk.length = 32) :
    ((keysetAddRaw k channelHash psk name).getD k).Filed := by
  by_cases hroom : k.HasRoom channelHash
  · obtain ⟨k', shown, hadd, hentries, hbuckets⟩ := keysetAddRaw_of_room name hlen hroom
    rw [hadd, getD_some]
    intro i e he
    rw [hentries] at he
    rw [hbuckets]
    rcases Nat.lt_or_ge i k.entries.length with hold | hnew
    · rw [getElem?_append_left hold] at he
      have hmem := h i e he
      by_cases hhash : e.channelHash = channelHash
      · rw [hhash] at hmem ⊢
        rw [update_self]
        exact mem_append_left _ hmem
      · rw [update_of_ne hhash]
        exact hmem
    · rw [getElem?_append_right hnew, getElem?_singleton] at he
      split at he
      next hi =>
        obtain rfl := some.inj he
        obtain rfl : i = k.entries.length := by omega
        rw [update_self]
        exact mem_append_right _ mem_cons_self
      next => cases he
  · rw [keysetAddRaw_of_full psk name hroom]
    exact h

/-! ## One step -/

section Runs

variable {aesCtr : AesCtr} {candidates : List (List Byte)} {s : DictState}

theorem length_of_opensWith {f : PskFrame} {psk : List Byte} (h : f.opensWith aesCtr psk = true) :
    psk.length = 0 ∨ psk.length = 16 ∨ psk.length = 32 := by
  rw [PskFrame.opensWith, Option.any_eq_true] at h
  obtain ⟨ev, hev, -⟩ := h
  obtain ⟨tmp, htmp, -⟩ := Option.bind_eq_some_iff.mp hev
  exact length_of_keysetAddRaw htmp

theorem live_tryCandidate (f : PskFrame) (psk : List Byte) (rest : List (List Byte)) :
    (f.opensWith aesCtr psk = false ∧ (tryCandidate aesCtr s f psk rest).live = s.live) ∨
      f.opensWith aesCtr psk = true ∧ ∃ name, (tryCandidate aesCtr s f psk rest).live =
        (keysetAddRaw s.live f.channelHash psk name).getD s.live := by
  unfold tryCandidate PskFrame.opensWith
  cases keysetAddRaw keysetCreate f.channelHash psk (ascii "(trial)") with
  | none => exact Or.inl ⟨rfl, rfl⟩
  | some tmp =>
    dsimp only [bind_some]
    cases f.decode aesCtr tmp with
    | none => exact Or.inl ⟨rfl, rfl⟩
    | some ev =>
      dsimp only [any_some]
      cases ev.decrypted with
      | false => exact Or.inl ⟨rfl, rfl⟩
      | true => exact Or.inr ⟨rfl, ev.channelName, rfl⟩

theorem live_dictStep (aesCtr : AesCtr) (candidates : List (List Byte)) (s : DictState)
    (op : DictStep) :
    ((dictStep aesCtr candidates s op).live = s.live ∧ (op = .work → ∀ f psk rest,
      s.trial = some (f, psk :: rest) → f.opensWith aesCtr psk = false)) ∨
    op = .work ∧ ∃ f psk rest name, s.trial = some (f, psk :: rest) ∧
      f.opensWith aesCtr psk = true ∧ (dictStep aesCtr candidates s op).live =
        (keysetAddRaw s.live f.channelHash psk name).getD s.live := by
  cases op with
  | hear f =>
    refine Or.inl ⟨?_, fun h => by cases h⟩
    unfold dictStep
    dsimp only
    split
    next => split <;> rfl
    next => rfl
  | enqueue f => exact Or.inl ⟨rfl, fun h => by cases h⟩
  | work =>
    unfold dictStep workerStep
    dsimp only
    split
    next hidle =>
      refine Or.inl ⟨?_, fun _ f psk rest h => by rw [hidle] at h; cases h⟩
      split <;> rfl
    next hdone =>
      exact Or.inl ⟨rfl, fun _ f psk rest h => by rw [hdone] at h; cases h⟩
    next f psk rest htrial =>
      rcases live_tryCandidate (s := s) f psk rest with ⟨hfails, hlive⟩ | ⟨hopens, name, hlive⟩
      · refine Or.inl ⟨hlive, fun _ f' psk' rest' h => ?_⟩
        rw [htrial] at h
        cases h
        exact hfails
      · exact Or.inr ⟨rfl, f, psk, rest, name, htrial, hopens, hlive⟩

theorem distinct_dictStep_iff (op : DictStep) :
    (dictStep aesCtr candidates s op).live.Distinct ↔
      s.live.Distinct ∧ (op = .work → FindsNew aesCtr s) := by
  rcases live_dictStep aesCtr candidates s op with
    ⟨hlive, hfails⟩ | ⟨rfl, f, psk, rest, name, htrial, hopens, hlive⟩
  · rw [hlive]
    refine (and_iff_left fun hop f psk rest htrial hopens => ?_).symm
    rw [hfails hop f psk rest htrial] at hopens
    cases hopens
  · rw [hlive, distinct_addRaw name (length_of_opensWith hopens)]
    refine and_congr_right fun _ => ⟨fun h _ f' psk' rest' htrial' _ => ?_, fun h => ?_⟩
    · rw [htrial] at htrial'
      cases htrial'
      exact h
    · exact h rfl f psk rest htrial hopens

theorem filed_dictStep (h : s.live.Filed) (op : DictStep) :
    (dictStep aesCtr candidates s op).live.Filed := by
  rcases live_dictStep aesCtr candidates s op with
    ⟨hlive, -⟩ | ⟨-, f, psk, rest, name, -, hopens, hlive⟩
  · rw [hlive]
    exact h
  · rw [hlive]
    exact filed_addRaw h f.channelHash name (length_of_opensWith hopens)

theorem dictRun_concat (steps : List DictStep) (op : DictStep) :
    dictRun aesCtr candidates s (steps ++ [op]) =
      dictStep aesCtr candidates (dictRun aesCtr candidates s steps) op := by
  rw [dictRun, foldl_append]
  rfl

theorem distinct_dictRun_iff (h : s.live.Distinct) (steps : List DictStep) :
    (dictRun aesCtr candidates s steps).live.Distinct ↔
      ∀ before, before ++ [.work] <+: steps → FindsNew aesCtr (dictRun aesCtr candidates s before) := by
  induction steps using reverseRecOn with
  | nil =>
    refine iff_of_true h fun before hpre => ?_
    simp at hpre
  | append_singleton steps op ih =>
    rw [dictRun_concat, distinct_dictStep_iff, ih]
    constructor
    · rintro ⟨hbefore, hlast⟩ before hpre
      rcases prefix_concat_iff.mp hpre with heq | hpre
      · obtain ⟨rfl, hop⟩ := append_inj' heq rfl
        exact hlast (singleton_inj.mp hop).symm
      · exact hbefore before hpre
    · intro hall
      refine ⟨fun before hpre => hall before (hpre.trans (prefix_append _ _)), ?_⟩
      rintro rfl
      exact hall steps (prefix_refl _)

theorem filed_dictRun (h : s.live.Filed) (steps : List DictStep) :
    (dictRun aesCtr candidates s steps).live.Filed := by
  induction steps using reverseRecOn with
  | nil => exact h
  | append_singleton steps op ih =>
    rw [dictRun_concat]
    exact filed_dictStep ih op

/-! ## What the source takes for granted -/

def PskFrame.unlocks (aesCtr : AesCtr) (f : PskFrame) (psk : List Byte) : Bool :=
  ((plaintext aesCtr psk (buildNonce (rdLe32 (f.bytes.drop 8)) (rdLe32 (f.bytes.drop 4)))
    ((f.bytes.drop meshHeaderBytes).take 512)).bind parseDataEnvelope).isSome

theorem openEnvelope_isSome_iff (keys : Keyset) (ev : FeedEvent) (cipher : List Byte) :
    (openEnvelope aesCtr keys ev cipher).isSome = true ↔
      ∃ i ∈ keys.buckets ev.header.channel, ∃ e, keys.entries[i]? = some e ∧
        ((plaintext aesCtr e.psk (buildNonce ev.header.packetId ev.header.fromNode)
          (cipher.take 512)).bind parseDataEnvelope).isSome = true := by
  rw [openEnvelope, findSome?_isSome_iff]
  refine exists_congr fun i => and_congr_right fun _ => ?_
  cases keys.entries[i]? with
  | none => simp
  | some e =>
    cases htext : plaintext aesCtr e.psk (buildNonce ev.header.packetId ev.header.fromNode)
      (cipher.take 512) with
    | none => simp [htext]
    | some text => simp [htext]

theorem decrypts_iff (f : PskFrame) (keys : Keyset) :
    f.decrypts aesCtr keys = true ↔ meshHeaderBytes ≤ f.bytes.length ∧
      (f.bytes.drop meshHeaderBytes = [] ∨ ∃ i ∈ keys.buckets f.channelHash, ∃ e,
        keys.entries[i]? = some e ∧ f.unlocks aesCtr e.psk = true) := by
  rw [PskFrame.decrypts, PskFrame.decode, meshPacketDecodeWithRadio]
  split
  next hshort => exact iff_of_false Bool.false_ne_true fun h => absurd h.1 (not_le.mpr hshort)
  next hlong =>
    rw [and_iff_right (not_lt.mp hlong)]
    dsimp only
    by_cases hbare : f.bytes.drop meshHeaderBytes = []
    · rw [if_pos hbare]
      exact iff_of_true rfl (Or.inl hbare)
    · rw [if_neg hbare, or_iff_right hbare]
      have hheader : ∀ base : FeedEvent,
          (openEnvelope aesCtr keys (parseHeader f.bytes base) (f.bytes.drop meshHeaderBytes)).isSome =
            true ↔ ∃ i ∈ keys.buckets f.channelHash, ∃ e, keys.entries[i]? = some e ∧
              f.unlocks aesCtr e.psk = true :=
        fun base => openEnvelope_isSome_iff keys (parseHeader f.bytes base) _
      rw [bind_some]
      split
      next hopen => exact iff_of_true rfl ((hheader _).mp (by rw [hopen]; rfl))
      next hopen =>
        refine iff_of_false Bool.false_ne_true fun h => ?_
        exact isSome_iff_ne_none.mp ((hheader _).mpr h) hopen

theorem opensWith_iff (f : PskFrame) (psk : List Byte) :
    f.opensWith aesCtr psk = true ↔ (psk.length = 0 ∨ psk.length = 16 ∨ psk.length = 32) ∧
      meshHeaderBytes ≤ f.bytes.length ∧
      (f.bytes.drop meshHeaderBytes = [] ∨ f.unlocks aesCtr psk = true) := by
  by_cases hlen : psk.length = 0 ∨ psk.length = 16 ∨ psk.length = 32
  · have hroom : keysetCreate.HasRoom f.channelHash := ⟨by decide, Nat.zero_lt_succ _⟩
    obtain ⟨tmp, shown, hadd, hentries, hbuckets⟩ :=
      keysetAddRaw_of_room (ascii "(trial)") hlen hroom
    have hdecrypts : f.opensWith aesCtr psk = f.decrypts aesCtr tmp := by
      rw [PskFrame.opensWith, hadd]
      rfl
    rw [hdecrypts, decrypts_iff, and_iff_right hlen, hbuckets, update_self, hentries]
    refine and_congr_right fun _ => or_congr_right ?_
    simp [keysetCreate]
  · exact iff_of_false (fun h => hlen (length_of_opensWith h)) fun h => hlen h.1

theorem findsNew_of_liveFails (hfiled : s.live.Filed) (h : LiveFails aesCtr s) :
    FindsNew aesCtr s := by
  intro f psk rest htrial hopens _ hmem
  obtain ⟨-, hheader, hopen⟩ := (opensWith_iff f psk).mp hopens
  have hfails := h f (psk :: rest) htrial
  rw [← Bool.not_eq_true, decrypts_iff] at hfails
  refine hfails ⟨hheader, hopen.imp id fun hunlocks => ?_⟩
  obtain ⟨e, he, hpair⟩ := mem_map.mp hmem
  obtain ⟨i, hi⟩ := mem_iff_getElem?.mp he
  obtain ⟨hhash, hpsk⟩ := Prod.mk.inj hpair
  exact ⟨i, hhash ▸ hfiled i e hi, e, hi, hpsk ▸ hunlocks⟩

end Runs

/-- **Discoveries.** For every wordlist and interleaving, a live set without duplicates stays so
exactly if no key is found that it holds already while it has room; so in every run in which no
frame on trial is one that the live set opens at that moment. -/
theorem discoveries_distinct_iff (aesCtr : AesCtr) (wordlist : List (List Byte)) (s : DictState)
    (hdistinct : s.live.Distinct) (steps : List DictStep) :
    ((dictRun aesCtr (loadWordlist wordlist) s steps).live.Distinct ↔
      ∀ before, before ++ [.work] <+: steps →
        FindsNew aesCtr (dictRun aesCtr (loadWordlist wordlist) s before)) ∧
    (s.live.Filed →
      (∀ before, before ++ [.work] <+: steps →
        LiveFails aesCtr (dictRun aesCtr (loadWordlist wordlist) s before)) →
      (dictRun aesCtr (loadWordlist wordlist) s steps).live.Distinct) := by
  refine ⟨distinct_dictRun_iff hdistinct steps, fun hfiled hfails => ?_⟩
  rw [distinct_dictRun_iff hdistinct]
  intro before hpre
  exact findsNew_of_liveFails (filed_dictRun hfiled before) (hfails before hpre)

/-! ## A frame that is found again and again -/

/-- A frame of a channel with the key `simple2`: port 1, text "hi". -/
def simple2Frame : PskFrame where
  bytes := [0xFF, 0xFF, 0xFF, 0xFF, 0x78, 0x56, 0x34, 0x12, 0x2A, 0, 0, 0, 0x63, 0x08, 0, 0,
    0xD2, 0x30, 0xF5, 0x5B, 0xBD, 0x7C]
  rssiDb := .fin true 90
  snrDb := 5
  sf := 11
  cr := 5
  bwHz := 250000

/-- AES-CTR on the ciphertext of the frame, under the keys `simple2` and `default`. -/
def aesOnFrame : AesCtr := fun psk _ cipher =>
  if psk = makeSimplePsk 2 then [0x08, 0x01, 0x12, 0x02, 0x68, 0x69]
  else if psk = makeSimplePsk 1 then [0x47, 0x85, 0x17, 0xAD, 0xD9, 0x38]
  else cipher

def idle : DictState where
  queue := []
  live := keysetCreate
  trial := none

theorem discoveries_distinct_once :
    (dictRun aesOnFrame (loadWordlist [ascii "simple2"]) idle
        [.hear simple2Frame, .work, .work]).live.pairs = [(0x08, makeSimplePsk 2)] ∧
      (dictRun aesOnFrame (loadWordlist [ascii "simple2"]) idle
        [.hear simple2Frame, .work, .work]).live.Distinct := by
  have hdistinct : idle.live.Distinct := nodup_nil
  have hfiled : idle.live.Filed := fun i e h => by cases h
  -- the two steps of the worker come after one and two steps
  have hfails : ∀ n < 3, ((dictRun aesOnFrame (loadWordlist [ascii "simple2"]) idle
      ([.hear simple2Frame, .work, .work].take n)).trial.all fun t => !t.1.decrypts aesOnFrame
        (dictRun aesOnFrame (loadWordlist [ascii "simple2"]) idle
          ([.hear simple2Frame, .work, .work].take n)).live) = true := by
    decide +kernel
  refine ⟨by decide +kernel,
    (discoveries_distinct_iff aesOnFrame [ascii "simple2"] idle hdistinct _).2 hfiled ?_⟩
  intro before hpre f rest htrial
  have hlen : before.length < 3 := by
    have := hpre.length_le
    simp at this
    omega
  have hall := hfails before.length hlen
  rw [← prefix_iff_eq_take.mp ((prefix_append _ _).trans hpre), htrial] at hall
  simpa using hall

/-- **Found again.** With a wrong key before the right one, a frame heard once is queued again by
its own failed trial and found again until the bucket is full; with the right key alone, two frames
heard before the discovery are enough. -/
theorem discoveries_repeat :
    (dictRun aesOnFrame (loadWordlist [ascii "default", ascii "simple2"]) idle
        (.hear simple2Frame :: List.replicate 6 .work)).live.pairs =
      [(0x08, makeSimplePsk 2), (0x08, makeSimplePsk 2)] ∧
    (dictRun aesOnFrame (loadWordlist [ascii "simple2"]) idle
        (.hear simple2Frame :: .hear simple2Frame :: List.replicate 4 .work)).live.pairs =
      [(0x08, makeSimplePsk 2), (0x08, makeSimplePsk 2)] ∧
    (dictRun aesOnFrame (loadWordlist [ascii "default", ascii "simple2"]) idle
        (.hear simple2Frame :: List.replicate 21 .work)).live.pairs =
      List.replicate 7 (0x08, makeSimplePsk 2) := by
  decide +kernel

end MeshcoreSniffer.Meshtastic
