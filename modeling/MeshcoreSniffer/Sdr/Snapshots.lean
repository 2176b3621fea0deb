import MeshcoreSniffer.Lib.CString
import Mathlib.Data.List.Sort

/-!
# Retention of IQ snapshots

`janitor_run` of `iq_snapshot.c` lists IQ files and their `.json` sidecars, sorts them by time of
last change and unlinks from the oldest on until both caps are met; it looks at files, not at
snapshots. Every `stat` and `unlink` succeeds.
-/

namespace MeshcoreSniffer.Sdr.Snapshots

open Lib List

/-! ## Model -/

structure File where
  day : List Byte
  name : List Byte
  mtime : Int
  size : Nat
  deriving DecidableEq

def File.path (f : File) : List Byte × List Byte := (f.day, f.name)

/-- The files under the snapshot directory, in the order `readdir` finds them. -/
structure Tree where
  files : List File
  nodup : (files.map File.path).Nodup

/-- `strrchr(name, '.')`: the name from its last dot on. -/
def extension : List Byte → Option (List Byte)
  | [] => none
  | b :: bs =>
    match extension bs with
    | some ext => some ext
    | none => if b = 0x2E then some (b :: bs) else none

def File.IsIq (f : File) : Prop :=
  extension f.name = some (ascii ".cs8") ∨ extension f.name = some (ascii ".cf32")

def File.IsSidecar (f : File) : Prop := extension f.name = some (ascii ".json")

def Hidden (name : List Byte) : Prop := name.head? = some 0x2E

def File.Listed (f : File) : Prop :=
  ¬Hidden f.day ∧ ¬Hidden f.name ∧ (f.IsIq ∨ f.IsSidecar)

instance (f : File) : Decidable f.IsIq := inferInstanceAs (Decidable (_ ∨ _))

instance (f : File) : Decidable f.IsSidecar := inferInstanceAs (Decidable (_ = _))

instance (name : List Byte) : Decidable (Hidden name) := inferInstanceAs (Decidable (_ = _))

instance (f : File) : Decidable f.Listed := inferInstanceAs (Decidable (_ ∧ _))

/-- The retention caps of `iq_snapshot_cfg_t`; zero or less is no cap. -/
structure Caps where
  diskCapMb : Int
  ageCapSeconds : Int

def Caps.diskCapBytes (c : Caps) : Int := if 0 < c.diskCapMb then c.diskCapMb * 1024 * 1024 else 0

def Caps.TooBig (c : Caps) (totalBytes : Int) : Prop :=
  0 < c.diskCapBytes ∧ c.diskCapBytes < totalBytes

def Caps.TooOld (c : Caps) (now : Int) (f : File) : Prop :=
  0 < c.ageCapSeconds ∧ c.ageCapSeconds < now - f.mtime

instance (c : Caps) (totalBytes : Int) : Decidable (c.TooBig totalBytes) :=
  inferInstanceAs (Decidable (_ ∧ _))

instance (c : Caps) (now : Int) (f : File) : Decidable (c.TooOld now f) :=
  inferInstanceAs (Decidable (_ ∧ _))

def pruneLoop (c : Caps) (now : Int) : List File → Int → List File
  | [], _ => []
  | f :: fs, totalBytes =>
    if ¬c.TooBig totalBytes ∧ ¬c.TooOld now f then []
    else f :: pruneLoop c now fs (totalBytes - f.size)

def bytes (fs : List File) : Nat := (fs.map File.size).sum

/-- What the janitor unlinks; `qsort` is the library's. -/
def pruned (qsort : List File → List File) (c : Caps) (now : Int) (t : Tree) : List File :=
  pruneLoop c now (qsort (t.files.filter (·.Listed))) (bytes (t.files.filter (·.Listed)))

def janitorRun (qsort : List File → List File) (c : Caps) (now : Int) (t : Tree) : Tree where
  files := t.files.filter fun f => f.path ∉ (pruned qsort c now t).map File.path
  nodup := t.nodup.sublist (List.filter_sublist.map _)

/-- It reorders, by time of last change, and leaves files of one time in any order. -/
structure Qsort (qsort : List File → List File) : Prop where
  perm : ∀ fs, (qsort fs).Perm fs
  sorted : ∀ fs, (qsort fs).Pairwise (·.mtime ≤ ·.mtime)

/-! ## What goes -/

def bytesFrom (fs : List File) (f : File) : Nat := bytes (fs.dropWhile (· ≠ f))

def OverCap (c : Caps) (now : Int) (fs : List File) (f : File) : Prop :=
  c.TooBig (bytesFrom fs f) ∨ c.TooOld now f

instance (c : Caps) (now : Int) (fs : List File) (f : File) : Decidable (OverCap c now fs f) :=
  inferInstanceAs (Decidable (_ ∨ _))

theorem bytes_cons (f : File) (fs : List File) : bytes (f :: fs) = f.size + bytes fs :=
  sum_cons

theorem bytesFrom_head (f : File) (fs : List File) : bytesFrom (f :: fs) f = bytes (f :: fs) := by
  simp [bytesFrom]

variable {f g : File} {c : Caps} {ext : List Byte}

theorem bytesFrom_tail (hne : g ≠ f) (fs : List File) : bytesFrom (g :: fs) f = bytesFrom fs f := by
  simp [bytesFrom, hne]

theorem bytesFrom_le (fs : List File) (f : File) : bytesFrom fs f ≤ bytes fs := by
  have hsublist := (dropWhile_sublist (l := fs) (· ≠ f)).map File.size
  exact hsublist.sum_le_sum fun _ _ => Nat.zero_le _

theorem Caps.TooBig.mono {a b : Int} (h : c.TooBig a) (hab : a ≤ b) : c.TooBig b :=
  ⟨h.1, h.2.trans_le hab⟩

theorem Caps.TooOld.mono {now : Int} (h : c.TooOld now f) (hfg : g.mtime ≤ f.mtime) :
    c.TooOld now g := by
  have hage := h.2
  exact ⟨h.1, by omega⟩

theorem pruneLoop_subset (c : Caps) (now : Int) (fs : List File) (total : Int) :
    pruneLoop c now fs total ⊆ fs := by
  induction fs generalizing total with
  | nil => exact nil_subset _
  | cons f fs ih =>
    unfold pruneLoop
    split
    next => exact nil_subset _
    next => exact cons_subset_cons f (ih _)

/-- **What goes.** Ages and the bytes still to come only fall along the order, so the loop unlinks
every file over a cap. -/
theorem mem_pruneLoop_iff (c : Caps) (now : Int) {fs : List File} (hnodup : fs.Nodup)
    (hsorted : fs.Pairwise (·.mtime ≤ ·.mtime)) (hf : f ∈ fs) :
    f ∈ pruneLoop c now fs (bytes fs) ↔ OverCap c now fs f := by
  induction fs with
  | nil => exact absurd hf not_mem_nil
  | cons g fs ih =>
    obtain ⟨hg, hnodup⟩ := List.nodup_cons.mp hnodup
    obtain ⟨hfirst, hsorted⟩ := List.pairwise_cons.mp hsorted
    unfold pruneLoop
    split
    next hwithin =>
      refine ⟨fun h => absurd h not_mem_nil, fun hover => ?_⟩
      have hmtime : g.mtime ≤ f.mtime := by
        rcases List.mem_cons.mp hf with rfl | hmem
        · exact le_rfl
        · exact hfirst f hmem
      rcases hover with hbig | hold
      · exact absurd (hbig.mono (by exact_mod_cast bytesFrom_le _ _)) hwithin.1
      · exact absurd (hold.mono hmtime) hwithin.2
    next hover =>
      rcases List.mem_cons.mp hf with rfl | hmem
      · refine iff_of_true (mem_cons_self ..) ?_
        unfold OverCap
        rw [bytesFrom_head]
        tauto
      · have hne : g ≠ f := fun h => hg (h ▸ hmem)
        have htotal : (bytes (g :: fs) : Int) - g.size = bytes fs := by
          rw [bytes_cons]
          push_cast
          omega
        rw [mem_cons, htotal, ih hnodup hsorted hmem, or_iff_right hne.symm]
        unfold OverCap
        rw [bytesFrom_tail hne]

/-! ## Snapshots -/

def File.stem (f : File) : List Byte :=
  f.name.take (f.name.length - ((extension f.name).getD []).length)

def Beside (f g : File) : Prop := f.day = g.day ∧ f.stem = g.stem

instance (f g : File) : Decidable (Beside f g) := inferInstanceAs (Decidable (_ ∧ _))

structure Tree.Paired (t : Tree) : Prop where
  sidecar : ∀ f ∈ t.files, f.IsIq → ∃ g ∈ t.files, g.IsSidecar ∧ Beside f g
  iq : ∀ g ∈ t.files, g.IsSidecar → ∃ f ∈ t.files, f.IsIq ∧ Beside f g

instance (t : Tree) : Decidable t.Paired :=
  decidable_of_iff ((∀ f ∈ t.files, f.IsIq → ∃ g ∈ t.files, g.IsSidecar ∧ Beside f g) ∧
      ∀ g ∈ t.files, g.IsSidecar → ∃ f ∈ t.files, f.IsIq ∧ Beside f g)
    ⟨fun h => ⟨h.1, h.2⟩, fun h => ⟨h.sidecar, h.iq⟩⟩

theorem extension_suffix {name : List Byte} (h : extension name = some ext) : ext <:+ name := by
  induction name with
  | nil => cases h
  | cons b bs ih =>
    unfold extension at h
    split at h
    next e he =>
      obtain rfl := Option.some.inj h
      exact (ih he).trans (suffix_cons b bs)
    next =>
      split at h
      next =>
        obtain rfl := Option.some.inj h
        exact suffix_rfl
      next => cases h

theorem name_eq (h : extension f.name = some ext) : f.name = f.stem ++ ext := by
  obtain ⟨before, hname⟩ := extension_suffix h
  have hstem : f.stem = before := by
    unfold File.stem
    rw [h, Option.getD_some, ← hname, length_append, Nat.add_sub_cancel, take_left]
  rw [hstem, hname]

theorem sidecar_unique {t : Tree} {g' : File} (hg : g ∈ t.files) (hg' : g' ∈ t.files)
    (hcar : g.IsSidecar) (hcar' : g'.IsSidecar) (h : Beside f g) (h' : Beside f g') : g' = g := by
  refine inj_on_of_nodup_map t.nodup hg' hg ?_
  show (g'.day, g'.name) = (g.day, g.name)
  rw [name_eq hcar, name_eq hcar', ← h.1, ← h'.1, ← h.2, ← h'.2]

/-! ## Pairs -/

section
variable (qsort : List File → List File) (c : Caps) (now : Int) (t : Tree)

def Due (f : File) : Prop := f.Listed ∧ OverCap c now (qsort (t.files.filter (·.Listed))) f

instance (f : File) : Decidable (Due qsort c now t f) := inferInstanceAs (Decidable (_ ∧ _))

variable {qsort} (hqsort : Qsort qsort)
include hqsort

theorem mem_pruned_iff (f : File) :
    f ∈ pruned qsort c now t ↔ f ∈ t.files ∧ Due qsort c now t f := by
  have hperm := hqsort.perm (t.files.filter (·.Listed))
  have hnodup : (qsort (t.files.filter (·.Listed))).Nodup :=
    hperm.nodup_iff.mpr ((List.Nodup.of_map _ t.nodup).filter _)
  have hmem : f ∈ qsort (t.files.filter (·.Listed)) ↔ f ∈ t.files ∧ f.Listed := by
    rw [hperm.mem_iff, mem_filter, decide_eq_true_iff]
  have hbytes : bytes (t.files.filter (·.Listed)) = bytes (qsort (t.files.filter (·.Listed))) :=
    (hperm.map File.size).sum_eq.symm
  unfold pruned Due
  rw [hbytes]
  constructor
  · intro hf
    have hin := pruneLoop_subset c now _ _ hf
    exact ⟨(hmem.mp hin).1, (hmem.mp hin).2,
      (mem_pruneLoop_iff c now hnodup (hqsort.sorted _) hin).mp hf⟩
  · rintro ⟨hf, hlisted, hover⟩
    exact (mem_pruneLoop_iff c now hnodup (hqsort.sorted _) (hmem.mpr ⟨hf, hlisted⟩)).mpr hover

theorem mem_janitorRun_iff (f : File) :
    f ∈ (janitorRun qsort c now t).files ↔ f ∈ t.files ∧ ¬Due qsort c now t f := by
  show f ∈ t.files.filter (fun f => f.path ∉ (pruned qsort c now t).map File.path) ↔ _
  rw [mem_filter, decide_eq_true_iff]
  refine and_congr_right fun hf => not_congr ?_
  rw [mem_map]
  constructor
  · rintro ⟨g, hg, hpath⟩
    obtain ⟨hgfiles, hdue⟩ := (mem_pruned_iff c now t hqsort g).mp hg
    obtain rfl : g = f := inj_on_of_nodup_map t.nodup hgfiles hf hpath
    exact hdue
  · intro hdue
    exact ⟨f, (mem_pruned_iff c now t hqsort f).mpr ⟨hf, hdue⟩, rfl⟩

end

/-- An IQ file whose sidecar has to go has to go as well, and a sidecar that may stay has an IQ file
that may stay. -/
structure Together (qsort : List File → List File) (c : Caps) (now : Int) (t : Tree) : Prop where
  sidecar : ∀ f ∈ t.files, ∀ g ∈ t.files, f.IsIq → g.IsSidecar → Beside f g →
    Due qsort c now t g → Due qsort c now t f
  iq : ∀ g ∈ t.files, g.IsSidecar → ¬Due qsort c now t g →
    ∃ f ∈ t.files, f.IsIq ∧ Beside f g ∧ ¬Due qsort c now t f

/-- **Pairs.** The janitor leaves whole snapshots exactly when no cap falls between the two files of
one. -/
theorem pairs_intact_iff (qsort : List File → List File) (hqsort : Qsort qsort) (c : Caps)
    (now : Int) (t : Tree)
    (hsidecars : ∀ f ∈ t.files, f.IsIq → ∃ g ∈ t.files, g.IsSidecar ∧ Beside f g) :
    (janitorRun qsort c now t).Paired ↔ Together qsort c now t := by
  have hleft := mem_janitorRun_iff c now t hqsort
  constructor
  · intro hafter
    constructor
    · intro f hf g hg hiq hcar hbeside hgdue
      by_contra hfdue
      obtain ⟨g', hg', hcar', hbeside'⟩ := hafter.sidecar f ((hleft f).mpr ⟨hf, hfdue⟩) hiq
      obtain ⟨hg'files, hg'due⟩ := (hleft g').mp hg'
      obtain rfl := sidecar_unique hg hg'files hcar hcar' hbeside hbeside'
      exact hg'due hgdue
    · intro g hg hcar hgdue
      obtain ⟨f, hf, hiq, hbeside⟩ := hafter.iq g ((hleft g).mpr ⟨hg, hgdue⟩) hcar
      obtain ⟨hffiles, hfdue⟩ := (hleft f).mp hf
      exact ⟨f, hffiles, hiq, hbeside, hfdue⟩
  · intro htogether
    constructor
    · intro f hf hiq
      obtain ⟨hffiles, hfdue⟩ := (hleft f).mp hf
      obtain ⟨g, hg, hcar, hbeside⟩ := hsidecars f hffiles hiq
      refine ⟨g, (hleft g).mpr ⟨hg, fun hgdue => hfdue ?_⟩, hcar, hbeside⟩
      exact htogether.sidecar f hffiles g hg hiq hcar hbeside hgdue
    · intro g hg hcar
      obtain ⟨hgfiles, hgdue⟩ := (hleft g).mp hg
      obtain ⟨f, hf, hiq, hbeside, hfdue⟩ := htogether.iq g hgfiles hcar hgdue
      exact ⟨f, (hleft f).mpr ⟨hf, hfdue⟩, hiq, hbeside⟩

/-! A sort by time of last change, and a day folder with two snapshots an hour apart. -/

def sortByTime (fs : List File) : List File := fs.insertionSort (·.mtime ≤ ·.mtime)

theorem qsort_sortByTime : Qsort sortByTime where
  perm fs := perm_insertionSort _ fs
  sorted fs := by
    have : Std.Total fun f g : File => f.mtime ≤ g.mtime := ⟨fun f g => le_total f.mtime g.mtime⟩
    have : IsTrans File fun f g => f.mtime ≤ g.mtime := ⟨fun _ _ _ => le_trans⟩
    exact pairwise_insertionSort _ fs

def folder : List Byte := ascii "20260101"

def iqFile (stem : String) (mtime : Int) : File :=
  ⟨folder, ascii stem ++ ascii ".cs8", mtime, 2000000⟩

def sidecarFile (stem : String) (mtime : Int) : File :=
  ⟨folder, ascii stem ++ ascii ".json", mtime, 400⟩

def twoSnapshots : Tree where
  files := [iqFile "a" 1000, sidecarFile "a" 1001, iqFile "b" 4600, sidecarFile "b" 4601]
  nodup := by decide

theorem pairs_intact_iff_hour : (janitorRun sortByTime ⟨0, 3600⟩ 4650 twoSnapshots).Paired := by
  refine (pairs_intact_iff sortByTime qsort_sortByTime _ _ _ (by decide)).mpr ⟨?_, ?_⟩
  · decide
  · decide

/-- **A cap between the files of a snapshot.** The oldest IQ file goes, that is enough, and its
sidecar stays. -/
theorem snapshot_split :
    twoSnapshots.Paired ∧ (janitorRun sortByTime ⟨3, 0⟩ 4650 twoSnapshots).files.map File.name =
      [ascii "a.json", ascii "b.cs8", ascii "b.json"] ∧
      ¬(janitorRun sortByTime ⟨3, 0⟩ 4650 twoSnapshots).Paired := by
  decide

end MeshcoreSniffer.Sdr.Snapshots
