import MeshcoreSniffer.Lib.BitFlip

/-!
# Bytes as pairs of nibbles

`nibblesOf` splits a byte low half first and `pairUp` joins a nibble stream
back into bytes, two at a time; a lone last nibble is dropped.
`pairUp_flatMap_append` says that joining undoes splitting, whatever follows.
-/

namespace MeshcoreSniffer.Lib

abbrev Nibble := BitVec 4

def nibblesOf (b : Byte) : List Nibble := [b.setWidth 4, (b >>> 4).setWidth 4]

def joinNibbles (lo hi : Nibble) : Byte := (hi.setWidth 8 <<< 4) ||| lo.setWidth 8

def pairUp : List Nibble → List Byte
  | lo :: hi :: rest => joinNibbles lo hi :: pairUp rest
  | _ => []

theorem joinNibbles_nibblesOf (b : Byte) :
    joinNibbles (b.setWidth 4) ((b >>> 4).setWidth 4) = b := by
  revert b
  decide

theorem pairUp_flatMap_append (bs : List Byte) (rest : List Nibble) :
    pairUp (bs.flatMap nibblesOf ++ rest) = bs ++ pairUp rest := by
  induction bs with
  | nil => rfl
  | cons b bs ih =>
    simp only [List.flatMap_cons, nibblesOf, List.cons_append, List.nil_append, pairUp,
      joinNibbles_nibblesOf]
    rw [← ih]

theorem length_flatMap_nibblesOf (bs : List Byte) :
    (bs.flatMap nibblesOf).length = 2 * bs.length := by
  induction bs with
  | nil => rfl
  | cons b bs ih =>
    rw [List.flatMap_cons, List.length_append, ih]
    simp only [nibblesOf, List.length_cons, List.length_nil]
    omega

end MeshcoreSniffer.Lib
