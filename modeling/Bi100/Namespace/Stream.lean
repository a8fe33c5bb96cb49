import Bi100.Base
import Bi100.Lib.Except
import Mathlib.Data.List.Sort
import Mathlib.Data.String.Basic

/-!
# The byte stream of a multimodal value (`_hash_multi_modal_obj`)

The stream is what the digest is updated with, part after part. `repr` of mapping keys is a
parameter; it only orders the keys. Lengths are packed in 8 bytes and a longer value raises, as
`struct.pack` does.
-/

namespace Bi100

open Py

/-- A Python value. Mapping entries are in insertion order; a float is its 8-byte pattern. -/
inductive Obj where
  | none
  | bool (b : Bool)
  | int (n : Int)
  | float (bits : UInt64)
  | str (s : String)
  | bytes (b : Bytes)
  | bytearray (b : Bytes)
  | list (items : List Obj)
  | tuple (items : List Obj)
  | map (entries : List (Obj × Obj))
  /-- A `torch.Tensor`, with the bytes of its contiguous CPU copy. -/
  | tensor (shape : List Nat) (dtype : String) (data : Bytes)
  /-- A PIL image. -/
  | image (mode : String) (width height : Nat) (data : Bytes)
      (paletteMode palette transparency : Obj)
  /-- A value of another type. -/
  | other

/-- The tags of the parts. -/
inductive Tag where
  | none | map | list | tuple | str | bytes | bool | int | float | tensor | image
deriving DecidableEq

/-- The bytes of ASCII characters. -/
def ascii (s : List Char) : Bytes := s.map fun c => UInt8.ofNat c.toNat

/-- UTF-8 -/
def encodeStr (s : String) : Bytes := s.toByteArray.data.toList

def Tag.text : Tag → Bytes
  | .none => ascii "none|".toList
  | .map => ascii "map|".toList
  | .list => ascii "list|".toList
  | .tuple => ascii "tuple|".toList
  | .str => ascii "str|".toList
  | .bytes => ascii "bytes|".toList
  | .bool => ascii "bool|".toList
  | .int => ascii "int|".toList
  | .float => ascii "float|".toList
  | .tensor => ascii "tensor|".toList
  | .image => ascii "image|".toList

/-- `n` in `width` bytes, the highest first. -/
def bigEndian (width n : Nat) : Bytes :=
  (List.range width).reverse.map fun i => UInt8.ofNat (n / 256 ^ i)

/-- `struct.pack` of an unsigned number of `width` bytes. -/
def packUnsigned (width n : Nat) : Except Err Bytes :=
  if n < 256 ^ width then pure (bigEndian width n) else throw .structError

/-- A tag, the packed length and the bytes. -/
def sized (tag : Tag) (length : Nat) (data : Bytes) : Except Err Bytes := do
  let n ← packUnsigned 8 length
  pure (tag.text ++ n ++ data)

/-- The parts one after the other; the first that raises is raised. -/
def concatParts : List (Except Err Bytes) → Except Err Bytes
  | [] => pure []
  | x :: rest => do
    let a ← x
    let b ← concatParts rest
    pure (a ++ b)

section

variable (repr : Obj → String)

/-- Whether a key is sorted before another: `sorted` by `repr`, which is stable. -/
def keyLe (a b : String × Except Err Bytes) : Prop := a.1 ≤ b.1

instance : DecidableRel keyLe := fun a b => inferInstanceAs (Decidable (a.1 ≤ b.1))

mutual

/-- `_hash_multi_modal_obj` -/
def hashMultiModalObj : Obj → Except Err Bytes
  | .none => pure Tag.none.text
  | .map entries => do
    let n ← packUnsigned 8 entries.length
    let data ← concatParts (((hashEntries entries).insertionSort keyLe).map Prod.snd)
    pure (Tag.map.text ++ n ++ data)
  | .list items => do
    let n ← packUnsigned 8 items.length
    let data ← concatParts (hashItems items)
    pure (Tag.list.text ++ n ++ data)
  | .tuple items => do
    let n ← packUnsigned 8 items.length
    let data ← concatParts (hashItems items)
    pure (Tag.tuple.text ++ n ++ data)
  | .str s => sized .str (encodeStr s).length (encodeStr s)
  | .bytes b => sized .bytes b.length b
  | .bytearray b => sized .bytes b.length b
  | .bool b => pure (Tag.bool.text ++ ascii (if b then ['1'] else ['0']))
  | .int n => pure (Tag.int.text ++ ascii (toString n).toList)
  | .float bits => pure (Tag.float.text ++ bigEndian 8 bits.toNat)
  | .tensor shape dtype data => do
    let dims ← packUnsigned 8 shape.length
    let sizes ← concatParts (shape.map (packUnsigned 8))
    let n ← packUnsigned 8 data.length
    pure (Tag.tensor.text ++ dims ++ sizes ++ encodeStr dtype ++ n ++ data)
  | .image mode width height data paletteMode palette transparency => do
    let w ← packUnsigned 4 width
    let h ← packUnsigned 4 height
    let n ← packUnsigned 8 data.length
    let p₁ ← hashMultiModalObj paletteMode
    let p₂ ← hashMultiModalObj palette
    let t ← hashMultiModalObj transparency
    pure (Tag.image.text ++ encodeStr mode ++ w ++ h ++ n ++ data ++
      ascii "palette-mode|".toList ++ p₁ ++ ascii "palette|".toList ++ p₂ ++
      ascii "transparency|".toList ++ t)
  | .other => throw (.typeError "Unsupported multimodal namespace value type")

/-- The streams of the items. -/
def hashItems : List Obj → List (Except Err Bytes)
  | [] => []
  | item :: rest => hashMultiModalObj item :: hashItems rest

/-- The streams of the entries, with the `repr` of the keys. -/
def hashEntries : List (Obj × Obj) → List (String × Except Err Bytes)
  | [] => []
  | (key, value) :: rest =>
    (repr key, do
      let k ← hashMultiModalObj key
      let v ← hashMultiModalObj value
      pure (ascii "k|".toList ++ k ++ ascii "v|".toList ++ v)) :: hashEntries rest

end

end

end Bi100
