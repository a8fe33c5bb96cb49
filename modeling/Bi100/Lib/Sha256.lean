import Mathlib.Data.Nat.Notation
import Mathlib.Algebra.Order.Ring.Int

/-!
# SHA-256 (FIPS 180-4)

Words are numbers below `2 ^ 32`. Everything recurses over lists of known length, so that the
kernel can evaluate a digest.
-/

namespace Sha2

abbrev Word := ℕ

def add (x y : Word) : Word := (x + y) % 2 ^ 32

/-- `ROTR` -/
def rotr (n : ℕ) (x : Word) : Word := (x >>> n) ||| (x <<< (32 - n)) % 2 ^ 32

/-- `Ch` -/
def ch (x y z : Word) : Word := (x &&& y) ^^^ ((2 ^ 32 - 1 - x) &&& z)

/-- `Maj` -/
def maj (x y z : Word) : Word := (x &&& y) ^^^ (x &&& z) ^^^ (y &&& z)

def bigSigma0 (x : Word) : Word := rotr 2 x ^^^ rotr 13 x ^^^ rotr 22 x
def bigSigma1 (x : Word) : Word := rotr 6 x ^^^ rotr 11 x ^^^ rotr 25 x
def smallSigma0 (x : Word) : Word := rotr 7 x ^^^ rotr 18 x ^^^ x >>> 3
def smallSigma1 (x : Word) : Word := rotr 17 x ^^^ rotr 19 x ^^^ x >>> 10

/-- The round constants. -/
def roundConstants : List Word :=
  [0x428a2f98, 0x71374491, 0xb5c0fbcf, 0xe9b5dba5, 0x3956c25b, 0x59f111f1, 0x923f82a4, 0xab1c5ed5,
   0xd807aa98, 0x12835b01, 0x243185be, 0x550c7dc3, 0x72be5d74, 0x80deb1fe, 0x9bdc06a7, 0xc19bf174,
   0xe49b69c1, 0xefbe4786, 0x0fc19dc6, 0x240ca1cc, 0x2de92c6f, 0x4a7484aa, 0x5cb0a9dc, 0x76f988da,
   0x983e5152, 0xa831c66d, 0xb00327c8, 0xbf597fc7, 0xc6e00bf3, 0xd5a79147, 0x06ca6351, 0x14292967,
   0x27b70a85, 0x2e1b2138, 0x4d2c6dfc, 0x53380d13, 0x650a7354, 0x766a0abb, 0x81c2c92e, 0x92722c85,
   0xa2bfe8a1, 0xa81a664b, 0xc24b8b70, 0xc76c51a3, 0xd192e819, 0xd6990624, 0xf40e3585, 0x106aa070,
   0x19a4c116, 0x1e376c08, 0x2748774c, 0x34b0bcb5, 0x391c0cb3, 0x4ed8aa4a, 0x5b9cca4f, 0x682e6ff3,
   0x748f82ee, 0x78a5636f, 0x84c87814, 0x8cc70208, 0x90befffa, 0xa4506ceb, 0xbef9a3f7, 0xc67178f2]

/-- The eight working variables. -/
structure Vars where
  a : Word
  b : Word
  c : Word
  d : Word
  e : Word
  f : Word
  g : Word
  h : Word

def initial : Vars :=
  ⟨0x6a09e667, 0xbb67ae85, 0x3c6ef372, 0xa54ff53a, 0x510e527f, 0x9b05688c, 0x1f83d9ab, 0x5be0cd19⟩

/-- One round, with its constant and its word of the schedule. -/
def round (v : Vars) (kw : Word × Word) : Vars :=
  let t₁ := add (add (add v.h (bigSigma1 v.e)) (add (ch v.e v.f v.g) kw.1)) kw.2
  let t₂ := add (bigSigma0 v.a) (maj v.a v.b v.c)
  ⟨add t₁ t₂, v.a, v.b, v.c, add v.d t₁, v.e, v.f, v.g⟩

/-- The last words of the schedule come first. -/
def schedule : ℕ → List Word → List Word
  | 0, w => w
  | n + 1, w =>
    schedule n (add (add (smallSigma1 (w.getD 1 0)) (w.getD 6 0))
      (add (smallSigma0 (w.getD 14 0)) (w.getD 15 0)) :: w)

/-- A block of 16 words. -/
def compress (v : Vars) (block : List Word) : Vars :=
  let w := (roundConstants.zip (schedule 48 block.reverse).reverse).foldl round v
  ⟨add v.a w.a, add v.b w.b, add v.c w.c, add v.d w.d,
    add v.e w.e, add v.f w.f, add v.g w.g, add v.h w.h⟩

/-- `count` bytes of `n`, the highest first. -/
def toBytes (count n : ℕ) : List UInt8 :=
  (List.range count).reverse.map fun i => UInt8.ofNat (n >>> (8 * i))

/-- A one bit, zeros and the length in bits, up to a multiple of 64 bytes. -/
def pad (msg : List UInt8) : List UInt8 :=
  msg ++ 0x80 :: List.replicate ((119 - msg.length % 64) % 64) 0 ++ toBytes 8 (8 * msg.length)

def ofBytes (bytes : List UInt8) : ℕ := bytes.foldl (fun n b => n <<< 8 ||| b.toNat) 0

/-- The words of `n` blocks. -/
def blocks : ℕ → List UInt8 → List (List Word)
  | 0, _ => []
  | n + 1, msg =>
    ((List.range 16).map fun i => ofBytes ((msg.drop (4 * i)).take 4)) :: blocks n (msg.drop 64)

def sha256 (msg : List UInt8) : List UInt8 :=
  let padded := pad msg
  let v := (blocks (padded.length / 64) padded).foldl compress initial
  [v.a, v.b, v.c, v.d, v.e, v.f, v.g, v.h].flatMap (toBytes 4)

theorem length_sha256 (msg : List UInt8) : (sha256 msg).length = 32 := by
  simp [sha256, toBytes]

example : sha256 [97, 98, 99] =
    [0xba, 0x78, 0x16, 0xbf, 0x8f, 0x01, 0xcf, 0xea, 0x41, 0x41, 0x40, 0xde, 0x5d, 0xae, 0x22, 0x23,
     0xb0, 0x03, 0x61, 0xa3, 0x96, 0x17, 0x7a, 0x9c, 0xb4, 0x10, 0xff, 0x61, 0xf2, 0x00, 0x15, 0xad] := by
  decide +kernel

end Sha2
