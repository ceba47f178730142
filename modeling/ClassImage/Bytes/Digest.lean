import ClassImage.Bytes.Basic

/-!
The 256-bit secure hash. A message is padded to whole blocks of 64 bytes; each
block is expanded to 64 words and folded into eight words of state.
-/

namespace ClassImage

namespace Digest

structure State where
  a : UInt32
  b : UInt32
  c : UInt32
  d : UInt32
  e : UInt32
  f : UInt32
  g : UInt32
  h : UInt32

def initial : State :=
  ⟨0x6a09e667, 0xbb67ae85, 0x3c6ef372, 0xa54ff53a,
   0x510e527f, 0x9b05688c, 0x1f83d9ab, 0x5be0cd19⟩

def constants : List UInt32 :=
  [0x428a2f98, 0x71374491, 0xb5c0fbcf, 0xe9b5dba5, 0x3956c25b, 0x59f111f1,
   0x923f82a4, 0xab1c5ed5, 0xd807aa98, 0x12835b01, 0x243185be, 0x550c7dc3,
   0x72be5d74, 0x80deb1fe, 0x9bdc06a7, 0xc19bf174, 0xe49b69c1, 0xefbe4786,
   0x0fc19dc6, 0x240ca1cc, 0x2de92c6f, 0x4a7484aa, 0x5cb0a9dc, 0x76f988da,
   0x983e5152, 0xa831c66d, 0xb00327c8, 0xbf597fc7, 0xc6e00bf3, 0xd5a79147,
   0x06ca6351, 0x14292967, 0x27b70a85, 0x2e1b2138, 0x4d2c6dfc, 0x53380d13,
   0x650a7354, 0x766a0abb, 0x81c2c92e, 0x92722c85, 0xa2bfe8a1, 0xa81a664b,
   0xc24b8b70, 0xc76c51a3, 0xd192e819, 0xd6990624, 0xf40e3585, 0x106aa070,
   0x19a4c116, 0x1e376c08, 0x2748774c, 0x34b0bcb5, 0x391c0cb3, 0x4ed8aa4a,
   0x5b9cca4f, 0x682e6ff3, 0x748f82ee, 0x78a5636f, 0x84c87814, 0x8cc70208,
   0x90befffa, 0xa4506ceb, 0xbef9a3f7, 0xc67178f2]

def rotate (word : UInt32) (places : UInt32) : UInt32 :=
  (word >>> places) ||| (word <<< (32 - places))

/-- The next word of the expanded block, from the sixteen words before it. -/
def nextWord (window : List UInt32) : UInt32 :=
  let w1 := window.getD 1 0
  let w14 := window.getD 14 0
  let small := rotate w1 7 ^^^ rotate w1 18 ^^^ (w1 >>> 3)
  let large := rotate w14 17 ^^^ rotate w14 19 ^^^ (w14 >>> 10)
  window.getD 0 0 + small + window.getD 9 0 + large

/-- The first `count` words of the expanded block that begins with `window`. -/
def expand : Nat → List UInt32 → List UInt32
  | 0, _ => []
  | count + 1, window => window.getD 0 0 :: expand count (window.tail ++ [nextWord window])

def round (state : State) (input : UInt32 × UInt32) : State :=
  let high := rotate state.e 6 ^^^ rotate state.e 11 ^^^ rotate state.e 25
  let choice := (state.e &&& state.f) ^^^ (~~~state.e &&& state.g)
  let t1 := state.h + high + choice + input.1 + input.2
  let low := rotate state.a 2 ^^^ rotate state.a 13 ^^^ rotate state.a 22
  let majority := (state.a &&& state.b) ^^^ (state.a &&& state.c) ^^^ (state.b &&& state.c)
  ⟨t1 + (low + majority), state.a, state.b, state.c, state.d + t1, state.e, state.f, state.g⟩

def compress (state : State) (words : List UInt32) : State :=
  let final := (constants.zip (expand 64 words)).foldl round state
  ⟨state.a + final.a, state.b + final.b, state.c + final.c, state.d + final.d,
   state.e + final.e, state.f + final.f, state.g + final.g, state.h + final.h⟩

/-- A word from four bytes, most significant first. -/
def word (bytes : Bytes) : UInt32 := UInt32.ofNat (Bytes.value bytes.reverse)

/-- The first `count` words of a byte string. -/
def words : Nat → Bytes → List UInt32
  | 0, _ => []
  | count + 1, bytes => word (bytes.take 4) :: words count (bytes.drop 4)

def bigEndian (width number : Nat) : Bytes := (Bytes.little width number).reverse

/-- The message, a set bit, zeros, and the length in bits, in whole blocks. -/
def pad (message : Bytes) : Bytes :=
  message ++ 0x80 :: (List.replicate ((119 - message.length % 64) % 64) 0
    ++ bigEndian 8 (8 * message.length))

/-- Folds `count` blocks into the state. -/
def absorb : Nat → Bytes → State → State
  | 0, _, state => state
  | count + 1, bytes, state => absorb count (bytes.drop 64) (compress state (words 16 bytes))

def output (state : State) : Bytes :=
  [state.a, state.b, state.c, state.d, state.e, state.f, state.g, state.h].flatMap
    fun word => bigEndian 4 word.toNat

def sha256 (message : Bytes) : Bytes :=
  let padded := pad message
  output (absorb (padded.length / 64) padded initial)

end Digest

end ClassImage
