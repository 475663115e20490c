/-!
# Content digests

A transformed module is filed under the digest of the text it was made from. The digest is SHA-256:
the text's UTF-8 bytes are padded to blocks of sixteen words, each block is expanded to a schedule
of sixty-four words, and sixty-four rounds fold it into a state of eight words. The digest is
written as sixty-four lowercase hexadecimal digits.
-/

set_option autoImplicit false

namespace LuaCoverage.Text.Digest

/-- The round constants: the first 32 bits of the fractional parts of the cube roots of the first
sixty-four primes. -/
def roundConstants : List UInt32 :=
  [0x428a2f98, 0x71374491, 0xb5c0fbcf, 0xe9b5dba5, 0x3956c25b, 0x59f111f1, 0x923f82a4, 0xab1c5ed5,
   0xd807aa98, 0x12835b01, 0x243185be, 0x550c7dc3, 0x72be5d74, 0x80deb1fe, 0x9bdc06a7, 0xc19bf174,
   0xe49b69c1, 0xefbe4786, 0x0fc19dc6, 0x240ca1cc, 0x2de92c6f, 0x4a7484aa, 0x5cb0a9dc, 0x76f988da,
   0x983e5152, 0xa831c66d, 0xb00327c8, 0xbf597fc7, 0xc6e00bf3, 0xd5a79147, 0x06ca6351, 0x14292967,
   0x27b70a85, 0x2e1b2138, 0x4d2c6dfc, 0x53380d13, 0x650a7354, 0x766a0abb, 0x81c2c92e, 0x92722c85,
   0xa2bfe8a1, 0xa81a664b, 0xc24b8b70, 0xc76c51a3, 0xd192e819, 0xd6990624, 0xf40e3585, 0x106aa070,
   0x19a4c116, 0x1e376c08, 0x2748774c, 0x34b0bcb5, 0x391c0cb3, 0x4ed8aa4a, 0x5b9cca4f, 0x682e6ff3,
   0x748f82ee, 0x78a5636f, 0x84c87814, 0x8cc70208, 0x90befffa, 0xa4506ceb, 0xbef9a3f7, 0xc67178f2]

/-- The eight words that the rounds transform. -/
structure State where
  a : UInt32
  b : UInt32
  c : UInt32
  d : UInt32
  e : UInt32
  f : UInt32
  g : UInt32
  h : UInt32
  deriving DecidableEq

/-- The state before the first block: the first 32 bits of the fractional parts of the square roots
of the first eight primes. -/
def State.start : State :=
  ⟨0x6a09e667, 0xbb67ae85, 0x3c6ef372, 0xa54ff53a, 0x510e527f, 0x9b05688c, 0x1f83d9ab, 0x5be0cd19⟩

/-- The eight words in order. -/
def State.words (state : State) : List UInt32 :=
  [state.a, state.b, state.c, state.d, state.e, state.f, state.g, state.h]

/-- Wordwise sum of two states. -/
def State.add (left right : State) : State :=
  ⟨left.a + right.a, left.b + right.b, left.c + right.c, left.d + right.d,
   left.e + right.e, left.f + right.f, left.g + right.g, left.h + right.h⟩

/-- Rotation of a word to the right. -/
def rotate (word : UInt32) (amount : UInt32) : UInt32 :=
  (word >>> amount) ||| (word <<< (32 - amount))

/-- Four bytes, the most significant first, as a word. -/
def word (w x y z : UInt8) : UInt32 :=
  (w.toUInt32 <<< 24) ||| (x.toUInt32 <<< 16) ||| (y.toUInt32 <<< 8) ||| z.toUInt32

/-- The words of a byte sequence; a last group of fewer than four bytes is dropped. -/
def words : List UInt8 → List UInt32
  | w :: x :: y :: z :: rest => word w x y z :: words rest
  | _ => []

/-- The bytes of a message followed by the bit one, by zeros up to eight bytes short of a multiple
of sixty-four, and by the message's length in bits. -/
def padded (message : List UInt8) : List UInt8 :=
  let length := message.length
  let zeros := (119 - length % 64) % 64
  let bits := length * 8
  let lengthBytes := [56, 48, 40, 32, 24, 16, 8, 0].map fun shift => (bits >>> shift).toUInt8
  message ++ 0x80 :: List.replicate zeros 0 ++ lengthBytes

/-- One more word of a schedule whose words so far are given newest first. -/
def nextWord (newest : List UInt32) : UInt32 :=
  let early := newest.getD 14 0
  let late := newest.getD 1 0
  let mixEarly := rotate early 7 ^^^ rotate early 18 ^^^ (early >>> 3)
  let mixLate := rotate late 17 ^^^ rotate late 19 ^^^ (late >>> 10)
  newest.getD 15 0 + mixEarly + newest.getD 6 0 + mixLate

/-- The sixty-four words that a block of sixteen words expands to. -/
def schedule (block : List UInt32) : List UInt32 :=
  ((List.range 48).foldl (fun newest _ => nextWord newest :: newest) block.reverse).reverse

/-- One round: mixes a schedule word and its round constant into the state. -/
def round (state : State) (constant scheduled : UInt32) : State :=
  let mixE := rotate state.e 6 ^^^ rotate state.e 11 ^^^ rotate state.e 25
  let choice := (state.e &&& state.f) ^^^ ((~~~state.e) &&& state.g)
  let first := state.h + mixE + choice + constant + scheduled
  let mixA := rotate state.a 2 ^^^ rotate state.a 13 ^^^ rotate state.a 22
  let majority := (state.a &&& state.b) ^^^ (state.a &&& state.c) ^^^ (state.b &&& state.c)
  ⟨first + (mixA + majority), state.a, state.b, state.c, state.d + first, state.e, state.f, state.g⟩

/-- Folds one block of sixteen words into the state. -/
def compress (state : State) (block : List UInt32) : State :=
  state.add ((roundConstants.zip (schedule block)).foldl
    (fun current pair => round current pair.1 pair.2) state)

/-- Folds the first `count` blocks of a word sequence into the state. -/
def compressBlocks : Nat → List UInt32 → State → State
  | 0, _, state => state
  | count + 1, stream, state =>
      compressBlocks count (stream.drop 16) (compress state (stream.take 16))

/-- The lowercase hexadecimal digit of a number below sixteen. -/
def hexDigit (value : Nat) : Char :=
  if value < 10 then Char.ofNat ('0'.toNat + value) else Char.ofNat ('a'.toNat + (value - 10))

/-- A number in a fixed count of lowercase hexadecimal digits, the most significant first. -/
def hexText (digits : Nat) (value : Nat) : String :=
  String.ofList
    ((List.range digits).reverse.map fun place => hexDigit ((value >>> (4 * place)) % 16))

/-- The SHA-256 digest of a byte sequence. -/
def ofBytes (message : List UInt8) : String :=
  let stream := words (padded message)
  let final := compressBlocks (stream.length / 16) stream State.start
  String.join (final.words.map fun part => hexText 8 part.toNat)

/-- The SHA-256 digest of a text's UTF-8 bytes. -/
def ofText (text : String) : String :=
  ofBytes text.toUTF8.toList

end LuaCoverage.Text.Digest
