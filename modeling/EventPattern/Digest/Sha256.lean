/-! The SHA-256 digest of a byte string.

A message of `n` bytes is read as if it were padded: byte `n` is 0x80, the last eight
bytes of the last block hold the length in bits, and zeros stand between. -/
namespace EventPattern.Sha256

attribute [local instance (high)] instPowNat

def initial : Array UInt32 := #[
  0x6a09e667, 0xbb67ae85, 0x3c6ef372, 0xa54ff53a, 0x510e527f, 0x9b05688c, 0x1f83d9ab, 0x5be0cd19]

def constants : Array UInt32 := #[
  0x428a2f98, 0x71374491, 0xb5c0fbcf, 0xe9b5dba5, 0x3956c25b, 0x59f111f1, 0x923f82a4, 0xab1c5ed5,
  0xd807aa98, 0x12835b01, 0x243185be, 0x550c7dc3, 0x72be5d74, 0x80deb1fe, 0x9bdc06a7, 0xc19bf174,
  0xe49b69c1, 0xefbe4786, 0x0fc19dc6, 0x240ca1cc, 0x2de92c6f, 0x4a7484aa, 0x5cb0a9dc, 0x76f988da,
  0x983e5152, 0xa831c66d, 0xb00327c8, 0xbf597fc7, 0xc6e00bf3, 0xd5a79147, 0x06ca6351, 0x14292967,
  0x27b70a85, 0x2e1b2138, 0x4d2c6dfc, 0x53380d13, 0x650a7354, 0x766a0abb, 0x81c2c92e, 0x92722c85,
  0xa2bfe8a1, 0xa81a664b, 0xc24b8b70, 0xc76c51a3, 0xd192e819, 0xd6990624, 0xf40e3585, 0x106aa070,
  0x19a4c116, 0x1e376c08, 0x2748774c, 0x34b0bcb5, 0x391c0cb3, 0x4ed8aa4a, 0x5b9cca4f, 0x682e6ff3,
  0x748f82ee, 0x78a5636f, 0x84c87814, 0x8cc70208, 0x90befffa, 0xa4506ceb, 0xbef9a3f7, 0xc67178f2]

def rotateRight (x : UInt32) (n : UInt32) : UInt32 := (x >>> n) ||| (x <<< (32 - n))

/-- The number of 64-byte blocks of the padded message. -/
def blockCount (message : ByteArray) : Nat := (message.size + 72) / 64

/-- Byte `i` of the padded message. -/
def paddedByte (message : ByteArray) (i : Nat) : UInt8 :=
  let size := message.size
  let lengthAt := 64 * blockCount message - 8
  if h : i < size then message[i]
  else if i = size then 0x80
  else if i < lengthAt then 0
  else UInt8.ofNat (8 * size / 256 ^ (7 - (i - lengthAt)))

/-- Four bytes, the most significant first. -/
def wordAt (message : ByteArray) (i : Nat) : UInt32 :=
  [0, 1, 2, 3].foldl (fun word k => word <<< 8 ||| (paddedByte message (i + k)).toUInt32) 0

/-- The sixteen words of a block, stretched to sixty-four. -/
def schedule (message : ByteArray) (block : Nat) : Array UInt32 :=
  let words := (List.range 16).foldl (fun w t => w.push (wordAt message (64 * block + 4 * t))) #[]
  (List.range 48).foldl (fun w i =>
    let back (n : Nat) : UInt32 := w.getD (i + 16 - n) 0
    let x := back 15
    let y := back 2
    let small := rotateRight x 7 ^^^ rotateRight x 18 ^^^ (x >>> 3)
    let large := rotateRight y 17 ^^^ rotateRight y 19 ^^^ (y >>> 10)
    w.push (back 16 + small + back 7 + large)) words

structure Registers where
  a : UInt32
  b : UInt32
  c : UInt32
  d : UInt32
  e : UInt32
  f : UInt32
  g : UInt32
  h : UInt32

def Registers.ofWords (words : Array UInt32) : Registers :=
  let word (i : Nat) : UInt32 := words.getD i 0
  ⟨word 0, word 1, word 2, word 3, word 4, word 5, word 6, word 7⟩

def Registers.words (r : Registers) : Array UInt32 := #[r.a, r.b, r.c, r.d, r.e, r.f, r.g, r.h]

def round (r : Registers) (constant word : UInt32) : Registers :=
  let large := rotateRight r.e 6 ^^^ rotateRight r.e 11 ^^^ rotateRight r.e 25
  let choice := (r.e &&& r.f) ^^^ ((~~~r.e) &&& r.g)
  let first := r.h + large + choice + constant + word
  let small := rotateRight r.a 2 ^^^ rotateRight r.a 13 ^^^ rotateRight r.a 22
  let majority := (r.a &&& r.b) ^^^ (r.a &&& r.c) ^^^ (r.b &&& r.c)
  { a := first + small + majority, b := r.a, c := r.b, d := r.c
    e := r.d + first, f := r.e, g := r.f, h := r.g }

def compress (message : ByteArray) (state : Array UInt32) (block : Nat) : Array UInt32 :=
  let words := schedule message block
  let mixed := (List.range 64).foldl
    (fun r t => round r (constants.getD t 0) (words.getD t 0)) (.ofWords state)
  state.zipWith (· + ·) mixed.words

def digest (message : ByteArray) : Array UInt32 :=
  (List.range (blockCount message)).foldl (compress message) initial

def hexWord (word : UInt32) : List Char :=
  (List.range 8).map fun i => (Nat.toDigits 16 (word.toNat / 16 ^ (7 - i) % 16)).headD '0'

/-- The digest of a text's UTF-8 bytes, as 64 lower-case hexadecimal digits. -/
def hexOfText (text : String) : String :=
  String.ofList ((digest text.toUTF8).toList.flatMap hexWord)

end EventPattern.Sha256
