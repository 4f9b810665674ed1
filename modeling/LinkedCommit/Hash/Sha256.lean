import LinkedCommit.Hash.Hasher
/-!
# SHA-256

The digest of a byte string: padding to whole blocks, and the compression of each block into
a state of eight words.

The hasher hashes field elements as words of 32 bytes one after the other, byte strings as they
are; the digest is read as a number and reduced modulo the prime.
-/

set_option autoImplicit false

namespace LinkedCommit

namespace Sha256

structure State where
  a : UInt32
  b : UInt32
  c : UInt32
  d : UInt32
  e : UInt32
  f : UInt32
  g : UInt32
  h : UInt32

/-- The first words of the fractional parts of the square roots of the first eight primes. -/
def State.initial : State :=
  ⟨0x6a09e667, 0xbb67ae85, 0x3c6ef372, 0xa54ff53a, 0x510e527f, 0x9b05688c, 0x1f83d9ab,
    0x5be0cd19⟩

/-- The first words of the fractional parts of the cube roots of the first 64 primes. -/
def roundConstants : List UInt32 :=
  [0x428a2f98, 0x71374491, 0xb5c0fbcf, 0xe9b5dba5, 0x3956c25b, 0x59f111f1, 0x923f82a4, 0xab1c5ed5,
   0xd807aa98, 0x12835b01, 0x243185be, 0x550c7dc3, 0x72be5d74, 0x80deb1fe, 0x9bdc06a7, 0xc19bf174,
   0xe49b69c1, 0xefbe4786, 0x0fc19dc6, 0x240ca1cc, 0x2de92c6f, 0x4a7484aa, 0x5cb0a9dc, 0x76f988da,
   0x983e5152, 0xa831c66d, 0xb00327c8, 0xbf597fc7, 0xc6e00bf3, 0xd5a79147, 0x06ca6351, 0x14292967,
   0x27b70a85, 0x2e1b2138, 0x4d2c6dfc, 0x53380d13, 0x650a7354, 0x766a0abb, 0x81c2c92e, 0x92722c85,
   0xa2bfe8a1, 0xa81a664b, 0xc24b8b70, 0xc76c51a3, 0xd192e819, 0xd6990624, 0xf40e3585, 0x106aa070,
   0x19a4c116, 0x1e376c08, 0x2748774c, 0x34b0bcb5, 0x391c0cb3, 0x4ed8aa4a, 0x5b9cca4f, 0x682e6ff3,
   0x748f82ee, 0x78a5636f, 0x84c87814, 0x8cc70208, 0x90befffa, 0xa4506ceb, 0xbef9a3f7, 0xc67178f2]

def rotateRight (x n : UInt32) : UInt32 := (x >>> n) ||| (x <<< (32 - n))

def word (a b c d : UInt8) : UInt32 :=
  (a.toUInt32 <<< 24) ||| (b.toUInt32 <<< 16) ||| (c.toUInt32 <<< 8) ||| d.toUInt32

def words : List UInt8 → List UInt32
  | a :: b :: c :: d :: rest => word a b c d :: words rest
  | _ => []

def wordBytes (w : UInt32) : List UInt8 :=
  [(w >>> 24).toUInt8, (w >>> 16).toUInt8, (w >>> 8).toUInt8, w.toUInt8]

def nextWord (w : Array UInt32) : UInt32 :=
  let x := w.getD (w.size - 15) 0
  let y := w.getD (w.size - 2) 0
  let s0 := rotateRight x 7 ^^^ rotateRight x 18 ^^^ (x >>> 3)
  let s1 := rotateRight y 17 ^^^ rotateRight y 19 ^^^ (y >>> 10)
  w.getD (w.size - 16) 0 + s0 + w.getD (w.size - 7) 0 + s1

def extend : Nat → Array UInt32 → Array UInt32
  | 0, w => w
  | n + 1, w => extend n (w.push (nextWord w))

def round (s : State) (k w : UInt32) : State :=
  let s1 := rotateRight s.e 6 ^^^ rotateRight s.e 11 ^^^ rotateRight s.e 25
  let ch := (s.e &&& s.f) ^^^ ((~~~ s.e) &&& s.g)
  let t1 := s.h + s1 + ch + k + w
  let s0 := rotateRight s.a 2 ^^^ rotateRight s.a 13 ^^^ rotateRight s.a 22
  let maj := (s.a &&& s.b) ^^^ (s.a &&& s.c) ^^^ (s.b &&& s.c)
  ⟨t1 + (s0 + maj), s.a, s.b, s.c, s.d + t1, s.e, s.f, s.g⟩

def rounds : State → List UInt32 → List UInt32 → State
  | s, k :: ks, w :: ws => rounds (round s k w) ks ws
  | s, _, _ => s

def compress (s : State) (block : List UInt32) : State :=
  let t := rounds s roundConstants (extend 48 block.toArray).toList
  ⟨s.a + t.a, s.b + t.b, s.c + t.c, s.d + t.d, s.e + t.e, s.f + t.f, s.g + t.g, s.h + t.h⟩

/-- The bytes after a message of `length` bytes: a one bit, zeros, and the length in bits. -/
def padding (length : Nat) : List UInt8 :=
  let zeros := (119 - length % 64) % 64
  let bits := 8 * length
  (0x80 : UInt8) :: List.replicate zeros (0 : UInt8)
    ++ ([56, 48, 40, 32, 24, 16, 8, 0].map fun s => UInt8.ofNat (bits >>> s))

/-- The states after each block; `n` bounds the number of blocks. -/
def absorb : Nat → State → List UInt32 → State
  | 0, s, _ => s
  | n + 1, s, ws => absorb n (compress s (ws.take 16)) (ws.drop 16)

def digest (message : List UInt8) : List UInt8 :=
  let ws := words (message ++ padding message.length)
  let s := absorb (ws.length / 16) State.initial ws
  [s.a, s.b, s.c, s.d, s.e, s.f, s.g, s.h].flatMap wordBytes

end Sha256

/-- The word of a field element: its last 32 bytes. -/
def fieldWord (x : Nat) : List UInt8 := bytesOfNat 32 x

def wordMessage (inputs : List Nat) : List UInt8 := inputs.flatMap fieldWord

def reducedDigest (prime : Nat) (message : List UInt8) : Nat :=
  natOfBytes (Sha256.digest message) % prime

def sha256Hasher (prime : Nat) : Hasher where
  prime := prime
  hash inputs := do
    checkInputs prime inputs
    return reducedDigest prime (wordMessage inputs)
  hashBytes bytes := .ok (reducedDigest prime bytes)

end LinkedCommit
