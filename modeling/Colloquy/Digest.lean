/-!
# SHA-256

The digest by which a template is known.  A message is padded to whole blocks of sixteen words, and
each block is folded into eight words of state over sixty-four rounds.  The message schedule is
never laid out: a round uses the first word of a window of sixteen and pushes the word sixteen
places on.
-/

namespace Colloquy.Digest

/-- The eight working words. -/
structure State where
  a : UInt32
  b : UInt32
  c : UInt32
  d : UInt32
  e : UInt32
  f : UInt32
  g : UInt32
  h : UInt32
  deriving DecidableEq

/-- The fractional parts of the square roots of the first eight primes. -/
def initial : State :=
  ⟨0x6a09e667, 0xbb67ae85, 0x3c6ef372, 0xa54ff53a, 0x510e527f, 0x9b05688c, 0x1f83d9ab, 0x5be0cd19⟩

/-- The fractional parts of the cube roots of the first sixty-four primes, one for each round. -/
def roundConstants : List UInt32 :=
  [0x428a2f98, 0x71374491, 0xb5c0fbcf, 0xe9b5dba5, 0x3956c25b, 0x59f111f1, 0x923f82a4, 0xab1c5ed5,
   0xd807aa98, 0x12835b01, 0x243185be, 0x550c7dc3, 0x72be5d74, 0x80deb1fe, 0x9bdc06a7, 0xc19bf174,
   0xe49b69c1, 0xefbe4786, 0x0fc19dc6, 0x240ca1cc, 0x2de92c6f, 0x4a7484aa, 0x5cb0a9dc, 0x76f988da,
   0x983e5152, 0xa831c66d, 0xb00327c8, 0xbf597fc7, 0xc6e00bf3, 0xd5a79147, 0x06ca6351, 0x14292967,
   0x27b70a85, 0x2e1b2138, 0x4d2c6dfc, 0x53380d13, 0x650a7354, 0x766a0abb, 0x81c2c92e, 0x92722c85,
   0xa2bfe8a1, 0xa81a664b, 0xc24b8b70, 0xc76c51a3, 0xd192e819, 0xd6990624, 0xf40e3585, 0x106aa070,
   0x19a4c116, 0x1e376c08, 0x2748774c, 0x34b0bcb5, 0x391c0cb3, 0x4ed8aa4a, 0x5b9cca4f, 0x682e6ff3,
   0x748f82ee, 0x78a5636f, 0x84c87814, 0x8cc70208, 0x90befffa, 0xa4506ceb, 0xbef9a3f7, 0xc67178f2]

/-- Rotation to the right. -/
def rotate (x n : UInt32) : UInt32 := x >>> n ||| x <<< (32 - n)

/-- One round with its constant and its word of the schedule. -/
def round (s : State) (k w : UInt32) : State :=
  let choice := (s.e &&& s.f) ^^^ (~~~s.e &&& s.g)
  let majority := (s.a &&& s.b) ^^^ (s.a &&& s.c) ^^^ (s.b &&& s.c)
  let t := s.h + (rotate s.e 6 ^^^ rotate s.e 11 ^^^ rotate s.e 25) + choice + k + w
  let u := (rotate s.a 2 ^^^ rotate s.a 13 ^^^ rotate s.a 22) + majority
  ⟨t + u, s.a, s.b, s.c, s.d + t, s.e, s.f, s.g⟩

/-- The word of the schedule that follows a window of sixteen. -/
def following (window : List UInt32) : UInt32 :=
  let w₁ := window.getD 1 0
  let w₁₄ := window.getD 14 0
  window.getD 0 0 + (rotate w₁ 7 ^^^ rotate w₁ 18 ^^^ w₁ >>> 3) + window.getD 9 0 +
    (rotate w₁₄ 17 ^^^ rotate w₁₄ 19 ^^^ w₁₄ >>> 10)

/-- The rounds for the remaining constants, over a window whose first word is the next to be
used. -/
def rounds (s : State) (window : List UInt32) : List UInt32 → State
  | [] => s
  | k :: ks =>
    rounds (round s k (window.getD 0 0)) (window.drop 1 ++ [following window]) ks

/-- Folds a block of sixteen words into the state. -/
def absorb (s : State) (block : List UInt32) : State :=
  let t := rounds s block roundConstants
  ⟨s.a + t.a, s.b + t.b, s.c + t.c, s.d + t.d, s.e + t.e, s.f + t.f, s.g + t.g, s.h + t.h⟩

/-- The big-endian bytes of a number, the given count of them. -/
def bytesOfNat (count n : Nat) : List UInt8 :=
  (List.range count).map fun i => UInt8.ofNat (n >>> (8 * (count - 1 - i)))

/-- The message followed by a one bit, zeros up to a whole block, and its length in bits. -/
def pad (message : List UInt8) : List UInt8 :=
  let zeros := (119 - message.length % 64) % 64
  message ++ 0x80 :: List.replicate zeros 0 ++ bytesOfNat 8 (8 * message.length)

/-- The big-endian words of some bytes; fewer than four at the end are dropped. -/
def words : List UInt8 → List UInt32
  | a :: b :: c :: d :: rest =>
    (a.toUInt32 <<< 24 ||| b.toUInt32 <<< 16 ||| c.toUInt32 <<< 8 ||| d.toUInt32) :: words rest
  | _ => []

/-- Folds all blocks of sixteen words into the state. -/
def absorbAll (s : State) (ws : List UInt32) : State :=
  if 16 ≤ ws.length then absorbAll (absorb s (ws.take 16)) (ws.drop 16) else s
termination_by ws.length
decreasing_by simp only [List.length_drop]; omega

/-- The digest of a message, as eight words. -/
def digest (message : List UInt8) : List UInt32 :=
  let s := absorbAll initial (words (pad message))
  [s.a, s.b, s.c, s.d, s.e, s.f, s.g, s.h]

/-- A word in lower-case hexadecimal, with all its eight digits. -/
def hex (w : UInt32) : List Char :=
  (List.range 8).map fun i => ((w.toNat >>> (4 * (7 - i))) % 16).digitChar

/-- The digest of a text in UTF-8, in lower-case hexadecimal. -/
def ofText (text : String) : String :=
  String.ofList ((digest text.toUTF8.toList).flatMap hex)

end Colloquy.Digest
