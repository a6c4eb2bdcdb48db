import PullFlow.Decimal.Power

/-!
The digest SHA-256 of a sequence of bytes, written in base sixteen. The constants are the leading
bits of the fractional parts of roots of the first primes and are computed from that rule.
-/

namespace PullFlow.Hash.Sha256

open Decimal

/-- The first 64 primes. -/
def primes : List Nat :=
  [2, 3, 5, 7, 11, 13, 17, 19, 23, 29, 31, 37, 41, 43, 47, 53, 59, 61, 67, 71, 73, 79, 83, 89, 97,
    101, 103, 107, 109, 113, 127, 131, 137, 139, 149, 151, 157, 163, 167, 173, 179, 181, 191, 193,
    197, 199, 211, 223, 227, 229, 233, 239, 241, 251, 257, 263, 269, 271, 277, 281, 283, 293, 307,
    311]

/-- The largest number below `2 ^ bits` above `low` whose power of degree `degree` is at most `n`,
found bit by bit. -/
def rootBits (degree n : Nat) : Nat → Nat → Nat
  | 0, low => low
  | bits + 1, low =>
      let tried := low + twoToThe bits
      rootBits degree n bits (if Nat.pow tried degree ≤ n then tried else low)

/-- The first 32 bits of the fractional part of a root of a prime. -/
def fractionBits (degree p : Nat) : UInt32 :=
  UInt32.ofNat (rootBits degree (p * twoToThe (32 * degree)) 37 0)

/-- The words that the state starts from: square roots of the first eight primes. -/
def startState : List UInt32 := (primes.take 8).map (fractionBits 2)

/-- The words of the 64 rounds: cube roots of the first 64 primes. -/
def roundWords : List UInt32 := primes.map (fractionBits 3)

def rotate (x : UInt32) (n : UInt32) : UInt32 := (x >>> n) ||| (x <<< (32 - n))

/-- The bytes with a one bit, zero bits and the length in bits, filling blocks of 64. -/
def paddedBytes (bytes : List UInt8) : List UInt8 :=
  let length := bytes.length
  let zeros := (119 - length % 64) % 64
  let bits := 8 * length
  let ending := (List.range 8).map fun i => UInt8.ofNat (bits / twoToThe (8 * (7 - i)))
  bytes ++ 0x80 :: List.replicate zeros 0 ++ ending

/-- Four bytes as a word, the highest first. -/
def wordsOf : List UInt8 → List UInt32
  | a :: b :: c :: d :: rest =>
      (a.toUInt32 <<< 24 ||| b.toUInt32 <<< 16 ||| c.toUInt32 <<< 8 ||| d.toUInt32) :: wordsOf rest
  | _ => []

/-- The words of the rounds of one block, each after the sixteenth from earlier ones. -/
def schedule (block : Array UInt32) : Array UInt32 :=
  (List.range 48).foldl (fun w i =>
    let w15 := w.getD (i + 1) 0
    let w2 := w.getD (i + 14) 0
    let s0 := rotate w15 7 ^^^ rotate w15 18 ^^^ (w15 >>> 3)
    let s1 := rotate w2 17 ^^^ rotate w2 19 ^^^ (w2 >>> 10)
    w.push (w.getD i 0 + s0 + w.getD (i + 9) 0 + s1)) block

/-- The eight words of the state. -/
structure State where
  a : UInt32
  b : UInt32
  c : UInt32
  d : UInt32
  e : UInt32
  f : UInt32
  g : UInt32
  h : UInt32

def State.words (s : State) : List UInt32 := [s.a, s.b, s.c, s.d, s.e, s.f, s.g, s.h]

def State.ofWords : List UInt32 → State
  | [a, b, c, d, e, f, g, h] => ⟨a, b, c, d, e, f, g, h⟩
  | _ => ⟨0, 0, 0, 0, 0, 0, 0, 0⟩

/-- One round with its word of the schedule and its constant. -/
def round (s : State) (w : UInt32 × UInt32) : State :=
  let s1 := rotate s.e 6 ^^^ rotate s.e 11 ^^^ rotate s.e 25
  let choice := (s.e &&& s.f) ^^^ ((s.e ^^^ 0xFFFFFFFF) &&& s.g)
  let t1 := s.h + s1 + choice + w.2 + w.1
  let s0 := rotate s.a 2 ^^^ rotate s.a 13 ^^^ rotate s.a 22
  let majority := (s.a &&& s.b) ^^^ (s.a &&& s.c) ^^^ (s.b &&& s.c)
  ⟨t1 + (s0 + majority), s.a, s.b, s.c, s.d + t1, s.e, s.f, s.g⟩

/-- Takes one block into the state. -/
def compress (constants : List UInt32) (state : List UInt32) (block : List UInt32) : List UInt32 :=
  let w := (schedule block.toArray).toList
  let after := (w.zip constants).foldl round (.ofWords state)
  state.zipWith (· + ·) after.words

/-- Takes all blocks into the state; the fuel is their number. -/
def blocks (constants : List UInt32) : Nat → List UInt32 → List UInt32 → List UInt32
  | 0, state, _ => state
  | fuel + 1, state, words =>
      blocks constants fuel (compress constants state (words.take 16)) (words.drop 16)

def hexDigits (w : UInt32) : String :=
  let ds := Nat.toDigits 16 w.toNat
  String.ofList (List.replicate (8 - ds.length) '0' ++ ds)

/-- The digest of bytes. -/
def digest (bytes : List UInt8) : String :=
  let words := wordsOf (paddedBytes bytes)
  String.join ((blocks roundWords (words.length / 16) startState words).map hexDigits)

end PullFlow.Hash.Sha256
