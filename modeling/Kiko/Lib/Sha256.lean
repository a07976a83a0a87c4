import Mathlib.Algebra.Ring.Nat
import Mathlib.Data.List.Basic

/-!
# SHA-256

The digest, on lists of bytes. Words are numbers below `2 ^ 32`, so that a digest is computed
by the arithmetic of numbers alone.
-/

set_option autoImplicit false

namespace Sha256

def word (n : Nat) : Nat := n % 2 ^ 32

def rotr (x n : Nat) : Nat := (x >>> n) ||| word (x <<< (32 - n))

/-- The complement of a word. -/
def complement (x : Nat) : Nat := 2 ^ 32 - 1 - x

def constants : List Nat :=
  [0x428a2f98, 0x71374491, 0xb5c0fbcf, 0xe9b5dba5, 0x3956c25b, 0x59f111f1, 0x923f82a4, 0xab1c5ed5,
    0xd807aa98, 0x12835b01, 0x243185be, 0x550c7dc3, 0x72be5d74, 0x80deb1fe, 0x9bdc06a7, 0xc19bf174,
    0xe49b69c1, 0xefbe4786, 0x0fc19dc6, 0x240ca1cc, 0x2de92c6f, 0x4a7484aa, 0x5cb0a9dc, 0x76f988da,
    0x983e5152, 0xa831c66d, 0xb00327c8, 0xbf597fc7, 0xc6e00bf3, 0xd5a79147, 0x06ca6351, 0x14292967,
    0x27b70a85, 0x2e1b2138, 0x4d2c6dfc, 0x53380d13, 0x650a7354, 0x766a0abb, 0x81c2c92e, 0x92722c85,
    0xa2bfe8a1, 0xa81a664b, 0xc24b8b70, 0xc76c51a3, 0xd192e819, 0xd6990624, 0xf40e3585, 0x106aa070,
    0x19a4c116, 0x1e376c08, 0x2748774c, 0x34b0bcb5, 0x391c0cb3, 0x4ed8aa4a, 0x5b9cca4f, 0x682e6ff3,
    0x748f82ee, 0x78a5636f, 0x84c87814, 0x8cc70208, 0x90befffa, 0xa4506ceb, 0xbef9a3f7, 0xc67178f2]

structure State where
  a : Nat
  b : Nat
  c : Nat
  d : Nat
  e : Nat
  f : Nat
  g : Nat
  h : Nat

def initial : State where
  a := 0x6a09e667
  b := 0xbb67ae85
  c := 0x3c6ef372
  d := 0xa54ff53a
  e := 0x510e527f
  f := 0x9b05688c
  g := 0x1f83d9ab
  h := 0x5be0cd19

/-- `n` more words of the message schedule, the newest first. -/
def schedule : Nat → List Nat → List Nat
  | 0, ws => ws
  | n + 1, ws =>
    let x := ws.getD 14 0
    let y := ws.getD 1 0
    let s₀ := (rotr x 7 ^^^ rotr x 18) ^^^ (x >>> 3)
    let s₁ := (rotr y 17 ^^^ rotr y 19) ^^^ (y >>> 10)
    schedule n (word (ws.getD 15 0 + s₀ + ws.getD 6 0 + s₁) :: ws)

def round (s : State) (k w : Nat) : State :=
  let s₁ := (rotr s.e 6 ^^^ rotr s.e 11) ^^^ rotr s.e 25
  let choice := (s.e &&& s.f) ^^^ (complement s.e &&& s.g)
  let t₁ := s.h + s₁ + choice + k + w
  let s₀ := (rotr s.a 2 ^^^ rotr s.a 13) ^^^ rotr s.a 22
  let majority := ((s.a &&& s.b) ^^^ (s.a &&& s.c)) ^^^ (s.b &&& s.c)
  { a := word (t₁ + (s₀ + majority)), b := s.a, c := s.b, d := s.c
    e := word (s.d + t₁), f := s.e, g := s.f, h := s.g }

def rounds (s : State) : List Nat → List Nat → State
  | k :: ks, w :: ws => rounds (round s k w) ks ws
  | _, _ => s

/-- One block, of 16 words. -/
def compress (s : State) (block : List Nat) : State :=
  let r := rounds s constants (schedule 48 block.reverse).reverse
  { a := word (s.a + r.a), b := word (s.b + r.b), c := word (s.c + r.c), d := word (s.d + r.d)
    e := word (s.e + r.e), f := word (s.f + r.f), g := word (s.g + r.g), h := word (s.h + r.h) }

def compressAll : Nat → State → List Nat → State
  | 0, s, _ => s
  | n + 1, s, ws => compressAll n (compress s (ws.take 16)) (ws.drop 16)

def wordsOf : List UInt8 → List Nat
  | a :: b :: c :: d :: rest =>
    (a.toNat * 2 ^ 24 + b.toNat * 2 ^ 16 + c.toNat * 2 ^ 8 + d.toNat) :: wordsOf rest
  | _ => []

def bytesOf (n : Nat) : List UInt8 :=
  [.ofNat (n / 2 ^ 24), .ofNat (n / 2 ^ 16), .ofNat (n / 2 ^ 8), .ofNat n]

/-- The message, a set bit, zeros up to the last 8 bytes of a block, and the length in bits. -/
def padded (message : List UInt8) : List UInt8 :=
  let bits := 8 * message.length
  message ++ [0x80] ++ List.replicate ((119 - message.length % 64) % 64) 0 ++
    bytesOf (bits / 2 ^ 32) ++ bytesOf bits

def sha256 (message : List UInt8) : List UInt8 :=
  let ws := wordsOf (padded message)
  let s := compressAll (ws.length / 16) initial ws
  [s.a, s.b, s.c, s.d, s.e, s.f, s.g, s.h].flatMap bytesOf

theorem length_sha256 (message : List UInt8) : (sha256 message).length = 32 := rfl

end Sha256
