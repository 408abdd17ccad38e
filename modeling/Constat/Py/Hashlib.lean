import Mathlib.Data.Nat.Bitwise

/-!
# Py.Hashlib

`hashlib.sha256(text.encode("utf-8")).hexdigest()`. Words are natural numbers below `2 ^ 32`.
-/

namespace Constat

namespace Sha256

/-- The UTF-8 bytes of a character. -/
def utf8 (c : Char) : List Nat :=
  let n := c.toNat
  if n < 0x80 then [n]
  else if n < 0x800 then [0xc0 + n / 64, 0x80 + n % 64]
  else if n < 0x10000 then [0xe0 + n / 4096, 0x80 + n / 64 % 64, 0x80 + n % 64]
  else [0xf0 + n / 262144, 0x80 + n / 4096 % 64, 0x80 + n / 64 % 64, 0x80 + n % 64]

def wordSize : Nat := 2 ^ 32

def add (a b : Nat) : Nat := (a + b) % wordSize
def rotr (n x : Nat) : Nat := x / 2 ^ n + x % 2 ^ n * 2 ^ (32 - n)
def complement (x : Nat) : Nat := wordSize - 1 - x

def ch (x y z : Nat) : Nat := (x &&& y) ^^^ (complement x &&& z)
def maj (x y z : Nat) : Nat := (x &&& y) ^^^ (x &&& z) ^^^ (y &&& z)
def bigSigma0 (x : Nat) : Nat := rotr 2 x ^^^ rotr 13 x ^^^ rotr 22 x
def bigSigma1 (x : Nat) : Nat := rotr 6 x ^^^ rotr 11 x ^^^ rotr 25 x
def smallSigma0 (x : Nat) : Nat := rotr 7 x ^^^ rotr 18 x ^^^ x / 2 ^ 3
def smallSigma1 (x : Nat) : Nat := rotr 17 x ^^^ rotr 19 x ^^^ x / 2 ^ 10

def roundConstants : List Nat :=
  [0x428a2f98, 0x71374491, 0xb5c0fbcf, 0xe9b5dba5, 0x3956c25b, 0x59f111f1, 0x923f82a4, 0xab1c5ed5,
    0xd807aa98, 0x12835b01, 0x243185be, 0x550c7dc3, 0x72be5d74, 0x80deb1fe, 0x9bdc06a7, 0xc19bf174,
    0xe49b69c1, 0xefbe4786, 0x0fc19dc6, 0x240ca1cc, 0x2de92c6f, 0x4a7484aa, 0x5cb0a9dc, 0x76f988da,
    0x983e5152, 0xa831c66d, 0xb00327c8, 0xbf597fc7, 0xc6e00bf3, 0xd5a79147, 0x06ca6351, 0x14292967,
    0x27b70a85, 0x2e1b2138, 0x4d2c6dfc, 0x53380d13, 0x650a7354, 0x766a0abb, 0x81c2c92e, 0x92722c85,
    0xa2bfe8a1, 0xa81a664b, 0xc24b8b70, 0xc76c51a3, 0xd192e819, 0xd6990624, 0xf40e3585, 0x106aa070,
    0x19a4c116, 0x1e376c08, 0x2748774c, 0x34b0bcb5, 0x391c0cb3, 0x4ed8aa4a, 0x5b9cca4f, 0x682e6ff3,
    0x748f82ee, 0x78a5636f, 0x84c87814, 0x8cc70208, 0x90befffa, 0xa4506ceb, 0xbef9a3f7, 0xc67178f2]

/-- The eight working words. -/
structure Words where
  a : Nat
  b : Nat
  c : Nat
  d : Nat
  e : Nat
  f : Nat
  g : Nat
  h : Nat

def initial : Words :=
  ⟨0x6a09e667, 0xbb67ae85, 0x3c6ef372, 0xa54ff53a, 0x510e527f, 0x9b05688c, 0x1f83d9ab, 0x5be0cd19⟩

def round (s : Words) (k w : Nat) : Words :=
  let t1 := add (add (add s.h (bigSigma1 s.e)) (add (ch s.e s.f s.g) k)) w
  let t2 := add (bigSigma0 s.a) (maj s.a s.b s.c)
  ⟨add t1 t2, s.a, s.b, s.c, add s.d t1, s.e, s.f, s.g⟩

/-- The rounds of one block. `window` holds the next sixteen words of the message schedule. -/
def rounds : List Nat → List Nat → Words → Words
  | [], _, s => s
  | k :: ks, window, s =>
    let w := window.headD 0
    let next := add (add (smallSigma1 (window.getD 14 0)) (window.getD 9 0))
      (add (smallSigma0 (window.getD 1 0)) w)
    rounds ks (window.drop 1 ++ [next]) (round s k w)

def block (s : Words) (words : List Nat) : Words :=
  let t := rounds roundConstants words s
  ⟨add s.a t.a, add s.b t.b, add s.c t.c, add s.d t.d, add s.e t.e, add s.f t.f, add s.g t.g,
    add s.h t.h⟩

/-- `count` groups of `n` bytes as big-endian words. -/
def bigEndian : Nat → List Nat → List Nat
  | 0, _ => []
  | count + 1, bytes =>
    (bytes.take 4).foldl (fun n b => 256 * n + b) 0 :: bigEndian count (bytes.drop 4)

def blocks : Nat → List Nat → Words → Words
  | 0, _, s => s
  | count + 1, words, s => blocks count (words.drop 16) (block s (words.take 16))

/-- A one bit, zeros, and the length in bits, up to a multiple of 64 bytes. -/
def pad (bytes : List Nat) : List Nat :=
  let bits := 8 * bytes.length
  let zeros := (119 - bytes.length % 64) % 64
  bytes ++ [0x80] ++ List.replicate zeros 0 ++
    ((List.range 8).reverse.map fun i => bits / 256 ^ i % 256)

def hexWord (n : Nat) : List Char :=
  (List.range 8).reverse.map fun i => Nat.digitChar (n / 16 ^ i % 16)

end Sha256

open Sha256 in
def sha256 (text : String) : String :=
  let padded := pad (text.toList.flatMap utf8)
  let count := padded.length / 64
  let s := blocks count (bigEndian (16 * count) padded) initial
  String.ofList ([s.a, s.b, s.c, s.d, s.e, s.f, s.g, s.h].flatMap hexWord)

example : sha256 "abc" = "ba7816bf8f01cfea414140de5dae2223b00361a396177a9cb410ff61f20015ad" := by
  decide +kernel

end Constat
