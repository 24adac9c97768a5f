import Mathlib.Data.List.Basic

/-!
# SHA-256

The hash as a function from bytes to lowercase hexadecimal digits, with words as
natural numbers below `2 ^ 32`, so that it evaluates on concrete input.

## Main definitions

* `pad`: The message with its length, in whole blocks.
* `schedule`: The message schedule of a block.
* `compress`: One block.
* `hex`: The digest of a message.

## Theorems

* `length_hex`: A digest has 64 digits.
-/

namespace Sha256

def modulus : Nat := 4294967296

def add (x y : Nat) : Nat := (x + y) % modulus

/-- Rotate a word to the right. -/
def rotr (n x : Nat) : Nat :=
  (x >>> n) ||| ((x <<< (32 - n)) % modulus)

def complement (x : Nat) : Nat := modulus - 1 - x

def smallSigma0 (x : Nat) : Nat := rotr 7 x ^^^ rotr 18 x ^^^ (x >>> 3)

def smallSigma1 (x : Nat) : Nat := rotr 17 x ^^^ rotr 19 x ^^^ (x >>> 10)

def bigSigma0 (x : Nat) : Nat := rotr 2 x ^^^ rotr 13 x ^^^ rotr 22 x

def bigSigma1 (x : Nat) : Nat := rotr 6 x ^^^ rotr 11 x ^^^ rotr 25 x

def choose (x y z : Nat) : Nat := (x &&& y) ^^^ (complement x &&& z)

def majority (x y z : Nat) : Nat := (x &&& y) ^^^ (x &&& z) ^^^ (y &&& z)

/-- The round constants. -/
def constants : List Nat :=
  [0x428a2f98, 0x71374491, 0xb5c0fbcf, 0xe9b5dba5, 0x3956c25b, 0x59f111f1, 0x923f82a4, 0xab1c5ed5,
    0xd807aa98, 0x12835b01, 0x243185be, 0x550c7dc3, 0x72be5d74, 0x80deb1fe, 0x9bdc06a7, 0xc19bf174,
    0xe49b69c1, 0xefbe4786, 0x0fc19dc6, 0x240ca1cc, 0x2de92c6f, 0x4a7484aa, 0x5cb0a9dc, 0x76f988da,
    0x983e5152, 0xa831c66d, 0xb00327c8, 0xbf597fc7, 0xc6e00bf3, 0xd5a79147, 0x06ca6351, 0x14292967,
    0x27b70a85, 0x2e1b2138, 0x4d2c6dfc, 0x53380d13, 0x650a7354, 0x766a0abb, 0x81c2c92e, 0x92722c85,
    0xa2bfe8a1, 0xa81a664b, 0xc24b8b70, 0xc76c51a3, 0xd192e819, 0xd6990624, 0xf40e3585, 0x106aa070,
    0x19a4c116, 0x1e376c08, 0x2748774c, 0x34b0bcb5, 0x391c0cb3, 0x4ed8aa4a, 0x5b9cca4f, 0x682e6ff3,
    0x748f82ee, 0x78a5636f, 0x84c87814, 0x8cc70208, 0x90befffa, 0xa4506ceb, 0xbef9a3f7, 0xc67178f2]

/-- The eight words of the state. -/
structure Digest where
  a : Nat
  b : Nat
  c : Nat
  d : Nat
  e : Nat
  f : Nat
  g : Nat
  h : Nat

def initial : Digest :=
  { a := 0x6a09e667
    b := 0xbb67ae85
    c := 0x3c6ef372
    d := 0xa54ff53a
    e := 0x510e527f
    f := 0x9b05688c
    g := 0x1f83d9ab
    h := 0x5be0cd19 }

/-- The `k` low bytes of a number, the high one first. -/
def bigEndian : Nat → Nat → List Nat
  | 0, _ => []
  | k + 1, n => bigEndian k (n / 256) ++ [n % 256]

/-- The message, a one bit, zeros, and the length of the message in bits. -/
def pad (message : List Nat) : List Nat :=
  message ++ 0x80 :: List.replicate ((119 - message.length % 64) % 64) 0 ++
    bigEndian 8 (8 * message.length)

/-- The bytes of a message as words. -/
def words : List Nat → List Nat
  | a :: b :: c :: d :: bytes => (((a * 256 + b) * 256 + c) * 256 + d) :: words bytes
  | _ => []

/-- One more word, out of the last sixteen. The words are kept last one first. -/
def nextWord (w : List Nat) : Nat :=
  add (add (smallSigma1 (w.getD 1 0)) (w.getD 6 0)) (add (smallSigma0 (w.getD 14 0)) (w.getD 15 0))

def expand : Nat → List Nat → List Nat
  | 0, w => w
  | k + 1, w => expand k (nextWord w :: w)

/-- The sixteen words of a block and the 48 that follow from them. -/
def schedule (block : List Nat) : List Nat :=
  (expand 48 block.reverse).reverse

def round (s : Digest) (kw : Nat × Nat) : Digest :=
  let t1 := add (add (add s.h (bigSigma1 s.e)) (choose s.e s.f s.g)) (add kw.1 kw.2)
  let t2 := add (bigSigma0 s.a) (majority s.a s.b s.c)
  { a := add t1 t2
    b := s.a
    c := s.b
    d := s.c
    e := add s.d t1
    f := s.e
    g := s.f
    h := s.g }

/-- One block. -/
def compress (s : Digest) (block : List Nat) : Digest :=
  let t := (constants.zip (schedule block)).foldl round s
  { a := add s.a t.a
    b := add s.b t.b
    c := add s.c t.c
    d := add s.d t.d
    e := add s.e t.e
    f := add s.f t.f
    g := add s.g t.g
    h := add s.h t.h }

/-- The first `n` blocks of a message, one after the other. -/
def blocks : Nat → List Nat → Digest → Digest
  | 0, _, s => s
  | n + 1, w, s => blocks n (w.drop 16) (compress s (w.take 16))

def hexDigit (n : Nat) : Char :=
  if n < 10 then Char.ofNat (48 + n) else Char.ofNat (87 + n)

/-- The `k` low digits of a number. -/
def hexDigits : Nat → Nat → List Char
  | 0, _ => []
  | k + 1, n => hexDigits k (n / 16) ++ [hexDigit (n % 16)]

/-- The digest of a message, as `hexdigest` writes it. -/
def hex (message : List Nat) : List Char :=
  let w := words (pad message)
  let s := blocks (w.length / 16) w initial
  [s.a, s.b, s.c, s.d, s.e, s.f, s.g, s.h].flatMap (hexDigits 8)

theorem length_hexDigits (k n : Nat) : (hexDigits k n).length = k := by
  induction k generalizing n with
  | zero => rfl
  | succ k ih => rw [hexDigits, List.length_append, ih, List.length_singleton]

theorem length_hex (message : List Nat) : (hex message).length = 64 := by
  simp [hex, length_hexDigits]

example : hex [97, 98, 99] =
    "ba7816bf8f01cfea414140de5dae2223b00361a396177a9cb410ff61f20015ad".toList := by
  decide +kernel

end Sha256
