/-
  `hashlib.sha256`, on lists of octets with words as naturals below `2^32`.
  Nothing here or below relies on more of the digest than that it is a
  function with 32-octet values.
-/
import MercuryRelay.Python.Text

set_option autoImplicit false

namespace Python

namespace Sha256

def word (n : ℕ) : ℕ := n % 2 ^ 32
def rotr (n x : ℕ) : ℕ := word ((x >>> n) ||| (x <<< (32 - n)))
def flip (x : ℕ) : ℕ := x ^^^ (2 ^ 32 - 1)

/-- The round constants. -/
def k : List ℕ :=
  [0x428a2f98, 0x71374491, 0xb5c0fbcf, 0xe9b5dba5, 0x3956c25b, 0x59f111f1, 0x923f82a4, 0xab1c5ed5,
   0xd807aa98, 0x12835b01, 0x243185be, 0x550c7dc3, 0x72be5d74, 0x80deb1fe, 0x9bdc06a7, 0xc19bf174,
   0xe49b69c1, 0xefbe4786, 0x0fc19dc6, 0x240ca1cc, 0x2de92c6f, 0x4a7484aa, 0x5cb0a9dc, 0x76f988da,
   0x983e5152, 0xa831c66d, 0xb00327c8, 0xbf597fc7, 0xc6e00bf3, 0xd5a79147, 0x06ca6351, 0x14292967,
   0x27b70a85, 0x2e1b2138, 0x4d2c6dfc, 0x53380d13, 0x650a7354, 0x766a0abb, 0x81c2c92e, 0x92722c85,
   0xa2bfe8a1, 0xa81a664b, 0xc24b8b70, 0xc76c51a3, 0xd192e819, 0xd6990624, 0xf40e3585, 0x106aa070,
   0x19a4c116, 0x1e376c08, 0x2748774c, 0x34b0bcb5, 0x391c0cb3, 0x4ed8aa4a, 0x5b9cca4f, 0x682e6ff3,
   0x748f82ee, 0x78a5636f, 0x84c87814, 0x8cc70208, 0x90befffa, 0xa4506ceb, 0xbef9a3f7, 0xc67178f2]

/-- The eight working words. -/
structure Words where
  a : ℕ
  b : ℕ
  c : ℕ
  d : ℕ
  e : ℕ
  f : ℕ
  g : ℕ
  h : ℕ

def initial : Words :=
  ⟨0x6a09e667, 0xbb67ae85, 0x3c6ef372, 0xa54ff53a, 0x510e527f, 0x9b05688c, 0x1f83d9ab, 0x5be0cd19⟩

/-- One round with schedule word `w` and constant `c`. -/
def round (s : Words) (w c : ℕ) : Words :=
  let s1 := rotr 6 s.e ^^^ rotr 11 s.e ^^^ rotr 25 s.e
  let ch := (s.e &&& s.f) ^^^ (flip s.e &&& s.g)
  let t1 := s.h + s1 + ch + c + w
  let s0 := rotr 2 s.a ^^^ rotr 13 s.a ^^^ rotr 22 s.a
  let maj := (s.a &&& s.b) ^^^ (s.a &&& s.c) ^^^ (s.b &&& s.c)
  ⟨word (t1 + (s0 + maj)), s.a, s.b, s.c, word (s.d + t1), s.e, s.f, s.g⟩

/-- The message schedule, latest word first, grown by `n` words. -/
def schedule : ℕ → List ℕ → List ℕ
  | 0, ws => ws
  | n + 1, ws =>
    let w15 := ws.getD 14 0
    let w2 := ws.getD 1 0
    let s0 := rotr 7 w15 ^^^ rotr 18 w15 ^^^ (w15 >>> 3)
    let s1 := rotr 17 w2 ^^^ rotr 19 w2 ^^^ (w2 >>> 10)
    schedule n (word (ws.getD 15 0 + s0 + ws.getD 6 0 + s1) :: ws)

/-- Big-endian words of a block. -/
def toWords : Bytes → List ℕ
  | a :: b :: c :: d :: r =>
    (a.toNat * 2 ^ 24 + b.toNat * 2 ^ 16 + c.toNat * 2 ^ 8 + d.toNat) :: toWords r
  | _ => []

def compress (s : Words) (block : Bytes) : Words :=
  let ws := (schedule 48 (toWords block).reverse).reverse
  let r := (ws.zip k).foldl (fun s wc => round s wc.1 wc.2) s
  ⟨word (s.a + r.a), word (s.b + r.b), word (s.c + r.c), word (s.d + r.d),
    word (s.e + r.e), word (s.f + r.f), word (s.g + r.g), word (s.h + r.h)⟩

def blocks : ℕ → Words → Bytes → Words
  | 0, s, _ => s
  | n + 1, s, m => blocks n (compress s (m.take 64)) (m.drop 64)

/-- The message padded to a multiple of 64 octets. -/
def pad (m : Bytes) : Bytes :=
  let n := m.length
  m ++ 0x80 :: List.replicate ((119 - n % 64) % 64) 0 ++
    (List.range 8).map fun i => .ofNat (n * 8 / 256 ^ (7 - i) % 256)

def octets (w : ℕ) : Bytes :=
  [.ofNat (w / 2 ^ 24 % 256), .ofNat (w / 2 ^ 16 % 256), .ofNat (w / 2 ^ 8 % 256), .ofNat (w % 256)]

end Sha256

open Sha256 in
/-- `hashlib.sha256(m).digest()`. -/
def sha256 (m : Bytes) : Raw :=
  let p := pad m
  let s := blocks (p.length / 64) initial p
  ⟨octets s.a ++ octets s.b ++ octets s.c ++ octets s.d ++
    octets s.e ++ octets s.f ++ octets s.g ++ octets s.h, rfl⟩

end Python
