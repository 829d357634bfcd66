import Strongbox.Bytes

/-!
# SHA-256

The digest of a message, and the keyed digest made from it.
-/

namespace Strongbox.Sha256

def roundConstants : List UInt32 := [
  0x428a2f98, 0x71374491, 0xb5c0fbcf, 0xe9b5dba5, 0x3956c25b, 0x59f111f1, 0x923f82a4, 0xab1c5ed5,
  0xd807aa98, 0x12835b01, 0x243185be, 0x550c7dc3, 0x72be5d74, 0x80deb1fe, 0x9bdc06a7, 0xc19bf174,
  0xe49b69c1, 0xefbe4786, 0x0fc19dc6, 0x240ca1cc, 0x2de92c6f, 0x4a7484aa, 0x5cb0a9dc, 0x76f988da,
  0x983e5152, 0xa831c66d, 0xb00327c8, 0xbf597fc7, 0xc6e00bf3, 0xd5a79147, 0x06ca6351, 0x14292967,
  0x27b70a85, 0x2e1b2138, 0x4d2c6dfc, 0x53380d13, 0x650a7354, 0x766a0abb, 0x81c2c92e, 0x92722c85,
  0xa2bfe8a1, 0xa81a664b, 0xc24b8b70, 0xc76c51a3, 0xd192e819, 0xd6990624, 0xf40e3585, 0x106aa070,
  0x19a4c116, 0x1e376c08, 0x2748774c, 0x34b0bcb5, 0x391c0cb3, 0x4ed8aa4a, 0x5b9cca4f, 0x682e6ff3,
  0x748f82ee, 0x78a5636f, 0x84c87814, 0x8cc70208, 0x90befffa, 0xa4506ceb, 0xbef9a3f7, 0xc67178f2]

def initial : List UInt32 := [
  0x6a09e667, 0xbb67ae85, 0x3c6ef372, 0xa54ff53a, 0x510e527f, 0x9b05688c, 0x1f83d9ab, 0x5be0cd19]

@[inline] def rotate (w : UInt32) (n : UInt32) : UInt32 := (w >>> n) ||| (w <<< (32 - n))

/-- The low `n` bytes of a number, highest first. -/
def bigEndian (n v : Nat) : Bytes := (Bytes.ofNatLE n v).reverse

/-- The message closed by a one bit and its length, a whole number of blocks long. -/
def padded (message : Bytes) : Bytes :=
  message ++ [0x80] ++ Bytes.padding 64 (message.length + 9) ++ bigEndian 8 (8 * message.length)

/-- The bytes four at a time, the high byte first. -/
def words : Bytes → List UInt32
  | a :: b :: c :: d :: rest => Bytes.word32 d c b a :: words rest
  | _ => []

/-- The sixteen words of a block drawn out to sixty-four. -/
def schedule (block : List UInt32) : Array UInt32 :=
  (List.range 48).foldl (fun w i =>
    let s0 := w.getD (i + 1) 0
    let s1 := w.getD (i + 14) 0
    w.push (w.getD i 0 + (rotate s0 7 ^^^ rotate s0 18 ^^^ (s0 >>> 3)) + w.getD (i + 9) 0
      + (rotate s1 17 ^^^ rotate s1 19 ^^^ (s1 >>> 10)))) block.toArray

structure State where
  a : UInt32
  b : UInt32
  c : UInt32
  d : UInt32
  e : UInt32
  f : UInt32
  g : UInt32
  h : UInt32

def round (s : State) (k : UInt32) : State :=
  let t1 := s.h + (rotate s.e 6 ^^^ rotate s.e 11 ^^^ rotate s.e 25)
    + ((s.e &&& s.f) ^^^ (~~~ s.e &&& s.g)) + k
  let t2 := (rotate s.a 2 ^^^ rotate s.a 13 ^^^ rotate s.a 22)
    + ((s.a &&& s.b) ^^^ (s.a &&& s.c) ^^^ (s.b &&& s.c))
  ⟨t1 + t2, s.a, s.b, s.c, s.d + t1, s.e, s.f, s.g⟩

def compress (h : List UInt32) (block : List UInt32) : List UInt32 :=
  let start : State := ⟨h.getD 0 0, h.getD 1 0, h.getD 2 0, h.getD 3 0, h.getD 4 0, h.getD 5 0,
    h.getD 6 0, h.getD 7 0⟩
  let r := (List.zipWith (· + ·) roundConstants (schedule block).toList).foldl round start
  List.zipWith (· + ·) h [r.a, r.b, r.c, r.d, r.e, r.f, r.g, r.h]

def absorb (h : List UInt32) : (n : Nat) → List UInt32 → List UInt32
  | 0, _ => h
  | n + 1, message => absorb (compress h (message.take 16)) n (message.drop 16)

def digest (message : Bytes) : Bytes :=
  let p := padded message
  (absorb initial (p.length / 64) (words p)).flatMap fun w => (Bytes.ofWord32 w).reverse

/-- A key as one block: digested if longer, filled with zeros if shorter. -/
def blockKey (key : Bytes) : Bytes :=
  let short := if key.length > 64 then digest key else key
  short ++ List.replicate (64 - short.length) 0

/-- The keyed digest of a message. -/
def hmac (key message : Bytes) : Bytes :=
  let k := blockKey key
  digest (k.map (· ^^^ 0x5c) ++ digest (k.map (· ^^^ 0x36) ++ message))

end Strongbox.Sha256
