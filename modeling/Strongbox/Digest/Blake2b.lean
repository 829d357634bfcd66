import Strongbox.Bytes

/-!
# BLAKE2b

The digest of a message, of any length up to sixty-four bytes, without a key.
-/

namespace Strongbox.Blake2b

/-- The eight words that every state starts from. -/
def initial : Vector UInt64 8 := #v[
  0x6a09e667f3bcc908, 0xbb67ae8584caa73b, 0x3c6ef372fe94f82b, 0xa54ff53a5f1d36f1,
  0x510e527fade682d1, 0x9b05688c2b3e6c1f, 0x1f83d9abfb41bd6b, 0x5be0cd19137e2179]

/-- The order in which each round takes the sixteen words of a block. -/
def orders : List (List Nat) := [
  [0, 1, 2, 3, 4, 5, 6, 7, 8, 9, 10, 11, 12, 13, 14, 15],
  [14, 10, 4, 8, 9, 15, 13, 6, 1, 12, 0, 2, 11, 7, 5, 3],
  [11, 8, 12, 0, 5, 2, 15, 13, 10, 14, 3, 6, 7, 1, 9, 4],
  [7, 9, 3, 1, 13, 12, 11, 14, 2, 6, 5, 10, 4, 0, 15, 8],
  [9, 0, 5, 7, 2, 4, 10, 15, 14, 1, 11, 12, 6, 8, 3, 13],
  [2, 12, 6, 10, 0, 11, 8, 3, 4, 13, 7, 5, 15, 14, 1, 9],
  [12, 5, 1, 15, 14, 13, 4, 10, 0, 7, 6, 3, 9, 2, 8, 11],
  [13, 11, 7, 14, 12, 1, 3, 9, 5, 0, 15, 4, 8, 6, 2, 10],
  [6, 15, 14, 9, 11, 3, 0, 8, 12, 2, 13, 7, 1, 4, 10, 5],
  [10, 2, 8, 4, 7, 6, 1, 5, 15, 11, 9, 14, 3, 12, 13, 0],
  [0, 1, 2, 3, 4, 5, 6, 7, 8, 9, 10, 11, 12, 13, 14, 15],
  [14, 10, 4, 8, 9, 15, 13, 6, 1, 12, 0, 2, 11, 7, 5, 3]]

@[inline] def rotate (w : UInt64) (n : UInt64) : UInt64 := (w >>> n) ||| (w <<< (64 - n))

/-- The sixteen words that the rounds work on. -/
abbrev State := Vector UInt64 16

@[inline] def word (s : State) (i : Nat) : UInt64 := s.toArray.getD i 0

def mix (s : State) (a b c d : Nat) (x y : UInt64) : State :=
  let p := word s a + word s b + x
  let t := rotate (word s d ^^^ p) 32
  let r := word s c + t
  let q := rotate (word s b ^^^ r) 24
  let p := p + q + y
  let t := rotate (t ^^^ p) 16
  let r := r + t
  let q := rotate (q ^^^ r) 63
  (((s.setIfInBounds a p).setIfInBounds b q).setIfInBounds c r).setIfInBounds d t

/-- One round over a block, its words taken in the given order. -/
def round (block : List UInt64) (s : State) (order : List Nat) : State :=
  let x (i : Nat) : UInt64 := block.getD (order.getD i 0) 0
  let s := mix s 0 4 8 12 (x 0) (x 1)
  let s := mix s 1 5 9 13 (x 2) (x 3)
  let s := mix s 2 6 10 14 (x 4) (x 5)
  let s := mix s 3 7 11 15 (x 6) (x 7)
  let s := mix s 0 5 10 15 (x 8) (x 9)
  let s := mix s 1 6 11 12 (x 10) (x 11)
  let s := mix s 2 7 8 13 (x 12) (x 13)
  mix s 3 4 9 14 (x 14) (x 15)

/-- The state after a block that ends `count` bytes into the message. -/
def compress (h : Vector UInt64 8) (block : Bytes) (count : Nat) (last : Bool) :
    Vector UInt64 8 :=
  let start : State := h ++ initial
  let start := start.set 12 (start[12] ^^^ UInt64.ofNat count)
  let start := if last then start.set 14 (~~~ start[14]) else start
  let done := orders.foldl (round block.words64) start
  Vector.ofFn fun i => h[i] ^^^ done[i] ^^^ done[i.val + 8]

/-- The state after the blocks of `rest`, which follow `count` bytes; the last is filled with
zeros. `n` bounds the number of blocks before the last. -/
def absorb (h : Vector UInt64 8) (count : Nat) (rest : Bytes) : (n : Nat) → Vector UInt64 8
  | 0 => compress h (rest ++ List.replicate (128 - rest.length) 0) (count + rest.length) true
  | n + 1 => absorb (compress h (rest.take 128) (count + 128) false) (count + 128) (rest.drop 128) n

/-- The digest of `n` bytes, at most sixty-four. -/
def digest (n : Nat) (message : Bytes) : Bytes :=
  let h := initial.set 0 (initial[0] ^^^ 0x01010000 ^^^ UInt64.ofNat n)
  ((absorb h 0 message ((message.length - 1) / 128)).toList.flatMap Bytes.ofWord64).take n

end Strongbox.Blake2b
