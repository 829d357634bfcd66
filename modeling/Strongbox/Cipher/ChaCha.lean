import Strongbox.Bytes

/-!
# ChaCha20

The block function with twenty rounds, the key-derivation function made of the same rounds, and the
keystream.
-/

namespace Strongbox.ChaCha

/-- The sixteen words that the rounds work on. -/
abbrev State := Vector UInt32 16

/-- The four words that begin every state. -/
def constants : List UInt32 := [0x61707865, 0x3320646e, 0x79622d32, 0x6b206574]

/-- The state of sixteen words; missing words are zero. -/
def State.ofWords (words : List UInt32) : State := Vector.ofFn fun i => words.getD i 0

@[inline] def rotate (w : UInt32) (n : UInt32) : UInt32 := (w <<< n) ||| (w >>> (32 - n))

def quarter (s : State) (a b c d : Fin 16) : State :=
  let x := s[a] + s[b]
  let w := rotate (s[d] ^^^ x) 16
  let z := s[c] + w
  let y := rotate (s[b] ^^^ z) 12
  let x := x + y
  let w := rotate (w ^^^ x) 8
  let z := z + w
  let y := rotate (y ^^^ z) 7
  (((s.set a x).set b y).set c z).set d w

/-- One round down the columns and one along the diagonals. -/
def doubleRound (s : State) : State :=
  let s := quarter s 0 4 8 12
  let s := quarter s 1 5 9 13
  let s := quarter s 2 6 10 14
  let s := quarter s 3 7 11 15
  let s := quarter s 0 5 10 15
  let s := quarter s 1 6 11 12
  let s := quarter s 2 7 8 13
  quarter s 3 4 9 14

def rounds (s : State) : State := (List.range 10).foldl (fun s _ => doubleRound s) s

/-- The keystream block with a given number. -/
def block (key nonce : Bytes) (counter : Nat) : Bytes :=
  let start := State.ofWords
    (constants ++ key.words32 ++ UInt32.ofNat counter :: nonce.words32)
  let mixed := rounds start
  (List.range 16).flatMap fun i => Bytes.ofWord32 (start.toArray.getD i 0 + mixed.toArray.getD i 0)

/-- The key derived from a key and sixteen bytes: the first and the last row after the rounds. -/
def subkey (key input : Bytes) : Bytes :=
  let mixed := rounds (State.ofWords (constants ++ key.words32 ++ input.words32))
  ((mixed.toList.take 4) ++ (mixed.toList.drop 12)).flatMap Bytes.ofWord32

/-- `n` blocks of keystream, the first with the given number. -/
def keystream (key nonce : Bytes) (counter : Nat) : (n : Nat) → Bytes
  | 0 => []
  | n + 1 => block key nonce counter ++ keystream key nonce (counter + 1) n

@[simp] theorem block_length (key nonce : Bytes) (counter : Nat) :
    (block key nonce counter).length = 64 := by
  simp only [block, List.length_flatMap, Bytes.ofWord32_length]
  decide

@[simp] theorem keystream_length (key nonce : Bytes) (counter n : Nat) :
    (keystream key nonce counter n).length = 64 * n := by
  induction n generalizing counter with
  | zero => rfl
  | succ n ih => simp [keystream, ih]; omega

end Strongbox.ChaCha
