namespace ChipEight.Random

/-- Sixteen words: a state of the cipher or a block of its output. -/
abbrev Block := Vector UInt32 16

/-- Where a word stands in a block. -/
abbrev Position := Fin 16

abbrev CipherKey := Vector UInt32 8

namespace ChaCha

def rotateLeft (word amount : UInt32) : UInt32 :=
  (word <<< amount) ||| (word >>> (32 - amount))

/-- One half of a quarter round: `a` takes in `b`, then `d` takes in `a` and turns. -/
def mix (a b d : Position) (amount : UInt32) (s : Block) : Block :=
  let s := s.set a (s[a] + s[b])
  s.set d (rotateLeft (s[d] ^^^ s[a]) amount)

def quarterRound (a b c d : Position) (s : Block) : Block :=
  s |> mix a b d 16 |> mix c d b 12 |> mix a b d 8 |> mix c d b 7

def position (n : Nat) : Position := ⟨n % 16, Nat.mod_lt n (Nat.zero_lt_succ 15)⟩

def quarterRoundAt (a b c d : Nat) : Block → Block :=
  quarterRound (position a) (position b) (position c) (position d)

/-- The four columns, then the four diagonals. -/
def doubleRound (s : Block) : Block :=
  s |> quarterRoundAt 0 4 8 12 |> quarterRoundAt 1 5 9 13
    |> quarterRoundAt 2 6 10 14 |> quarterRoundAt 3 7 11 15
    |> quarterRoundAt 0 5 10 15 |> quarterRoundAt 1 6 11 12
    |> quarterRoundAt 2 7 8 13 |> quarterRoundAt 3 4 9 14

/-- Constants, key, a counter of two words and two zero words. -/
def start (key : CipherKey) (counter : UInt64) : Block :=
  let constants : Vector UInt32 4 := #v[0x61707865, 0x3320646E, 0x79622D32, 0x6B206574]
  constants ++ key ++ #v[counter.toUInt32, (counter >>> 32).toUInt32, 0, 0]

/-- Twenty rounds, added to the state they started from. -/
def block (key : CipherKey) (counter : UInt64) : Block :=
  let s := start key counter
  Vector.zipWith (· + ·) s (Nat.repeat doubleRound 10 s)

end ChaCha

end ChipEight.Random
