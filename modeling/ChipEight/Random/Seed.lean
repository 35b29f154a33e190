import ChipEight.Random.ChaCha

namespace ChipEight.Random

def rotateRight (word amount : UInt32) : UInt32 :=
  (word >>> amount) ||| (word <<< (32 - amount))

/-- One step of the congruential sequence that a seed is stretched with. -/
def stretch (s : UInt64) : UInt64 := s * 6364136223846793005 + 11634580027462260723

/-- The word that a member of the sequence contributes: its upper bits pick how far the others
turn. -/
def permute (s : UInt64) : UInt32 :=
  rotateRight (((s >>> 18) ^^^ s) >>> 27).toUInt32 (s >>> 59).toUInt32

/-- Eight words from successive members of the sequence. -/
def CipherKey.ofSeed (seed : UInt64) : CipherKey :=
  Vector.ofFn fun i => permute (Nat.repeat stretch (i + 1) seed)

end ChipEight.Random
