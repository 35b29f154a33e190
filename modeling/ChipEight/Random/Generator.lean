import ChipEight.Random.ChaCha

namespace ChipEight.Random

/-- Each word of a block gives its low byte. -/
def blockBytes (key : CipherKey) (number : Nat) : List UInt8 :=
  (ChaCha.block key number.toUInt64).toList.map (·.toUInt8)

/-- The bytes of a key's stream, counted from zero. -/
def streamByte (key : CipherKey) (k : Nat) : UInt8 :=
  (ChaCha.block key (k / 16).toUInt64)[ChaCha.position k].toUInt8

/-- Produces a block at a time and keeps what is left of it. -/
structure Generator where
  key : CipherKey
  /-- Number of blocks produced so far. -/
  blocks : Nat
  pending : List UInt8
  deriving DecidableEq

namespace Generator

def ofKey (key : CipherKey) : Generator := ⟨key, 0, []⟩

def next (g : Generator) : UInt8 × Generator :=
  match g.pending with
  | byte :: pending => (byte, { g with pending := pending })
  | [] =>
    let bytes := blockBytes g.key g.blocks
    (bytes.headD 0, ⟨g.key, g.blocks + 1, bytes.tail⟩)

end Generator

end ChipEight.Random
