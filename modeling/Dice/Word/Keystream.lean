import Dice.Word.Source

/-!
The ChaCha keystream with twelve rounds as a source of words: blocks of sixteen words, each a
function of a key of eight words and of its index. A seed of 64 bits is stretched into a key by a
permuted congruential generator.
-/
namespace Dice

def rotateLeft (word : UInt32) (bits : UInt32) : UInt32 :=
  (word <<< bits) ||| (word >>> (32 - bits))

def rotateRight (word : UInt32) (bits : UInt32) : UInt32 :=
  (word >>> bits) ||| (word <<< (32 - bits))

structure Row where
  w0 : UInt32
  w1 : UInt32
  w2 : UInt32
  w3 : UInt32
  deriving DecidableEq, Repr

namespace Row

def add (x y : Row) : Row := ⟨x.w0 + y.w0, x.w1 + y.w1, x.w2 + y.w2, x.w3 + y.w3⟩

def mix (bits : UInt32) (x y : Row) : Row :=
  ⟨rotateLeft (x.w0 ^^^ y.w0) bits, rotateLeft (x.w1 ^^^ y.w1) bits,
    rotateLeft (x.w2 ^^^ y.w2) bits, rotateLeft (x.w3 ^^^ y.w3) bits⟩

def turn (x : Row) : Row := ⟨x.w1, x.w2, x.w3, x.w0⟩

def toList (x : Row) : List UInt32 := [x.w0, x.w1, x.w2, x.w3]

end Row

structure Block where
  a : Row
  b : Row
  c : Row
  d : Row
  deriving DecidableEq, Repr

namespace Block

def columns (x : Block) : Block :=
  let a := x.a.add x.b
  let d := x.d.mix 16 a
  let c := x.c.add d
  let b := x.b.mix 12 c
  let a := a.add b
  let d := d.mix 8 a
  let c := c.add d
  let b := b.mix 7 c
  ⟨a, b, c, d⟩

/-- Two rounds: on the columns, then on the diagonals, which turning the rows makes columns. -/
def twoRounds (x : Block) : Block :=
  let x := x.columns
  let x := columns ⟨x.a, x.b.turn, x.c.turn.turn, x.d.turn.turn.turn⟩
  ⟨x.a, x.b.turn.turn.turn, x.c.turn.turn, x.d.turn⟩

def rounds : Nat → Block → Block
  | 0, x => x
  | n + 1, x => rounds n x.twoRounds

def add (x y : Block) : Block := ⟨x.a.add y.a, x.b.add y.b, x.c.add y.c, x.d.add y.d⟩

def toList (x : Block) : List UInt32 := x.a.toList ++ x.b.toList ++ x.c.toList ++ x.d.toList

end Block

structure Key where
  upper : Row
  lower : Row
  deriving DecidableEq, Repr

namespace Key

def stretch (state : UInt64) : UInt32 × UInt64 :=
  let state := state * 6364136223846793005 + 11634580027462260723
  let word := (((state >>> 18) ^^^ state) >>> 27).toUInt32
  (rotateRight word (state >>> 59).toUInt32, state)

def stretchRow (state : UInt64) : Row × UInt64 :=
  let (w0, state) := stretch state
  let (w1, state) := stretch state
  let (w2, state) := stretch state
  let (w3, state) := stretch state
  (⟨w0, w1, w2, w3⟩, state)

def ofSeed (seed : UInt64) : Key :=
  let (upper, state) := stretchRow seed
  let (lower, _) := stretchRow state
  ⟨upper, lower⟩

def block (key : Key) (index : UInt64) : Block :=
  let input : Block :=
    { a := ⟨0x61707865, 0x3320646E, 0x79622D32, 0x6B206574⟩
      b := key.upper
      c := key.lower
      d := ⟨index.toUInt32, (index >>> 32).toUInt32, 0, 0⟩ }
  (input.rounds 6).add input

end Key

structure Keystream where
  key : Key
  index : UInt64
  unread : List UInt32
  deriving DecidableEq, Repr

namespace Keystream

def ofKey (key : Key) : Keystream := ⟨key, 0, []⟩

def ofSeed (seed : UInt64) : Keystream := ofKey (.ofSeed seed)

def drawn (s : Keystream) : Nat := 16 * s.index.toNat - s.unread.length

def next (s : Keystream) : UInt32 × Keystream :=
  match s.unread with
  | word :: unread => (word, ⟨s.key, s.index, unread⟩)
  | [] =>
    let x := s.key.block s.index
    (x.a.w0, ⟨s.key, s.index + 1, x.toList.tail⟩)

/-- The indices go around after all blocks were read, and the same words come again. -/
instance : WordSource Keystream where
  next := next
  span s := s.unread.length + 16 * UInt64.size

end Keystream
end Dice
