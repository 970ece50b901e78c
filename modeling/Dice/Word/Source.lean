import Dice.Face.Source

/-!
Random 32-bit words, and dice rolled from them. A word times the number of sides is a product of 64
bits: its upper half picks the face, and its lower half decides whether the word counts at all, so
that every face keeps the same number of words. A word outside the zone is passed over.
-/
namespace Dice

class WordSource (σ : Type) where
  next : σ → UInt32 × σ
  /-- How far to look: when none of that many words is accepted, none ever is. -/
  span : σ → Nat

/-- The greatest lower half with which a word counts for a die in a handful: as many halves are
refused as words are left over when every face has an equal share of them. -/
def Sides.handfulZone (s : Sides) : Nat := (UInt32.size - 1) - (UInt32.size - s.toNat) % s.toNat

/-- The greatest lower half with which a word counts for a die on its own: as many halves count as
the sides, doubled for as long as 32 bits hold them. -/
def Sides.singleZone (s : Sides) : Nat := (s.toNat <<< (31 - s.toNat.log2)) - 1

def Sides.face? (s : Sides) (zone : Nat) (word : UInt32) : Option UInt32 :=
  let product := word.toNat * s.toNat
  if product % UInt32.size ≤ zone then some (UInt32.ofNat (product / UInt32.size + 1)) else none

namespace WordSource

variable {σ : Type} [WordSource σ]

def search? (zone : Nat) (s : Sides) (limit : Nat) (source : σ) : Option (UInt32 × σ) :=
  match limit with
  | 0 => none
  | limit + 1 =>
    let (word, source) := next source
    match s.face? zone word with
    | some face => some (face, source)
    | none => search? zone s limit source

def face (zone : Nat) (s : Sides) (source : σ) : Except Fault (UInt32 × σ) :=
  match search? zone s (span source) source with
  | some found => .ok found
  | none => .error .endlessSearch

instance : FaceSource σ where
  single s := face s.singleZone s
  deal? s source := (face s.handfulZone s source).map some

end WordSource
end Dice
