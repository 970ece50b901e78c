import Dice.Face.Source

/-!
Faces dealt from a list, as they stand there, whatever the sides of the dice. When the list is used
up a handful ends early, and a die on its own shows nothing: zero.
-/
namespace Dice

structure ListedFaces where
  left : List UInt32
  drawn : Nat
  deriving DecidableEq, Repr

namespace ListedFaces

def ofList (faces : List UInt32) : ListedFaces := ⟨faces, 0⟩

def deal? (s : ListedFaces) : Option (UInt32 × ListedFaces) :=
  match s.left with
  | [] => none
  | face :: left => some (face, ⟨left, s.drawn + 1⟩)

instance : FaceSource ListedFaces where
  single _ s := .ok (s.deal?.getD (0, s))
  deal? _ s := .ok s.deal?

end ListedFaces
end Dice
