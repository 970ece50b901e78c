import Dice.Expression.Canonical
import Dice.Expression.Parse
import Dice.Roll.Draw
import Dice.Segment

/-!
Dice expressions embedded in text. A live region that reads as an expression is rolled and shows
its canonical text and its total; no other part of a text draws from the source.
-/
namespace Dice

variable {ρ : Type} [FaceSource ρ]

def bracketed (t : Text) : Text := '[' :: t ++ [']']

def Expression.rollTotal (e : Expression) : Rolling ρ Int := do
  let roll : Roll ← e.roll
  liftM roll.total

def rollRegion (interior : Text) : Rolling ρ Text :=
  match Expression.parse interior with
  | .ok e => do
    let total ← e.rollTotal
    return bracketed (e.canonical ++ " = ".toList ++ Decimal.ofInt total)
  | .error _ => pure (bracketed ("ERR:".toList ++ interior))

def Segment.substitute : Segment → Rolling ρ Text
  | .text t => pure t
  | .escaped interior => pure (bracketed interior)
  | .live interior => rollRegion interior

def Text.substitute (t : Text) : Rolling ρ Text := do
  return (← (segments t).mapM Segment.substitute).flatten

def substituteAll (cells : List Text) : Rolling ρ (List Text) := cells.mapM Text.substitute

end Dice
