import Dice.Expression
import Dice.Face.Source
import Dice.Roll

/-! Rolling an expression: its terms from left to right, each one's dice in order. -/
namespace Dice

variable {ρ : Type} [FaceSource ρ]

def Quantity.roll : Quantity → Rolling ρ (List UInt32)
  | .constant value => pure [value]
  | .dice count sides => Handful.roll ⟨count.toNat, sides⟩

def Term.roll (t : Term) : Rolling ρ Roll.Part := do
  return ⟨t.sign, ← t.quantity.roll⟩

def Expression.roll (e : Expression) : Rolling ρ Roll := do
  let first ← e.first.roll
  let rest ← e.rest.mapM Term.roll
  return ⟨first, rest⟩

end Dice
