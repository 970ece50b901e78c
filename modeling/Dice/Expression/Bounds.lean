import Dice.Expression

/-!
The lowest and the highest total of an expression. Every step ends at the limits of an amount, so
bounds exist for every expression.
-/
namespace Dice

structure Bounds where
  low : Int
  high : Int
  deriving DecidableEq, Repr

namespace Bounds

def zero : Bounds := ⟨0, 0⟩

def signed (b : Bounds) : Sign → Bounds
  | .plus => b
  | .minus => ⟨-b.high, -b.low⟩

def add (a b : Bounds) : Bounds :=
  ⟨Amount.saturatingAdd a.low b.low, Amount.saturatingAdd a.high b.high⟩

end Bounds

def Quantity.bounds : Quantity → Bounds
  | .constant value => ⟨value.toNat, value.toNat⟩
  | .dice count sides => ⟨count.toNat, Amount.clamp (count.toNat * sides.toNat)⟩

def Term.bounds (t : Term) : Bounds := t.quantity.bounds.signed t.sign

def Expression.bounds (e : Expression) : Bounds :=
  e.terms.foldl (fun sum t => sum.add t.bounds) .zero

end Dice
