import Dice.Expression
import Dice.Text.Decimal

/-!
The canonical text of an expression: numbers without leading zeros, one space on either side of
each sign between terms, and a sign before the first term only when it is a minus.
-/
namespace Dice

def Quantity.canonical : Quantity → Text
  | .constant value => Decimal.ofNat value.toNat
  | .dice count sides => Decimal.ofNat count.toNat ++ 'd' :: Decimal.ofNat sides.toNat

def Term.canonical (t : Term) : Text := t.sign.symbol :: ' ' :: t.quantity.canonical

def Sign.leading : Sign → Text
  | .plus => []
  | .minus => [symbol .minus]

def Expression.canonical (e : Expression) : Text :=
  e.first.sign.leading ++ e.first.quantity.canonical
    ++ e.rest.flatMap fun t => ' ' :: t.canonical

end Dice
