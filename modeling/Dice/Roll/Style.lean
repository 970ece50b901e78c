import Dice.Expression.Canonical
import Dice.Roll

/-!
Rolls written out. A style is three rules, for a part, for the breakdown of a roll into its parts,
and for a whole line; a style that replaces one of them keeps the others.
-/
namespace Dice

namespace Roll

def Part.breakdown (p : Part) : Text :=
  '(' :: Text.joined " + ".toList (p.values.map fun v => Decimal.ofNat v.toNat) ++ [')']

def breakdownBy (part : Part → Text) (r : Roll) : Text :=
  r.first.sign.leading ++ part r.first
    ++ r.rest.flatMap fun p => ' ' :: p.sign.symbol :: ' ' :: part p

def breakdown (r : Roll) : Text := r.breakdownBy Part.breakdown

end Roll

structure Style where
  part : Roll.Part → Text := Roll.Part.breakdown
  breakdown : Roll → Text := Roll.breakdownBy part
  line : Text → Int → Text := fun breakdown total =>
    breakdown ++ " = ".toList ++ Decimal.ofInt total

namespace Style

def plain : Style where

def labelled (label : Text) : Style where
  line breakdown total :=
    label ++ " = ".toList ++ breakdown ++ " = ".toList ++ Decimal.ofInt total

def write (s : Style) (r : Roll) : Except Fault Text :=
  return s.line (s.breakdown r) (← r.total)

end Style
end Dice
