import Dice.Amount

/-! The sign in front of a term. -/
namespace Dice

inductive Sign where
  | plus
  | minus
  deriving DecidableEq, Repr

namespace Sign

def isNegative : Sign → Bool
  | plus => false
  | minus => true

def symbol : Sign → Char
  | plus => '+'
  | minus => '-'

def applyTo : Sign → Int → Int
  | plus, n => n
  | minus, n => -n

def apply : Sign → Int → Except Fault Int
  | plus, n => .ok n
  | minus, n => Amount.negate n

theorem applyOk {s : Sign} {n : Int} (h : Amount.Fits (s.applyTo n)) :
    s.apply n = .ok (s.applyTo n) := by
  cases s with
  | plus => rfl
  | minus => exact Amount.orFaultOk.2 ⟨h, rfl⟩

end Sign
end Dice
