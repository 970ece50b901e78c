import Dice.Text

/-!
Amounts: the whole numbers that 64 bits hold, the sign included. They are written as `Int`, so laws
about them are laws of integers; an operation either stays in the range, or says which one left it,
or ends at the nearer limit.
-/
namespace Dice

inductive Fault where
  | additionOverflow
  | negationOverflow
  /-- A source of words that never yields a word in the accepted zone. -/
  | endlessSearch
  deriving DecidableEq, Repr

def Fault.message : Fault → Text
  | .additionOverflow => "attempt to add with overflow".toList
  | .negationOverflow => "attempt to negate with overflow".toList
  | .endlessSearch => "no word is ever accepted".toList

namespace Amount

def least : Int := -9223372036854775808

def greatest : Int := 9223372036854775807

def Fits (n : Int) : Prop := least ≤ n ∧ n ≤ greatest

instance : DecidablePred Fits := fun n => inferInstanceAs (Decidable (least ≤ n ∧ n ≤ greatest))

def clamp (n : Int) : Int := max least (min n greatest)

theorem clampAmount (n : Int) : Fits (clamp n) := by
  simp only [Fits, clamp, least, greatest]; omega

theorem clampFits {n : Int} (h : Fits n) : clamp n = n := by
  simp only [Fits, clamp, least, greatest] at *; omega

def orFault (fault : Fault) (n : Int) : Except Fault Int :=
  if Fits n then .ok n else .error fault

theorem orFaultOk {fault : Fault} {m n : Int} :
    orFault fault n = .ok m ↔ Fits n ∧ m = n := by
  unfold orFault
  split <;> simp_all [eq_comm]

def add (m n : Int) : Except Fault Int := orFault .additionOverflow (m + n)

def negate (n : Int) : Except Fault Int := orFault .negationOverflow (-n)

def saturatingAdd (m n : Int) : Int := clamp (m + n)

end Amount
end Dice
