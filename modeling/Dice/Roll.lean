import Dice.Sign

/-!
What was rolled: for each term its sign and the values it counts. Sums are taken one value at a
time and stop at the first one that is no amount.
-/
namespace Dice

@[ext]
structure Roll.Part where
  sign : Sign
  values : List UInt32
  deriving DecidableEq, Repr

@[ext]
structure Roll where
  first : Roll.Part
  rest : List Roll.Part
  deriving DecidableEq, Repr

namespace Roll

def Part.sum (p : Part) : Int := p.values.foldl (fun sum v => sum + v.toNat) 0

def Part.share (p : Part) : Int := p.sign.applyTo p.sum

def Part.total (p : Part) : Except Fault Int := do
  let sum ← p.values.foldlM (fun sum v => Amount.add sum v.toNat) 0
  p.sign.apply sum

def parts (r : Roll) : List Part := r.first :: r.rest

def total (r : Roll) : Except Fault Int :=
  r.parts.foldlM (fun sum p => do Amount.add sum (← p.total)) 0

end Roll
end Dice
