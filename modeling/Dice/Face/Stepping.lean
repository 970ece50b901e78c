import Dice.Face.Source

/-! Faces that go up by a fixed step from die to die, wrapped into the sides of each die. -/
namespace Dice

/-- The number behind the next face, at least one, and what each die adds to it. Both are wider than
a face, so that a start and a step of 32 bits last for as many dice as a count can ask for. As long
as a counter of 32 bits does not overflow, it gives the same faces. -/
structure Stepping where
  current : UInt64
  step : UInt64
  drawn : Nat
  deriving DecidableEq, Repr

namespace Stepping

def ofStart (start step : UInt64) : Stepping := ⟨start, step, 0⟩

def face (s : Stepping) (sides : Sides) : UInt32 :=
  UInt32.ofNat ((s.current.toNat - 1) % sides.toNat + 1)

def advance (s : Stepping) : Except Fault Stepping :=
  if s.current.toNat + s.step.toNat < UInt64.size then
    .ok ⟨s.current + s.step, s.step, s.drawn + 1⟩
  else .error .additionOverflow

def next (sides : Sides) (s : Stepping) : Except Fault (UInt32 × Stepping) :=
  s.advance.map fun following => (s.face sides, following)

instance : FaceSource Stepping where
  single := next
  deal? sides s := (next sides s).map some

end Stepping
end Dice
