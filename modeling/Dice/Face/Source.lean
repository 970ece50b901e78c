import Dice.Expression

/-!
Where faces come from. A source rolls one die on its own or deals the dice of a handful one by one,
and only as many as are asked for. Rolling threads the source through a computation, so the order
of the draws is the order of the computation.
-/
namespace Dice

class FaceSource (ρ : Type) where
  single : Sides → ρ → Except Fault (UInt32 × ρ)
  /-- Rolls the next die of a handful; none is left in a source that has run dry. -/
  deal? : Sides → ρ → Except Fault (Option (UInt32 × ρ))

abbrev Rolling (ρ : Type) := StateT ρ (Except Fault)

structure Handful where
  left : Nat
  sides : Sides
  deriving DecidableEq, Repr

variable {ρ : Type} [FaceSource ρ]

def Sides.roll (s : Sides) : Rolling ρ UInt32 := fun source => FaceSource.single s source

namespace Handful

def next? (h : Handful) : Rolling ρ (Option (UInt32 × Handful)) := fun source =>
  match h.left with
  | 0 => .ok (none, source)
  | left + 1 =>
    match FaceSource.deal? h.sides source with
    | .ok (some (face, source)) => .ok (some (face, ⟨left, h.sides⟩), source)
    | .ok none => .ok (none, source)
    | .error fault => .error fault

def collect (done : List UInt32) (limit : Nat) (h : Handful) : Rolling ρ (List UInt32) :=
  match limit with
  | 0 => pure done.reverse
  | limit + 1 => do
    match ← h.next? with
    | some (face, h) => collect (face :: done) limit h
    | none => pure done.reverse

def take (limit : Nat) (h : Handful) : Rolling ρ (List UInt32) := collect [] limit h

def roll (h : Handful) : Rolling ρ (List UInt32) := h.take h.left

end Handful
end Dice
