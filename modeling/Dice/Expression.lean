import Dice.Sign

/-!
Dice expressions: signed quantities in the order in which they are written. How one is read stands
in `Dice.Expression.Parse`, how it is written in `Dice.Expression.Canonical`.
-/
namespace Dice

structure Sides where
  count : UInt32
  pos : count ≠ 0
  deriving DecidableEq, Repr

namespace Sides

def ofWord? (n : UInt32) : Option Sides :=
  if h : n = 0 then none else some ⟨n, h⟩

def toNat (s : Sides) : Nat := s.count.toNat

theorem toNatPositive (s : Sides) : 0 < s.toNat :=
  Nat.pos_of_ne_zero fun h => s.pos (UInt32.toNat_inj.1 h)

theorem toNatRange (s : Sides) : s.toNat < UInt32.size := s.count.toNat_lt

end Sides

inductive Quantity where
  | constant (value : UInt32)
  | dice (count : UInt32) (sides : Sides)
  deriving DecidableEq, Repr

namespace Quantity

def count : Quantity → UInt32
  | constant value => value
  | dice count _ => count

def sides? : Quantity → Option Sides
  | constant _ => none
  | dice _ sides => some sides

end Quantity

structure Term where
  sign : Sign
  quantity : Quantity
  deriving DecidableEq, Repr

/-- One term or more; the sign of the first one is plus when none is written. -/
structure Expression where
  first : Term
  rest : List Term
  deriving DecidableEq, Repr

namespace Expression

def terms (e : Expression) : List Term := e.first :: e.rest

theorem termsNonempty (e : Expression) : e.terms ≠ [] := by simp [terms]

theorem termsInjective {d e : Expression} (h : d.terms = e.terms) : d = e := by
  cases d; cases e; simpa [terms] using h

def after (e : Expression) (t : Term) : Expression := ⟨t, e.terms⟩

def ofLatest (latest : Term) (earlier : List Term) : Expression :=
  earlier.foldl after ⟨latest, []⟩

theorem termsOfLatest (latest : Term) (earlier : List Term) :
    (ofLatest latest earlier).terms = earlier.reverse ++ [latest] := by
  have general : ∀ (ts : List Term) (e : Expression),
      (ts.foldl after e).terms = ts.reverse ++ e.terms := by
    intro ts
    induction ts with
    | nil => simp
    | cons t ts ih => intro e; rw [List.foldl_cons, ih]; simp [after, terms]
  exact general earlier _

end Expression
end Dice
