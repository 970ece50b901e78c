import Dice.Expression.Bounds
import Dice.Proofs.Totals

/-! Bounds hold for every total that exists. The two sums run side by side over the
terms: where the bounds saturate, the running total is still an amount, and saturation
never moves a bound past an amount. -/
namespace Dice

namespace Bounds

def Holds (b : Bounds) (n : Int) : Prop := b.low ≤ n ∧ n ≤ b.high

theorem zeroHolds : zero.Holds 0 := ⟨Int.le_refl 0, Int.le_refl 0⟩

theorem holdsSigned {b : Bounds} {n : Int} (holds : b.Holds n) (s : Sign) :
    (b.signed s).Holds (s.applyTo n) := by
  cases s with
  | plus => exact holds
  | minus => exact ⟨Int.neg_le_neg holds.2, Int.neg_le_neg holds.1⟩

theorem holdsAdd {b c : Bounds} {m n : Int} (left : b.Holds m) (right : c.Holds n)
    (fits : Amount.Fits (m + n)) : (b.add c).Holds (m + n) := by
  have same := Amount.clampFits fits
  constructor
  · rw [← same]
    exact Amount.clampMono (Int.add_le_add left.1 right.1)
  · rw [← same]
    exact Amount.clampMono (Int.add_le_add left.2 right.2)

theorem addOrdered {b c : Bounds} (left : b.low ≤ b.high) (right : c.low ≤ c.high) :
    (b.add c).low ≤ (b.add c).high :=
  Amount.clampMono (Int.add_le_add left right)

end Bounds

theorem quantityHolds {q : Quantity} {values : List UInt32} (shows : q.Shows values)
    (fits : Amount.Fits (Roll.sumFrom 0 values)) : q.bounds.Holds (Roll.sumFrom 0 values) := by
  cases shows with
  | constant value => simp [Bounds.Holds, Quantity.bounds, Roll.sumFrom]
  | dice count sides values size faces =>
    obtain ⟨least, most⟩ := Roll.sumFromFaces 0 faces
    rw [size] at least most
    constructor
    · simpa [Quantity.bounds] using least
    · rw [← Amount.clampFits fits]
      exact Amount.clampMono (by simpa using most)

theorem termHolds {t : Term} {p : Roll.Part} {n : Int} (yields : t.Yields p)
    (total : p.total = .ok n) : t.bounds.Holds n := by
  obtain ⟨fits, rfl⟩ := Roll.partTotal.mp total
  unfold Term.bounds Roll.Part.share
  rw [yields.sign]
  exact Bounds.holdsSigned (quantityHolds yields.values fits) t.sign

theorem foldHolds {ts : List Term} {ps : List Roll.Part} {b : Bounds} {m n : Int}
    (yields : List.Forall₂ Term.Yields ts ps) (holds : b.Holds m)
    (total : ps.foldlM (fun sum p => do Amount.add sum (← p.total)) m = .ok n) :
    (ts.foldl (fun sum t => sum.add t.bounds) b).Holds n := by
  -- The running total stays between the running bounds.
  induction yields generalizing b m with
  | nil =>
    rw [List.foldlM_nil, pureOk] at total
    exact total ▸ holds
  | cons first rest ih =>
    rw [List.foldlM_cons, bindOk] at total
    obtain ⟨k, step, later⟩ := total
    obtain ⟨share, part, sum⟩ := bindOk.mp step
    obtain ⟨fits, rfl⟩ := Amount.addOk.mp sum
    exact ih (Bounds.holdsAdd holds (termHolds first part) fits) later

/-- The bounds again, with the negation of a machine: the one step of them that could
leave the range, for sums and products saturate. -/
def Bounds.checkedSigned (b : Bounds) : Sign → Except Fault Bounds
  | .plus => .ok b
  | .minus => do return ⟨← Amount.negate b.high, ← Amount.negate b.low⟩

def Term.checkedBounds (t : Term) : Except Fault Bounds := t.quantity.bounds.checkedSigned t.sign

def Expression.checkedBounds (e : Expression) : Except Fault Bounds :=
  e.terms.foldlM (fun sum t => do return sum.add (← t.checkedBounds)) .zero

theorem quantityRange (q : Quantity) : 0 ≤ q.bounds.low ∧ q.bounds.low ≤ q.bounds.high ∧
    q.bounds.high ≤ Amount.greatest := by
  cases q with
  | constant value =>
    have word := value.toNat_lt
    simp only [Quantity.bounds, Amount.greatest]
    omega
  | dice count sides =>
    have word := count.toNat_lt
    have product : count.toNat ≤ count.toNat * sides.toNat :=
      Nat.le_mul_of_pos_right _ sides.toNatPositive
    simp only [Quantity.bounds, Amount.clamp, Amount.least, Amount.greatest, ← Int.natCast_mul]
    omega

theorem termChecked (t : Term) : t.checkedBounds = .ok t.bounds := by
  obtain ⟨low, ordered, high⟩ := quantityRange t.quantity
  unfold Term.checkedBounds Term.bounds
  cases t.sign with
  | plus => rfl
  | minus =>
    have fits {n : Int} (least : 0 ≤ n) (most : n ≤ Amount.greatest) :
        Amount.negate n = .ok (-n) := by
      refine Amount.orFaultOk.mpr ⟨?_, rfl⟩
      simp only [Amount.Fits, Amount.least, Amount.greatest] at most ⊢
      omega
    have fitsHigh := fits (Int.le_trans low ordered) high
    have fitsLow := fits low (Int.le_trans ordered high)
    simp only [Bounds.checkedSigned, fitsHigh, fitsLow]
    rfl

theorem termOrdered (t : Term) : t.bounds.low ≤ t.bounds.high := by
  obtain ⟨_, ordered, _⟩ := quantityRange t.quantity
  unfold Term.bounds
  cases t.sign with
  | plus => exact ordered
  | minus => exact Int.neg_le_neg ordered

theorem foldChecked (ts : List Term) (b : Bounds) :
    ts.foldlM (fun sum t => do return sum.add (← t.checkedBounds)) b =
      .ok (ts.foldl (fun sum t => sum.add t.bounds) b) := by
  induction ts generalizing b with
  | nil => rfl
  | cons t ts ih =>
    rw [List.foldlM_cons, List.foldl_cons, ← ih, termChecked]
    rfl

theorem foldOrdered {ts : List Term} {b : Bounds} (ordered : b.low ≤ b.high) :
    (ts.foldl (fun sum t => sum.add t.bounds) b).low ≤
      (ts.foldl (fun sum t => sum.add t.bounds) b).high := by
  induction ts generalizing b with
  | nil => exact ordered
  | cons t ts ih => exact ih (Bounds.addOrdered ordered (termOrdered t))

theorem boundsSound (e : Expression) :
    e.checkedBounds = .ok e.bounds ∧ e.bounds.low ≤ e.bounds.high ∧
    ∀ r n, e.Yields r → r.total = .ok n → e.bounds.low ≤ n ∧ n ≤ e.bounds.high := by
  refine ⟨foldChecked e.terms .zero, foldOrdered (Int.le_refl 0), ?_⟩
  intro r n yields total
  have zero : Bounds.zero.Holds 0 := ⟨Int.le_refl 0, Int.le_refl 0⟩
  exact foldHolds yields zero total

theorem boundsSoundSubtracted :
    (⟨⟨.plus, .dice 2 ⟨6, by decide⟩⟩, [⟨.minus, .constant 4⟩]⟩ : Expression).Yields
      ⟨⟨.plus, [3, 6]⟩, [⟨.minus, [4]⟩]⟩ ∧
    (⟨⟨.plus, [3, 6]⟩, [⟨.minus, [4]⟩]⟩ : Roll).total = .ok 5 ∧
    Expression.bounds ⟨⟨.plus, .dice 2 ⟨6, by decide⟩⟩, [⟨.minus, .constant 4⟩]⟩ = ⟨-2, 8⟩ ∧
    (-2 : Int) ≤ 5 ∧ (5 : Int) ≤ 8 := by
  have dice : (Quantity.dice 2 ⟨6, by decide⟩).Shows [3, 6] := by
    apply Quantity.Shows.dice 2 ⟨6, by decide⟩ [3, 6] rfl
    intro v member
    rcases List.mem_pair.mp member with rfl | rfl <;> decide
  have yields : (⟨⟨.plus, .dice 2 ⟨6, by decide⟩⟩, [⟨.minus, .constant 4⟩]⟩ : Expression).Yields
      ⟨⟨.plus, [3, 6]⟩, [⟨.minus, [4]⟩]⟩ :=
    .cons ⟨rfl, dice⟩ (.cons ⟨rfl, .constant 4⟩ .nil)
  have total : (⟨⟨.plus, [3, 6]⟩, [⟨.minus, [4]⟩]⟩ : Roll).total = .ok 5 := by decide
  exact ⟨yields, total, by decide, (boundsSound _).2.2 _ _ yields total⟩

end Dice
