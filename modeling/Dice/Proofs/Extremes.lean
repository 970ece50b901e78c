import Dice.Proofs.Clamping
import Dice.Proofs.Overflow

/-! Bounds where they saturate. They need not be the sums without limits, cut off at the end, and
the order of the terms may matter. What they are is the least and the greatest total that exists: a
total that is reached without a fault on the way, as is every amount between the two. -/
namespace Dice

def Expression.ComesTo (e : Expression) (n : Int) : Prop := ∃ r, e.Yields r ∧ r.total = .ok n

namespace Bounds

theorem addHoldsFits {b c : Bounds} {n : Int} (holds : (b.add c).Holds n) : Amount.Fits n :=
  holdsFits ⟨Amount.clampAmount _, Amount.clampAmount _⟩ holds

theorem addSplit {b c : Bounds} {m n : Int} (left : b.low ≤ b.high) (right : c.low ≤ c.high)
    (between : (b.plus c).Holds m) (fits : Amount.Fits m) (holds : (b.add c).Holds n) :
    ∃ x y, b.Holds x ∧ c.Holds y ∧ x + y = n := by
  -- One sum in the range is enough: the limits then cut the interval and do not move it.
  refine holdsSplit left right ?_
  simp only [Holds, plus, add, Amount.saturatingAdd, Amount.clamp, Amount.Fits]
    at between fits holds ⊢
  omega

end Bounds

theorem quantityComes {q : Quantity} {n : Int} (holds : q.bounds.Holds n) :
    ∃ values, q.Shows values ∧ Roll.sumFrom 0 values = n ∧ Amount.Fits n := by
  obtain ⟨positive, word, ordered⟩ := quantityReachRange q
  rw [quantityClamped] at holds
  simp only [Bounds.Holds, Bounds.clamped, Amount.clamp, Amount.least, Amount.greatest] at holds
  obtain ⟨values, shows, sum⟩ := quantityReached (q := q) (n := n) ⟨by omega, by omega⟩
  refine ⟨values, shows, sum, ?_⟩
  simp only [Amount.Fits, Amount.least, Amount.greatest]
  omega

theorem termComes {t : Term} {n : Int} (holds : t.bounds.Holds n) :
    ∃ p : Roll.Part, t.Yields p ∧ p.total = .ok n := by
  have unsigned : t.quantity.bounds.Holds (t.sign.applyTo n) := by
    have twice := Bounds.holdsSigned holds t.sign
    unfold Term.bounds at twice
    cases sign : t.sign <;> simpa [sign, Bounds.signed] using twice
  obtain ⟨values, shows, sum, fits⟩ := quantityComes unsigned
  refine ⟨⟨t.sign, values⟩, ⟨rfl, shows⟩, Roll.partTotal.mpr ⟨?_, ?_⟩⟩
  · rw [Roll.partSum, sum]
    exact fits
  · rw [Roll.Part.share, Roll.partSum, sum]
    cases t.sign <;> simp [Sign.applyTo]

theorem foldComes {ts : List Term} {ps : List Roll.Part} {b : Bounds} {k m n : Int}
    (ordered : b.low ≤ b.high) (yields : List.Forall₂ Term.Yields ts ps) (start : b.Holds k)
    (total : ps.foldlM (fun sum p => do Amount.add sum (← p.total)) k = .ok m)
    (holds : (ts.foldl (fun sum t => sum.add t.bounds) b).Holds n) :
    ∃ j qs, b.Holds j ∧ List.Forall₂ Term.Yields ts qs ∧
      qs.foldlM (fun sum p => do Amount.add sum (← p.total)) j = .ok n := by
  induction yields generalizing b k with
  | nil => exact ⟨n, [], holds, .nil, rfl⟩
  | @cons t p ts ps first rest ih =>
    rw [List.foldlM_cons, bindOk] at total
    obtain ⟨_, step, later⟩ := total
    obtain ⟨share, part, sum⟩ := bindOk.mp step
    obtain ⟨fits, rfl⟩ := Amount.addOk.mp sum
    have here := termHolds first part
    obtain ⟨_, qs, between, others, run⟩ := ih (Bounds.addOrdered ordered (termOrdered t))
      (Bounds.holdsAdd start here fits) later holds
    -- The run that ends shows at this step that the bounds still meet the range.
    obtain ⟨x, y, left, right, rfl⟩ := Bounds.addSplit ordered (termOrdered t)
      (Bounds.holdsPlus start here) fits between
    obtain ⟨q, yields, ends⟩ := termComes right
    have added : Amount.add x y = .ok (x + y) := Amount.addOk.mpr ⟨Bounds.addHoldsFits between, rfl⟩
    refine ⟨x, q :: qs, left, .cons yields others, ?_⟩
    rw [List.foldlM_cons, bindOk]
    exact ⟨x + y, bindOk.mpr ⟨y, ends, added⟩, run⟩

theorem termModest (t : Term) : ∃ (p : Roll.Part) (n : Int), t.Yields p ∧ p.total = .ok n ∧
    -4294967295 ≤ n ∧ n ≤ 4294967295 := by
  obtain ⟨positive, word, ordered⟩ := quantityReachRange t.quantity
  have lowest : t.quantity.bounds.Holds t.quantity.reach.low := by
    rw [quantityClamped]
    simp only [Bounds.Holds, Bounds.clamped, Amount.clamp, Amount.least, Amount.greatest]
    omega
  obtain ⟨p, yields, total⟩ := termComes (t := t) (Bounds.holdsSigned lowest t.sign)
  refine ⟨p, _, yields, total, ?_⟩
  cases t.sign <;> simp only [Sign.applyTo] <;> omega

theorem foldModest {ts : List Term} {m : Int} (low : Amount.least + 4294967295 * ts.length ≤ m)
    (high : m + 4294967295 * ts.length ≤ Amount.greatest) :
    ∃ ps n, List.Forall₂ Term.Yields ts ps ∧
      ps.foldlM (fun sum p => do Amount.add sum (← p.total)) m = .ok n := by
  induction ts generalizing m with
  | nil => exact ⟨[], m, .nil, rfl⟩
  | cons t ts ih =>
    obtain ⟨p, k, first, total, least, most⟩ := termModest t
    simp only [List.length_cons, Int.natCast_add, Int.natCast_one] at low high
    obtain ⟨ps, n, rest, run⟩ := ih (m := m + k) (by omega) (by omega)
    have fits : Amount.Fits (m + k) := ⟨by omega, by omega⟩
    refine ⟨p :: ps, n, .cons first rest, ?_⟩
    rw [List.foldlM_cons, bindOk]
    exact ⟨m + k, bindOk.mpr ⟨k, total, Amount.addOk.mpr ⟨fits, rfl⟩⟩, run⟩

theorem sharesReached {ts : List Term} {ps : List Roll.Part}
    (yields : List.Forall₂ Term.Yields ts ps) : (reaches ts).Holds (Roll.shares ps) := by
  induction yields with
  | nil => exact Bounds.zeroHolds
  | cons first rest ih => exact Bounds.holdsPlus (termReach first) ih

namespace Expression

theorem comesModest {e : Expression} (few : e.terms.length ≤ 2147483648) : ∃ n, e.ComesTo n := by
  have room : (e.terms.length : Int) ≤ 2147483648 := Int.ofNat_le.mpr few
  have low : Amount.least + 4294967295 * e.terms.length ≤ 0 := by
    simp only [Amount.least]
    omega
  have high : 0 + 4294967295 * e.terms.length ≤ Amount.greatest := by
    simp only [Amount.greatest]
    omega
  obtain ⟨ps, n, yields, total⟩ := foldModest low high
  cases yields with
  | @cons _ p _ ps first rest => exact ⟨n, ⟨p, ps⟩, .cons first rest, total⟩

theorem comesHolds {e : Expression} {n : Int} (comes : e.ComesTo n) : e.bounds.Holds n := by
  obtain ⟨r, yields, total⟩ := comes
  exact foldHolds yields Bounds.zeroHolds total

theorem holdsComes {e : Expression} {m n : Int} (comes : e.ComesTo m) (holds : e.bounds.Holds n) :
    e.ComesTo n := by
  obtain ⟨r, yields, total⟩ := comes
  obtain ⟨j, qs, start, others, run⟩ :=
    foldComes (Int.le_refl 0) yields Bounds.zeroHolds total holds
  obtain rfl : j = 0 := Int.le_antisymm start.2 start.1
  cases others with
  | @cons _ q _ qs first rest => exact ⟨⟨q, qs⟩, .cons first rest, run⟩

theorem boundsOrdered (e : Expression) : e.bounds.low ≤ e.bounds.high :=
  foldOrdered (Int.le_refl 0)

theorem comesClamped {e : Expression} {n : Int} (comes : e.ComesTo n) :
    (reaches e.terms).clamped.Holds n := by
  obtain ⟨r, yields, total⟩ := comes
  obtain ⟨contained, rfl⟩ := Roll.totalOk.mp total
  have fits : Amount.Fits (Roll.shares r.parts) := contained.shares r.parts (List.prefix_refl _)
  obtain ⟨low, high⟩ := sharesReached yields
  rw [← Amount.clampFits fits]
  exact ⟨Amount.clampMono low, Amount.clampMono high⟩

end Expression

/- 4294967295d2147483648 + 4294967295d2147483648 - 1 -/
def heldBack : Expression :=
  ⟨⟨.plus, .dice 4294967295 ⟨2147483648, by decide⟩⟩,
    [⟨.plus, .dice 4294967295 ⟨2147483648, by decide⟩⟩, ⟨.minus, .constant 1⟩]⟩

/- 4294967295d2147483648 - 1 + 4294967295d2147483648 -/
def heldLast : Expression :=
  ⟨⟨.plus, .dice 4294967295 ⟨2147483648, by decide⟩⟩,
    [⟨.minus, .constant 1⟩, ⟨.plus, .dice 4294967295 ⟨2147483648, by decide⟩⟩]⟩

end Dice
