import Dice.Proofs.Attainment

/-! Bounds and the sums without limits. A sum that leaves the range is held at the limit from then
on, and that is the sum cut off at the end as long as the terms behind it do not lead back: they
all have one sign. Sums cut off at the end do not depend on the order of the terms. -/
namespace Dice

theorem Amount.clampPlus {m n : Int} (apart : 0 ≤ n ∧ least ≤ m ∨ n ≤ 0 ∧ m ≤ greatest) :
    clamp (clamp m + n) = clamp (m + n) := by
  simp only [clamp, least, greatest] at apart ⊢
  omega

namespace Bounds

def clamped (b : Bounds) : Bounds := ⟨Amount.clamp b.low, Amount.clamp b.high⟩

instance (b : Bounds) : Decidable b.Fits :=
  inferInstanceAs (Decidable (Amount.Fits b.low ∧ Amount.Fits b.high))

theorem clampedFits {b : Bounds} (fits : b.Fits) : b.clamped = b :=
  congrArg₂ mk (Amount.clampFits fits.1) (Amount.clampFits fits.2)

end Bounds

theorem quantityClamped (q : Quantity) : q.bounds = q.reach.clamped := by
  have low : Amount.Fits q.reach.low := by
    obtain ⟨positive, word, _⟩ := quantityReachRange q
    simp only [Amount.Fits, Amount.least, Amount.greatest]
    omega
  cases q with
  | constant value => exact (Bounds.clampedFits ⟨low, low⟩).symm
  | dice count sides => exact congrArg (Bounds.mk · _) (Amount.clampFits low).symm

theorem foldClamped {invariant : Bounds → Prop} {ts : List Term} {c : Bounds}
    (step : ∀ t ∈ ts, ∀ b, invariant b →
      invariant (b.plus t.reach) ∧ b.clamped.add t.bounds = (b.plus t.reach).clamped)
    (start : invariant c) :
    ts.foldl (fun sum t => sum.add t.bounds) c.clamped = (c.plus (reaches ts)).clamped := by
  induction ts generalizing c with
  | nil =>
    rw [reaches, Bounds.plusZero]
    rfl
  | cons t ts ih =>
    obtain ⟨keeps, same⟩ := step t (by simp) c start
    rw [List.foldl_cons, same, ih (fun u hu => step u (by simp [hu])) keeps, Bounds.plusAssoc,
      reaches]

theorem reachesAppend (ts us : List Term) :
    reaches (ts ++ us) = (reaches ts).plus (reaches us) := by
  induction ts with
  | nil => rw [List.nil_append, reaches, Bounds.zeroPlus]
  | cons t ts ih => rw [List.cons_append, reaches, ih, ← Bounds.plusAssoc, reaches]

theorem reachesPerm {ts us : List Term} (perm : ts.Perm us) : reaches ts = reaches us := by
  induction perm with
  | nil => rfl
  | cons t perm ih => rw [reaches, ih, reaches]
  | swap t u ts =>
    simp only [reaches, Bounds.plus, Bounds.mk.injEq]
    omega
  | trans left right ihLeft ihRight => exact ihLeft.trans ihRight

theorem addedStep {t : Term} {b : Bounds} (sign : t.sign = .plus) (fits : t.quantity.reach.Fits)
    (start : Amount.least ≤ b.low ∧ Amount.least ≤ b.high) :
    (Amount.least ≤ (b.plus t.reach).low ∧ Amount.least ≤ (b.plus t.reach).high) ∧
      b.clamped.add t.bounds = (b.plus t.reach).clamped := by
  obtain ⟨positive, _, ordered⟩ := quantityReachRange t.quantity
  rw [termExact fits, Term.reach, sign]
  constructor
  · simp only [Bounds.plus, Bounds.signed]
    omega
  · exact congrArg₂ Bounds.mk (Amount.clampPlus (Or.inl ⟨positive, start.1⟩))
      (Amount.clampPlus (Or.inl ⟨Int.le_trans positive ordered, start.2⟩))

theorem subtractedStep {t : Term} {b : Bounds} (sign : t.sign = .minus)
    (fits : t.quantity.reach.Fits) (start : b.low ≤ Amount.greatest ∧ b.high ≤ Amount.greatest) :
    ((b.plus t.reach).low ≤ Amount.greatest ∧ (b.plus t.reach).high ≤ Amount.greatest) ∧
      b.clamped.add t.bounds = (b.plus t.reach).clamped := by
  obtain ⟨positive, _, ordered⟩ := quantityReachRange t.quantity
  rw [termExact fits, Term.reach, sign]
  constructor
  · simp only [Bounds.plus, Bounds.signed]
    omega
  · exact congrArg₂ Bounds.mk
      (Amount.clampPlus (Or.inr ⟨by simp only [Bounds.signed]; omega, start.1⟩))
      (Amount.clampPlus (Or.inr ⟨by simp only [Bounds.signed]; omega, start.2⟩))

theorem wideStep {t : Term} {b : Bounds} (sign : t.sign = .plus) (start : 0 ≤ b.low ∧ 0 ≤ b.high) :
    (0 ≤ (b.plus t.reach).low ∧ 0 ≤ (b.plus t.reach).high) ∧
      b.clamped.add t.bounds = (b.plus t.reach).clamped := by
  obtain ⟨positive, _, ordered⟩ := quantityReachRange t.quantity
  rw [Term.bounds, Term.reach, sign, quantityClamped]
  simp only [Bounds.plus, Bounds.signed, Bounds.clamped, Bounds.add, Amount.saturatingAdd,
    Amount.clamp, Amount.least, Amount.greatest, Bounds.mk.injEq]
  omega

/-- No product leaves the range, and once a sum does all terms have one sign. -/
structure Expression.SettlesAfter (e : Expression) (front back : List Term) (s : Sign) : Prop where
  whole : front ++ back = e.terms
  products : ∀ t ∈ e.terms, t.quantity.reach.Fits
  sums : Steady .zero front
  sign : ∀ t ∈ back, t.sign = s

namespace Expression

theorem settledBounds {e : Expression} {front back : List Term} {s : Sign}
    (settles : e.SettlesAfter front back s) : e.bounds = (reaches e.terms).clamped := by
  obtain ⟨whole, products, sums, sign⟩ := settles
  have before : ∀ t ∈ front, t.quantity.reach.Fits := fun t ht =>
    products t (whole ▸ List.mem_append_left back ht)
  have after : ∀ t ∈ back, t.quantity.reach.Fits := fun t ht =>
    products t (whole ▸ List.mem_append_right front ht)
  have fits : (reaches front).Fits := by
    have last := sums front (List.prefix_refl front)
    rwa [Bounds.zeroPlus] at last
  have run : back.foldl (fun sum t => sum.add t.bounds) (reaches front).clamped =
      ((reaches front).plus (reaches back)).clamped := by
    cases s with
    | plus =>
      refine foldClamped (fun t ht b => addedStep (b := b) (sign t ht) (after t ht)) ?_
      exact ⟨fits.1.1, fits.2.1⟩
    | minus =>
      refine foldClamped (fun t ht b => subtractedStep (b := b) (sign t ht) (after t ht)) ?_
      exact ⟨fits.1.2, fits.2.2⟩
  rw [Bounds.clampedFits fits] at run
  rw [bounds, ← whole, List.foldl_append, foldExact before sums, Bounds.zeroPlus, run,
    reachesAppend]

theorem addedBounds {e : Expression} (added : ∀ t ∈ e.terms, t.sign = .plus) :
    e.bounds = (reaches e.terms).clamped := by
  have fold := foldClamped (c := .zero) (fun t ht b => wideStep (b := b) (added t ht))
    ⟨Int.le_refl 0, Int.le_refl 0⟩
  rwa [Bounds.zeroPlus] at fold

end Expression

end Dice
