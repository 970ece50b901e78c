import Dice.Expression
import Dice.Proofs.Checked
import Dice.Roll
import Mathlib.Data.List.Forall2

/-! Totals stop at the first sum that is no amount. Faces only add up, so a part has a
total exactly when the sum of its values is an amount, and it is then its share. -/
namespace Dice

namespace Amount

theorem clampMono {m n : Int} (le : m ≤ n) : clamp m ≤ clamp n := by
  simp only [clamp]
  omega

theorem addOk {m n k : Int} : add m n = .ok k ↔ Fits (m + n) ∧ k = m + n :=
  orFaultOk

theorem fitsBetween {a b c : Int} (low : Fits a) (high : Fits c) (le : a ≤ b) (ge : b ≤ c) :
    Fits b := ⟨Int.le_trans low.1 le, Int.le_trans ge high.2⟩

end Amount

inductive Quantity.Shows : Quantity → List UInt32 → Prop where
  | constant (value : UInt32) : Shows (.constant value) [value]
  | dice (count : UInt32) (sides : Sides) (values : List UInt32)
      (size : values.length = count.toNat)
      (faces : ∀ v ∈ values, 1 ≤ v.toNat ∧ v.toNat ≤ sides.toNat) :
      Shows (.dice count sides) values

structure Term.Yields (t : Term) (p : Roll.Part) : Prop where
  sign : p.sign = t.sign
  values : t.quantity.Shows p.values

def Expression.Yields (e : Expression) (r : Roll) : Prop :=
  List.Forall₂ Term.Yields e.terms r.parts

namespace Roll

def sumFrom (start : Int) (values : List UInt32) : Int :=
  values.foldl (fun sum v => sum + v.toNat) start

theorem sumFromCons (start : Int) (v : UInt32) (values : List UInt32) :
    sumFrom start (v :: values) = sumFrom (start + v.toNat) values := rfl

theorem sumFromLeast (start : Int) (values : List UInt32) : start ≤ sumFrom start values := by
  induction values generalizing start with
  | nil => exact Int.le_refl _
  | cons v values ih =>
    have rest := ih (start + v.toNat)
    rw [sumFromCons]
    omega

theorem sumFromFaces {low high : Nat} {values : List UInt32} (start : Int)
    (faces : ∀ v ∈ values, low ≤ v.toNat ∧ v.toNat ≤ high) :
    start + values.length * low ≤ sumFrom start values ∧
      sumFrom start values ≤ start + values.length * high := by
  induction values generalizing start with
  | nil => simp [sumFrom]
  | cons v values ih =>
    obtain ⟨least, most⟩ := faces v (by simp)
    obtain ⟨left, right⟩ := ih (start + v.toNat) fun w hw => faces w (by simp [hw])
    simp only [sumFromCons, List.length_cons, Int.natCast_add, Int.natCast_one, Int.add_mul,
      Int.one_mul]
    omega

theorem valuesTotal {start n : Int} {values : List UInt32} (fits : Amount.Fits start) :
    values.foldlM (fun sum v => Amount.add sum v.toNat) start = .ok n ↔
      Amount.Fits (sumFrom start values) ∧ n = sumFrom start values := by
  induction values generalizing start with
  | nil =>
    rw [List.foldlM_nil, pureOk]
    exact ⟨fun same => ⟨fits, same.symm⟩, fun both => both.2.symm⟩
  | cons v values ih =>
    rw [List.foldlM_cons, bindOk, sumFromCons]
    constructor
    · intro h
      obtain ⟨m, first, rest⟩ := h
      obtain ⟨inside, rfl⟩ := Amount.addOk.mp first
      exact (ih inside).mp rest
    · intro h
      obtain ⟨last, rfl⟩ := h
      have least := sumFromLeast (start + v.toNat) values
      have inside := Amount.fitsBetween fits last (by omega) least
      exact ⟨_, Amount.addOk.mpr ⟨inside, rfl⟩, (ih inside).mpr ⟨last, rfl⟩⟩

theorem partSum (p : Part) : p.sum = sumFrom 0 p.values := rfl

theorem partShareFits {p : Part} (fits : Amount.Fits p.sum) : Amount.Fits p.share := by
  have positive := sumFromLeast 0 p.values
  rw [← partSum] at positive
  unfold Part.share
  cases p.sign with
  | plus => exact fits
  | minus =>
    simp only [Sign.applyTo, Amount.Fits, Amount.least, Amount.greatest] at fits ⊢
    omega

theorem partTotal {p : Part} {n : Int} : p.total = .ok n ↔ Amount.Fits p.sum ∧ n = p.share := by
  have zero : Amount.Fits 0 := by decide
  rw [Part.total, bindOk]
  simp only [valuesTotal zero, ← partSum]
  constructor
  · intro h
    obtain ⟨_, ⟨fits, rfl⟩, signed⟩ := h
    rw [Sign.applyOk (partShareFits fits), Except.ok.injEq] at signed
    exact ⟨fits, signed.symm⟩
  · intro h
    obtain ⟨fits, rfl⟩ := h
    exact ⟨_, ⟨fits, rfl⟩, Sign.applyOk (partShareFits fits)⟩

end Roll
end Dice
