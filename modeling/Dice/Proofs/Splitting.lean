import Dice.Face.Listed
import Dice.Proofs.Attainment
import Dice.Proofs.Handful
import Dice.Roll.Draw

/-! A term parted in two. Its dice may be rolled in two lots, and the parts of both lots, with one
sign, hold the values and the total of the whole. -/
namespace Dice

namespace Roll

def Part.join (p q : Part) : Part := ⟨p.sign, p.values ++ q.values⟩

theorem joinSum (p q : Part) : (p.join q).sum = p.sum + q.sum := by
  rw [partSum, partSum, partSum, Part.join, sumFrom, List.foldl_append]
  exact sumFromStart (sumFrom 0 p.values) q.values

theorem joinShare {p q : Part} (same : p.sign = q.sign) :
    (p.join q).share = p.share + q.share := by
  unfold Part.share
  rw [joinSum, ← same]
  change p.sign.applyTo _ = _
  cases p.sign with
  | plus => rfl
  | minus => exact Int.neg_add

theorem joinPartTotal {p q : Part} (same : p.sign = q.sign) {n : Int} :
    (p.join q).total = .ok n ↔ Amount.Fits (p.sum + q.sum) ∧
      ∃ l k, p.total = .ok l ∧ q.total = .ok k ∧ n = l + k := by
  have left := sumFromLeast 0 p.values
  have right := sumFromLeast 0 q.values
  rw [← partSum] at left right
  have zero : Amount.Fits 0 := by decide
  simp only [partTotal, joinSum, joinShare same]
  constructor
  · intro h
    obtain ⟨fits, rfl⟩ := h
    refine ⟨fits, _, _, ⟨?_, rfl⟩, ⟨?_, rfl⟩, rfl⟩
    · exact Amount.fitsBetween zero fits left (by omega)
    · exact Amount.fitsBetween zero fits right (by omega)
  · intro h
    obtain ⟨fits, _, _, ⟨_, rfl⟩, ⟨_, rfl⟩, rfl⟩ := h
    exact ⟨fits, rfl⟩

end Roll

theorem termSplit {ρ : Type} [FaceSource ρ] (sign : Sign) (s : Sides) {n m : UInt32}
    (fits : n.toNat + m.toNat ≤ 4294967295) :
    Term.roll ⟨sign, .dice (n + m) s⟩ = (do
      let p ← Term.roll ⟨sign, .dice n s⟩
      return p.join (← Term.roll ⟨sign, .dice m s⟩) : Rolling ρ Roll.Part) := by
  have count : (n + m).toNat = n.toNat + m.toNat := by
    rw [UInt32.toNat_add]
    exact Nat.mod_eq_of_lt (Nat.lt_succ_of_le fits)
  simp [Term.roll, Quantity.roll, count, Handful.rollSplit, Roll.Part.join]

theorem handfulSplit {ρ : Type} [FaceSource ρ] (s : Sides) :
    (∀ n m, Handful.roll ⟨n + m, s⟩ = (do
      return (← Handful.roll ⟨n, s⟩) ++ (← Handful.roll ⟨m, s⟩) : Rolling ρ (List UInt32))) ∧
    (∀ k n, Handful.take k ⟨n, s⟩ = (Handful.roll ⟨min k n, s⟩ : Rolling ρ (List UInt32))) ∧
    (∀ sign, ∀ n m : UInt32, n.toNat + m.toNat ≤ 4294967295 →
      Term.roll ⟨sign, .dice (n + m) s⟩ = (do
        let p ← Term.roll ⟨sign, .dice n s⟩
        return p.join (← Term.roll ⟨sign, .dice m s⟩) : Rolling ρ Roll.Part)) ∧
    ∀ p q : Roll.Part, p.sign = q.sign → (p.join q).values = p.values ++ q.values ∧
      (p.join q).share = p.share + q.share ∧
      ∀ n, (p.join q).total = .ok n ↔ Amount.Fits (p.sum + q.sum) ∧
        ∃ l k, p.total = .ok l ∧ q.total = .ok k ∧ n = l + k := by
  refine ⟨fun n m => Handful.rollSplit n m s, fun k n => Handful.takeLeast k n s, ?_, ?_⟩
  · intro sign n m fits
    exact termSplit sign s fits
  · intro p q same
    exact ⟨rfl, Roll.joinShare same, fun _ => Roll.joinPartTotal same⟩

theorem handfulSplitDry :
    Term.roll ⟨.minus, .dice 3 ⟨6, by decide⟩⟩ (ListedFaces.ofList [5, 9]) =
      .ok (⟨.minus, [5, 9]⟩, ⟨[], 2⟩) ∧
    (do
      let p ← Term.roll ⟨.minus, .dice 1 ⟨6, by decide⟩⟩
      return p.join (← Term.roll ⟨.minus, .dice 2 ⟨6, by decide⟩⟩) : Rolling ListedFaces Roll.Part)
        (ListedFaces.ofList [5, 9]) = .ok (⟨.minus, [5, 9]⟩, ⟨[], 2⟩) ∧
    Roll.Part.total ⟨.minus, [5, 9]⟩ = .ok (-5 + -9) := by
  obtain ⟨_, _, terms, totals⟩ := handfulSplit (ρ := ListedFaces) ⟨6, by decide⟩
  have whole : Term.roll ⟨.minus, .dice 3 ⟨6, by decide⟩⟩ (ListedFaces.ofList [5, 9]) =
      .ok (⟨.minus, [5, 9]⟩, ⟨[], 2⟩) := rfl
  have parted := congrFun (terms .minus 1 2 (by decide)) (ListedFaces.ofList [5, 9])
  refine ⟨whole, parted.symm.trans whole, ?_⟩
  exact ((totals ⟨.minus, [5]⟩ ⟨.minus, [9]⟩ rfl).2.2 _).mpr
    ⟨by decide, -5, -9, rfl, rfl, rfl⟩

end Dice
