import Dice.Expression.Parse
import Dice.Proofs.Attainment

/-! When a total exists. Each sum on the way to it has to be an amount: the running sums of the
values of a part, its share, and the running sums of the shares. With 2147483648 values at most
none of them can leave the range, whatever the values and the signs; with one value more the
greatest faces do. -/
namespace Dice

theorem Amount.addFault {m n : Int} {f : Fault} (failed : add m n = .error f) :
    f = .additionOverflow := by
  unfold add orFault at failed
  split at failed
  · cases failed
  · exact (Except.error.inj failed).symm

namespace Roll

structure Contained (r : Roll) : Prop where
  values : ∀ p ∈ r.parts, ∀ vs, vs <+: p.values → Amount.Fits (sumFrom 0 vs)
  signed : ∀ p ∈ r.parts, Amount.Fits p.share
  shares : ∀ ps, ps <+: r.parts → Amount.Fits (shares ps)

def valueCount : List Part → Nat
  | [] => 0
  | p :: ps => p.values.length + valueCount ps

theorem sumFromPrefix {vs values : List UInt32} (start : Int) (front : vs <+: values) :
    sumFrom start vs ≤ sumFrom start values := by
  obtain ⟨later, rfl⟩ := front
  rw [sumFrom, sumFrom, List.foldl_append]
  exact sumFromLeast _ later

theorem valuesContained {p : Part} (fits : Amount.Fits p.sum) {vs : List UInt32}
    (front : vs <+: p.values) : Amount.Fits (sumFrom 0 vs) :=
  Amount.fitsBetween (by decide) fits (sumFromLeast 0 vs) (sumFromPrefix 0 front)

theorem partsTotal {ps : List Part} {m n : Int} (fits : Amount.Fits m) :
    ps.foldlM (fun sum p => do Amount.add sum (← p.total)) m = .ok n ↔
      (∀ p ∈ ps, Amount.Fits p.sum) ∧ (∀ qs, qs <+: ps → Amount.Fits (m + shares qs)) ∧
        n = m + shares ps := by
  induction ps generalizing m with
  | nil =>
    rw [List.foldlM_nil, pureOk]
    simp [shares, fits, eq_comm]
  | cons p ps ih =>
    simp only [List.foldlM_cons, bindOk, partTotal, Amount.addOk]
    constructor
    · intro h
      obtain ⟨_, ⟨_, ⟨part, rfl⟩, here, rfl⟩, rest⟩ := h
      obtain ⟨parts, sums, last⟩ := (ih here).mp rest
      refine ⟨List.forall_mem_cons.mpr ⟨part, parts⟩, ?_, by rw [last, shares]; omega⟩
      intro qs front
      rcases List.prefix_cons_iff.mp front with rfl | ⟨later, rfl, within⟩
      · simpa [shares] using fits
      · have sum := sums later within
        rwa [Int.add_assoc] at sum
    · intro h
      obtain ⟨parts, sums, last⟩ := h
      obtain ⟨part, others⟩ := List.forall_mem_cons.mp parts
      have here : Amount.Fits (m + p.share) := by
        simpa [shares] using sums [p] (List.prefix_append [p] ps)
      refine ⟨m + p.share, ⟨p.share, ⟨part, rfl⟩, here, rfl⟩, (ih here).mpr ⟨others, ?_, ?_⟩⟩
      · intro qs within
        have sum := sums (p :: qs) (List.cons_prefix_cons.mpr ⟨rfl, within⟩)
        rwa [shares, ← Int.add_assoc] at sum
      · rw [last, shares]
        omega

theorem totalOk {r : Roll} {n : Int} : r.total = .ok n ↔ r.Contained ∧ n = shares r.parts := by
  have zero : Amount.Fits 0 := by decide
  rw [total, partsTotal zero]
  simp only [Int.zero_add]
  constructor
  · intro h
    obtain ⟨parts, sums, last⟩ := h
    refine ⟨⟨?_, fun p hp => partShareFits (parts p hp), sums⟩, last⟩
    intro p hp vs front
    exact valuesContained (parts p hp) front
  · intro h
    obtain ⟨contained, last⟩ := h
    exact ⟨fun p hp => contained.values p hp _ (List.prefix_refl _), contained.shares, last⟩

theorem valuesFault {values : List UInt32} {start : Int} {f : Fault}
    (failed : values.foldlM (fun sum v => Amount.add sum v.toNat) start = .error f) :
    f = .additionOverflow := by
  obtain ⟨_, v, _, sum, _, _, step⟩ := foldlFails failed
  exact Amount.addFault step

theorem partFault {p : Part} {f : Fault} (failed : p.total = .error f) :
    f = .additionOverflow := by
  rcases bindError.mp failed with values | ⟨sum, values, signed⟩
  · exact valuesFault values
  -- The values add up to no negative number, so their sum has a negation.
  · obtain ⟨fits, rfl⟩ := (valuesTotal (by decide)).mp values
    rw [← partSum, Sign.applyOk (partShareFits fits)] at signed
    cases signed

theorem totalFault {r : Roll} {f : Fault} (failed : r.total = .error f) :
    f = .additionOverflow := by
  obtain ⟨_, p, _, sum, _, _, step⟩ := foldlFails failed
  rcases bindError.mp step with part | ⟨share, _, added⟩
  · exact partFault part
  · exact Amount.addFault added

theorem partReach (p : Part) : p.sum ≤ p.values.length * 4294967295 ∧
    -(p.values.length * 4294967295) ≤ p.share ∧ p.share ≤ p.values.length * 4294967295 := by
  have words : ∀ v ∈ p.values, 0 ≤ v.toNat ∧ v.toNat ≤ 4294967295 :=
    fun v _ => ⟨Nat.zero_le _, Nat.le_of_lt_succ v.toNat_lt⟩
  obtain ⟨least, most⟩ := sumFromFaces 0 words
  rw [← partSum] at least most
  unfold Part.share
  cases p.sign with
  | plus => simp only [Sign.applyTo]; omega
  | minus => simp only [Sign.applyTo]; omega

theorem sharesReach (ps : List Part) :
    -(valueCount ps * 4294967295) ≤ shares ps ∧ shares ps ≤ valueCount ps * 4294967295 := by
  induction ps with
  | nil => simp [valueCount, shares]
  | cons p ps ih =>
    obtain ⟨_, low, high⟩ := partReach p
    simp only [valueCount, shares, Int.natCast_add, Int.add_mul]
    omega

theorem valueCountPrefix {qs ps : List Part} (front : qs <+: ps) :
    valueCount qs ≤ valueCount ps := by
  obtain ⟨later, rfl⟩ := front
  induction qs with
  | nil => exact Nat.zero_le _
  | cons q qs ih => exact Nat.add_le_add_left ih _

theorem valueCountMember {p : Part} {ps : List Part} (member : p ∈ ps) :
    p.values.length ≤ valueCount ps := by
  induction member with
  | head ps => exact Nat.le_add_right _ _
  | tail q _ ih => exact Nat.le_trans ih (Nat.le_add_left _ _)

theorem smallContained {r : Roll} (small : valueCount r.parts ≤ 2147483648) : r.Contained := by
  have parts : ∀ p ∈ r.parts, Amount.Fits p.sum := by
    intro p hp
    have within := valueCountMember hp
    obtain ⟨most, _⟩ := partReach p
    have least := sumFromLeast 0 p.values
    rw [← partSum] at least
    simp only [Amount.Fits, Amount.least, Amount.greatest]
    omega
  refine ⟨fun p hp vs front => valuesContained (parts p hp) front,
    fun p hp => partShareFits (parts p hp), ?_⟩
  intro ps front
  have within := valueCountPrefix front
  obtain ⟨low, high⟩ := sharesReach ps
  simp only [Amount.Fits, Amount.least, Amount.greatest]
  omega

def heap (n : Nat) : Roll := ⟨⟨.plus, List.replicate n 4294967295⟩, []⟩

theorem heapValueCount (n : Nat) : valueCount (heap n).parts = n := by
  simp [heap, parts, valueCount]

theorem heapOverflows {n : Nat} (large : 2147483648 < n) :
    (heap n).total = .error .additionOverflow := by
  cases total : (heap n).total with
  | error f => rw [totalFault total]
  | ok m =>
    have contained := (totalOk.mp total).1
    have fits := contained.values (heap n).first List.mem_cons_self _ (List.prefix_refl _)
    have faces : ∀ v ∈ List.replicate n (4294967295 : UInt32),
        4294967295 ≤ v.toNat ∧ v.toNat ≤ 4294967295 := by
      intro v member
      rw [List.eq_of_mem_replicate member]
      exact ⟨Nat.le_refl _, Nat.le_refl _⟩
    obtain ⟨least, _⟩ := sumFromFaces 0 faces
    rw [List.length_replicate] at least
    have most : sumFrom 0 (List.replicate n 4294967295) ≤ Amount.greatest := fits.2
    simp only [Amount.greatest] at most
    omega

end Roll

def hugeDice : Expression :=
  ⟨⟨.plus, .dice 2147483649 ⟨4294967295, by decide⟩⟩, []⟩

theorem hugeYields : hugeDice.Yields (Roll.heap 2147483649) := by
  have size : (List.replicate 2147483649 (4294967295 : UInt32)).length =
      (2147483649 : UInt32).toNat := List.length_replicate
  have faces : ∀ v ∈ List.replicate 2147483649 (4294967295 : UInt32),
      1 ≤ v.toNat ∧ v.toNat ≤ (Sides.mk 4294967295 (by decide)).toNat := by
    intro v member
    rw [List.eq_of_mem_replicate member]
    decide
  exact .cons ⟨rfl, .dice _ _ _ size faces⟩ .nil

theorem totalsThreshold (n : Nat) :
    ((∀ r : Roll, Roll.valueCount r.parts ≤ n → ∃ total, r.total = .ok total) ↔ n ≤ 2147483648) ∧
    (∀ (r : Roll) total, r.total = .ok total ↔ r.Contained ∧ total = Roll.shares r.parts) ∧
    ∃ r faces, Expression.parse "2147483649d4294967295".toList = .ok hugeDice ∧
      hugeDice.Yields r ∧ Roll.valueCount r.parts = 2147483649 ∧
      hugeDice.roll (ListedFaces.ofList faces) = .ok (r, ⟨[], faces.length⟩) ∧
      r.total = .error .additionOverflow := by
  refine ⟨⟨?_, ?_⟩, fun r total => Roll.totalOk, ?_⟩
  · intro every
    apply Nat.le_of_not_lt
    intro large
    obtain ⟨total, found⟩ := every (Roll.heap n) (Nat.le_of_eq (Roll.heapValueCount n))
    rw [Roll.heapOverflows large] at found
    cases found
  · intro small r within
    exact ⟨_, Roll.totalOk.mpr ⟨Roll.smallContained (Nat.le_trans within small), rfl⟩⟩
  · obtain ⟨faces, rolled⟩ := yieldsRolled hugeYields
    exact ⟨Roll.heap 2147483649, faces, by decide, hugeYields, Roll.heapValueCount _, rolled,
      Roll.heapOverflows (by decide)⟩

end Dice
