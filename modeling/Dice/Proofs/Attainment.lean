import Dice.Proofs.Bounds
import Dice.Proofs.Dealing

/-! Bounds that never saturate are exact: they are the sums of the terms' own limits, no roll
overflows, and every amount between them is the total of some roll. The faces for an amount
are chosen die by die and term by term, each as large as the rest allows. -/
namespace Dice

namespace Bounds

def plus (b c : Bounds) : Bounds := ⟨b.low + c.low, b.high + c.high⟩

def Fits (b : Bounds) : Prop := Amount.Fits b.low ∧ Amount.Fits b.high

theorem plusZero (b : Bounds) : b.plus .zero = b := by simp [plus, zero]

theorem zeroPlus (b : Bounds) : Bounds.zero.plus b = b := by simp [plus, zero]

theorem plusAssoc (a b c : Bounds) : (a.plus b).plus c = a.plus (b.plus c) := by
  simp [plus, Int.add_assoc]

theorem addFits {b c : Bounds} (fits : (b.plus c).Fits) : b.add c = b.plus c :=
  congrArg₂ mk (Amount.clampFits fits.1) (Amount.clampFits fits.2)

theorem holdsPlus {b c : Bounds} {m n : Int} (left : b.Holds m) (right : c.Holds n) :
    (b.plus c).Holds (m + n) :=
  ⟨Int.add_le_add left.1 right.1, Int.add_le_add left.2 right.2⟩

theorem holdsFits {b : Bounds} {n : Int} (fits : b.Fits) (holds : b.Holds n) : Amount.Fits n :=
  Amount.fitsBetween fits.1 fits.2 holds.1 holds.2

theorem holdsSplit {b c : Bounds} {n : Int} (left : b.low ≤ b.high) (right : c.low ≤ c.high)
    (holds : (b.plus c).Holds n) : ∃ x y, b.Holds x ∧ c.Holds y ∧ x + y = n := by
  simp only [Holds, plus] at holds ⊢
  exact ⟨max b.low (n - c.high), n - max b.low (n - c.high), by omega, by omega, by omega⟩

end Bounds

def Quantity.reach : Quantity → Bounds
  | .constant value => ⟨value.toNat, value.toNat⟩
  | .dice count sides => ⟨count.toNat, count.toNat * sides.toNat⟩

def Term.reach (t : Term) : Bounds := t.quantity.reach.signed t.sign

def reaches : List Term → Bounds
  | [] => .zero
  | t :: ts => t.reach.plus (reaches ts)

structure Expression.Unsaturated (e : Expression) : Prop where
  products : ∀ t ∈ e.terms, ∀ count sides, t.quantity = .dice count sides →
    Amount.Fits (count.toNat * sides.toNat)
  sums : ∀ ts, ts <+: e.terms → (reaches ts).Fits

def Steady (b : Bounds) (ts : List Term) : Prop := ∀ us, us <+: ts → (b.plus (reaches us)).Fits

theorem steadyHere {b : Bounds} {ts : List Term} (steady : Steady b ts) : b.Fits := by
  have here := steady [] List.nil_prefix
  rwa [reaches, Bounds.plusZero] at here

theorem steadyStep {b : Bounds} {t : Term} {ts : List Term} (steady : Steady b (t :: ts)) :
    Steady (b.plus t.reach) ts := by
  intro us within
  have later := steady (t :: us) (List.cons_prefix_cons.mpr ⟨rfl, within⟩)
  rwa [reaches, ← Bounds.plusAssoc] at later

theorem quantityReachFits {q : Quantity}
    (product : ∀ count sides, q = .dice count sides → Amount.Fits (count.toNat * sides.toNat)) :
    q.reach.Fits := by
  cases q with
  | constant value =>
    have word := value.toNat_lt
    simp only [Bounds.Fits, Quantity.reach, Amount.Fits, Amount.least, Amount.greatest]
    omega
  | dice count sides =>
    have word := count.toNat_lt
    refine ⟨?_, product count sides rfl⟩
    simp only [Quantity.reach, Amount.Fits, Amount.least, Amount.greatest]
    omega

theorem quantityReachRange (q : Quantity) :
    0 ≤ q.reach.low ∧ q.reach.low ≤ 4294967295 ∧ q.reach.low ≤ q.reach.high := by
  cases q with
  | constant value =>
    have word := value.toNat_lt
    simp only [Quantity.reach]
    omega
  | dice count sides =>
    have word := count.toNat_lt
    have room : count.toNat ≤ count.toNat * sides.toNat :=
      Nat.le_mul_of_pos_right _ sides.toNatPositive
    simp only [Quantity.reach, ← Int.natCast_mul]
    omega

theorem quantityExact {q : Quantity} (fits : q.reach.Fits) : q.bounds = q.reach := by
  cases q with
  | constant value => rfl
  | dice count sides => exact congrArg _ (Amount.clampFits fits.2)

theorem termExact {t : Term} (fits : t.quantity.reach.Fits) : t.bounds = t.reach := by
  rw [Term.bounds, Term.reach, quantityExact fits]

theorem foldExact {ts : List Term} {b : Bounds} (fits : ∀ t ∈ ts, t.quantity.reach.Fits)
    (steady : Steady b ts) :
    ts.foldl (fun sum t => sum.add t.bounds) b = b.plus (reaches ts) := by
  induction ts generalizing b with
  | nil => exact (Bounds.plusZero b).symm
  | cons t ts ih =>
    have step := steadyStep steady
    rw [List.foldl_cons, termExact (fits t (by simp)), Bounds.addFits (steadyHere step),
      ih (fun u hu => fits u (by simp [hu])) step, Bounds.plusAssoc, reaches]

theorem quantityReach {q : Quantity} {values : List UInt32} (shows : q.Shows values) :
    q.reach.Holds (Roll.sumFrom 0 values) := by
  cases shows with
  | constant value => simp [Bounds.Holds, Quantity.reach, Roll.sumFrom]
  | dice count sides values size faces =>
    have between := Roll.sumFromFaces 0 faces
    simpa [size, Bounds.Holds, Quantity.reach] using between

theorem termReach {t : Term} {p : Roll.Part} (yields : t.Yields p) : t.reach.Holds p.share := by
  unfold Term.reach Roll.Part.share
  rw [yields.sign]
  exact Bounds.holdsSigned (quantityReach yields.values) t.sign

namespace Roll

theorem sumFromStart (start : Int) (values : List UInt32) :
    sumFrom start values = start + sumFrom 0 values := by
  induction values generalizing start with
  | nil => simp [sumFrom]
  | cons v values ih =>
    rw [sumFromCons, sumFromCons, ih, ih (0 + v.toNat)]
    omega

def shares : List Part → Int
  | [] => 0
  | p :: ps => p.share + shares ps

end Roll

theorem foldTotal {ts : List Term} {ps : List Roll.Part} {b : Bounds} {m : Int}
    (yields : List.Forall₂ Term.Yields ts ps) (fits : ∀ t ∈ ts, t.quantity.reach.Fits)
    (steady : Steady b ts) (holds : b.Holds m) :
    ps.foldlM (fun sum p => do Amount.add sum (← p.total)) m = .ok (m + Roll.shares ps) ∧
      (b.plus (reaches ts)).Holds (m + Roll.shares ps) := by
  induction yields generalizing b m with
  | nil => simpa [Roll.shares, reaches, Bounds.plusZero, pureOk] using holds
  | @cons t p ts ps first rest ih =>
    have step := steadyStep steady
    have sum := Bounds.holdsPlus holds (termReach first)
    have part : p.total = .ok p.share := by
      refine Roll.partTotal.mpr ⟨?_, rfl⟩
      exact Bounds.holdsFits (fits t (by simp)) (quantityReach first.values)
    have added : Amount.add m p.share = .ok (m + p.share) :=
      Amount.addOk.mpr ⟨Bounds.holdsFits (steadyHere step) sum, rfl⟩
    obtain ⟨total, within⟩ := ih (fun u hu => fits u (by simp [hu])) step sum
    rw [reaches, ← Bounds.plusAssoc, Roll.shares, ← Int.add_assoc]
    refine ⟨?_, within⟩
    rw [List.foldlM_cons, part]
    exact bindOk.mpr ⟨_, added, total⟩

theorem facesReached (sides : Sides) (count sum : Nat) (least : count ≤ sum)
    (most : sum ≤ count * sides.toNat) :
    ∃ values : List UInt32, values.length = count ∧
      (∀ v ∈ values, 1 ≤ v.toNat ∧ v.toNat ≤ sides.toNat) ∧ Roll.sumFrom 0 values = sum := by
  induction count generalizing sum with
  | zero =>
    obtain rfl : sum = 0 := by omega
    exact ⟨[], rfl, by simp, rfl⟩
  | succ count ih =>
    have positive := sides.toNatPositive
    have room : count ≤ count * sides.toNat := Nat.le_mul_of_pos_right _ positive
    rw [Nat.succ_mul] at most
    -- A face is as high as the sides allow, as long as one is left for every later die.
    obtain ⟨face, facts⟩ : ∃ face, face = min sides.toNat (sum - count) := ⟨_, rfl⟩
    obtain ⟨values, size, faces, rest⟩ := ih (sum - face) (by omega) (by omega)
    have word : (UInt32.ofNat face).toNat = face := by
      have range := sides.toNatRange
      exact UInt32.toNat_ofNat_of_lt (by omega)
    refine ⟨UInt32.ofNat face :: values, by simp [size], ?_, ?_⟩
    · refine List.forall_mem_cons.mpr ⟨?_, faces⟩
      omega
    · rw [Roll.sumFromCons, Roll.sumFromStart, rest, word]
      omega

theorem quantityReached {q : Quantity} {n : Int} (holds : q.reach.Holds n) :
    ∃ values, q.Shows values ∧ Roll.sumFrom 0 values = n := by
  cases q with
  | constant value =>
    obtain ⟨least, most⟩ := holds
    refine ⟨[value], .constant value, ?_⟩
    change 0 + (value.toNat : Int) = n
    simp only [Quantity.reach] at least most
    omega
  | dice count sides =>
    obtain ⟨least, most⟩ := holds
    simp only [Quantity.reach, ← Int.natCast_mul] at least most
    obtain ⟨values, size, faces, sum⟩ :=
      facesReached sides count.toNat n.toNat (by omega) (by omega)
    exact ⟨values, .dice count sides values size faces, by omega⟩

theorem termReached {t : Term} {n : Int} (holds : t.reach.Holds n) :
    ∃ p : Roll.Part, t.Yields p ∧ p.share = n := by
  have unsigned := Bounds.holdsSigned holds t.sign
  have twice : (t.reach.signed t.sign) = t.quantity.reach := by
    unfold Term.reach
    cases t.sign <;> simp [Bounds.signed]
  rw [twice] at unsigned
  obtain ⟨values, shows, sum⟩ := quantityReached unsigned
  refine ⟨⟨t.sign, values⟩, ⟨rfl, shows⟩, ?_⟩
  rw [Roll.Part.share, Roll.partSum, sum]
  cases t.sign <;> simp [Sign.applyTo]

theorem reachOrdered (t : Term) : t.reach.low ≤ t.reach.high := by
  obtain ⟨_, _, ordered⟩ := quantityReachRange t.quantity
  unfold Term.reach
  cases t.sign with
  | plus => exact ordered
  | minus => exact Int.neg_le_neg ordered

theorem reachesOrdered (ts : List Term) : (reaches ts).low ≤ (reaches ts).high := by
  induction ts with
  | nil => exact Int.le_refl 0
  | cons t ts ih => exact Int.add_le_add (reachOrdered t) ih

theorem termsReached {ts : List Term} {n : Int} (holds : (reaches ts).Holds n) :
    ∃ ps, List.Forall₂ Term.Yields ts ps ∧ Roll.shares ps = n := by
  induction ts generalizing n with
  | nil => exact ⟨[], .nil, Int.le_antisymm holds.1 holds.2⟩
  | cons t ts ih =>
    obtain ⟨x, y, first, rest, rfl⟩ :=
      Bounds.holdsSplit (reachOrdered t) (reachesOrdered ts) holds
    obtain ⟨p, yields, rfl⟩ := termReached first
    obtain ⟨ps, all, rfl⟩ := ih rest
    exact ⟨p :: ps, .cons yields all, rfl⟩

theorem unsaturatedFits {e : Expression} (unsaturated : e.Unsaturated) :
    ∀ t ∈ e.terms, t.quantity.reach.Fits :=
  fun t ht => quantityReachFits (unsaturated.products t ht)

theorem unsaturatedSteady {e : Expression} (unsaturated : e.Unsaturated) :
    Steady .zero e.terms := by
  intro ts within
  rw [Bounds.zeroPlus]
  exact unsaturated.sums ts within

theorem unsaturatedBounds {e : Expression} (unsaturated : e.Unsaturated) :
    e.bounds = reaches e.terms := by
  rw [Expression.bounds, foldExact (unsaturatedFits unsaturated) (unsaturatedSteady unsaturated),
    Bounds.zeroPlus]

theorem unsaturatedTotal {e : Expression} {r : Roll} (unsaturated : e.Unsaturated)
    (yields : e.Yields r) : r.total = .ok (Roll.shares r.parts) ∧
      (reaches e.terms).Holds (Roll.shares r.parts) := by
  have fold := foldTotal yields (unsaturatedFits unsaturated) (unsaturatedSteady unsaturated)
    Bounds.zeroHolds
  rwa [Bounds.zeroPlus, Int.zero_add] at fold

theorem boundsExact {e : Expression} (unsaturated : e.Unsaturated) :
    e.bounds = reaches e.terms ∧
    (∀ r, e.Yields r → ∃ n, r.total = .ok n) ∧
    (∀ n, (∃ r, e.Yields r ∧ r.total = .ok n) ↔ e.bounds.low ≤ n ∧ n ≤ e.bounds.high) ∧
    ∀ r, e.Yields r → ∃ faces, e.roll (ListedFaces.ofList faces) = .ok (r, ⟨[], faces.length⟩) := by
  have total {r : Roll} (yields : e.Yields r) := unsaturatedTotal unsaturated yields
  rw [unsaturatedBounds unsaturated]
  refine ⟨rfl, fun r yields => ⟨_, (total yields).1⟩, ?_, fun r yields => yieldsRolled yields⟩
  intro n
  constructor
  · intro h
    obtain ⟨r, yields, same⟩ := h
    obtain ⟨exact, within⟩ := total yields
    rw [exact, Except.ok.injEq] at same
    exact same ▸ within
  · intro within
    obtain ⟨ps, all, rfl⟩ := termsReached within
    cases all with
    | @cons _ p _ ps head tail =>
      have yields : e.Yields ⟨p, ps⟩ := .cons head tail
      exact ⟨⟨p, ps⟩, yields, (total yields).1⟩

theorem boundsExactSubtracted :
    (⟨⟨.plus, .dice 2 ⟨6, by decide⟩⟩, [⟨.minus, .dice 1 ⟨4, by decide⟩⟩]⟩ :
      Expression).Unsaturated ∧
    Expression.bounds ⟨⟨.plus, .dice 2 ⟨6, by decide⟩⟩, [⟨.minus, .dice 1 ⟨4, by decide⟩⟩]⟩ =
      ⟨-2, 11⟩ ∧
    ∃ r, (⟨⟨.plus, .dice 2 ⟨6, by decide⟩⟩, [⟨.minus, .dice 1 ⟨4, by decide⟩⟩]⟩ :
      Expression).Yields r ∧ r.total = .ok 7 := by
  have unsaturated : (⟨⟨.plus, .dice 2 ⟨6, by decide⟩⟩, [⟨.minus, .dice 1 ⟨4, by decide⟩⟩]⟩ :
      Expression).Unsaturated := by
    constructor
    · intro t ht count sides dice
      rcases List.mem_pair.mp ht with rfl | rfl <;> cases dice <;> decide
    · intro ts within
      simp only [Expression.terms, List.prefix_cons_iff, List.prefix_nil] at within
      rcases within with rfl | ⟨_, rfl, rfl | ⟨_, rfl, rfl⟩⟩ <;> exact ⟨by decide, by decide⟩
  obtain ⟨exact, _, attained, _⟩ := boundsExact unsaturated
  exact ⟨unsaturated, exact, (attained 7).mpr ⟨by decide, by decide⟩⟩

end Dice
