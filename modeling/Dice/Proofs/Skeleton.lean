import Dice.Face.Listed
import Dice.Proofs.Canonical
import Dice.Proofs.Overflow
import Dice.Roll.Style

/-! What a notation and the breakdown of its roll have in common. Signs and spaces are gaps that
depend on the signs of the terms alone, and rolling keeps the signs; in the gaps stand the clauses
of the notation or, in the breakdown, the values that were rolled for them. -/
namespace Dice

def gaps : List Sign → List Text
  | [] => []
  | first :: rest => first.leading :: rest.map fun s => [' ', s.symbol, ' ']

def woven (gaps fields : List Text) : Text := (List.zipWith (· ++ ·) gaps fields).flatten

theorem wovenCons (gap field : Text) (gaps fields : List Text) :
    woven (gap :: gaps) (field :: fields) = gap ++ field ++ woven gaps fields := rfl

theorem wovenEach {α : Type} (gap field : α → Text) (items : List α) :
    woven (items.map gap) (items.map field) = items.flatMap fun x => gap x ++ field x := by
  induction items with
  | nil => rfl
  | cons x items ih => rw [List.map_cons, List.map_cons, wovenCons, ih, List.flatMap_cons]

theorem wovenFilter (keep : Char → Bool) (gaps fields : List Text) :
    (woven gaps fields).filter keep =
      woven (gaps.map (List.filter keep)) (fields.map (List.filter keep)) := by
  induction gaps generalizing fields with
  | nil => rfl
  | cons gap gaps ih =>
    cases fields with
    | nil => rfl
    | cons field fields =>
      rw [wovenCons, List.filter_append, List.filter_append, ih, List.map_cons, List.map_cons,
        wovenCons]

namespace Expression

def signs (e : Expression) : List Sign := e.terms.map Term.sign

theorem canonicalWoven (e : Expression) :
    e.canonical = woven (gaps e.signs) (e.terms.map fun t => t.quantity.canonical) := by
  have later := wovenEach (fun t : Term => [' ', t.sign.symbol, ' '])
    (fun t => t.quantity.canonical) e.rest
  rw [signs, terms, List.map_cons, List.map_cons, gaps, List.map_map, wovenCons]
  exact congrArg _ later.symm

end Expression

namespace Roll

def signs (r : Roll) : List Sign := r.parts.map Part.sign

theorem breakdownWoven (r : Roll) :
    r.breakdown = woven (gaps r.signs) (r.parts.map Part.breakdown) := by
  have later := wovenEach (fun p : Part => [' ', p.sign.symbol, ' ']) Part.breakdown r.rest
  rw [signs, parts, List.map_cons, List.map_cons, gaps, List.map_map, wovenCons]
  exact congrArg _ later.symm

end Roll

variable {ρ : Type} [FaceSource ρ]

theorem termSign {t : Term} {source last : ρ} {p : Roll.Part}
    (rolled : t.roll source = .ok (p, last)) : p.sign = t.sign := by
  obtain ⟨values, m, _, final⟩ := stateBindOk.mp rolled
  obtain ⟨rfl, _⟩ := statePureOk.mp final
  rfl

theorem termsSigns {ts : List Term} {source last : ρ} {ps : List Roll.Part}
    (rolled : ts.mapM Term.roll source = .ok (ps, last)) :
    ps.map Roll.Part.sign = ts.map Term.sign := by
  induction ts generalizing source ps with
  | nil =>
    obtain ⟨rfl, _⟩ := statePureOk.mp rolled
    rfl
  | cons t ts ih =>
    rw [List.mapM_cons, stateBindOk] at rolled
    obtain ⟨p, middle, first, later⟩ := rolled
    obtain ⟨rest, m, others, final⟩ := stateBindOk.mp later
    obtain ⟨rfl, rfl⟩ := statePureOk.mp final
    rw [List.map_cons, List.map_cons, termSign first, ih others]

theorem rollSigns {e : Expression} {source last : ρ} {r : Roll}
    (rolled : e.roll source = .ok (r, last)) : r.signs = e.signs := by
  obtain ⟨first, middle, here, later⟩ := stateBindOk.mp rolled
  obtain ⟨rest, m, others, final⟩ := stateBindOk.mp later
  obtain ⟨rfl, _⟩ := statePureOk.mp final
  change first.sign :: rest.map Roll.Part.sign = _
  rw [termSign here, termsSigns others]
  rfl

def Expression.Constant (e : Expression) : Prop := ∀ t ∈ e.terms, t.quantity.sides? = none

instance : DecidablePred Expression.Constant := fun e =>
  inferInstanceAs (Decidable (∀ t ∈ e.terms, t.quantity.sides? = none))

def Term.constantPart (t : Term) : Roll.Part := ⟨t.sign, [t.quantity.count]⟩

def Expression.constantRoll (e : Expression) : Roll :=
  ⟨e.first.constantPart, e.rest.map Term.constantPart⟩

def constantSum : List Term → Int
  | [] => 0
  | t :: ts => t.sign.applyTo t.quantity.count.toNat + constantSum ts

def Text.withoutBrackets (t : Text) : Text := t.filter fun c => c ≠ '(' && c ≠ ')'

theorem constantRolled {t : Term} (constant : t.quantity.sides? = none) (source : ρ) :
    t.roll source = .ok (t.constantPart, source) := by
  obtain ⟨sign, quantity⟩ := t
  cases quantity with
  | constant value => rfl
  | dice count sides => cases constant

theorem constantsRolled {ts : List Term} (constant : ∀ t ∈ ts, t.quantity.sides? = none)
    (source : ρ) :
    ts.mapM Term.roll source = .ok (ts.map Term.constantPart, source) := by
  induction ts with
  | nil => rfl
  | cons t ts ih =>
    obtain ⟨here, later⟩ := List.forall_mem_cons.mp constant
    rw [List.mapM_cons, stateBindOk]
    exact ⟨_, source, constantRolled here source, stateBindOk.mpr ⟨_, source, ih later, rfl⟩⟩

theorem constantRollExact {e : Expression} (constant : e.Constant) (source : ρ) :
    e.roll source = .ok (e.constantRoll, source) := by
  obtain ⟨here, later⟩ := List.forall_mem_cons.mp constant
  exact stateBindOk.mpr ⟨_, source, constantRolled here source,
    stateBindOk.mpr ⟨_, source, constantsRolled later source, rfl⟩⟩

theorem constantParts (e : Expression) : e.constantRoll.parts = e.terms.map Term.constantPart := rfl

theorem digitsKept (n : Nat) : (Decimal.ofNat n).withoutBrackets = Decimal.ofNat n := by
  refine List.filter_eq_self.mpr ?_
  intro c digit
  have opening : c ≠ '(' := fun same => Decimal.ofNatWithout (by decide) n (same ▸ digit)
  have closing : c ≠ ')' := fun same => Decimal.ofNatWithout (by decide) n (same ▸ digit)
  simp [opening, closing]

theorem constantPartKept {t : Term} (constant : t.quantity.sides? = none) :
    t.constantPart.breakdown.withoutBrackets = t.quantity.canonical := by
  obtain ⟨sign, quantity⟩ := t
  cases quantity with
  | dice count sides => cases constant
  | constant value =>
    have inside := digitsKept value.toNat
    simp_all [Term.constantPart, Roll.Part.breakdown, Text.withoutBrackets, Quantity.count,
      Quantity.canonical]

theorem gapsKept (ss : List Sign) : (gaps ss).map Text.withoutBrackets = gaps ss := by
  have leading (s : Sign) : s.leading.withoutBrackets = s.leading := by cases s <;> rfl
  have between (s : Sign) : Text.withoutBrackets [' ', s.symbol, ' '] = [' ', s.symbol, ' '] := by
    cases s <;> rfl
  cases ss with
  | nil => rfl
  | cons s ss => simp [gaps, leading, between]

theorem constantBreakdown {e : Expression} (constant : e.Constant) :
    e.constantRoll.breakdown.withoutBrackets = e.canonical := by
  have signs : e.constantRoll.signs = e.signs := by
    rw [Roll.signs, constantParts, List.map_map]
    rfl
  rw [Roll.breakdownWoven, signs, Text.withoutBrackets, wovenFilter, e.canonicalWoven]
  refine congr (congrArg woven (gapsKept e.signs)) ?_
  rw [constantParts, List.map_map, List.map_map]
  exact List.map_congr_left fun t member => constantPartKept (constant t member)

theorem constantShare (t : Term) :
    t.constantPart.share = t.sign.applyTo t.quantity.count.toNat := by
  simp [Term.constantPart, Roll.Part.share, Roll.Part.sum]

theorem constantShares (ts : List Term) :
    Roll.shares (ts.map Term.constantPart) = constantSum ts := by
  induction ts with
  | nil => rfl
  | cons t ts ih => rw [List.map_cons, Roll.shares, ih, constantShare, constantSum]

theorem constantPartFits (t : Term) : Amount.Fits t.constantPart.sum := by
  have word := t.quantity.count.toNat_lt
  simp only [Term.constantPart, Roll.Part.sum, List.foldl_cons, List.foldl_nil, Amount.Fits,
    Amount.least, Amount.greatest]
  omega

theorem constantPrefixes {P : Int → Prop} {ts : List Term} :
    (∀ ps, ps <+: ts.map Term.constantPart → P (Roll.shares ps)) ↔
      ∀ us, us <+: ts → P (constantSum us) := by
  constructor
  · intro every us front
    rw [← constantShares]
    exact every _ (front.map Term.constantPart)
  · intro every ps front
    obtain ⟨later, whole⟩ := front
    obtain ⟨us, vs, rfl, rfl, _⟩ := List.map_eq_append_iff.mp whole.symm
    rw [constantShares]
    exact every us (List.prefix_append us vs)

theorem constantTotal {e : Expression} {n : Int} : e.constantRoll.total = .ok n ↔
    (∀ ts, ts <+: e.terms → Amount.Fits (constantSum ts)) ∧ n = constantSum e.terms := by
  have zero : Amount.Fits 0 := by decide
  have each : ∀ p ∈ e.terms.map Term.constantPart, Amount.Fits p.sum := by
    intro p member
    obtain ⟨t, _, rfl⟩ := List.mem_map.mp member
    exact constantPartFits t
  rw [Roll.total, Roll.partsTotal zero, constantParts]
  simp only [Int.zero_add, constantShares, constantPrefixes (P := Amount.Fits)]
  exact and_iff_right each

theorem constantCount (ts : List Term) :
    Roll.valueCount (ts.map Term.constantPart) = ts.length := by
  induction ts with
  | nil => rfl
  | cons t ts ih =>
    rw [List.map_cons, Roll.valueCount, ih, List.length_cons, Nat.add_comm]
    rfl

end Dice
