import Dice.Proofs.Handful
import Dice.Proofs.Totals
import Dice.Roll.Draw
import Mathlib.Data.List.Forall2

/-! A roll and the faces it is made of. The dice of an expression are known before it is rolled:
a source that hands out a face for each of them, one after the other, gives a roll, and the faces
of that roll are these faces, none left out, moved or used twice. -/
namespace Dice

def Quantity.demand : Quantity → List Sides
  | .constant _ => []
  | .dice count sides => List.replicate count.toNat sides

def Term.demand (t : Term) : List Sides := t.quantity.demand

def Expression.demand (e : Expression) : List Sides := e.terms.flatMap Term.demand

inductive Quantity.Takes : Quantity → List UInt32 → List UInt32 → Prop where
  | constant (value : UInt32) : Takes (.constant value) [] [value]
  | dice (count : UInt32) (sides : Sides) (values : List UInt32)
      (size : values.length = count.toNat) : Takes (.dice count sides) values values

inductive Accounts : List Term → List UInt32 → List Roll.Part → Prop where
  | nil : Accounts [] [] []
  | cons {t p first ts rest ps} (sign : p.sign = t.sign) (takes : t.quantity.Takes first p.values)
      (later : Accounts ts rest ps) : Accounts (t :: ts) (first ++ rest) (p :: ps)

theorem takesLength {q : Quantity} {faces values : List UInt32} (takes : q.Takes faces values) :
    faces.length = q.demand.length := by
  cases takes with
  | constant value => rfl
  | dice count sides values size => rw [size, Quantity.demand, List.length_replicate]

theorem accountsLength {ts : List Term} {faces : List UInt32} {ps : List Roll.Part}
    (accounts : Accounts ts faces ps) : faces.length = (ts.flatMap Term.demand).length := by
  induction accounts with
  | nil => rfl
  | cons sign takes later ih =>
    rw [List.flatMap_cons, List.length_append, List.length_append, takesLength takes, ih]
    rfl

theorem takesUnique {q : Quantity} {faces values others : List UInt32}
    (left : q.Takes faces values) (right : q.Takes faces others) : values = others := by
  cases left with
  | constant value => cases right; rfl
  | dice count sides values size => cases right; rfl

theorem accountsUnique {ts : List Term} {faces : List UInt32} {ps qs : List Roll.Part}
    (left : Accounts ts faces ps) (right : Accounts ts faces qs) : ps = qs := by
  induction left generalizing qs with
  | nil => cases right; rfl
  | @cons t p first ts rest ps sign takes later ih =>
    generalize whole : first ++ rest = faces at right
    cases right with
    | @cons _ q again _ others qs sign' takes' later' =>
      have size : first.length = again.length := (takesLength takes).trans (takesLength takes').symm
      obtain ⟨rfl, rfl⟩ := List.append_inj whole size
      have same : p = q :=
        Roll.Part.ext (sign.trans sign'.symm) (takesUnique takes takes')
      rw [same, ih later']

variable {ρ : Type} [FaceSource ρ]

inductive Supplies : ρ → List Sides → List UInt32 → ρ → Prop where
  | nil (source : ρ) : Supplies source [] [] source
  | cons {source middle last : ρ} {s : Sides} {face : UInt32} {dice : List Sides}
      {faces : List UInt32} (first : FaceSource.deal? s source = .ok (some (face, middle)))
      (rest : Supplies middle dice faces last) : Supplies source (s :: dice) (face :: faces) last

theorem suppliesSplit {source last : ρ} {before after : List Sides} {faces : List UInt32}
    (supplies : Supplies source (before ++ after) faces last) :
    ∃ first rest middle, faces = first ++ rest ∧ Supplies source before first middle ∧
      Supplies middle after rest last := by
  induction before generalizing source faces with
  | nil => exact ⟨[], faces, source, rfl, .nil source, supplies⟩
  | cons s before ih =>
    cases supplies with
    | @cons _ m _ _ face _ faces dealt later =>
      obtain ⟨first, rest, middle, rfl, left, right⟩ := ih later
      exact ⟨face :: first, rest, middle, rfl, .cons dealt left, right⟩

theorem suppliesAppend {source middle last : ρ} {before after : List Sides}
    {first rest : List UInt32} (left : Supplies source before first middle)
    (right : Supplies middle after rest last) :
    Supplies source (before ++ after) (first ++ rest) last := by
  induction left with
  | nil source => exact right
  | cons dealt later ih => exact .cons dealt (ih right)

theorem handfulSupplied {source last : ρ} {n : Nat} {s : Sides} {faces : List UInt32}
    (supplies : Supplies source (List.replicate n s) faces last) :
    Handful.roll ⟨n, s⟩ source = .ok (faces, last) ∧ faces.length = n := by
  induction n generalizing source faces with
  | zero =>
    cases supplies
    exact ⟨rfl, rfl⟩
  | succ n ih =>
    cases supplies with
    | cons dealt rest =>
      obtain ⟨rolled, size⟩ := ih rest
      exact ⟨Handful.rollDealt dealt rolled, congrArg Nat.succ size⟩

theorem quantitySupplied {source last : ρ} {q : Quantity} {faces : List UInt32}
    (supplies : Supplies source q.demand faces last) :
    ∃ values, q.roll source = .ok (values, last) ∧ q.Takes faces values := by
  cases q with
  | constant value =>
    cases supplies
    exact ⟨[value], rfl, .constant value⟩
  | dice count sides =>
    obtain ⟨rolled, size⟩ := handfulSupplied supplies
    exact ⟨faces, rolled, .dice count sides faces size⟩

theorem termSupplied {source last : ρ} {t : Term} {faces : List UInt32}
    (supplies : Supplies source t.demand faces last) :
    ∃ p, t.roll source = .ok (p, last) ∧ p.sign = t.sign ∧ t.quantity.Takes faces p.values := by
  obtain ⟨values, rolled, takes⟩ := quantitySupplied supplies
  exact ⟨⟨t.sign, values⟩, stateBindOk.mpr ⟨values, last, rolled, rfl⟩, rfl, takes⟩

theorem termsSupplied {source last : ρ} {ts : List Term} {faces : List UInt32}
    (supplies : Supplies source (ts.flatMap Term.demand) faces last) :
    ∃ ps, ts.mapM Term.roll source = .ok (ps, last) ∧ Accounts ts faces ps := by
  induction ts generalizing source faces with
  | nil =>
    cases supplies
    exact ⟨[], rfl, .nil⟩
  | cons t ts ih =>
    rw [List.flatMap_cons] at supplies
    obtain ⟨first, rest, middle, rfl, here, later⟩ := suppliesSplit supplies
    obtain ⟨p, rolled, sign, takes⟩ := termSupplied here
    obtain ⟨ps, others, accounts⟩ := ih later
    refine ⟨p :: ps, ?_, .cons sign takes accounts⟩
    rw [List.mapM_cons, stateBindOk]
    exact ⟨p, middle, rolled, stateBindOk.mpr ⟨ps, last, others, rfl⟩⟩

theorem expressionSupplied {source last : ρ} {e : Expression} {faces : List UInt32}
    (supplies : Supplies source e.demand faces last) :
    ∃ r, e.roll source = .ok (r, last) ∧ Accounts e.terms faces r.parts := by
  rw [Expression.demand, Expression.terms, List.flatMap_cons] at supplies
  obtain ⟨first, rest, middle, rfl, here, later⟩ := suppliesSplit supplies
  obtain ⟨p, rolled, sign, takes⟩ := termSupplied here
  obtain ⟨ps, others, accounts⟩ := termsSupplied later
  refine ⟨⟨p, ps⟩, ?_, .cons sign takes accounts⟩
  rw [Expression.roll, stateBindOk]
  exact ⟨p, middle, rolled, stateBindOk.mpr ⟨ps, last, others, rfl⟩⟩

theorem accountsRolled {source last : ρ} {e : Expression} {faces : List UInt32} {r : Roll}
    (accounts : Accounts e.terms faces r.parts) (supplies : Supplies source e.demand faces last) :
    e.roll source = .ok (r, last) := by
  obtain ⟨q, rolled, again⟩ := expressionSupplied supplies
  obtain ⟨first, rest⟩ := r
  obtain ⟨first', rest'⟩ := q
  obtain ⟨rfl, rfl⟩ := List.cons.inj (accountsUnique accounts again)
  exact rolled

end Dice
