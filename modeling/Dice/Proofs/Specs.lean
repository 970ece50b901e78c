import Dice.Face.Listed
import Dice.Proofs.Embedding
import Dice.Proofs.Lines
import Dice.Proofs.Refusal

/-! Specs one after the other, up to the first that is no notation. Those before it are rolled from
one source and each has its entry; the failure names that one. How the entries are written out
changes nothing else: a longer entry is the total with something in front of it. -/
namespace Dice

def firstInvalid (specs : List Text) : Nat :=
  specs.findIdx fun t => !(Expression.parse t).isOk

structure RolledSpec where
  text : Text
  expression : Expression
  roll : Roll
  total : Int
  deriving DecidableEq, Repr

namespace RolledSpec

def heading (several : Bool) (x : RolledSpec) : Text :=
  (if several then x.text.trim ++ " = ".toList else []) ++ x.roll.breakdown ++ " = ".toList

def entry (verbose several : Bool) (x : RolledSpec) : Text :=
  (if verbose then x.heading several else []) ++ Decimal.ofInt x.total

theorem headingEnds (several : Bool) (x : RolledSpec) : " = ".toList <:+ x.heading several :=
  List.suffix_append _ _

end RolledSpec

variable {ρ : Type} [FaceSource ρ]

structure RolledInTurn (specs : List Text) (source : ρ) (xs : List RolledSpec) (last : ρ) :
    Prop where
  texts : xs.map RolledSpec.text = specs
  reads : ∀ x ∈ xs, Expression.parse x.text = .ok x.expression
  rolled : (xs.map RolledSpec.expression).mapM Expression.roll source =
    .ok (xs.map RolledSpec.roll, last)
  totals : ∀ x ∈ xs, x.roll.total = .ok x.total

structure NamesInvalid (specs : List Text) (failure? : Option Failure) : Prop where
  fails : failure? ≠ none ↔ firstInvalid specs < specs.length
  named : ∀ failure ∈ failure?, ∃ spec error, specs[firstInvalid specs]? = some spec ∧
    Expression.parse spec = .error error ∧ failure = .invalidSpec spec error ∧
    failure.context = "invalid roll spec ".toList ++ spec.quoted ∧ failure.cause = error.message

theorem specExact {t : Text} {s : Spec} :
    Spec.ofText t = .ok s ↔ s.text = t ∧ Expression.parse t = .ok s.expression := by
  unfold Spec.ofText
  cases read : Expression.parse t with
  | ok e =>
    obtain ⟨text, expression⟩ := s
    simp [eq_comm]
  | error problem => simp

theorem specRefused {t : Text} {failure : Failure} :
    Spec.ofText t = .error failure ↔
      ∃ error, Expression.parse t = .error error ∧ failure = .invalidSpec t error := by
  unfold Spec.ofText
  cases read : Expression.parse t with
  | ok e => simp
  | error problem => simp [eq_comm]

theorem firstInvalidRefused (specs : List Text) :
    firstInvalid specs = firstRefused Spec.ofText specs := by
  have same (t : Text) : (Expression.parse t).isOk = (Spec.ofText t).isOk := by
    unfold Spec.ofText
    cases Expression.parse t <;> rfl
  simp only [firstInvalid, firstRefused, same]

theorem namesInvalid (specs : List Text) :
    NamesInvalid specs (untilRefused Spec.ofText specs).2 := by
  constructor
  · have within : firstRefused Spec.ofText specs ≤ specs.length := List.findIdx_le_length
    rw [firstInvalidRefused, ne_eq, refusalNone]
    omega
  · intro failure member
    obtain ⟨spec, place, refused⟩ := refusalExact.mp member
    obtain ⟨error, read, rfl⟩ := specRefused.mp refused
    rw [← firstInvalidRefused] at place
    exact ⟨spec, error, place, read, rfl, rfl, rfl⟩

def Spec.rolled (s : Spec) : Rolling ρ RolledSpec := do
  let roll : Roll ← s.expression.roll
  return ⟨s.text, s.expression, roll, ← liftM roll.total⟩

theorem Spec.rollEntry (s : Spec) (verbose several : Bool) :
    s.roll verbose several = (RolledSpec.entry verbose several <$> s.rolled : Rolling ρ Text) := by
  cases verbose with
  | false => simp [roll, rolled, RolledSpec.entry]
  | true =>
    cases several <;> simp [roll, rolled, RolledSpec.entry, RolledSpec.heading, style,
      Style.write, Style.plain, Style.labelled, Roll.breakdown]

def RolledSpec.spec (x : RolledSpec) : Spec := ⟨x.text, x.expression⟩

theorem rolledExact {s : Spec} {x : RolledSpec} {source last : ρ} :
    s.rolled source = .ok (x, last) ↔
      x.spec = s ∧ s.expression.roll source = .ok (x.roll, last) ∧ x.roll.total = .ok x.total := by
  simp only [Spec.rolled, stateBindOk, stateLiftOk, statePureOk]
  constructor
  · intro h
    obtain ⟨roll, middle, rolled, total, _, ⟨summed, rfl⟩, rfl, rfl⟩ := h
    exact ⟨rfl, rolled, summed⟩
  · intro h
    obtain ⟨rfl, rolled, summed⟩ := h
    exact ⟨x.roll, last, rolled, x.total, last, ⟨summed, rfl⟩, rfl, rfl⟩

theorem allRolledExact {ss : List Spec} {xs : List RolledSpec} {source last : ρ} :
    ss.mapM Spec.rolled source = .ok (xs, last) ↔
      xs.map RolledSpec.spec = ss ∧
      (ss.map Spec.expression).mapM Expression.roll source =
        .ok (xs.map RolledSpec.roll, last) ∧
      ∀ x ∈ xs, x.roll.total = .ok x.total := by
  induction ss generalizing xs source last with
  | nil => cases xs <;> simp [statePureOk]
  | cons s ss ih =>
    simp only [List.mapM_cons, List.map_cons, stateBindOk, statePureOk, rolledExact, ih]
    constructor
    · intro h
      obtain ⟨x, middle, ⟨rfl, here, total⟩, later, _, ⟨rfl, there, totals⟩, rfl, rfl⟩ := h
      exact ⟨rfl, ⟨_, _, here, _, _, there, rfl, rfl⟩, List.forall_mem_cons.mpr ⟨total, totals⟩⟩
    · intro h
      obtain ⟨texts, ⟨_, middle, here, _, _, there, rolls, rfl⟩, totals⟩ := h
      cases xs with
      | nil => cases texts
      | cons x xs =>
        obtain ⟨rfl, rfl⟩ := List.cons.inj texts
        obtain ⟨rfl, rfl⟩ := List.cons.inj rolls
        obtain ⟨total, totals⟩ := List.forall_mem_cons.mp totals
        exact ⟨x, middle, ⟨rfl, here, total⟩, xs, _, ⟨rfl, there, totals⟩, rfl, rfl⟩

theorem readsExact {texts : List Text} {xs : List RolledSpec} :
    List.Forall₂ (fun t s => Spec.ofText t = .ok s) texts (xs.map RolledSpec.spec) ↔
      xs.map RolledSpec.text = texts ∧
      ∀ x ∈ xs, Expression.parse x.text = .ok x.expression := by
  induction xs generalizing texts with
  | nil => simp [eq_comm]
  | cons x xs ih =>
    simp only [List.map_cons, List.forall₂_cons_right_iff, ih, List.forall_mem_cons]
    constructor
    · intro h
      obtain ⟨t, _, first, ⟨rfl, reads⟩, rfl⟩ := h
      obtain ⟨rfl, read⟩ := specExact.mp first
      exact ⟨rfl, read, reads⟩
    · intro h
      obtain ⟨rfl, read, reads⟩ := h
      exact ⟨x.text, _, specExact.mpr ⟨rfl, read⟩, ⟨rfl, reads⟩, rfl⟩

theorem validExact {specs : List Text} {xs : List RolledSpec} :
    xs.map RolledSpec.spec = (untilRefused Spec.ofText specs).1 ↔
      xs.map RolledSpec.text = specs.take (firstInvalid specs) ∧
      ∀ x ∈ xs, Expression.parse x.text = .ok x.expression := by
  have before := acceptedBefore (f := Spec.ofText) specs
  rw [← firstInvalidRefused] at before
  rw [← readsExact]
  constructor
  · intro same
    rwa [same]
  · intro reads
    have once : Relator.RightUnique fun t s => Spec.ofText t = .ok s := by
      intro t s r first second
      exact Except.ok.inj (first.symm.trans second)
    exact once.forall₂ reads before

theorem turnExact {specs : List Text} {xs : List RolledSpec} {source last : ρ} :
    (untilRefused Spec.ofText specs).1.mapM Spec.rolled source = .ok (xs, last) ↔
      RolledInTurn (specs.take (firstInvalid specs)) source xs last := by
  have expressions : (xs.map RolledSpec.spec).map Spec.expression =
      xs.map RolledSpec.expression := by
    rw [List.map_map]
    rfl
  rw [allRolledExact]
  constructor
  · intro h
    obtain ⟨valid, rolled, totals⟩ := h
    obtain ⟨texts, reads⟩ := validExact.mp valid
    rw [← valid, expressions] at rolled
    exact ⟨texts, reads, rolled, totals⟩
  · intro turn
    have valid := validExact.mpr ⟨turn.texts, turn.reads⟩
    rw [← valid, expressions]
    exact ⟨rfl, turn.rolled, turn.totals⟩

theorem rollSpecsEntries (verbose : Bool) (specs : List Text) :
    rollSpecs verbose specs = (do
      let xs ← (untilRefused Spec.ofText specs).1.mapM Spec.rolled
      return ⟨xs.map (RolledSpec.entry verbose (1 < specs.length)),
        (untilRefused Spec.ofText specs).2⟩ : Rolling ρ Report) := by
  simp only [rollSpecs, Spec.rollEntry, mapMEach]
  simp

theorem rollSpecsExact {verbose : Bool} {specs : List Text} {report : Report} {source last : ρ} :
    rollSpecs verbose specs source = .ok (report, last) ↔
      ∃ xs, RolledInTurn (specs.take (firstInvalid specs)) source xs last ∧
        report = ⟨xs.map (RolledSpec.entry verbose (1 < specs.length)),
          (untilRefused Spec.ofText specs).2⟩ := by
  rw [rollSpecsEntries]
  simp only [stateBindOk, statePureOk, turnExact]
  constructor
  · intro h
    obtain ⟨xs, _, turn, rfl, rfl⟩ := h
    exact ⟨xs, turn, rfl⟩
  · intro h
    obtain ⟨xs, turn, rfl⟩ := h
    exact ⟨xs, last, turn, rfl, rfl⟩

theorem specsUntilInvalid (specs : List Text) (source : ρ) :
    ∃ failure?, NamesInvalid specs failure? ∧
      (∀ verbose report last, rollSpecs verbose specs source = .ok (report, last) ↔
        ∃ xs, RolledInTurn (specs.take (firstInvalid specs)) source xs last ∧
          report = ⟨xs.map (RolledSpec.entry verbose (1 < specs.length)), failure?⟩ ∧
          report.written =
            Text.written (xs.map (RolledSpec.entry verbose (1 < specs.length)))) ∧
      ∀ several x, RolledSpec.entry true several x = x.heading several ++ x.entry false several ∧
        " = ".toList <:+ x.heading several := by
  refine ⟨_, namesInvalid specs, ?_, fun several x => ⟨rfl, x.headingEnds several⟩⟩
  intro verbose report last
  rw [rollSpecsExact]
  constructor
  · intro h
    obtain ⟨xs, turn, rfl⟩ := h
    exact ⟨xs, turn, rfl, rfl⟩
  · intro h
    obtain ⟨xs, turn, same, _⟩ := h
    exact ⟨xs, turn, same⟩

theorem specsUntilInvalidMiddle :
    ∃ failure, failure.context = "invalid roll spec \"2d\"".toList ∧
      ∀ verbose, rollSpecs verbose ["1d6".toList, "2d".toList, "3".toList]
        (ListedFaces.ofList [5, 2]) =
          .ok (⟨[if verbose then "1d6 = (5) = 5".toList else "5".toList], some failure⟩,
            ⟨[2], 1⟩) := by
  obtain ⟨failure?, names, runs, _⟩ :=
    specsUntilInvalid ["1d6".toList, "2d".toList, "3".toList] (ListedFaces.ofList [5, 2])
  obtain ⟨failure, rfl⟩ := Option.ne_none_iff_exists'.mp (names.fails.mpr (by decide))
  obtain ⟨spec, error, place, _, _, context, _⟩ := names.named failure rfl
  obtain rfl : "2d".toList = spec := Option.some.inj place
  let one : RolledSpec := ⟨"1d6".toList, ⟨⟨.plus, .dice 1 ⟨6, by decide⟩⟩, []⟩,
    ⟨⟨.plus, [5]⟩, []⟩, 5⟩
  have turn : RolledInTurn ["1d6".toList] (ListedFaces.ofList [5, 2]) [one] ⟨[2], 1⟩ :=
    ⟨rfl, List.forall_mem_singleton.mpr rfl, rfl, List.forall_mem_singleton.mpr rfl⟩
  refine ⟨failure, context, fun verbose => (runs verbose _ _).mpr ⟨[one], turn, ?_, ?_⟩⟩
  · cases verbose <;> rfl
  · cases verbose <;> rfl

end Dice
