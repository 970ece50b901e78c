import Dice.Proofs.Breakdown

/-! Entries as lines of the output. A breakdown and a total hold no newline, so an entry is one
line unless its label is not: a label is the spec as it was given, without the white space at its
ends but with what stands between its tokens. -/
namespace Dice

theorem entryNewlines (verbose several : Bool) (x : RolledSpec) :
    (x.entry verbose several).count '\n' =
      if verbose ∧ several then x.text.trim.count '\n' else 0 := by
  have total : (Decimal.ofInt x.total).count '\n' = 0 :=
    List.count_eq_zero_of_not_mem (Decimal.ofIntWithout (by decide) (by decide) x.total)
  have breakdown : x.roll.breakdown.count '\n' = 0 :=
    List.count_eq_zero_of_not_mem (x.roll.breakdownWithout (by decide))
  cases verbose <;> cases several <;>
    simp [RolledSpec.entry, RolledSpec.heading, total, breakdown]

theorem writtenNewlines (ls : List Text) :
    (Text.written ls).count '\n' = ls.length + ls.flatten.count '\n' := by
  induction ls with
  | nil => rfl
  | cons l ls ih =>
    rw [writtenCons, List.count_append, List.count_cons_self, ih, List.length_cons,
      List.flatten_cons, List.count_append]
    omega

theorem writtenSplit {ls : List Text} (inner : ∀ l ∈ ls, '\n' ∉ l) :
    (Text.written ls).splitOn '\n' = ls ++ [[]] := by
  induction ls with
  | nil => rfl
  | cons l ls ih =>
    obtain ⟨first, later⟩ := List.forall_mem_cons.mp inner
    rw [writtenCons, List.splitOn_append_cons_self_of_not_mem first, ih later]
    rfl

def labelNewlines (verbose : Bool) (specs : List Text) : Nat :=
  if verbose ∧ 1 < specs.length then (specs.flatMap Text.trim).count '\n' else 0

theorem labelNewlinesNone {verbose : Bool} {specs : List Text} :
    labelNewlines verbose specs = 0 ↔
      (verbose = true → 1 < specs.length → ∀ t ∈ specs, '\n' ∉ t.trim) := by
  unfold labelNewlines
  split
  · next labelled => simp [List.count_eq_zero, labelled.1, labelled.2]
  · next plain =>
    simp only [true_iff]
    exact fun written several => absurd ⟨written, several⟩ plain

theorem entriesNewlines (verbose several : Bool) (xs : List RolledSpec) :
    (xs.map (RolledSpec.entry verbose several)).flatten.count '\n' =
      if verbose ∧ several then ((xs.map RolledSpec.text).flatMap Text.trim).count '\n'
      else 0 := by
  induction xs with
  | nil => simp
  | cons x xs ih =>
    simp only [List.map_cons, List.flatten_cons, List.flatMap_cons, List.count_append, ih,
      entryNewlines]
    split <;> rfl

variable {ρ : Type} [FaceSource ρ]

theorem firstInvalidNone {specs : List Text} {source last : ρ} {xs : List RolledSpec}
    (turn : RolledInTurn specs source xs last) : firstInvalid specs = specs.length := by
  refine List.findIdx_eq_length.mpr ?_
  intro t among
  rw [← turn.texts] at among
  obtain ⟨x, member, rfl⟩ := List.mem_map.mp among
  rw [turn.reads x member]
  rfl

theorem entriesAreLines {specs : List Text} {source last : ρ} {xs : List RolledSpec}
    (turn : RolledInTurn specs source xs last) (verbose : Bool) :
    ∃ report, rollSpecs verbose specs source = .ok (report, last) ∧
      report.entries = xs.map (RolledSpec.entry verbose (1 < specs.length)) ∧
      report.failure? = none ∧
      report.written.count '\n' = specs.length + labelNewlines verbose specs ∧
      (report.written.count '\n' = specs.length ↔
        (verbose = true → 1 < specs.length → ∀ t ∈ specs, '\n' ∉ t.trim)) ∧
      (report.written.count '\n' = specs.length →
        report.written.splitOn '\n' = report.entries ++ [[]]) := by
  have all := firstInvalidNone turn
  have accepted : (untilRefused Spec.ofText specs).2 = none := by
    rw [refusalNone, ← firstInvalidRefused, all]
  have length : xs.length = specs.length := by rw [← turn.texts, List.length_map]
  have newlines := writtenNewlines (xs.map (RolledSpec.entry verbose (1 < specs.length)))
  have labels : (xs.map (RolledSpec.entry verbose (1 < specs.length))).flatten.count '\n' =
      labelNewlines verbose specs := by
    rw [entriesNewlines, turn.texts, labelNewlines]
    simp only [decide_eq_true_eq]
  rw [List.length_map, length, labels] at newlines
  refine ⟨_, rollSpecsExact.mpr ⟨xs, ?_, rfl⟩, rfl, accepted, newlines, ?_, ?_⟩
  · rwa [all, List.take_length]
  · rw [← labelNewlinesNone]
    exact newlines ▸ Nat.add_eq_left
  · intro same
    refine writtenSplit ?_
    rw [Nat.add_eq_left.mp (newlines.symm.trans same), List.count_eq_zero] at labels
    intro l member among
    exact labels (List.mem_flatten_of_mem member among)

/-- White space between two tokens stays in the label. -/
theorem labelOverTwoLines :
    ["1\n+2".toList, "3".toList].all (fun t => (Expression.parse t).isOk) ∧
    rollSpecs true ["1\n+2".toList, "3".toList] (ListedFaces.ofList []) =
      .ok (⟨["1\n+2 = (1) + (2) = 3".toList, "3 = (3) = 3".toList], none⟩, ⟨[], 0⟩) ∧
    (Report.written ⟨["1\n+2 = (1) + (2) = 3".toList, "3 = (3) = 3".toList], none⟩).count '\n' ≠
      ["1\n+2".toList, "3".toList].length :=
  ⟨by decide, rfl, by decide⟩

theorem entriesAreLinesTrimmed :
    ∃ xs report, RolledInTurn [" 1d6\n".toList, "2".toList] (ListedFaces.ofList [4]) xs ⟨[], 1⟩ ∧
      rollSpecs true [" 1d6\n".toList, "2".toList] (ListedFaces.ofList [4]) =
        .ok (report, ⟨[], 1⟩) ∧
      report.written.splitOn '\n' =
        ["1d6 = (4) = 4".toList, "2 = (2) = 2".toList, []] := by
  let die : RolledSpec := ⟨" 1d6\n".toList, ⟨⟨.plus, .dice 1 ⟨6, by decide⟩⟩, []⟩,
    ⟨⟨.plus, [4]⟩, []⟩, 4⟩
  let constant : RolledSpec := ⟨"2".toList, ⟨⟨.plus, .constant 2⟩, []⟩, ⟨⟨.plus, [2]⟩, []⟩, 2⟩
  have turn : RolledInTurn [" 1d6\n".toList, "2".toList] (ListedFaces.ofList [4])
      [die, constant] ⟨[], 1⟩ := by
    refine ⟨rfl, ?_, rfl, ?_⟩
    · simp only [List.forall_mem_cons, die, constant]
      exact ⟨rfl, rfl, by simp⟩
    · simp only [List.forall_mem_cons, die, constant]
      exact ⟨rfl, rfl, by simp⟩
  obtain ⟨report, run, entries, _, _, lines, split⟩ := entriesAreLines turn true
  refine ⟨[die, constant], report, turn, run, ?_⟩
  rw [split (lines.mpr fun _ _ => by decide), entries]
  rfl

end Dice
