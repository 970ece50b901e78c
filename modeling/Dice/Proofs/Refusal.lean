import Dice.CommandLine.Report
import Mathlib.Data.List.Forall2

/-! A run over items that ends at the first one it refuses. What it keeps are the results of the
items before that one, and what it says is the refusal of that one. -/
namespace Dice

variable {α β ε : Type} {f : α → Except ε β}

def firstRefused (f : α → Except ε β) (items : List α) : Nat :=
  items.findIdx fun item => !(f item).isOk

theorem firstAccepted {item : α} {result : β} (accepted : f item = .ok result) (items : List α) :
    firstRefused f (item :: items) = firstRefused f items + 1 := by
  have ok : (f item).isOk = true := by
    rw [accepted]
    rfl
  simp [firstRefused, List.findIdx_cons, ok]

theorem firstHere {item : α} {refusal : ε} (refused : f item = .error refusal) (items : List α) :
    firstRefused f (item :: items) = 0 := by
  have failed : (f item).isOk = false := by
    rw [refused]
    rfl
  simp [firstRefused, List.findIdx_cons, failed]

theorem refusedHere {item : α} {refusal : ε} (refused : f item = .error refusal)
    (items : List α) : untilRefused f (item :: items) = ([], some refusal) := by
  simp [untilRefused, refused]

theorem acceptedBefore (items : List α) :
    List.Forall₂ (fun item result => f item = .ok result)
      (items.take (firstRefused f items)) (untilRefused f items).1 := by
  induction items with
  | nil => exact .nil
  | cons item items ih =>
    cases read : f item with
    | ok result =>
      rw [firstAccepted read, refusedNone read]
      exact .cons read ih
    | error refusal =>
      rw [firstHere read, refusedHere read]
      exact .nil

theorem refusalExact {items : List α} {refusal : ε} :
    (untilRefused f items).2 = some refusal ↔
      ∃ item, items[firstRefused f items]? = some item ∧ f item = .error refusal := by
  induction items with
  | nil => simp [untilRefused]
  | cons item items ih =>
    cases read : f item with
    | ok result => rw [firstAccepted read, refusedNone read, List.getElem?_cons_succ, ih]
    | error other => simp [firstHere read, refusedHere read, read]

theorem refusalNone {items : List α} :
    (untilRefused f items).2 = none ↔ firstRefused f items = items.length := by
  induction items with
  | nil => simp [untilRefused, firstRefused]
  | cons item items ih =>
    cases read : f item with
    | ok result =>
      rw [firstAccepted read, refusedNone read, List.length_cons, Nat.add_right_cancel_iff, ih]
    | error other => simp [firstHere read, refusedHere read]

end Dice
