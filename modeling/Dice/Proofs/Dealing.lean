import Dice.Face.Listed
import Dice.Proofs.Supply

/-! What an expression may show it can be made to show: a list of faces deals them in order,
to one quantity after another, and a roll from it is that roll. -/
namespace Dice

variable {α : Type}

def Deals (x : Rolling ListedFaces α) (faces : List UInt32) (a : α) : Prop :=
  ∀ left drawn, x ⟨faces ++ left, drawn⟩ = .ok (a, ⟨left, drawn + faces.length⟩)

theorem listedSupplies {dice : List Sides} {faces : List UInt32}
    (size : faces.length = dice.length) (left : List UInt32) (drawn : Nat) :
    Supplies (ListedFaces.mk (faces ++ left) drawn) dice faces ⟨left, drawn + faces.length⟩ := by
  induction dice generalizing faces drawn with
  | nil =>
    obtain rfl := List.length_eq_zero_iff.mp size
    exact .nil _
  | cons s dice ih =>
    cases faces with
    | nil => simp at size
    | cons face faces =>
      have rest := ih (Nat.succ.inj size) (drawn + 1)
      rw [Nat.add_assoc, Nat.add_comm 1] at rest
      exact .cons rfl rest

theorem accountsDeal {e : Expression} {faces : List UInt32} {r : Roll}
    (accounts : Accounts e.terms faces r.parts) : Deals e.roll faces r :=
  fun left drawn => accountsRolled accounts (listedSupplies (accountsLength accounts) left drawn)

theorem accountsReplayed {e : Expression} {faces : List UInt32} {r : Roll}
    (accounts : Accounts e.terms faces r.parts) :
    e.roll (ListedFaces.ofList faces) = .ok (r, ⟨[], faces.length⟩) := by
  have dealt := accountsDeal accounts [] 0
  rwa [List.append_nil, Nat.zero_add] at dealt

theorem showsTakes {q : Quantity} {values : List UInt32} (shows : q.Shows values) :
    ∃ faces, q.Takes faces values := by
  cases shows with
  | constant value => exact ⟨[], .constant value⟩
  | dice count sides values size faces => exact ⟨values, .dice count sides values size⟩

theorem yieldsAccounts {ts : List Term} {ps : List Roll.Part}
    (yields : List.Forall₂ Term.Yields ts ps) : ∃ faces, Accounts ts faces ps := by
  induction yields with
  | nil => exact ⟨[], .nil⟩
  | cons head tail ih =>
    obtain ⟨first, takes⟩ := showsTakes head.values
    obtain ⟨rest, later⟩ := ih
    exact ⟨first ++ rest, .cons head.sign takes later⟩

theorem yieldsRolled {e : Expression} {r : Roll} (yields : e.Yields r) :
    ∃ faces, e.roll (ListedFaces.ofList faces) = .ok (r, ⟨[], faces.length⟩) := by
  obtain ⟨faces, accounts⟩ := yieldsAccounts yields
  exact ⟨faces, accountsReplayed accounts⟩

end Dice
