import Dice.Face.Stepping
import Dice.Proofs.Dealing
import Dice.Proofs.Sampling
import Dice.Proofs.Uniformity

/-! A roll accounts for every face that was drawn for it. What a source hands out is written down
as it is handed out, by a source around it; the roll is made of exactly these faces, in this order,
and dealing them again gives the roll again. Words, steps and lists differ only in which dice
they can supply. -/
namespace Dice

structure Recorded (ρ : Type) where
  source : ρ
  faces : List UInt32

namespace Recorded

variable {ρ : Type}

def after (r : Recorded ρ) (face : UInt32) (source : ρ) : Recorded ρ := ⟨source, r.faces ++ [face]⟩

instance [FaceSource ρ] : FaceSource (Recorded ρ) where
  single s r := (FaceSource.single s r.source).map fun (face, source) => (face, r.after face source)
  deal? s r := (FaceSource.deal? s r.source).map fun dealt? =>
    dealt?.map fun (face, source) => (face, r.after face source)

theorem supplied [FaceSource ρ] {source last : ρ} {dice : List Sides} {faces : List UInt32}
    (before : List UInt32) (supplies : Supplies source dice faces last) :
    Supplies (mk source before) dice faces ⟨last, before ++ faces⟩ := by
  induction supplies generalizing before with
  | nil source =>
    rw [List.append_nil]
    exact .nil _
  | @cons source middle last s face dice faces first rest ih =>
    have dealt : FaceSource.deal? s (mk source before) =
        .ok (some (face, mk middle (before ++ [face]))) := by
      change (FaceSource.deal? s source).map _ = _
      rw [first]
      rfl
    have later := ih (before ++ [face])
    rw [List.append_assoc] at later
    exact .cons dealt later

end Recorded

structure Expression.Accounted {ρ : Type} [FaceSource ρ] (e : Expression) (source : ρ) (r : Roll)
    (last : ρ) (faces : List UInt32) : Prop where
  rolled : e.roll source = .ok (r, last)
  recorded : e.roll (Recorded.mk source []) = .ok (r, ⟨last, faces⟩)
  accounts : Accounts e.terms faces r.parts
  replayed : e.roll (ListedFaces.ofList faces) = .ok (r, ⟨[], faces.length⟩)

theorem suppliesAccounted {ρ : Type} [FaceSource ρ] {e : Expression} {source last : ρ}
    {faces : List UInt32} (supplies : Supplies source e.demand faces last) :
    ∃ r, e.Accounted source r last faces := by
  obtain ⟨r, rolled, accounts⟩ := expressionSupplied supplies
  exact ⟨r, rolled, accountsRolled accounts (Recorded.supplied [] supplies), accounts,
    accountsReplayed accounts⟩

def Sides.Has (s : Sides) (face : UInt32) : Prop := 1 ≤ face.toNat ∧ face.toNat ≤ s.toNat

def Proper (ρ : Type) [FaceSource ρ] : Prop :=
  ∀ (s : Sides) (source last : ρ) (face : UInt32),
    FaceSource.deal? s source = .ok (some (face, last)) → s.Has face

theorem suppliesProper {ρ : Type} [FaceSource ρ] (proper : Proper ρ) {source last : ρ}
    {dice : List Sides} {faces : List UInt32} (supplies : Supplies source dice faces last) :
    List.Forall₂ Sides.Has dice faces := by
  induction supplies with
  | nil source => exact .nil
  | cons first rest ih => exact .cons (proper _ _ _ _ first) ih

theorem handfulHas {s : Sides} {n : Nat} {values : List UInt32}
    (has : List.Forall₂ Sides.Has (List.replicate n s) values) : ∀ v ∈ values, s.Has v := by
  induction n generalizing values with
  | zero =>
    cases has
    simp
  | succ n ih =>
    cases has with
    | cons first rest => exact List.forall_mem_cons.mpr ⟨first, ih rest⟩

theorem takesShows {q : Quantity} {faces values : List UInt32} (takes : q.Takes faces values)
    (has : List.Forall₂ Sides.Has q.demand faces) : q.Shows values := by
  cases takes with
  | constant value => exact .constant value
  | dice count sides _ size => exact .dice count sides _ size (handfulHas has)

theorem accountsYield {ts : List Term} {faces : List UInt32} {ps : List Roll.Part}
    (accounts : Accounts ts faces ps)
    (has : List.Forall₂ Sides.Has (ts.flatMap Term.demand) faces) :
    List.Forall₂ Term.Yields ts ps := by
  induction accounts with
  | nil => exact .nil
  | @cons t p first ts rest ps sign takes later ih =>
    have size : first.length = t.demand.length := takesLength takes
    have here := List.forall₂_take_append _ first rest has
    have others := List.forall₂_drop_append _ first rest has
    rw [List.flatMap_cons, List.take_left' size.symm] at here
    rw [List.flatMap_cons, List.drop_left' size.symm] at others
    exact .cons ⟨sign, takesShows takes here⟩ (ih others)

theorem properYields {ρ : Type} [FaceSource ρ] (proper : Proper ρ) {e : Expression}
    {source last : ρ} {faces : List UInt32} (supplies : Supplies source e.demand faces last) :
    ∃ r last faces, e.Accounted source r last faces ∧ e.Yields r := by
  obtain ⟨r, accounted⟩ := suppliesAccounted supplies
  exact ⟨r, last, faces, accounted,
    accountsYield accounted.accounts (suppliesProper proper supplies)⟩

namespace WordSource

variable {σ : Type} [WordSource σ]

theorem searchHas {s : Sides} {zone limit : Nat} {source last : σ} {face : UInt32}
    (found : search? zone s limit source = some (face, last)) : s.Has face := by
  induction limit generalizing source with
  | zero => simp [search?] at found
  | succ limit ih =>
    simp only [search?] at found
    split at found
    · next shown =>
      obtain ⟨rfl, _⟩ := Prod.mk.inj (Option.some.inj found)
      exact Sides.faceRange shown
    · exact ih found

theorem wordsProper : Proper σ := fun _ _ _ _ dealt => searchHas (dealtExact.mp dealt)

/-- For one of the dice, when its turn comes, there is never again a word that counts. -/
inductive Starves : σ → List Sides → Prop where
  | here {source : σ} {s : Sides} {dice : List Sides}
      (endless : search? s.handfulZone s (span source) source = none) : Starves source (s :: dice)
  | later {source middle : σ} {s : Sides} {face : UInt32} {dice : List Sides}
      (found : search? s.handfulZone s (span source) source = some (face, middle))
      (rest : Starves middle dice) : Starves source (s :: dice)

theorem wordsSupply (dice : List Sides) (source : σ) :
    Starves source dice ∨ ∃ faces last, Supplies source dice faces last := by
  induction dice generalizing source with
  | nil => exact Or.inr ⟨[], source, .nil source⟩
  | cons s dice ih =>
    cases found : search? s.handfulZone s (span source) source with
    | none => exact Or.inl (.here found)
    | some dealt =>
      obtain ⟨face, middle⟩ := dealt
      rcases ih middle with starves | ⟨faces, last, rest⟩
      · exact Or.inl (.later found starves)
      · exact Or.inr ⟨face :: faces, last, .cons (dealtExact.mpr found) rest⟩

end WordSource

namespace ListedWords

theorem zeroShows (s : Sides) (zone : Nat) : s.face? zone 0 = some 1 := by
  simp [Sides.face?]

theorem searchEnds (s : Sides) (zone : Nat) (left : List UInt32) (drawn : Nat) :
    WordSource.search? zone s (left.length + 1) (mk left drawn) ≠ none := by
  induction left generalizing drawn with
  | nil => simp [WordSource.search?, WordSource.next, next, zeroShows]
  | cons word left ih =>
    have first : WordSource.next (mk (word :: left) drawn) = (word, mk left (drawn + 1)) := rfl
    rw [List.length_cons]
    simp only [WordSource.search?, first]
    cases s.face? zone word with
    | some face => exact Option.some_ne_none _
    | none => exact ih (drawn + 1)

theorem neverStarves {source : ListedWords} {dice : List Sides} :
    ¬ WordSource.Starves source dice := by
  intro starves
  induction starves with
  | here endless => exact searchEnds _ _ _ _ endless
  | later found rest ih => exact ih

end ListedWords

namespace Stepping

theorem faceHas (source : Stepping) (s : Sides) : s.Has (source.face s) := by
  have below := Nat.mod_lt (source.current.toNat - 1) s.toNatPositive
  have range := s.toNatRange
  have value : (source.face s).toNat = (source.current.toNat - 1) % s.toNat + 1 :=
    UInt32.toNat_ofNat_of_lt' (Nat.lt_of_le_of_lt below range)
  unfold Sides.Has
  omega

theorem dealtExact {s : Sides} {source last : Stepping} {face : UInt32} :
    FaceSource.deal? s source = .ok (some (face, last)) ↔
      face = source.face s ∧ source.advance = .ok last := by
  change ((source.advance).map _).map some = _ ↔ _
  cases source.advance <;> simp [Except.map, eq_comm]

theorem steppingProper : Proper Stepping := by
  intro s source last face dealt
  rw [(dealtExact.mp dealt).1]
  exact source.faceHas s

theorem steppingSupplies (dice : List Sides) {source : Stepping}
    (room : source.current.toNat + source.step.toNat * dice.length < UInt64.size) :
    ∃ faces last, Supplies source dice faces last := by
  induction dice generalizing source with
  | nil => exact ⟨[], source, .nil source⟩
  | cons s dice ih =>
    rw [List.length_cons, Nat.mul_succ] at room
    have inside : source.current.toNat + source.step.toNat < UInt64.size := by omega
    have value : (source.current + source.step).toNat =
        source.current.toNat + source.step.toNat := by
      rw [UInt64.toNat_add]
      exact Nat.mod_eq_of_lt inside
    have advanced : source.advance =
        .ok ⟨source.current + source.step, source.step, source.drawn + 1⟩ := if_pos inside
    obtain ⟨faces, last, rest⟩ := @ih ⟨source.current + source.step, source.step, source.drawn + 1⟩
      (by simp only [value]; omega)
    exact ⟨_, last, .cons (dealtExact.mpr ⟨rfl, advanced⟩) rest⟩

end Stepping

theorem rollAccounted (e : Expression) :
    (∀ {σ : Type} [WordSource σ] (source : σ), WordSource.Starves source e.demand ∨
      ∃ r last faces, e.Accounted source r last faces ∧ e.Yields r) ∧
    (∀ source : ListedWords,
      ∃ r last faces, e.Accounted source r last faces ∧ e.Yields r) ∧
    (∀ source : Stepping,
      source.current.toNat + source.step.toNat * e.demand.length < UInt64.size →
        ∃ r last faces, e.Accounted source r last faces ∧ e.Yields r) ∧
    ∀ source : ListedFaces, e.demand.length ≤ source.left.length →
      ∃ r last faces, e.Accounted source r last faces := by
  have words {σ : Type} [WordSource σ] (source : σ) : WordSource.Starves source e.demand ∨
      ∃ r last faces, e.Accounted source r last faces ∧ e.Yields r := by
    rcases WordSource.wordsSupply e.demand source with starves | ⟨faces, last, supplies⟩
    · exact Or.inl starves
    · exact Or.inr (properYields WordSource.wordsProper supplies)
  refine ⟨words, ?_, ?_, ?_⟩
  · intro source
    exact (words source).resolve_left ListedWords.neverStarves
  · intro source room
    obtain ⟨faces, last, supplies⟩ := Stepping.steppingSupplies e.demand room
    exact properYields Stepping.steppingProper supplies
  · intro source enough
    have size : (source.left.take e.demand.length).length = e.demand.length :=
      List.length_take_of_le enough
    have supplies := listedSupplies size (source.left.drop e.demand.length) source.drawn
    rw [List.take_append_drop] at supplies
    obtain ⟨r, accounted⟩ := suppliesAccounted supplies
    exact ⟨r, _, _, accounted⟩

/- 2d6 + 0d4 - 3 - 1d4 -/
def mixedDice : Expression :=
  ⟨⟨.plus, .dice 2 ⟨6, by decide⟩⟩,
    [⟨.plus, .dice 0 ⟨4, by decide⟩⟩, ⟨.minus, .constant 3⟩, ⟨.minus, .dice 1 ⟨4, by decide⟩⟩]⟩

theorem rollAccountedMixed :
    (Stepping.ofStart 5 1).current.toNat +
      (Stepping.ofStart 5 1).step.toNat * mixedDice.demand.length < UInt64.size ∧
    mixedDice.demand.length ≤ (ListedFaces.ofList [9, 0, 7, 1]).left.length ∧
    mixedDice.Accounted (Stepping.ofStart 5 1)
      ⟨⟨.plus, [5, 6]⟩, [⟨.plus, []⟩, ⟨.minus, [3]⟩, ⟨.minus, [3]⟩]⟩ ⟨8, 1, 3⟩ [5, 6, 3] ∧
    mixedDice.Accounted (ListedFaces.ofList [9, 0, 7, 1])
      ⟨⟨.plus, [9, 0]⟩, [⟨.plus, []⟩, ⟨.minus, [3]⟩, ⟨.minus, [7]⟩]⟩ ⟨[1], 3⟩ [9, 0, 7] := by
  obtain ⟨_, _, stepping, listed⟩ := rollAccounted mixedDice
  have room : (Stepping.ofStart 5 1).current.toNat +
      (Stepping.ofStart 5 1).step.toNat * mixedDice.demand.length < UInt64.size := by decide
  have enough : mixedDice.demand.length ≤ (ListedFaces.ofList [9, 0, 7, 1]).left.length := by decide
  obtain ⟨r, last, faces, steps, _⟩ := stepping (Stepping.ofStart 5 1) room
  obtain ⟨q, left, dealt, list⟩ := listed (ListedFaces.ofList [9, 0, 7, 1]) enough
  have first : mixedDice.roll (Recorded.mk (Stepping.ofStart 5 1) []) =
      .ok (⟨⟨.plus, [5, 6]⟩, [⟨.plus, []⟩, ⟨.minus, [3]⟩, ⟨.minus, [3]⟩]⟩,
        ⟨⟨8, 1, 3⟩, [5, 6, 3]⟩) := rfl
  have second : mixedDice.roll (Recorded.mk (ListedFaces.ofList [9, 0, 7, 1]) []) =
      .ok (⟨⟨.plus, [9, 0]⟩, [⟨.plus, []⟩, ⟨.minus, [3]⟩, ⟨.minus, [7]⟩]⟩,
        ⟨⟨[1], 3⟩, [9, 0, 7]⟩) := rfl
  cases steps.recorded.symm.trans first
  cases list.recorded.symm.trans second
  exact ⟨room, enough, steps, list⟩

end Dice
