import Dice.Proofs.Sampling
import Dice.Proofs.Supply
import Dice.Proofs.Uniformity

/-! Dice on their own against dice of a handful. A word that counts for the first counts for the
second and shows the same face, so a die on its own passes over words that a handful takes, and
its faces are among those of a handful that draws the same words. -/
namespace Dice

namespace Sides

theorem zonesOrdered (s : Sides) : s.singleZone ≤ s.handfulZone := by
  obtain ⟨few, _, high⟩ := s.leadingZerosExact
  have room := Nat.mul_le_mul_right (2 ^ s.leadingZeros) high.le
  rw [Nat.pow_sub_mul_pow 2 (Nat.le_succ_of_le few), Nat.mul_comm] at room
  have share : 2 ^ s.leadingZeros ≤ 4294967296 / s.toNat :=
    (Nat.le_div_iff_mul_le s.toNatPositive).mpr room
  have lengths := Nat.mul_le_mul_left s.toNat share
  rw [← s.singleZoneLength, ← s.handfulZoneLength] at lengths
  exact Nat.le_of_succ_le_succ lengths

theorem faceWider {s : Sides} {zone wider : Nat} {word face : UInt32} (le : zone ≤ wider)
    (shown : s.face? zone word = some face) : s.face? wider word = some face := by
  obtain ⟨inside, value⟩ := faceExact.mp shown
  exact faceExact.mpr ⟨Nat.le_trans inside le, value⟩

end Sides

structure Logged (σ : Type) where
  source : σ
  words : List UInt32
  deriving DecidableEq, Repr

namespace WordSource

variable {σ : Type} [WordSource σ]

instance : WordSource (Logged σ) where
  next l := ((next l.source).1, ⟨(next l.source).2, l.words ++ [(next l.source).1]⟩)
  span l := span l.source

theorem searchLogged (zone : Nat) (s : Sides) (limit : Nat) (l : Logged σ) :
    (search? zone s limit l).map (fun found => (found.1, found.2.source)) =
      search? zone s limit l.source := by
  induction limit generalizing l with
  | zero => rfl
  | succ limit ih =>
    have first : (next l).1 = (next l.source).1 := rfl
    cases shown : s.face? zone (next l.source).1 with
    | some face =>
      rw [searchTaken shown, searchTaken (first ▸ shown)]
      rfl
    | none =>
      rw [searchPassed shown, searchPassed (first ▸ shown)]
      exact ih _

theorem foundLogged {zone limit : Nat} {s : Sides} {l : Logged σ} {last : σ} {face : UInt32}
    (found : search? zone s limit l.source = some (face, last)) :
    ∃ words, search? zone s limit l = some (face, ⟨last, words⟩) := by
  rw [← searchLogged, Option.map_eq_some_iff] at found
  obtain ⟨⟨_, k⟩, done, same⟩ := found
  cases same
  exact ⟨k.words, done⟩

theorem foundErased {zone limit : Nat} {s : Sides} {l k : Logged σ} {face : UInt32}
    (found : search? zone s limit l = some (face, k)) :
    search? zone s limit l.source = some (face, k.source) := by
  rw [← searchLogged, found]
  rfl

theorem handfulOne {s : Sides} {source last : σ} {face : UInt32}
    (found : search? s.handfulZone s (span source) source = some (face, last)) :
    Handful.roll ⟨1, s⟩ source = .ok ([face], last) :=
  (handfulSupplied (.cons (dealtExact.mpr found) (.nil last))).1

theorem handedLogged {l k : Logged σ} {words : List UInt32} (handed : HandsOut l words k) :
    k.words = l.words ++ words := by
  induction handed with
  | nil l => exact (List.append_nil l.words).symm
  | @cons l k words rest ih =>
    rw [ih]
    exact List.append_assoc l.words [(next l).1] words

theorem searchLog {zone limit : Nat} {s : Sides} {l k : Logged σ} {face : UInt32}
    (found : search? zone s limit l = some (face, k)) :
    ∃ refused word, k.words = l.words ++ (refused ++ [word]) ∧
      (∀ w ∈ refused, s.face? zone w = none) ∧ s.face? zone word = some face := by
  obtain ⟨refused, word, handed, each, last⟩ := searchDraws found
  exact ⟨refused, word, handedLogged handed, each, last⟩

theorem searchSooner {zone wider limit : Nat} {s : Sides} {l k : Logged σ} {face : UInt32}
    (le : zone ≤ wider) (found : search? zone s limit l = some (face, k)) :
    ∃ sooner m, search? wider s limit l = some (sooner, m) ∧ m.words <+: k.words ∧
      (m.words.length = k.words.length → sooner = face) := by
  induction limit generalizing l with
  | zero => simp [search?] at found
  | succ limit ih =>
    cases shown : s.face? zone (next l).1 with
    | some other =>
      rw [searchTaken shown] at found
      cases found
      exact ⟨face, _, searchTaken (Sides.faceWider le shown) limit, List.prefix_rfl, fun _ => rfl⟩
    | none =>
      rw [searchPassed shown] at found
      cases early : s.face? wider (next l).1 with
      | some sooner =>
        obtain ⟨refused, word, log, _⟩ := searchLog found
        refine ⟨sooner, _, searchTaken early limit, ⟨refused ++ [word], log.symm⟩, ?_⟩
        intro same
        rw [log] at same
        simp at same
      | none =>
        obtain ⟨sooner, m, again, rest⟩ := ih found
        exact ⟨sooner, m, (searchPassed early limit).trans again, rest⟩

variable [Exhaustive σ]

theorem suppliesPassed {s : Sides} {source last : σ} {face : UInt32} {dice : List Sides}
    {faces : List UInt32} (refused : s.face? s.handfulZone (next source).1 = none)
    (supplies : Supplies (next source).2 (s :: dice) (face :: faces) last) :
    Supplies source (s :: dice) (face :: faces) last := by
  cases supplies with
  | cons dealt rest =>
    refine .cons ?_ rest
    change (WordSource.face s.handfulZone s source).map some = _
    rw [facePassed refused]
    exact dealt

theorem singleWithin {s : Sides} {limit : Nat} {source last : σ} {face : UInt32}
    (found : search? s.singleZone s limit source = some (face, last)) :
    ∃ passed, Supplies source (List.replicate (passed.length + 1) s) (passed ++ [face]) last := by
  have taken {source : σ} {face : UInt32}
      (shown : s.face? s.handfulZone (next source).1 = some face) :
      FaceSource.deal? s source = .ok (some (face, (next source).2)) := by
    change (WordSource.face s.handfulZone s source).map some = _
    rw [faceTaken shown]
    rfl
  induction limit generalizing source with
  | zero => simp [search?] at found
  | succ limit ih =>
    cases shown : s.face? s.singleZone (next source).1 with
    | some other =>
      rw [searchTaken shown] at found
      cases found
      exact ⟨[], .cons (taken (Sides.faceWider s.zonesOrdered shown)) (.nil _)⟩
    | none =>
      rw [searchPassed shown] at found
      obtain ⟨passed, supplies⟩ := ih found
      cases early : s.face? s.handfulZone (next source).1 with
      | some sooner => exact ⟨sooner :: passed, .cons (taken early) supplies⟩
      | none =>
        refine ⟨passed, ?_⟩
        cases passed with
        | nil => exact suppliesPassed early supplies
        | cons first passed => exact suppliesPassed early supplies

theorem singlesWithin {s : Sides} {n : Nat} {source last : σ} {singles : List UInt32}
    (rolled : (List.replicate n s).mapM Sides.roll source = .ok (singles, last)) :
    ∃ m faces, Supplies source (List.replicate m s) faces last ∧ singles.Sublist faces := by
  induction n generalizing source singles with
  | zero =>
    obtain ⟨rfl, rfl⟩ := statePureOk.mp rolled
    exact ⟨0, [], .nil source, .slnil⟩
  | succ n ih =>
    simp only [List.replicate_succ, List.mapM_cons, stateBindOk, statePureOk] at rolled
    obtain ⟨face, middle, first, others, _, later, rfl, rfl⟩ := rolled
    obtain ⟨passed, supplies⟩ := singleWithin (rolledFound.mp first)
    obtain ⟨m, faces, rest, among⟩ := ih later
    refine ⟨passed.length + 1 + m, passed ++ [face] ++ faces, ?_, ?_⟩
    · rw [← List.replicate_append_replicate]
      exact suppliesAppend supplies rest
    · rw [List.append_assoc]
      exact (among.cons_cons face).trans (List.sublist_append_right passed (face :: faces))

end WordSource

open WordSource

theorem singlesRefineHandful (s : Sides) :
    (∀ word face, s.SingleShows word face → s.HandfulShows word face) ∧
    (∀ {σ : Type} [WordSource σ] [Exhaustive σ] (source last : σ) (n : Nat)
      (singles : List UInt32),
      (List.replicate n s).mapM Sides.roll source = .ok (singles, last) →
        ∃ m faces, Handful.roll ⟨m, s⟩ source = .ok (faces, last) ∧ singles.Sublist faces) ∧
    ∀ {σ : Type} [WordSource σ] (source last : σ) (single : UInt32),
      s.roll source = .ok (single, last) →
        ∃ face middle drawn first, Handful.roll ⟨1, s⟩ source = .ok ([face], middle) ∧
          s.roll (Logged.mk source []) = .ok (single, ⟨last, drawn⟩) ∧
          Handful.roll ⟨1, s⟩ (Logged.mk source []) = .ok ([face], ⟨middle, first⟩) ∧
          first <+: drawn ∧ (first.length = drawn.length → face = single) := by
  refine ⟨?_, ?_, ?_⟩
  · intro word face shown
    exact Sides.handfulShows.mpr (Sides.faceWider s.zonesOrdered (Sides.singleShows.mp shown))
  · intro σ _ _ source last n singles rolled
    obtain ⟨m, faces, supplies, among⟩ := singlesWithin rolled
    exact ⟨m, faces, (handfulSupplied supplies).1, among⟩
  · intro σ _ source last single rolled
    obtain ⟨drawn, found⟩ := foundLogged (l := ⟨source, []⟩) (rolledFound.mp rolled)
    obtain ⟨face, m, sooner, within, same⟩ := searchSooner s.zonesOrdered found
    exact ⟨face, m.source, drawn, m.words, handfulOne (foundErased sooner),
      rolledFound.mpr found, handfulOne sooner, within, same⟩

/-- For three sides the first word counts for a handful alone and the third one for neither. -/
theorem singlesRefineHandfulThreeSides :
    (List.replicate 2 ⟨3, by decide⟩).mapM Sides.roll
        (ListedWords.ofList [1431655764, 2863311531, 1431655765, 7]) = .ok ([3, 1], ⟨[], 4⟩) ∧
    ∃ m faces, Handful.roll ⟨m, ⟨3, by decide⟩⟩
        (ListedWords.ofList [1431655764, 2863311531, 1431655765, 7]) = .ok (faces, ⟨[], 4⟩) ∧
      [3, 1].Sublist faces := by
  have rolled : (List.replicate 2 ⟨3, by decide⟩).mapM Sides.roll
      (ListedWords.ofList [1431655764, 2863311531, 1431655765, 7]) = .ok ([3, 1], ⟨[], 4⟩) := rfl
  exact ⟨rolled, (singlesRefineHandful ⟨3, by decide⟩).2.1 _ _ _ _ rolled⟩

end Dice
