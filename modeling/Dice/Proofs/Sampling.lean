import Dice.Proofs.Checked
import Dice.Word.Keystream
import Dice.Word.Listed
import Mathlib.Data.FinEnum
import Mathlib.Data.Fintype.Order
import Mathlib.Data.List.GetD

/-! Drawing words until one counts. The search for it ends after the span of the source; where the
span covers all words that ever come, the search is the endless one: a word that counts is taken,
and any other one is passed over. Lists and keystreams are such sources, and so is every stream. -/
namespace Dice

namespace WordSource

variable {σ : Type} [WordSource σ]

def word : Nat → σ → UInt32
  | 0, source => (next source).1
  | n + 1, source => word n (next source).2

def after : Nat → σ → σ
  | 0, source => source
  | n + 1, source => after n (next source).2

theorem wordAfter (m n : Nat) (source : σ) : word (m + n) source = word n (after m source) := by
  induction m generalizing source with
  | zero => rw [Nat.zero_add]; rfl
  | succ m ih => rw [Nat.succ_add]; exact ih _

theorem afterAfter (m n : Nat) (source : σ) : after (m + n) source = after n (after m source) := by
  induction m generalizing source with
  | zero => rw [Nat.zero_add]; rfl
  | succ m ih => rw [Nat.succ_add]; exact ih _

inductive HandsOut : σ → List UInt32 → σ → Prop where
  | nil (source : σ) : HandsOut source [] source
  | cons {source last : σ} {words : List UInt32} (rest : HandsOut (next source).2 words last) :
      HandsOut source ((next source).1 :: words) last

theorem handsOutAppend {source middle last : σ} {first rest : List UInt32}
    (left : HandsOut source first middle) (right : HandsOut middle rest last) :
    HandsOut source (first ++ rest) last := by
  induction left with
  | nil source => exact right
  | cons later ih => exact .cons (ih right)

theorem handsOutSplit {source last : σ} {first rest : List UInt32}
    (handed : HandsOut source (first ++ rest) last) :
    ∃ middle, HandsOut source first middle ∧ HandsOut middle rest last := by
  induction first generalizing source with
  | nil => exact ⟨source, .nil source, handed⟩
  | cons word first ih =>
    cases handed with
    | cons later =>
      obtain ⟨middle, left, right⟩ := ih later
      exact ⟨middle, .cons left, right⟩

/-- The span is long enough: a word that ever comes is one of the words within it. -/
class Exhaustive (σ : Type) [WordSource σ] : Prop where
  covers : ∀ (source : σ) (n : Nat), ∃ k < span source, word k source = word n source

theorem searchTaken {zone : Nat} {s : Sides} {source : σ} {face : UInt32}
    (shown : s.face? zone (next source).1 = some face) (limit : Nat) :
    search? zone s (limit + 1) source = some (face, (next source).2) := by
  simp only [search?, shown]

theorem searchPassed {zone : Nat} {s : Sides} {source : σ}
    (refused : s.face? zone (next source).1 = none) (limit : Nat) :
    search? zone s (limit + 1) source = search? zone s limit (next source).2 := by
  simp only [search?, refused]

theorem searchDraws {zone limit : Nat} {s : Sides} {source last : σ} {face : UInt32}
    (found : search? zone s limit source = some (face, last)) :
    ∃ refused word, HandsOut source (refused ++ [word]) last ∧
      (∀ w ∈ refused, s.face? zone w = none) ∧ s.face? zone word = some face := by
  induction limit generalizing source with
  | zero => simp [search?] at found
  | succ limit ih =>
    cases shown : s.face? zone (next source).1 with
    | some other =>
      rw [searchTaken shown] at found
      cases found
      exact ⟨[], (next source).1, .cons (.nil _), by simp, shown⟩
    | none =>
      rw [searchPassed shown] at found
      obtain ⟨refused, word, handed, each, last⟩ := ih found
      exact ⟨(next source).1 :: refused, word, .cons handed,
        List.forall_mem_cons.mpr ⟨shown, each⟩, last⟩

theorem searchFinds {zone limit : Nat} {s : Sides} {source : σ} :
    (search? zone s limit source).isSome ↔
      ∃ n < limit, (s.face? zone (word n source)).isSome := by
  induction limit generalizing source with
  | zero => simp [search?]
  | succ limit ih =>
    cases shown : s.face? zone (next source).1 with
    | some face =>
      rw [searchTaken shown]
      exact iff_of_true rfl ⟨0, Nat.succ_pos _, by rw [word, shown]; rfl⟩
    | none =>
      rw [searchPassed shown, ih]
      constructor
      · intro h
        obtain ⟨n, within, found⟩ := h
        exact ⟨n + 1, Nat.succ_lt_succ within, found⟩
      · intro h
        obtain ⟨n, within, found⟩ := h
        cases n with
        | zero => simp [word, shown] at found
        | succ n => exact ⟨n, Nat.lt_of_succ_lt_succ within, found⟩

theorem searchLonger {zone limit more : Nat} {s : Sides} {source : σ} {found : UInt32 × σ}
    (done : search? zone s limit source = some found) (le : limit ≤ more) :
    search? zone s more source = some found := by
  induction limit generalizing source more with
  | zero => simp [search?] at done
  | succ limit ih =>
    obtain ⟨more, rfl⟩ := Nat.exists_eq_add_of_le' le
    cases shown : s.face? zone (next source).1 with
    | some face =>
      rw [searchTaken shown] at done
      rw [← done]
      exact searchTaken shown _
    | none =>
      rw [searchPassed shown] at done
      exact (searchPassed shown _).trans (ih done (Nat.le_add_left limit more))

theorem faceFound {zone : Nat} {s : Sides} {source : σ} {found : UInt32 × σ} :
    WordSource.face zone s source = .ok found ↔
      search? zone s (span source) source = some found := by
  unfold WordSource.face
  cases search? zone s (span source) source <;> simp

theorem rolledFound {s : Sides} {source last : σ} {face : UInt32} :
    s.roll source = .ok (face, last) ↔
      search? s.singleZone s (span source) source = some (face, last) := faceFound

theorem dealtExact {s : Sides} {source last : σ} {face : UInt32} :
    FaceSource.deal? s source = .ok (some (face, last)) ↔
      search? s.handfulZone s (span source) source = some (face, last) := by
  rw [← faceFound]
  change (WordSource.face s.handfulZone s source).map some = _ ↔ _
  cases WordSource.face s.handfulZone s source <;> simp [Except.map]

variable [Exhaustive σ]

theorem searchEnough {zone limit : Nat} {s : Sides} {source : σ} {found : UInt32 × σ}
    (done : search? zone s limit source = some found) :
    search? zone s (span source) source = some found := by
  obtain ⟨n, _, counts⟩ := searchFinds.mp (Option.isSome_of_eq_some done)
  obtain ⟨k, within, same⟩ := Exhaustive.covers source n
  rw [← same] at counts
  obtain ⟨other, again⟩ := Option.isSome_iff_exists.mp (searchFinds.mpr ⟨k, within, counts⟩)
  have longer := searchLonger done (Nat.le_max_left limit (span source))
  rw [searchLonger again (Nat.le_max_right limit (span source))] at longer
  rw [again, longer]

theorem faceTaken {zone : Nat} {s : Sides} {source : σ} {face : UInt32}
    (shown : s.face? zone (next source).1 = some face) :
    WordSource.face zone s source = .ok (face, (next source).2) :=
  faceFound.mpr (searchEnough (searchTaken shown 0))

theorem facePassed {zone : Nat} {s : Sides} {source : σ}
    (refused : s.face? zone (next source).1 = none) :
    WordSource.face zone s source = WordSource.face zone s (next source).2 := by
  have same : search? zone s (span source) source =
      search? zone s (span (next source).2) (next source).2 := by
    ext1 found
    constructor
    · intro done
      have longer := searchLonger done (Nat.le_succ _)
      rw [searchPassed refused] at longer
      exact searchEnough longer
    · intro done
      rw [← searchPassed refused] at done
      exact searchEnough done
  rw [WordSource.face, WordSource.face, same]

end WordSource

open WordSource

theorem ListedWords.wordAt (n : Nat) (left : List UInt32) (drawn : Nat) :
    word n (ListedWords.mk left drawn) = left.getD n 0 := by
  induction n generalizing left drawn with
  | zero => cases left <;> rfl
  | succ n ih =>
    cases left with
    | nil => exact ih [] (drawn + 1)
    | cons w left => exact ih left (drawn + 1)

instance : Exhaustive ListedWords where
  covers source n := by
    obtain ⟨left, drawn⟩ := source
    refine ⟨min n left.length, Nat.lt_succ_of_le (Nat.min_le_right _ _), ?_⟩
    rw [ListedWords.wordAt, ListedWords.wordAt]
    rcases Nat.le_total n left.length with inside | behind
    · rw [Nat.min_eq_left inside]
    · rw [Nat.min_eq_right behind, List.getD_eq_default _ _ behind,
        List.getD_eq_default _ _ (Nat.le_refl _)]

namespace Keystream

theorem afterUnread (key : Key) (index : UInt64) (unread : List UInt32) :
    after unread.length (Keystream.mk key index unread) = ⟨key, index, []⟩ := by
  induction unread with
  | nil => rfl
  | cons w unread ih => exact ih

theorem afterBlock (key : Key) (index : UInt64) :
    after 16 (Keystream.mk key index []) = ⟨key, index + 1, []⟩ :=
  afterUnread key (index + 1) (key.block index).toList.tail

theorem afterBlocks (key : Key) (index : UInt64) (n : Nat) :
    after (16 * n) (Keystream.mk key index []) = ⟨key, index + UInt64.ofNat n, []⟩ := by
  induction n with
  | zero => exact congrArg (Keystream.mk key · []) (UInt64.add_zero index).symm
  | succ n ih =>
    rw [Nat.mul_succ, afterAfter, ih, afterBlock, UInt64.ofNat_add, UInt64.add_assoc]
    rfl

theorem afterAll (key : Key) (index : UInt64) :
    after (16 * UInt64.size) (Keystream.mk key index []) = ⟨key, index, []⟩ := by
  have around : UInt64.ofNat UInt64.size = 0 := rfl
  rw [afterBlocks, around, UInt64.add_zero]

theorem wordAgain (source : Keystream) (n : Nat) :
    word (source.unread.length + (16 * UInt64.size + n)) source =
      word (source.unread.length + n) source := by
  obtain ⟨key, index, unread⟩ := source
  rw [wordAfter, wordAfter, wordAfter, afterUnread, afterAll]

end Keystream

instance : Exhaustive Keystream where
  covers source n := by
    induction n using Nat.strongRecOn with
    | ind n ih =>
      by_cases within : n < span source
      · exact ⟨n, within, rfl⟩
      have whole : span source = source.unread.length + 16 * UInt64.size := rfl
      have positive : 0 < UInt64.size := by decide
      obtain ⟨m, rfl⟩ := Nat.exists_eq_add_of_le (Nat.not_lt.mp within)
      obtain ⟨k, inside, same⟩ := ih (source.unread.length + m) (by omega)
      refine ⟨k, inside, ?_⟩
      rw [same, whole, Nat.add_assoc, Keystream.wordAgain]

structure Endless where
  word : Nat → UInt32
  place : Nat

namespace Endless

theorem allCome (stream : Nat → UInt32) : ∃ horizon, ∀ n, ∃ k < horizon, stream k = stream n := by
  -- There are finitely many words, so the places where each came first have a bound.
  obtain ⟨latest, bound⟩ := Finite.bddAbove_range (Function.invFun stream)
  refine ⟨latest + 1, fun n => ⟨Function.invFun stream (stream n), ?_, ?_⟩⟩
  · exact Nat.lt_succ_of_le (bound (Set.mem_range_self _))
  · exact Function.invFun_eq ⟨n, rfl⟩

noncomputable instance : WordSource Endless where
  next e := (e.word e.place, ⟨e.word, e.place + 1⟩)
  span e := (allCome fun n => e.word (e.place + n)).choose

theorem wordAt (e : Endless) (n : Nat) : WordSource.word n e = e.word (e.place + n) := by
  induction n generalizing e with
  | zero => rfl
  | succ n ih =>
    have later := ih ⟨e.word, e.place + 1⟩
    rw [Nat.add_right_comm, Nat.add_assoc] at later
    exact later

end Endless

instance : Exhaustive Endless where
  covers e n := by
    obtain ⟨k, within, same⟩ := (Endless.allCome fun n => e.word (e.place + n)).choose_spec n
    refine ⟨k, within, ?_⟩
    rw [e.wordAt, e.wordAt]
    exact same

end Dice
