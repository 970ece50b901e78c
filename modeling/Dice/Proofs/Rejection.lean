import Dice.Proofs.Accounting
import Dice.Proofs.Handful

/-! Words that are passed over. The words drawn for some dice, rolled on their own or in handfuls,
fall into one trial for each die: words that do not count for it, and then one that does. A zero
counts for every die, so only words of a list are passed over where zeros follow it, and rolling
ends after no more words than there are dice and words on the list. -/
namespace Dice

inductive Die where
  | alone (sides : Sides)
  | dealt (sides : Sides)
  deriving DecidableEq, Repr

namespace Die

def sides : Die → Sides
  | alone sides => sides
  | dealt sides => sides

def zone : Die → Nat
  | alone sides => sides.singleZone
  | dealt sides => sides.handfulZone

def Shows : Die → UInt32 → UInt32 → Prop
  | alone sides => sides.SingleShows
  | dealt sides => sides.HandfulShows

theorem showsExact {d : Die} {word face : UInt32} :
    d.Shows word face ↔ d.sides.face? d.zone word = some face := by
  cases d with
  | alone s => exact Sides.singleShows
  | dealt s => exact Sides.handfulShows

theorem zeroShows {d : Die} {face : UInt32} : d.Shows 0 face ↔ face = 1 := by
  rw [showsExact, ListedWords.zeroShows, Option.some.injEq, eq_comm]

end Die

inductive Request where
  | single (sides : Sides)
  | several (limit : Nat) (handful : Handful)
  deriving DecidableEq, Repr

namespace Request

def dice : Request → List Die
  | single s => [.alone s]
  | several limit h => List.replicate (min limit h.left) (.dealt h.sides)

variable {ρ : Type} [FaceSource ρ]

def roll : Request → Rolling ρ (List UInt32)
  | single s => do return [← s.roll]
  | several limit h => h.take limit

def rollAll (requests : List Request) : Rolling ρ (List UInt32) := do
  return (← requests.mapM roll).flatten

end Request

structure Trial where
  refused : List UInt32
  word : UInt32
  face : UInt32
  deriving DecidableEq, Repr

def Trial.words (t : Trial) : List UInt32 := t.refused ++ [t.word]

structure Die.Tries (d : Die) (t : Trial) : Prop where
  refuses : ∀ word ∈ t.refused, ∀ face, ¬ d.Shows word face
  shows : d.Shows t.word t.face

theorem zeroTaken {d : Die} {t : Trial} (tries : d.Tries t) : 0 ∉ t.refused :=
  fun among => tries.refuses 0 among 1 (Die.zeroShows.mpr rfl)

theorem triedEach {dice : List Die} {trials : List Trial}
    (tries : List.Forall₂ Die.Tries dice trials) : ∀ t ∈ trials, ∃ d : Die, d.Tries t := by
  induction tries with
  | nil => simp
  | cons first rest ih => exact List.forall_mem_cons.mpr ⟨⟨_, first⟩, ih⟩

theorem refusedWithin (trials : List Trial) :
    (trials.flatMap Trial.refused).Sublist (trials.flatMap Trial.words) := by
  induction trials with
  | nil => exact .slnil
  | cons t trials ih =>
    simp only [List.flatMap_cons]
    exact (List.sublist_append_left t.refused [t.word]).append ih

theorem wordsCount (trials : List Trial) : (trials.flatMap Trial.words).length =
    trials.length + (trials.flatMap Trial.refused).length := by
  induction trials with
  | nil => rfl
  | cons t trials ih =>
    simp only [List.flatMap_cons, List.length_append, List.length_cons, ih, Trial.words,
      List.length_nil]
    omega

namespace WordSource

variable {σ : Type} [WordSource σ]

theorem searchTried {d : Die} {limit : Nat} {source last : σ} {face : UInt32}
    (found : search? d.zone d.sides limit source = some (face, last)) :
    ∃ t : Trial, d.Tries t ∧ t.face = face ∧ HandsOut source t.words last := by
  obtain ⟨refused, word, handed, each, shown⟩ := searchDraws found
  refine ⟨⟨refused, word, face⟩, ⟨?_, Die.showsExact.mpr shown⟩, rfl, handed⟩
  intro w among other shows
  rw [Die.showsExact, each w among] at shows
  cases shows

def rollDie (d : Die) : Rolling σ UInt32 := fun source => face d.zone d.sides source

theorem diceTried {dice : List Die} {source last : σ} {faces : List UInt32}
    (rolled : dice.mapM rollDie source = .ok (faces, last)) :
    ∃ trials, List.Forall₂ Die.Tries dice trials ∧ faces = trials.map Trial.face ∧
      HandsOut source (trials.flatMap Trial.words) last := by
  induction dice generalizing source faces with
  | nil =>
    obtain ⟨rfl, rfl⟩ := statePureOk.mp rolled
    exact ⟨[], .nil, rfl, .nil source⟩
  | cons d dice ih =>
    simp only [List.mapM_cons, stateBindOk, statePureOk] at rolled
    obtain ⟨face, middle, first, others, _, later, rfl, rfl⟩ := rolled
    obtain ⟨t, tried, rfl, here⟩ := searchTried (faceFound.mp first)
    obtain ⟨trials, tries, rfl, rest⟩ := ih later
    exact ⟨t :: trials, .cons tried tries, rfl, handsOutAppend here rest⟩

theorem handfulDice (n : Nat) (s : Sides) :
    Handful.roll ⟨n, s⟩ = ((List.replicate n (Die.dealt s)).mapM rollDie : Rolling σ _) := by
  induction n with
  | zero => rfl
  | succ n ih =>
    funext source
    change Handful.take (n + 1) ⟨n + 1, s⟩ source = _
    rw [Handful.takeStep, List.replicate_succ, List.mapM_cons, ← ih]
    change _ = face s.handfulZone s source >>= fun p => _
    have dealt : FaceSource.deal? s source = (face s.handfulZone s source).map some := rfl
    rw [dealt]
    cases face s.handfulZone s source with
    | error fault => rfl
    | ok found => rfl

theorem requestDice (r : Request) : r.roll = (r.dice.mapM rollDie : Rolling σ _) := by
  cases r with
  | single s => rfl
  | several limit h => rw [Request.roll, Handful.takeLeast, handfulDice]; rfl

theorem requestsDice (requests : List Request) : Request.rollAll requests =
    ((requests.flatMap Request.dice).mapM rollDie : Rolling σ _) := by
  induction requests with
  | nil => rfl
  | cons r requests ih =>
    rw [List.flatMap_cons, List.mapM_append, ← ih, ← requestDice]
    simp [Request.rollAll]

theorem demandSupplied {dice : List Sides} {source last : σ} {faces : List UInt32}
    (rolled : (dice.map Die.dealt).mapM rollDie source = .ok (faces, last)) :
    Supplies source dice faces last := by
  induction dice generalizing source faces with
  | nil =>
    obtain ⟨rfl, rfl⟩ := statePureOk.mp rolled
    exact .nil source
  | cons s dice ih =>
    simp only [List.map_cons, List.mapM_cons, stateBindOk, statePureOk] at rolled
    obtain ⟨face, middle, first, others, _, later, rfl, rfl⟩ := rolled
    exact .cons (dealtExact.mpr (faceFound.mp first)) (ih later)

end WordSource

open WordSource

namespace ListedWords

theorem handsOutListed {source last : ListedWords} {words : List UInt32}
    (handed : HandsOut source words last) :
    last = ⟨source.left.drop words.length, source.drawn + words.length⟩ ∧
      words = source.left.take words.length ++
        List.replicate (words.length - source.left.length) 0 := by
  induction handed with
  | nil source => simp
  | @cons source last words rest ih =>
    obtain ⟨left, drawn⟩ := source
    obtain ⟨place, same⟩ := ih
    cases left with
    | nil =>
      constructor
      · simpa [WordSource.next, next, Nat.add_assoc, Nat.add_comm 1] using place
      · simpa [WordSource.next, next, List.replicate_succ] using same
    | cons word left =>
      constructor
      · simpa [WordSource.next, next, Nat.add_assoc, Nat.add_comm 1] using place
      · simpa [WordSource.next, next] using same

theorem spentTrial {source last : ListedWords} {d : Die} {t : Trial} (tries : d.Tries t)
    (empty : source.left = []) (handed : HandsOut source t.words last) : t = ⟨[], 0, 1⟩ := by
  have zeros : ∀ word ∈ t.words, word = 0 := by
    have same := (handsOutListed handed).2
    rw [empty, List.take_nil, List.nil_append] at same
    rw [same]
    exact fun word among => List.eq_of_mem_replicate among
  obtain ⟨refused, word, face⟩ := t
  obtain ⟨earlier, final⟩ := List.forall_mem_append.mp zeros
  obtain rfl : word = 0 := final word List.mem_cons_self
  obtain rfl : face = 1 := Die.zeroShows.mp tries.shows
  cases refused with
  | nil => rfl
  | cons first refused =>
    obtain rfl : first = 0 := earlier first List.mem_cons_self
    exact absurd List.mem_cons_self (zeroTaken tries)

theorem refusedListed {source last : ListedWords} {dice : List Die} {trials : List Trial}
    (tries : List.Forall₂ Die.Tries dice trials)
    (handed : HandsOut source (trials.flatMap Trial.words) last) :
    (trials.flatMap Trial.refused).Sublist source.left := by
  have within := refusedWithin trials
  rw [(handsOutListed handed).2, List.sublist_append_iff] at within
  obtain ⟨listed, zeros, parts, inside, behind⟩ := within
  -- What stands behind the list is zeros, and none of them is refused.
  have nothing : zeros = [] := by
    refine List.eq_nil_iff_forall_not_mem.mpr fun word among => ?_
    obtain rfl : word = 0 := List.eq_of_mem_replicate (behind.subset among)
    have refused : 0 ∈ trials.flatMap Trial.refused := parts ▸ List.mem_append_right listed among
    obtain ⟨t, member, here⟩ := List.mem_flatMap.mp refused
    obtain ⟨d, tried⟩ := triedEach tries t member
    exact zeroTaken tried here
  rw [parts, nothing, List.append_nil]
  exact inside.trans (List.take_sublist _ _)

theorem diceRolled (dice : List Die) (source : ListedWords) :
    ∃ faces last, dice.mapM rollDie source = .ok (faces, last) := by
  induction dice generalizing source with
  | nil => exact ⟨[], source, rfl⟩
  | cons d dice ih =>
    obtain ⟨found, first⟩ := Option.ne_none_iff_exists'.mp
      (searchEnds d.sides d.zone source.left source.drawn)
    obtain ⟨faces, last, rest⟩ := ih found.2
    refine ⟨found.1 :: faces, last, ?_⟩
    simp only [List.mapM_cons, stateBindOk, statePureOk]
    exact ⟨found.1, found.2, faceFound.mpr first, faces, last, rest, rfl, rfl⟩

/-- Some dice have been rolled from a list, with zeros behind it, each in a trial of its own. -/
structure Spends (source : ListedWords) (dice : List Die) (trials : List Trial)
    (last : ListedWords) : Prop where
  tries : List.Forall₂ Die.Tries dice trials
  words : HandsOut source (trials.flatMap Trial.words) last
  least : source.drawn + dice.length ≤ last.drawn
  most : last.drawn ≤ source.drawn + dice.length + source.left.length
  listed : (trials.flatMap Trial.refused).Sublist source.left
  spent : ∀ before t later, trials = before ++ t :: later →
    source.left.length ≤ (before.flatMap Trial.words).length → t = ⟨[], 0, 1⟩

theorem diceSpend (dice : List Die) (source : ListedWords) :
    ∃ trials last, dice.mapM rollDie source = .ok (trials.map Trial.face, last) ∧
      source.Spends dice trials last := by
  obtain ⟨_, last, rolled⟩ := diceRolled dice source
  obtain ⟨trials, tries, rfl, handed⟩ := diceTried rolled
  have listed := refusedListed tries handed
  have count : last.drawn = source.drawn + (trials.flatMap Trial.words).length :=
    congrArg ListedWords.drawn (handsOutListed handed).1
  rw [wordsCount, ← tries.length_eq] at count
  have refused := listed.length_le
  refine ⟨trials, last, rolled, tries, handed, by omega, by omega, listed, ?_⟩
  -- The source that this trial begins with has nothing left of the list.
  intro before t later parts used
  subst parts
  rw [List.flatMap_append, List.flatMap_cons] at handed
  obtain ⟨middle, first, others⟩ := handsOutSplit handed
  obtain ⟨_, here, _⟩ := handsOutSplit others
  obtain ⟨d, tried⟩ := triedEach tries t (List.mem_append_right before List.mem_cons_self)
  refine spentTrial tried ?_ here
  rw [(handsOutListed first).1]
  exact List.drop_eq_nil_of_le used

end ListedWords

theorem rejectionEnds (source : ListedWords) :
    (∀ requests : List Request, ∃ faces trials last,
      Request.rollAll requests source = .ok (faces, last) ∧
      faces.length = (requests.flatMap Request.dice).length ∧ faces = trials.map Trial.face ∧
      source.Spends (requests.flatMap Request.dice) trials last) ∧
    ∀ e : Expression, ∃ r trials last, e.roll source = .ok (r, last) ∧
      Accounts e.terms (trials.map Trial.face) r.parts ∧
      source.Spends (e.demand.map Die.dealt) trials last := by
  constructor
  · intro requests
    obtain ⟨trials, last, rolled, spends⟩ :=
      source.diceSpend (requests.flatMap Request.dice)
    have whole := (congrFun (requestsDice requests) source).trans rolled
    refine ⟨_, trials, last, whole, ?_, rfl, spends⟩
    rw [List.length_map, spends.tries.length_eq]
  · intro e
    obtain ⟨trials, last, rolled, spends⟩ := source.diceSpend (e.demand.map Die.dealt)
    obtain ⟨r, whole, accounts⟩ := expressionSupplied (demandSupplied rolled)
    exact ⟨r, trials, last, whole, accounts, spends⟩

/-- Both listed words are refused for three sides, and each of the dice takes a zero. -/
example : Request.rollAll [.single ⟨3, by decide⟩, .several 2 ⟨5, ⟨3, by decide⟩⟩]
    (ListedWords.ofList [1431655765, 1431655765]) = .ok ([1, 1, 1], ⟨[], 5⟩) := rfl

end Dice
