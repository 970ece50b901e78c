import Dice.Word.Listed
import Mathlib.Algebra.BigOperators.Group.Finset.Basic
import Mathlib.Algebra.Order.Floor.Div
import Mathlib.Data.Set.Card
import Mathlib.Order.Interval.Finset.Nat

/-! Dice from words are uniform. The products that a zone accepts for a face fill a window,
and a window as long as a multiple of the sides holds that many products wherever it starts.
Both zones are such multiples, so each of them gives every face the same number of words. -/
namespace Dice

theorem windowInterval {s m a w : Nat} (positive : 0 < s) :
    a ≤ w * s ∧ w * s < a + s * m ↔ w ∈ Finset.Ico (a ⌈/⌉ s) (a ⌈/⌉ s + m) := by
  have start (v : Nat) : a ⌈/⌉ s ≤ v ↔ a ≤ v * s := by
    rw [ceilDiv_le_iff_le_mul positive, Nat.mul_comm]
  rw [Finset.mem_Ico, start]
  refine and_congr_right fun _ => ?_
  by_cases early : w < m
  · have product : w * s < m * s := Nat.mul_lt_mul_of_pos_right early positive
    rw [Nat.mul_comm m] at product
    exact iff_of_true (by omega) (by omega)
  · obtain ⟨v, rfl⟩ := Nat.exists_eq_add_of_le' (Nat.not_lt.mp early)
    have later := start v
    rw [Nat.add_mul, Nat.mul_comm m]
    omega

theorem windowCount {s m a n : Nat} (positive : 0 < s) (room : a + s * m ≤ n * s) :
    {w ∈ Finset.range n | a ≤ w * s ∧ w * s < a + s * m}.card = m := by
  have interval : {w ∈ Finset.range n | a ≤ w * s ∧ w * s < a + s * m} =
      Finset.Ico (a ⌈/⌉ s) (a ⌈/⌉ s + m) := by
    ext w
    rw [Finset.mem_filter, windowInterval positive, and_iff_right_iff_imp, Finset.mem_range]
    intro inside
    have product := ((windowInterval positive).mpr inside).2
    exact Nat.lt_of_mul_lt_mul_right (product.trans_le room)
  rw [interval, Nat.card_Ico, Nat.add_sub_cancel_left]

theorem wordsCounted (P : Nat → Prop) [DecidablePred P] :
    {w : UInt32 | P w.toNat}.ncard = {n ∈ Finset.range 4294967296 | P n}.card := by
  have image : UInt32.toNat '' {w : UInt32 | P w.toNat} =
      {n ∈ Finset.range 4294967296 | P n} := by
    ext n
    rw [Finset.mem_coe, Finset.mem_filter, Finset.mem_range]
    constructor
    · intro h
      obtain ⟨w, holds, rfl⟩ := h
      exact ⟨w.toNat_lt, holds⟩
    · intro h
      obtain ⟨small, holds⟩ := h
      have word : (UInt32.ofNat n).toNat = n := UInt32.toNat_ofNat_of_lt small
      exact ⟨UInt32.ofNat n, by rwa [Set.mem_ofPred_eq, word], word⟩
  have injective : Function.Injective UInt32.toNat := fun _ _ => UInt32.toNat_inj.mp
  rw [← Set.ncard_image_of_injective _ injective, image, Set.ncard_coe_finset]

/-- Every face is shown by the same number of words, its share, no other number is shown, and
no more than half of all words are refused. -/
structure Uniform (s : Sides) (shows : UInt32 → UInt32 → Prop) (share : Nat) : Prop where
  faces : ∀ face : UInt32, 1 ≤ face.toNat → face.toNat ≤ s.toNat →
    {word | shows word face}.ncard = share
  range : ∀ word face, shows word face → 1 ≤ face.toNat ∧ face.toNat ≤ s.toNat
  half : 2147483648 ≤ {word | ∃ face, shows word face}.ncard

namespace Sides

theorem productBelow (s : Sides) {n : Nat} (small : n < 4294967296) :
    n * s.toNat / 4294967296 < s.toNat := by
  rw [Nat.div_lt_iff_lt_mul (by decide), Nat.mul_comm]
  exact Nat.mul_lt_mul_of_pos_left small s.toNatPositive

theorem faceExact {s : Sides} {zone : Nat} {word face : UInt32} :
    s.face? zone word = some face ↔
      word.toNat * s.toNat % 4294967296 ≤ zone ∧
        word.toNat * s.toNat / 4294967296 + 1 = face.toNat := by
  have small : word.toNat * s.toNat / 4294967296 + 1 < UInt32.size :=
    Nat.lt_of_le_of_lt (s.productBelow word.toNat_lt) s.toNatRange
  have value := UInt32.toNat_ofNat_of_lt' small
  simp only [face?, show UInt32.size = 4294967296 from rfl]
  split
  · next inside => rw [Option.some.injEq, ← UInt32.toNat_inj, value, and_iff_right inside]
  · next outside => simp [outside]

theorem faceRange {s : Sides} {zone : Nat} {word face : UInt32}
    (shown : s.face? zone word = some face) : 1 ≤ face.toNat ∧ face.toNat ≤ s.toNat := by
  have below := s.productBelow word.toNat_lt
  have value := (faceExact.mp shown).2
  omega

theorem faceShare {s : Sides} {zone m upper : Nat} (multiple : zone + 1 = s.toNat * m)
    (most : s.toNat * m ≤ 4294967296) (within : upper < s.toNat) :
    {n ∈ Finset.range 4294967296 | n * s.toNat % 4294967296 ≤ zone ∧
      n * s.toNat / 4294967296 = upper}.card = m := by
  have window (n : Nat) : n * s.toNat % 4294967296 ≤ zone ∧ n * s.toNat / 4294967296 = upper ↔
      upper * 4294967296 ≤ n * s.toNat ∧ n * s.toNat < upper * 4294967296 + s.toNat * m := by
    omega
  simp only [window]
  exact windowCount s.toNatPositive (by omega)

theorem acceptedCount {s : Sides} {zone m : Nat} (multiple : zone + 1 = s.toNat * m)
    (most : s.toNat * m ≤ 4294967296) :
    {n ∈ Finset.range 4294967296 | n * s.toNat % 4294967296 ≤ zone}.card = s.toNat * m := by
  have maps : Set.MapsTo (fun n => n * s.toNat / 4294967296)
      (Finset.filter (fun n => n * s.toNat % 4294967296 ≤ zone) (Finset.range 4294967296))
      (Finset.range s.toNat) := by
    intro n hn
    rw [Finset.mem_coe, Finset.mem_filter, Finset.mem_range] at hn
    rw [Finset.mem_coe, Finset.mem_range]
    exact s.productBelow hn.1
  rw [Finset.card_eq_sum_card_fiberwise maps]
  simp only [Finset.filter_filter]
  rw [Finset.sum_congr rfl fun upper hu => faceShare multiple most (Finset.mem_range.mp hu)]
  simp

theorem accepted {s : Sides} {zone : Nat} {word : UInt32} :
    (∃ face, s.face? zone word = some face) ↔ word.toNat * s.toNat % 4294967296 ≤ zone := by
  constructor
  · intro shown
    obtain ⟨face, value⟩ := shown
    exact (faceExact.mp value).1
  · intro inside
    exact ⟨_, if_pos inside⟩

theorem zoneUniform {s : Sides} {zone m : Nat} (multiple : zone + 1 = s.toNat * m)
    (most : s.toNat * m ≤ 4294967296) (half : 2147483648 ≤ s.toNat * m) :
    Uniform s (fun word face => s.face? zone word = some face) m := by
  refine ⟨?_, ?_, ?_⟩
  · intro face low high
    have words : {word | s.face? zone word = some face} =
        {word : UInt32 | word.toNat * s.toNat % 4294967296 ≤ zone ∧
          word.toNat * s.toNat / 4294967296 = face.toNat - 1} := by
      ext word
      rw [Set.mem_ofPred_eq, Set.mem_ofPred_eq, faceExact]
      omega
    rw [words, wordsCounted fun n => n * s.toNat % 4294967296 ≤ zone ∧
      n * s.toNat / 4294967296 = face.toNat - 1]
    exact faceShare multiple most (by omega)
  · intro word face shown
    exact faceRange shown
  · simp only [accepted]
    rw [wordsCounted fun n => n * s.toNat % 4294967296 ≤ zone, acceptedCount multiple most]
    exact half

def leadingZeros (s : Sides) : Nat := s.count.toBitVec.clz.toNat

theorem leadingZerosExact (s : Sides) :
    s.leadingZeros ≤ 31 ∧ 2 ^ (31 - s.leadingZeros) ≤ s.toNat ∧
      s.toNat < 2 ^ (32 - s.leadingZeros) := by
  have nonzero : s.count.toBitVec ≠ 0#32 := fun same => s.pos (UInt32.toBitVec_inj.mp same)
  have low : 2 ^ (31 - s.leadingZeros) ≤ s.toNat :=
    BitVec.two_pow_sub_clz_le_toNat_of_ne_zero (by decide) nonzero
  have high : s.toNat < 2 ^ (32 - s.leadingZeros) := BitVec.toNat_lt_two_pow_sub_clz
  refine ⟨?_, low, high⟩
  by_contra many
  have positive := s.toNatPositive
  rw [show 32 - s.leadingZeros = 0 by omega] at high
  omega

theorem handfulZoneLength (s : Sides) :
    s.handfulZone + 1 = s.toNat * (4294967296 / s.toNat) := by
  have positive := s.toNatPositive
  have range : s.toNat < 4294967296 := s.toNatRange
  have left : (4294967296 - s.toNat) % s.toNat = 4294967296 % s.toNat :=
    (Nat.mod_eq_sub_mod range.le).symm
  have parts := Nat.div_add_mod 4294967296 s.toNat
  have below := Nat.mod_lt 4294967296 positive
  simp only [handfulZone, show UInt32.size = 4294967296 from rfl, left]
  omega

theorem singleZoneLength (s : Sides) : s.singleZone + 1 = s.toNat * 2 ^ s.leadingZeros := by
  have positive := s.toNatPositive
  obtain ⟨few, low, high⟩ := s.leadingZerosExact
  have log : s.toNat.log2 = 31 - s.leadingZeros := by
    rw [Nat.log2_eq_iff positive.ne']
    exact ⟨low, by rwa [← Nat.sub_add_comm few]⟩
  have product : 0 < s.toNat * 2 ^ s.leadingZeros := Nat.mul_pos positive (Nat.two_pow_pos _)
  rw [singleZone, log, Nat.sub_sub_self few, Nat.shiftLeft_eq]
  omega

/-- A word that is accepted for the next die of a handful: a source that hands it out first
draws no other one for the face. -/
def HandfulShows (s : Sides) (word face : UInt32) : Prop :=
  FaceSource.deal? s (ListedWords.ofList [word]) = .ok (some (face, ListedWords.mk [] 1))

def SingleShows (s : Sides) (word face : UInt32) : Prop :=
  FaceSource.single s (ListedWords.ofList [word]) = .ok (face, ListedWords.mk [] 1)

theorem firstWord {s : Sides} {zone : Nat} {word face : UInt32} :
    WordSource.face zone s (ListedWords.ofList [word]) = .ok (face, ListedWords.mk [] 1) ↔
      s.face? zone word = some face := by
  have span : WordSource.span (ListedWords.ofList [word]) = 2 := rfl
  have first : WordSource.next (ListedWords.ofList [word]) = (word, ListedWords.mk [] 1) := rfl
  have second : WordSource.next (ListedWords.mk [] 1) = (0, ListedWords.mk [] 2) := rfl
  simp only [WordSource.face, span, WordSource.search?, first, second]
  -- Zeros follow, so a source that refuses the only word draws another one for the face.
  cases s.face? zone word with
  | some found => simp
  | none => cases s.face? zone 0 <;> simp

theorem handfulShows {s : Sides} {word face : UInt32} :
    s.HandfulShows word face ↔ s.face? s.handfulZone word = some face := by
  rw [← firstWord]
  change (WordSource.face _ s _).map some = _ ↔ _
  cases WordSource.face s.handfulZone s (ListedWords.ofList [word]) <;> simp [Except.map]

theorem singleShows {s : Sides} {word face : UInt32} :
    s.SingleShows word face ↔ s.face? s.singleZone word = some face := firstWord

theorem handfulUniform (s : Sides) : Uniform s s.HandfulShows (4294967296 / s.toNat) := by
  have shows : s.HandfulShows = fun word face => s.face? s.handfulZone word = some face :=
    funext fun _ => funext fun _ => propext handfulShows
  have positive := s.toNatPositive
  have range : s.toNat < 4294967296 := s.toNatRange
  have parts := Nat.div_add_mod 4294967296 s.toNat
  have below := Nat.mod_lt 4294967296 positive
  have once : s.toNat * 1 ≤ s.toNat * (4294967296 / s.toNat) :=
    Nat.mul_le_mul_left _ (Nat.div_pos range.le positive)
  rw [shows]
  exact zoneUniform s.handfulZoneLength (by omega) (by omega)

theorem singleUniform (s : Sides) : Uniform s s.SingleShows (2 ^ s.leadingZeros) := by
  have shows : s.SingleShows = fun word face => s.face? s.singleZone word = some face :=
    funext fun _ => funext fun _ => propext singleShows
  obtain ⟨few, low, high⟩ := s.leadingZerosExact
  have least := Nat.mul_le_mul_right (2 ^ s.leadingZeros) low
  have most := Nat.mul_le_mul_right (2 ^ s.leadingZeros) high.le
  rw [Nat.pow_sub_mul_pow 2 few] at least
  rw [Nat.pow_sub_mul_pow 2 (Nat.le_succ_of_le few)] at most
  rw [shows]
  exact zoneUniform s.singleZoneLength most least

end Sides

theorem facesUniform (s : Sides) :
    s.handfulZone = 4294967295 - (4294967296 - s.toNat) % s.toNat ∧
    s.singleZone = s.toNat * 2 ^ s.leadingZeros - 1 ∧
    Uniform s s.HandfulShows (4294967296 / s.toNat) ∧
    Uniform s s.SingleShows (2 ^ s.leadingZeros) := by
  refine ⟨rfl, ?_, s.handfulUniform, s.singleUniform⟩
  rw [← s.singleZoneLength, Nat.add_sub_cancel]

theorem facesUniformSixSides :
    {word | Sides.HandfulShows ⟨6, by decide⟩ word 6}.ncard = 715827882 ∧
    {word | Sides.SingleShows ⟨6, by decide⟩ word 6}.ncard = 536870912 := by
  obtain ⟨_, _, handful, single⟩ := facesUniform ⟨6, by decide⟩
  exact ⟨handful.faces 6 (by decide) (by decide), single.faces 6 (by decide) (by decide)⟩

end Dice
