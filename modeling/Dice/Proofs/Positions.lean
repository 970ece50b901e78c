import Dice.Proofs.Checked
import Dice.Proofs.Streams

/-! Positions in a text count its bytes. A byte is read where there is one, and text is sliced
between two places where characters meet, the first not behind the second; all else is a breach.
A search for a byte below 128 stops where the search for its character does. -/
namespace Dice

inductive Breach where
  | negative
  | noByte
  | noPlace
  | backwards
  deriving DecidableEq, Repr

def stepBack (i n : Nat) : Except Breach Nat := if n ≤ i then .ok (i - n) else .error .negative

def byteAt (bytes : List UInt8) (i : Nat) : Except Breach UInt8 :=
  match bytes[i]? with
  | some b => .ok b
  | none => .error .noByte

namespace Text

def Boundary (t : Text) (i : Nat) : Prop := ∃ s u, t = s ++ u ∧ size s = i

def cut (t : Text) (i : Nat) : Except Breach (Text × Text) :=
  if i = 0 then .ok ([], t)
  else match t with
    | [] => .error .noPlace
    | c :: t =>
      if c.utf8Size ≤ i then do
        let (s, u) ← cut t (i - c.utf8Size)
        return (c :: s, u)
      else .error .noPlace

/-- The bytes from a place on: asked to start where a character does, though bytes need not. -/
def bytesFrom (t : Text) (i : Nat) : Except Breach (List UInt8) := do
  let (_, u) ← cut t i
  return utf8 u

def slice (t : Text) (i j : Nat) : Except Breach Text :=
  if i ≤ j then do
    let (_, u) ← cut t i
    let (s, _) ← cut u (j - i)
    return s
  else .error .backwards

end Text

theorem stepBackExact {i n k : Nat} : stepBack i n = .ok k ↔ k + n = i := by
  unfold stepBack
  split
  · rw [Except.ok.injEq]
    omega
  · simp only [reduceCtorEq, false_iff]
    omega

theorem byteAtExact {bytes : List UInt8} {i : Nat} {b : UInt8} :
    byteAt bytes i = .ok b ↔ bytes[i]? = some b := by
  unfold byteAt
  split
  · next here => rw [here, Except.ok.injEq, Option.some.injEq]
  · next none => simp [none]

namespace Text

theorem cutBetween (s u : Text) : cut (s ++ u) (size s) = .ok (s, u) := by
  induction s with
  | nil => rw [cut.eq_def]; rfl
  | cons c s ih =>
    have positive := c.utf8Size_pos
    rw [List.cons_append, sizeCons, cut, if_neg (by omega), if_pos (by omega),
      Nat.add_sub_cancel_left, ih]
    rfl

theorem cutPlace {t s u : Text} {i : Nat} (done : cut t i = .ok (s, u)) :
    t = s ++ u ∧ size s = i := by
  induction t generalizing s i with
  | nil =>
    rw [cut] at done
    split at done
    · next start =>
      cases done
      exact ⟨rfl, start.symm⟩
    · cases done
  | cons c t ih =>
    rw [cut] at done
    split at done
    · next start =>
      cases done
      exact ⟨rfl, start.symm⟩
    · split at done
      · next fits =>
        obtain ⟨⟨front, rest⟩, tail, same⟩ := bindOk.mp done
        cases same
        obtain ⟨rfl, place⟩ := ih tail
        exact ⟨rfl, by rw [sizeCons, place]; omega⟩
      · cases done

theorem cutExact {t s u : Text} {i : Nat} :
    cut t i = .ok (s, u) ↔ t = s ++ u ∧ size s = i := by
  constructor
  · exact cutPlace
  · intro h
    obtain ⟨rfl, rfl⟩ := h
    exact cutBetween s u

theorem bytesFromExact {t : Text} {i : Nat} {bytes : List UInt8} :
    bytesFrom t i = .ok bytes ↔ ∃ s u, t = s ++ u ∧ size s = i ∧ utf8 u = bytes := by
  simp only [bytesFrom, bindOk, pureOk, Prod.exists, cutExact, and_assoc]

theorem bytesBehind (s u : Text) : bytesFrom (s ++ u) (size s) = .ok (utf8 u) :=
  bytesFromExact.mpr ⟨s, u, rfl, rfl, rfl⟩

theorem sliceExact {t s : Text} {i j : Nat} :
    slice t i j = .ok s ↔ ∃ a b, t = a ++ (s ++ b) ∧ size a = i ∧ size (a ++ s) = j := by
  unfold slice
  split
  · next ordered =>
    simp only [bindOk, pureOk, Prod.exists, cutExact, sizeAppend]
    constructor
    · rintro ⟨a, u, ⟨rfl, here⟩, s, b, ⟨rfl, long⟩, rfl⟩
      exact ⟨a, b, rfl, here, by omega⟩
    · rintro ⟨a, b, rfl, here, long⟩
      exact ⟨a, s ++ b, ⟨rfl, here⟩, s, b, ⟨rfl, by omega⟩, rfl⟩
  · next backwards =>
    simp only [reduceCtorEq, false_iff, not_exists, not_and, sizeAppend]
    omega

theorem utf8Length (t : Text) : (utf8 t).length = size t := by
  induction t with
  | nil => rfl
  | cons c t ih =>
    have first : utf8 (c :: t) = String.utf8EncodeChar c ++ utf8 t := rfl
    rw [first, List.length_append, String.length_utf8EncodeChar, ih, sizeCons]

end Text

theorem asciiBytes {c : Char} (ascii : c.toNat < 128) :
    String.utf8EncodeChar c = [c.toUInt8] := by
  rw [String.utf8EncodeChar_eq_singleton (asciiSize ascii), Char.toUInt8_val]

theorem asciiByte {c d : Char} (ascii : d.toNat < 128) {b : UInt8}
    (among : b ∈ String.utf8EncodeChar c) : b = d.toUInt8 ↔ c = d := by
  have number : d.toUInt8.toNat = d.toNat := by
    change d.val.toNat % 256 = d.val.toNat
    exact Nat.mod_eq_of_lt (Nat.lt_trans ascii (by decide))
  constructor
  · rintro rfl
    exact Char.toNat_inj.mp ((plainByte (by omega) among).trans number)
  · rintro rfl
    rw [asciiBytes ascii] at among
    exact List.mem_singleton.mp among

def Bytewise (p : UInt8 → Bool) (q : Char → Bool) : Prop :=
  ∀ c, ∀ b ∈ String.utf8EncodeChar c, p b = q c

namespace Text
variable {p : UInt8 → Bool} {q : Char → Bool}

theorem bytesFail (same : Bytewise p q) {s : Text} (fail : ∀ c ∈ s, q c = false) :
    (utf8 s).findIdx? p = none := by
  rw [List.findIdx?_eq_none_iff]
  intro b among
  obtain ⟨c, member, byte⟩ := List.mem_flatMap.mp among
  rw [same c b byte, fail c member]

theorem bytesPass (same : Bytewise p q) {s : Text} {c : Char} (u : Text)
    (fail : ∀ c ∈ s, q c = false) (pass : q c = true) :
    (utf8 (s ++ c :: u)).findIdx? p = some (size s) := by
  have here : (utf8 (c :: u)).findIdx? p = some 0 := by
    have filled : String.utf8EncodeChar c ≠ [] := String.utf8EncodeChar_ne_nil
    obtain ⟨b, bytes, first⟩ := List.exists_cons_of_ne_nil filled
    have byte : p b = true := (same c b (by simp [first])).trans pass
    have whole : utf8 (c :: u) = b :: (bytes ++ utf8 u) := by simp [utf8, first]
    simp [whole, List.findIdx?_cons, byte]
  rw [utf8Append, List.findIdx?_append, bytesFail same fail, here, utf8Length]
  simp

theorem byteHere {c : Char} (ascii : c.toNat < 128) (s u : Text) :
    byteAt (utf8 (s ++ c :: u)) (size s) = .ok c.toUInt8 := by
  have first : utf8 (c :: u) = c.toUInt8 :: utf8 u := by simp [utf8, asciiBytes ascii]
  rw [byteAtExact, utf8Append, first, ← utf8Length, List.getElem?_append_right (Nat.le_refl _),
    Nat.sub_self, List.getElem?_cons_zero]

theorem byteBefore {s : Text} (filled : s ≠ []) (u : Text) :
    ∃ b, byteAt (utf8 (s ++ u)) (size s - 1) = .ok b ∧
      ∀ d : Char, d.toNat < 128 → (b = d.toUInt8 ↔ s.getLast? = some d) := by
  obtain ⟨front, c, rfl⟩ := (List.eq_nil_or_concat s).resolve_left filled
  have encoded : String.utf8EncodeChar c ≠ [] := String.utf8EncodeChar_ne_nil
  obtain ⟨bytes, b, last⟩ := (List.eq_nil_or_concat _).resolve_left encoded
  rw [List.concat_eq_append] at last ⊢
  refine ⟨b, byteAtExact.mpr ?_, ?_⟩
  · have whole : utf8 (front ++ [c] ++ u) = (utf8 front ++ bytes) ++ b :: utf8 u := by
      simp [utf8, last]
    have long : c.utf8Size = bytes.length + 1 := by
      rw [← String.length_utf8EncodeChar, last, List.length_append]
      rfl
    have place : size (front ++ [c]) - 1 = (utf8 front ++ bytes).length := by
      simp only [sizeAppend, sizeCons, sizeNil, List.length_append, utf8Length]
      omega
    rw [whole, place, List.getElem?_append_right (Nat.le_refl _), Nat.sub_self,
      List.getElem?_cons_zero]
  · intro d ascii
    rw [asciiByte ascii (c := c) (by simp [last])]
    simp

end Text
end Dice
