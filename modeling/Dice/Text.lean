/-! Texts, and their size in UTF-8 bytes. Positions count bytes; nothing here decodes them. -/
namespace Dice

abbrev Text := List Char

namespace Text

def size (t : Text) : Nat := t.foldr (fun c n => c.utf8Size + n) 0

@[simp] theorem sizeNil : size [] = 0 := rfl

@[simp] theorem sizeCons (c : Char) (t : Text) : size (c :: t) = c.utf8Size + size t := rfl

@[simp] theorem sizeAppend (s t : Text) : size (s ++ t) = size s + size t := by
  induction s with
  | nil => simp
  | cons c s ih => rw [List.cons_append, sizeCons, sizeCons, ih, Nat.add_assoc]

theorem sizePositive {t : Text} (h : t ≠ []) : 0 < size t := by
  cases t with
  | nil => exact absurd rfl h
  | cons c t => have := c.utf8Size_pos; rw [sizeCons]; omega

def joined (separator : Text) (ts : List Text) : Text := (ts.intersperse separator).flatten

@[simp] theorem joinedOne (separator t : Text) : joined separator [t] = t := by simp [joined]

theorem joinedCons (separator t : Text) (ts : List Text) :
    joined separator (t :: ts) = t ++ ts.flatMap (separator ++ ·) := by
  induction ts generalizing t with
  | nil => simp
  | cons next ts ih =>
    rw [joined, List.intersperse_cons_cons, List.flatten_cons, List.flatten_cons]
    change t ++ (separator ++ joined separator (next :: ts)) = _
    rw [ih, List.flatMap_cons, List.append_assoc]

theorem cutUnique {stops : Char → Bool} {s u a b : Text} (whole : s ++ a = u ++ b)
    (left : ∀ c ∈ s, stops c = false) (right : ∀ c ∈ u, stops c = false)
    (before : ∀ c ∈ a.head?, stops c) (behind : ∀ c ∈ b.head?, stops c) : s = u ∧ a = b := by
  induction s generalizing u with
  | nil =>
    cases u with
    | nil => exact ⟨rfl, whole⟩
    | cons x u =>
      have stop := before x (congrArg List.head? whole)
      rw [(List.forall_mem_cons.mp right).1] at stop
      contradiction
  | cons x s ih =>
    cases u with
    | nil =>
      have stop := behind x (congrArg List.head? whole).symm
      rw [(List.forall_mem_cons.mp left).1] at stop
      contradiction
    | cons y u =>
      obtain ⟨rfl, tail⟩ := List.cons.inj whole
      obtain ⟨rfl, rest⟩ :=
        ih tail (List.forall_mem_cons.mp left).2 (List.forall_mem_cons.mp right).2
      exact ⟨rfl, rest⟩

theorem cutAt {c : Char} {s u a b : Text} (whole : s ++ a = u ++ b) (left : c ∉ s) (right : c ∉ u)
    (before : ∀ x ∈ a.head?, x = c) (behind : ∀ x ∈ b.head?, x = c) : s = u ∧ a = b := by
  have without {t : Text} (h : c ∉ t) : ∀ x ∈ t, (x == c) = false := by
    intro x member
    exact beq_eq_false_iff_ne.mpr fun same => h (same ▸ member)
  have stop {t : Text} (h : ∀ x ∈ t.head?, x = c) : ∀ x ∈ t.head?, (x == c) = true :=
    fun x first => beq_iff_eq.mpr (h x first)
  exact cutUnique whole (without left) (without right) (stop before) (stop behind)

end Text
end Dice
