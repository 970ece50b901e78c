import Dice.Proofs.Specs

/-! A breakdown says all of a roll. The same separator stands between the values of a part and
between two parts, but a part ends at the only bracket that closes it: the text is cut there first,
and what is inside the brackets is cut at the blanks. -/
namespace Dice

namespace Text

theorem joinedWithout {c : Char} {separator : Text} {ts : List Text} (between : c ∉ separator)
    (inside : ∀ t ∈ ts, c ∉ t) : c ∉ joined separator ts := by
  cases ts with
  | nil => exact List.not_mem_nil
  | cons t ts =>
    obtain ⟨first, later⟩ := List.forall_mem_cons.mp inside
    rw [joinedCons]
    simpa [first, between] using later

theorem separatedStops (c : Char) (separator : Text) (ts : List Text) :
    ∀ x ∈ (ts.flatMap (c :: separator ++ ·)).head?, x = c := by
  cases ts with
  | nil => nofun
  | cons t ts => simp [eq_comm]

theorem separatedUnique {c : Char} {separator : Text} {xs ys : List Text}
    (same : xs.flatMap (c :: separator ++ ·) = ys.flatMap (c :: separator ++ ·))
    (left : ∀ t ∈ xs, c ∉ t) (right : ∀ t ∈ ys, c ∉ t) : xs = ys := by
  induction xs generalizing ys with
  | nil =>
    cases ys with
    | nil => rfl
    | cons y ys => simp at same
  | cons x xs ih =>
    cases ys with
    | nil => simp at same
    | cons y ys =>
      obtain ⟨here, laterLeft⟩ := List.forall_mem_cons.mp left
      obtain ⟨there, laterRight⟩ := List.forall_mem_cons.mp right
      rw [List.flatMap_cons, List.flatMap_cons, List.append_assoc, List.append_assoc] at same
      obtain ⟨rfl, rest⟩ := cutAt (List.append_cancel_left same) here there
        (separatedStops c separator xs) (separatedStops c separator ys)
      rw [ih rest laterLeft laterRight]

theorem joinedUnique {c : Char} {separator : Text} {xs ys : List Text}
    (same : joined (c :: separator) xs = joined (c :: separator) ys)
    (left : ∀ t ∈ xs, t ≠ [] ∧ c ∉ t) (right : ∀ t ∈ ys, t ≠ [] ∧ c ∉ t) : xs = ys := by
  -- One empty text would leave no more trace than none at all.
  have filled {t : Text} (ts : List Text) (h : t ≠ []) :
      joined (c :: separator) (t :: ts) ≠ [] := by
    rw [joinedCons]
    exact List.append_ne_nil_of_left_ne_nil h _
  cases xs with
  | nil =>
    cases ys with
    | nil => rfl
    | cons y ys => exact absurd same.symm (filled ys (List.forall_mem_cons.mp right).1.1)
  | cons x xs =>
    obtain ⟨here, laterLeft⟩ := List.forall_mem_cons.mp left
    cases ys with
    | nil => exact absurd same (filled xs here.1)
    | cons y ys =>
      obtain ⟨there, laterRight⟩ := List.forall_mem_cons.mp right
      rw [joinedCons, joinedCons] at same
      obtain ⟨rfl, rest⟩ := cutAt same here.2 there.2
        (separatedStops c separator xs) (separatedStops c separator ys)
      rw [separatedUnique rest (fun t h => (laterLeft t h).2) fun t h => (laterRight t h).2]

theorem equalUnique {s u a b : Text}
    (whole : s ++ " = ".toList ++ a = u ++ " = ".toList ++ b) (left : '=' ∉ s) (right : '=' ∉ u) :
    s = u ∧ a = b := by
  have around (t v : Text) : t ++ " = ".toList ++ v = (t ++ [' ']) ++ '=' :: ' ' :: v := by simp
  rw [around, around] at whole
  obtain ⟨before, after⟩ := cutAt (c := '=') whole (by simpa using left) (by simpa using right)
    (by simp) (by simp)
  exact ⟨List.append_cancel_right before, (List.cons.inj (List.cons.inj after).2).2⟩

end Text

namespace Roll

def Part.numerals (p : Part) : List Text := p.values.map fun v => Decimal.ofNat v.toNat

theorem Part.numeralsWithout {c : Char} (plain : c.isDigit = false) (p : Part) :
    ∀ t ∈ p.numerals, c ∉ t := by
  simpa [numerals] using fun (v : UInt32) _ => Decimal.ofNatWithout plain v.toNat

theorem Part.numeralsFilled (p : Part) : ∀ t ∈ p.numerals, t ≠ [] := by
  simpa [numerals] using fun (v : UInt32) _ => Decimal.ofNatNonempty v.toNat

theorem Part.numeralsUnique {p q : Part} (same : p.numerals = q.numerals) :
    p.values = q.values := by
  have distinct : Function.Injective fun v : UInt32 => Decimal.ofNat v.toNat :=
    fun _ _ h => UInt32.toNat_inj.mp (Decimal.ofNatInjective h)
  exact distinct.list_map same

theorem Part.breakdownAppend (p : Part) (rest : Text) : p.breakdown ++ rest =
    '(' :: (Text.joined " + ".toList p.numerals ++ ')' :: rest) := by
  simp [breakdown, numerals]

def Foreign (c : Char) : Prop := c.isDigit = false ∧ c ∉ "( + - )".toList
instance (c) : Decidable (Foreign c) := by unfold Foreign; infer_instance

theorem Part.breakdownWithout {c : Char} (foreign : Foreign c) (p : Part) : c ∉ p.breakdown := by
  obtain ⟨plain, others⟩ := foreign
  have values : c ∉ Text.joined " + ".toList p.numerals :=
    Text.joinedWithout (by simp_all) (p.numeralsWithout plain)
  have written := p.breakdownAppend []
  rw [List.append_nil] at written
  simp_all

theorem breakdownWithout {c : Char} (foreign : Foreign c) (r : Roll) : c ∉ r.breakdown := by
  have parts (p : Part) := p.breakdownWithout foreign
  have others := foreign.2
  have symbol (s : Sign) : c ≠ s.symbol := by cases s <;> simp_all [Sign.symbol]
  have leading (s : Sign) : c ∉ s.leading := by cases s <;> simp_all [Sign.leading, Sign.symbol]
  simp_all [breakdown, breakdownBy]

theorem Part.valuesUnique {p q : Part} {a b : Text} (same : p.breakdown ++ a = q.breakdown ++ b) :
    p.values = q.values ∧ a = b := by
  have unclosed (p : Part) : ')' ∉ Text.joined " + ".toList p.numerals :=
    Text.joinedWithout (by decide) (p.numeralsWithout (by decide))
  have numeral (p : Part) : ∀ t ∈ p.numerals, t ≠ [] ∧ ' ' ∉ t :=
    fun t among => ⟨p.numeralsFilled t among, p.numeralsWithout (by decide) t among⟩
  rw [breakdownAppend, breakdownAppend] at same
  obtain ⟨joined, rest⟩ :=
    Text.cutAt (List.cons.inj same).2 (unclosed p) (unclosed q) (by simp) (by simp)
  exact ⟨numeralsUnique (Text.joinedUnique joined (numeral p) (numeral q)),
    (List.cons.inj rest).2⟩

theorem laterUnique {ps qs : List Part}
    (same : (ps.flatMap fun p => ' ' :: p.sign.symbol :: ' ' :: p.breakdown) =
      qs.flatMap fun q => ' ' :: q.sign.symbol :: ' ' :: q.breakdown) : ps = qs := by
  have symbols {s t : Sign} (h : s.symbol = t.symbol) : s = t := by
    cases s <;> cases t <;> first | rfl | exact absurd h (by decide)
  induction ps generalizing qs with
  | nil =>
    cases qs with
    | nil => rfl
    | cons q qs => simp at same
  | cons p ps ih =>
    cases qs with
    | nil => simp at same
    | cons q qs =>
      simp only [List.flatMap_cons, List.cons_append, List.cons.injEq, true_and] at same
      obtain ⟨symbol, text⟩ := same
      obtain ⟨values, rest⟩ := Part.valuesUnique text
      rw [ih rest, Part.ext (symbols symbol) values]

theorem leadingUnique {s t : Sign} {p q : Part} {a b : Text}
    (same : s.leading ++ p.breakdown ++ a = t.leading ++ q.breakdown ++ b) :
    s = t ∧ p.breakdown ++ a = q.breakdown ++ b := by
  cases s <;> cases t <;> simp_all [Sign.leading, Sign.symbol, Part.breakdown]

theorem writtenUnique {r s : Roll} (same : r.breakdown = s.breakdown) : r = s := by
  obtain ⟨sign, text⟩ := leadingUnique same
  obtain ⟨values, rest⟩ := Part.valuesUnique text
  exact Roll.ext (Part.ext sign values) (laterUnique rest)

end Roll

namespace Style

theorem plainUnique {r s : Roll} {m n : Int}
    (same : plain.line r.breakdown m = plain.line s.breakdown n) : r = s ∧ m = n := by
  have clear (r : Roll) : '=' ∉ r.breakdown := r.breakdownWithout (by decide)
  obtain ⟨breakdown, total⟩ := Text.equalUnique same (clear r) (clear s)
  exact ⟨Roll.writtenUnique breakdown, Decimal.ofIntInjective total⟩

theorem labelledEquals (label : Text) (r : Roll) (n : Int) :
    ((labelled label).line r.breakdown n).count '=' = label.count '=' + 2 := by
  have breakdown : r.breakdown.count '=' = 0 :=
    List.count_eq_zero_of_not_mem (r.breakdownWithout (by decide))
  have total : (Decimal.ofInt n).count '=' = 0 :=
    List.count_eq_zero_of_not_mem (Decimal.ofIntWithout (by decide) (by decide) n)
  simp [labelled, breakdown, total]

theorem labelledUnique {k l : Text} {r s : Roll} {m n : Int} (clear : '=' ∉ k)
    (same : (labelled k).line r.breakdown m = (labelled l).line s.breakdown n) :
    k = l ∧ r = s ∧ m = n := by
  have none : '=' ∉ l := by
    have counts := congrArg (List.count '=') same
    rw [labelledEquals, labelledEquals, List.count_eq_zero_of_not_mem clear] at counts
    exact List.count_eq_zero.mp (by omega)
  have after (label : Text) (r : Roll) (n : Int) : (labelled label).line r.breakdown n =
      label ++ " = ".toList ++ plain.line r.breakdown n := by simp [labelled, plain]
  rw [after, after] at same
  obtain ⟨label, rest⟩ := Text.equalUnique same clear none
  exact ⟨label, plainUnique rest⟩

end Style

variable {ρ : Type} [FaceSource ρ]

theorem Spec.rollExact {verbose several : Bool} {s : Spec} {source last : ρ} {line : Text} :
    s.roll verbose several source = .ok (line, last) ↔
      ∃ x, s.rolled source = .ok (x, last) ∧ line = x.entry verbose several := by
  rw [rollEntry, map_eq_pure_bind, stateBindOk]
  simp only [statePureOk]
  constructor
  · intro h
    obtain ⟨x, _, rolled, rfl, rfl⟩ := h
    exact ⟨x, rolled, rfl⟩
  · intro h
    obtain ⟨x, rolled, rfl⟩ := h
    exact ⟨x, last, rolled, rfl, rfl⟩

theorem RolledSpec.entryUnique {several : Bool} {x y : RolledSpec}
    (clear : several = true → '=' ∉ x.text.trim)
    (same : x.entry true several = y.entry true several) :
    (several = true → x.text.trim = y.text.trim) ∧ x.roll = y.roll ∧ x.total = y.total := by
  cases several with
  | false => exact ⟨nofun, Style.plainUnique same⟩
  | true =>
    obtain ⟨label, rest⟩ := Style.labelledUnique (clear rfl) same
    exact ⟨fun _ => label, rest⟩

theorem breakdownUnique :
    (∀ {r s : Roll}, r.breakdown = s.breakdown → r = s) ∧
    (∀ {r s : Roll} {m n : Int},
      Style.plain.line r.breakdown m = Style.plain.line s.breakdown n → r = s ∧ m = n) ∧
    (∀ {k l : Text} {r s : Roll} {m n : Int}, '=' ∉ k →
      (Style.labelled k).line r.breakdown m = (Style.labelled l).line s.breakdown n →
      k = l ∧ r = s ∧ m = n) ∧
    ∀ {σ : Type} [FaceSource σ] {several : Bool} {s u : Spec} {a b afterA afterB : σ}
      {line : Text}, s.roll true several a = .ok (line, afterA) →
      u.roll true several b = .ok (line, afterB) → (several = true → '=' ∉ s.text.trim) →
      (several = true → s.text.trim = u.text.trim) ∧
      ∃ roll total, s.expression.roll a = .ok (roll, afterA) ∧
        u.expression.roll b = .ok (roll, afterB) ∧ roll.total = .ok total := by
  refine ⟨Roll.writtenUnique, Style.plainUnique, Style.labelledUnique, ?_⟩
  intro σ _ several s u a b afterA afterB line left right clear
  obtain ⟨x, first, rfl⟩ := Spec.rollExact.mp left
  obtain ⟨y, second, same⟩ := Spec.rollExact.mp right
  obtain ⟨rfl, rolled, total⟩ := rolledExact.mp first
  obtain ⟨rfl, rolled', _⟩ := rolledExact.mp second
  obtain ⟨label, roll, _⟩ := RolledSpec.entryUnique clear same
  exact ⟨label, x.roll, x.total, rolled, roll ▸ rolled', total⟩

theorem breakdownUniqueTwoSources :
    let e : Expression := ⟨⟨.plus, .dice 0 ⟨4, by decide⟩⟩, [⟨.minus, .dice 2 ⟨6, by decide⟩⟩]⟩
    let line := "0d4-2d6 = () - (3 + 5) = -8".toList
    Spec.roll ⟨" 0d4-2d6".toList, e⟩ true true (ListedFaces.ofList [3, 5]) =
      .ok (line, ⟨[], 2⟩) ∧
    Spec.roll ⟨"0d4-2d6\n".toList, e⟩ true true (ListedFaces.ofList [3, 5, 1]) =
      .ok (line, ⟨[1], 2⟩) ∧
    Text.trim " 0d4-2d6".toList = Text.trim "0d4-2d6\n".toList ∧
    ∃ roll total, e.roll (ListedFaces.ofList [3, 5]) = .ok (roll, ⟨[], 2⟩) ∧
      e.roll (ListedFaces.ofList [3, 5, 1]) = .ok (roll, ⟨[1], 2⟩) ∧
      roll.total = .ok total := by
  intro e line
  have first : Spec.roll ⟨" 0d4-2d6".toList, e⟩ true true (ListedFaces.ofList [3, 5]) =
    .ok (line, ⟨[], 2⟩) := rfl
  have second : Spec.roll ⟨"0d4-2d6\n".toList, e⟩ true true (ListedFaces.ofList [3, 5, 1]) =
    .ok (line, ⟨[1], 2⟩) := rfl
  obtain ⟨_, _, _, runs⟩ := breakdownUnique
  obtain ⟨label, rolled⟩ := runs first second fun _ => by decide
  exact ⟨first, second, label rfl, rolled⟩

end Dice
