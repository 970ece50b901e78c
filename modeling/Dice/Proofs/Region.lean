import Dice.Segment

/-! The search for a region is exact: it finds the leftmost bracket that a later
character of its line closes, and finds nothing only where no bracket is closed.
Regions then drive a recursion over a text, from one region to what follows it. -/
namespace Dice

/-- The characters that decide about an open bracket: the next one of them either
closes it or ends its line. -/
def stops (c : Char) : Bool := c = ']' || c = '\n'

def Closes (t : Text) : Prop := t.find? stops = some ']'
instance (t) : Decidable (Closes t) := by unfold Closes; infer_instance

def Interior (s : Text) : Prop := ']' ∉ s ∧ '\n' ∉ s
instance (s) : Decidable (Interior s) := by unfold Interior; infer_instance

theorem interiorIff {s : Text} : Interior s ↔ ∀ c ∈ s, stops c = false := by
  simp only [Interior, stops, Bool.or_eq_false_iff, decide_eq_false_iff_not]
  constructor
  · intro h
    obtain ⟨bracket, newline⟩ := h
    intro c hc
    exact ⟨fun h => bracket (h ▸ hc), fun h => newline (h ▸ hc)⟩
  · intro h
    exact ⟨fun hc => (h _ hc).1 rfl, fun hc => (h _ hc).2 rfl⟩

theorem interiorNil : Interior [] := by simp [Interior]

theorem interiorReverse {s : Text} : Interior s.reverse ↔ Interior s := by simp [Interior]

theorem interiorCons {c : Char} {s : Text} :
    Interior (c :: s) ↔ stops c = false ∧ Interior s := by
  simp [interiorIff]

theorem interiorAppend {s u : Text} : Interior (s ++ u) ↔ Interior s ∧ Interior u := by
  simp only [interiorIff, List.mem_append, or_imp, forall_and]

theorem closesAfter {s t : Text} (inside : Interior s) : Closes (s ++ t) ↔ Closes t := by
  have none : s.find? stops = none := by
    rw [List.find?_eq_none]
    intro c hc
    simp [interiorIff.mp inside c hc]
  rw [Closes, List.find?_append, none]
  rfl

theorem closesAtBracket {s t : Text} (inside : Interior s) : Closes (s ++ ']' :: t) :=
  (closesAfter inside).mpr rfl

theorem notClosesAtNewline {s t : Text} (inside : Interior s) : ¬ Closes (s ++ '\n' :: t) := by
  rw [closesAfter inside]
  simp [Closes, stops]

theorem interiorUnique {s u a b : Text} {c d : Char} (whole : s ++ c :: a = u ++ d :: b)
    (left : Interior s) (right : Interior u) (hc : stops c) (hd : stops d) :
    s = u ∧ c :: a = d :: b :=
  Text.cutUnique whole (interiorIff.mp left) (interiorIff.mp right) (by simpa) (by simpa)

/-- No bracket in a piece of text is closed, given the text after the piece. -/
def Bare (u after : Text) : Prop := ∀ x y, u = x ++ '[' :: y → ¬ Closes (y ++ after)

theorem bareNil (after : Text) : Bare [] after := by
  intro x y split
  simp at split

theorem bareCons {c : Char} {u after : Text} :
    Bare (c :: u) after ↔ (c = '[' → ¬ Closes (u ++ after)) ∧ Bare u after := by
  constructor
  · intro bare
    refine ⟨fun bracket => bare [] u (by rw [bracket]; rfl), ?_⟩
    intro x y split
    exact bare (c :: x) y (by rw [split]; rfl)
  · intro h
    obtain ⟨first, rest⟩ := h
    intro x y split
    cases x with
    | nil =>
      obtain ⟨bracket, same⟩ := List.cons.inj split
      exact same ▸ first bracket
    | cons d x => exact rest x y (List.cons.inj split).2

theorem bareAppend {u v after : Text} :
    Bare (u ++ v) after ↔ Bare u (v ++ after) ∧ Bare v after := by
  induction u with
  | nil => simp [bareNil]
  | cons c u ih => simp only [List.cons_append, bareCons, ih, List.append_assoc, and_assoc]

theorem bareWithout {u : Text} (plain : '[' ∉ u) (after : Text) : Bare u after := by
  intro x y split
  exact absurd (by simp [split]) plain

theorem bareInterior {s after : Text} (inside : Interior s) (unclosed : ¬ Closes after) :
    Bare s after := by
  intro x y split closed
  subst split
  have inner := (interiorCons.mp (interiorAppend.mp inside).2).2
  exact unclosed ((closesAfter inner).mp closed)

theorem bareOpened {s after : Text} (inside : Interior s) (unclosed : ¬ Closes after) :
    Bare ('[' :: s) after := by
  rw [bareCons, closesAfter inside]
  exact ⟨fun _ => unclosed, bareInterior inside unclosed⟩

theorem bareLine {s after : Text} (inside : Interior s) : Bare ('[' :: (s ++ ['\n'])) after := by
  rw [← List.cons_append, bareAppend]
  refine ⟨bareOpened inside (notClosesAtNewline interiorNil), ?_⟩
  simp [bareCons, bareNil]

structure Leftmost (t : Text) (r : Region) : Prop where
  whole : t = r.lead ++ '[' :: (r.interior ++ ']' :: r.rest)
  inside : Interior r.interior
  bare : Bare r.lead ('[' :: (r.interior ++ ']' :: r.rest))

theorem leftmostNotBare {t : Text} {r : Region} (found : Leftmost t r) : ¬ Bare t [] := by
  intro bare
  have closed := closesAtBracket (t := r.rest) found.inside
  exact bare r.lead _ found.whole (by rw [List.append_nil]; exact closed)

theorem leftmostNotAfter {t : Text} {r q : Region} (left : Leftmost t r) (right : Leftmost t q) :
    q.lead.length ≤ r.lead.length := by
  apply Nat.le_of_not_lt
  intro longer
  rcases List.append_eq_append_iff.mp (left.whole.symm.trans right.whole) with
    ⟨a, lead, tail⟩ | ⟨a, lead, _⟩
  · cases a with
    | nil =>
      rw [lead, List.append_nil] at longer
      exact Nat.lt_irrefl _ longer
    | cons c a =>
      rw [List.cons_append] at tail
      obtain ⟨bracket, same⟩ := List.cons.inj tail
      subst c
      exact right.bare _ a lead (same ▸ closesAtBracket left.inside)
  · rw [lead, List.length_append] at longer
    omega

theorem leftmostUnique {t : Text} {r q : Region} (left : Leftmost t r) (right : Leftmost t q) :
    r = q := by
  have size := Nat.le_antisymm (leftmostNotAfter right left) (leftmostNotAfter left right)
  obtain ⟨lead, rest⟩ := List.append_inj (left.whole.symm.trans right.whole) size
  obtain ⟨interior, tail⟩ := interiorUnique (List.cons.inj rest).2 left.inside right.inside rfl rfl
  cases r
  cases q
  simp only at lead interior tail
  rw [lead, interior, (List.cons.inj tail).2]

namespace Region

def opened : Option Text → Text
  | none => []
  | some interior => '[' :: interior.reverse

structure Searching (lead : Text) (inside? : Option Text) (rest : Text) : Prop where
  inside : ∀ interior, inside? = some interior → Interior interior
  bare : Bare lead.reverse (opened inside? ++ rest)

def Outcome (t : Text) : Option Region → Prop
  | none => Bare t []
  | some r => Leftmost t r

theorem searchingBracket {lead rest : Text} (state : Searching lead none ('[' :: rest)) :
    Searching lead (some []) rest := by
  refine ⟨?_, by simpa [opened] using state.bare⟩
  intro _ same
  cases same
  exact interiorNil

theorem searchingPlain {lead rest : Text} {c : Char} (plain : c ≠ '[')
    (state : Searching lead none (c :: rest)) : Searching (c :: lead) none rest := by
  refine ⟨by simp, ?_⟩
  rw [List.reverse_cons, bareAppend]
  exact ⟨by simpa [opened] using state.bare, by simp [bareCons, bareNil, plain]⟩

theorem searchingInside {lead interior rest : Text} {c : Char} (inner : stops c = false)
    (state : Searching lead (some interior) (c :: rest)) :
    Searching lead (some (c :: interior)) rest := by
  refine ⟨?_, by simpa [opened] using state.bare⟩
  intro _ same
  cases same
  exact interiorCons.mpr ⟨inner, state.inside interior rfl⟩

theorem searchingLine {lead interior rest : Text}
    (state : Searching lead (some interior) ('\n' :: rest)) :
    Searching ('\n' :: (interior ++ '[' :: lead)) none rest := by
  have inside := interiorReverse.mpr (state.inside interior rfl)
  have parts : ('\n' :: (interior ++ '[' :: lead)).reverse =
      lead.reverse ++ '[' :: (interior.reverse ++ ['\n']) := by simp
  refine ⟨by simp, ?_⟩
  rw [parts, bareAppend]
  exact ⟨by simpa [opened] using state.bare, bareLine inside⟩

theorem searchOutcome {lead : Text} {inside? : Option Text} {rest : Text}
    (state : Searching lead inside? rest) :
    Outcome (lead.reverse ++ (opened inside? ++ rest)) (search lead inside? rest) := by
  induction rest generalizing lead inside? with
  | nil =>
    cases inside? with
    | none => simpa [search, Outcome, opened] using state.bare
    | some interior =>
      have inside := interiorReverse.mpr (state.inside interior rfl)
      simp only [search, Outcome, opened, List.append_nil, bareAppend]
      exact ⟨by simpa [opened] using state.bare, bareOpened inside (by decide)⟩
  | cons c rest ih =>
    cases inside? with
    | none =>
      by_cases bracket : c = '['
      · subst c
        simpa [search, opened] using ih (searchingBracket state)
      · simpa [search, opened, bracket] using ih (searchingPlain bracket state)
    | some interior =>
      by_cases close : c = ']'
      · subst c
        have inside := interiorReverse.mpr (state.inside interior rfl)
        simp only [search, if_true, Outcome]
        exact ⟨by simp [opened], inside, by simpa [opened] using state.bare⟩
      by_cases line : c = '\n'
      · subst c
        simpa [search, opened, close] using ih (searchingLine state)
      · have inner : stops c = false := by simp [stops, close, line]
        simpa [search, opened, close, line] using ih (searchingInside inner state)

theorem findOutcome (t : Text) : Outcome t (find? t) := by
  have start : Searching [] none t := ⟨by simp, bareNil _⟩
  exact searchOutcome start

theorem findExact {t : Text} {r : Region} : find? t = some r ↔ Leftmost t r := by
  have outcome := findOutcome t
  constructor
  · intro found
    rwa [found] at outcome
  · intro leftmost
    cases found : find? t with
    | none =>
      rw [found] at outcome
      exact absurd outcome (leftmostNotBare leftmost)
    | some q =>
      rw [found] at outcome
      rw [leftmostUnique outcome leftmost]

theorem findFilled {t : Text} {r : Region} (found : find? t = some r) : t ≠ [] := by
  intro empty
  rw [(findExact.mp found).whole] at empty
  simp at empty

theorem findNone {t : Text} : find? t = none ↔ Bare t [] := by
  have outcome := findOutcome t
  constructor
  · intro missing
    rwa [missing] at outcome
  · intro bare
    cases found : find? t with
    | none => rfl
    | some r => exact absurd bare (leftmostNotBare (findExact.mp found))

end Region
end Dice
