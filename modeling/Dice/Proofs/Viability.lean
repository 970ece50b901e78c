import Dice.Proofs.Canonical

/-! The leftmost problem. A list of tokens is viable when some text that is read starts
with it; the reader gets through exactly the viable lists, so the token at which it
stops is the first one that no text could make right. -/
namespace Dice

def Viable (ts : List Token) : Prop :=
  ∃ t e, Expression.parse t = .ok e ∧ ts.map Token.meaning <+: t.tokens.map Token.meaning

theorem viablePrefix {ts us : List Token} (viable : Viable us) (before : ts <+: us) :
    Viable ts := by
  obtain ⟨t, e, parsed, within⟩ := viable
  exact ⟨t, e, parsed, (before.map Token.meaning).trans within⟩

def MayStand (before : List Token) (kind : TokenKind) : Prop :=
  ∃ t : Token, t.kind = kind ∧ Viable (before ++ [t])

def SidesPlace (before : List Token) : Prop := before.getLast?.map Token.kind = some .dieMarker

instance : DecidablePred SidesPlace := fun before =>
  inferInstanceAs (Decidable (before.getLast?.map Token.kind = some .dieMarker))

inductive Blame (before : List Token) (t : Token) : Problem → Prop where
  | unrecognized (kind : t.kind = .unrecognized) : Blame before t .unrecognized
  | overflow (kind : t.kind = .integer) (place : MayStand before .integer)
      (large : 4294967295 < Decimal.value t.text) : Blame before t .integerOverflow
  | zeroSides (kind : t.kind = .integer) (place : SidesPlace before)
      (zero : Decimal.value t.text = 0) : Blame before t .zeroSides
  | unexpected (expected : List TokenKind) (kind : t.kind ≠ .unrecognized)
      (fits : ¬ (t.kind = .integer ∧ MayStand before .integer ∧
        4294967295 < Decimal.value t.text))
      (sided : ¬ (t.kind = .integer ∧ SidesPlace before ∧ Decimal.value t.text = 0)) :
      Blame before t (.unexpectedToken t.kind expected)

namespace Reading

def one : Token := ⟨.integer, 0, ['1']⟩

theorem oneStep {r : Reading} (place : .integer ∈ r.expected) :
    ∃ q, Step r one q ∧ ∀ size, ∃ e, q.finish size = .ok e := by
  have value : Decimal.value ['1'] = (1 : UInt32).toNat := rfl
  cases r with
  | start => exact ⟨_, .leadCount rfl value, fun size => ⟨_, rfl⟩⟩
  | signed earlier sign => exact ⟨_, .count rfl value, fun size => ⟨_, rfl⟩⟩
  | marked earlier sign n =>
    exact ⟨_, .sides (s := ⟨1, by decide⟩) rfl value, fun size => ⟨_, rfl⟩⟩
  | counted earlier sign n => simp [expected] at place
  | ended earlier latest => simp [expected] at place

def closing (r : Reading) : Text := if .integer ∈ r.expected then ['1'] else []

theorem closingFinishes (r : Reading) :
    ∃ q, Steps r r.closing.tokens q ∧ ∀ size, ∃ e, q.finish size = .ok e := by
  unfold closing
  split
  · next place =>
    obtain ⟨q, step, finished⟩ := oneStep place
    exact ⟨q, .cons step .nil, finished⟩
  · next complete =>
    refine ⟨r, .nil, ?_⟩
    intro size
    cases r with
    | counted earlier sign n => exact ⟨_, rfl⟩
    | ended earlier latest => exact ⟨_, rfl⟩
    | start => simp [expected] at complete
    | signed earlier sign => simp [expected] at complete
    | marked earlier sign n => simp [expected] at complete

theorem viableSteps {ts : List Token} (viable : Viable ts) : ∃ r, Steps start ts r := by
  obtain ⟨t, e, parsed, us, whole⟩ := viable
  obtain ⟨q, steps, _⟩ := parseSteps.mp parsed
  obtain ⟨front, back, split, same, _⟩ := List.map_eq_append_iff.mp whole.symm
  rw [split, stepsAppend] at steps
  obtain ⟨r, before, _⟩ := steps
  exact ⟨r, stepsMeaning same before⟩

theorem stepsViable {ts : List Token} {r : Reading} (proper : ∀ t ∈ ts, t.Proper)
    (steps : Steps start ts r) : Viable ts := by
  obtain ⟨q, rest, finished⟩ := closingFinishes r
  have tokens := Token.spacedTokens proper r.closing
  obtain ⟨e, last⟩ := finished (Text.size (Token.spaced ts ++ r.closing))
  refine ⟨Token.spaced ts ++ r.closing, e, parseSteps.mpr ⟨q, ?_, last⟩, ?_⟩
  · have whole := stepsAppend.mpr ⟨r, steps, rest⟩
    rw [← List.map_append] at tokens
    exact stepsMeaning tokens.symm whole
  · rw [tokens]
    exact List.prefix_append _ _

def AwaitsMarker (r : Reading) : Prop := ∃ earlier sign n, r = counted earlier sign n

def Admits (r : Reading) (kind : TokenKind) : Prop :=
  kind ∈ r.expected ∨ kind = .dieMarker ∧ r.AwaitsMarker

theorem stepAdmitted {r q : Reading} {t : Token} (step : Step r t q) : r.Admits t.kind := by
  have signs (s : Sign) : .sign s ∈ [TokenKind.sign .plus, .sign .minus] := by cases s <;> simp
  cases step with
  | leadSign kind => exact Or.inl (kind ▸ List.mem_append_left [.integer] (signs _))
  | leadCount kind => exact Or.inl (by simp [kind, expected])
  | count kind => exact Or.inl (kind ▸ List.mem_cons_self)
  | marker kind => exact Or.inr ⟨kind, _, _, _, rfl⟩
  | afterConstant kind => exact Or.inl (kind ▸ signs _)
  | sides kind => exact Or.inl (kind ▸ List.mem_cons_self)
  | afterDice kind => exact Or.inl (kind ▸ signs _)

theorem signStands {r : Reading} {sign : Sign} (place : .sign sign ∈ r.expected) :
    ∃ q, Step r (.ofSign sign) q := by
  cases r with
  | start => exact ⟨_, .leadSign rfl⟩
  | counted earlier before n => exact ⟨_, .afterConstant rfl⟩
  | ended earlier latest => exact ⟨_, .afterDice rfl⟩
  | signed earlier before => simp [expected] at place
  | marked earlier before n => simp [expected] at place

theorem admittedStep {r : Reading} {kind : TokenKind} (admits : r.Admits kind) :
    ∃ t q, t.kind = kind ∧ t.Proper ∧ Step r t q := by
  rcases admits with place | ⟨rfl, earlier, sign, n, rfl⟩
  · cases kind with
    | integer =>
      obtain ⟨q, step, _⟩ := oneStep place
      exact ⟨one, q, rfl, rfl, step⟩
    | sign s =>
      obtain ⟨q, step⟩ := signStands place
      exact ⟨.ofSign s, q, rfl, by cases s <;> rfl, step⟩
    | dieMarker => cases r <;> simp [expected] at place
    | unrecognized => cases r <;> simp [expected] at place
  · exact ⟨.dieMarker, _, rfl, rfl, .marker rfl⟩

theorem mayStandExact {before : List Token} {r : Reading} (proper : ∀ t ∈ before, t.Proper)
    (steps : Steps start before r) {kind : TokenKind} :
    MayStand before kind ↔ r.Admits kind := by
  constructor
  · intro h
    obtain ⟨t, rfl, viable⟩ := h
    obtain ⟨q, through⟩ := viableSteps viable
    obtain ⟨p, again, step⟩ := stepsSnoc.mp through
    obtain rfl := stepsUnique steps again
    exact stepAdmitted step
  · intro admits
    obtain ⟨t, q, kind, single, step⟩ := admittedStep admits
    refine ⟨t, kind, stepsViable ?_ (stepsSnoc.mpr ⟨r, steps, step⟩)⟩
    intro k hk
    rcases List.mem_append.mp hk with old | new
    · exact proper k old
    · rwa [List.mem_singleton.mp new]

theorem sidesPlace {before : List Token} {r : Reading} (steps : Steps start before r) :
    SidesPlace before ↔ r.AwaitsSides := by
  rcases stepsLast steps with ⟨rfl, rfl⟩ | ⟨before, t, p, rfl, _, step⟩
  · simp [SidesPlace, AwaitsSides]
  · have last : SidesPlace (before ++ [t]) ↔ t.kind = .dieMarker := by simp [SidesPlace]
    rw [last]
    cases step <;> simp [AwaitsSides, *]

theorem refusalBlame {before : List Token} {r : Reading} {t : Token} {e : ParseError}
    (proper : ∀ k ∈ before, k.Proper) (steps : Steps start before r)
    (refused : Refusal r t e) :
    e.span = t.span ∧ e.slice = t.text ∧ Blame before t e.problem := by
  have integer : MayStand before .integer ↔ .integer ∈ r.expected := by
    simp [mayStandExact proper steps, Admits]
  have place := sidesPlace steps
  cases refused with
  | unrecognized kind => exact ⟨rfl, rfl, .unrecognized kind⟩
  | overflow kind stands large =>
    exact ⟨rfl, rfl, .overflow kind (integer.mpr stands) large⟩
  | zeroSides kind stands zero => exact ⟨rfl, rfl, .zeroSides kind (place.mpr stands) zero⟩
  | unexpected kind stands =>
    refine ⟨rfl, rfl, .unexpected _ kind ?_ ?_⟩
    · intro h
      obtain ⟨isInteger, may, _⟩ := h
      exact stands (isInteger ▸ integer.mp may)
    · intro h
      obtain ⟨isInteger, sides, _⟩ := h
      obtain ⟨earlier, sign, n, rfl⟩ := place.mp sides
      exact stands (by simp [isInteger, expected])

end Reading
theorem failedSteps {t : Text} {e : ParseError} (failed : Expression.parse t = .error e) :
    (∃ before k after r, t.tokens = before ++ k :: after ∧ Reading.Steps .start before r ∧
      r.next k = .error e) ∨
    ∃ r, Reading.Steps .start t.tokens r ∧ r.finish t.size = .error e := by
  rw [Expression.parse, bindError] at failed
  rcases failed with stopped | ⟨r, through, last⟩
  · obtain ⟨before, k, after, r, whole, run, refused⟩ := foldlFails stopped
    exact Or.inl ⟨before, k, after, r, whole, Reading.stepsExact.mp run, refused⟩
  · exact Or.inr ⟨r, Reading.stepsExact.mp through, last⟩

theorem finishFails {r : Reading} {size : Nat} {e : ParseError}
    (failed : r.finish size = .error e) :
    e.problem = .unexpectedEnd r.expected ∧ e.span = ⟨size, size⟩ ∧ e.slice = [] := by
  cases r with
  | counted earlier sign n => cases failed
  | ended earlier latest => cases failed
  | start =>
    cases failed
    exact ⟨rfl, rfl, rfl⟩
  | signed earlier sign =>
    cases failed
    exact ⟨rfl, rfl, rfl⟩
  | marked earlier sign n =>
    cases failed
    exact ⟨rfl, rfl, rfl⟩

theorem refusedNotViable {before : List Token} {r : Reading} {t : Token} {e : ParseError}
    (steps : Reading.Steps .start before r) (refused : r.next t = .error e) :
    ¬ Viable (before ++ [t]) := by
  intro viable
  obtain ⟨q, through⟩ := Reading.viableSteps viable
  obtain ⟨p, again, step⟩ := Reading.stepsSnoc.mp through
  obtain rfl := Reading.stepsUnique steps again
  rw [Reading.stepNext step] at refused
  contradiction

theorem leftmostProblem {t : Text} {e : ParseError} (failed : Expression.parse t = .error e) :
    ((∃ ts, ts <+: t.tokens ∧ ¬ Viable ts) →
      ∃ before k after, t.tokens = before ++ k :: after ∧ (∀ ts, ts <+: before → Viable ts) ∧
        ¬ Viable (before ++ [k]) ∧ e.span = k.span ∧ e.slice = k.text ∧
        Blame before k e.problem) ∧
    ((∀ ts, ts <+: t.tokens → Viable ts) →
      (∃ expected, e.problem = .unexpectedEnd expected) ∧ e.span = ⟨t.size, t.size⟩ ∧
        e.slice = []) ∧
    ∃ a b, t = a ++ e.slice ++ b ∧ e.span = ⟨Text.size a, Text.size (a ++ e.slice)⟩ := by
  have proper : ∀ k ∈ t.tokens, k.Proper := fun k hk => Token.properOf hk
  rcases failedSteps failed with ⟨before, k, after, r, whole, steps, refused⟩ | ⟨r, steps, last⟩
  · have front : ∀ x ∈ before, x.Proper := fun x hx => proper x (by simp [whole, hx])
    have bad := refusedNotViable steps refused
    obtain ⟨span, slice, blame⟩ :=
      Reading.refusalBlame front steps (Reading.nextRefusal refused)
    refine ⟨fun _ => ⟨before, k, after, whole, ?_, bad, span, slice, blame⟩, ?_, ?_⟩
    · intro ts within
      exact viablePrefix (Reading.stepsViable front steps) within
    · intro all
      exact absurd (all _ ⟨after, by simp [whole]⟩) bad
    · obtain ⟨a, b, text, place⟩ := Token.slice (t := t) (k := k) (by simp [whole])
      exact ⟨a, b, by rw [slice, ← text], by rw [span, slice, place]⟩
  · obtain ⟨problem, span, slice⟩ := finishFails last
    refine ⟨?_, fun _ => ⟨⟨_, problem⟩, span, slice⟩, ?_⟩
    · intro h
      obtain ⟨ts, within, bad⟩ := h
      exact absurd (viablePrefix (Reading.stepsViable proper steps) within) bad
    · exact ⟨t, [], by simp [slice], by simp [span, slice]⟩

theorem leftmostProblemZeroSides :
    Expression.parse ['1', '+', '3', 'd', '0', '0', 'x'] =
      .error ⟨.zeroSides, ⟨4, 6⟩, ['0', '0']⟩ ∧
    ∃ before k after, Text.tokens ['1', '+', '3', 'd', '0', '0', 'x'] = before ++ k :: after ∧
      (∀ ts, ts <+: before → Viable ts) ∧ ¬ Viable (before ++ [k]) ∧
      (⟨4, 6⟩ : Span) = k.span ∧ ['0', '0'] = k.text ∧ Blame before k .zeroSides := by
  have failed : Expression.parse ['1', '+', '3', 'd', '0', '0', 'x'] =
      .error ⟨.zeroSides, ⟨4, 6⟩, ['0', '0']⟩ := by decide
  have steps : Reading.Steps .start
      [⟨.integer, 0, ['1']⟩, ⟨.sign .plus, 1, ['+']⟩, ⟨.integer, 2, ['3']⟩, ⟨.dieMarker, 3, ['d']⟩]
      (.marked [⟨.plus, .constant 1⟩] .plus 3) := Reading.stepsExact.mp (by decide)
  have refused : Reading.next (.marked [⟨.plus, .constant 1⟩] .plus 3)
      ⟨.integer, 4, ['0', '0']⟩ = .error ⟨.zeroSides, ⟨4, 6⟩, ['0', '0']⟩ := by decide
  refine ⟨failed, (leftmostProblem failed).1 ⟨_, ?_, refusedNotViable steps refused⟩⟩
  exact ⟨[⟨.unrecognized, 6, ['x']⟩], by decide⟩

end Dice
