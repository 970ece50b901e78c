import Dice.Proofs.Reading

/-! Blanks between tokens. One more of them leaves every token as it is and moves those behind it,
so a notation is read as before, or is refused for the same token and the same reason, which then
stands one byte further on. -/
namespace Dice

def ParseError.moved (n : Nat) (e : ParseError) : ParseError :=
  { e with span := ⟨e.span.start + n, e.span.stop + n⟩ }

namespace Token

theorem aboutMoved (n : Nat) (t : Token) (p : Problem) :
    ParseError.about (t.moved n) p = (ParseError.about t p).moved n := by
  simp [ParseError.about, ParseError.moved, span, moved, Nat.add_right_comm]

theorem refusalMoved (n : Nat) (t : Token) (expected : List TokenKind) :
    (t.moved n).refusal expected = (t.refusal expected).moved n := by
  have kind : (t.moved n).kind = t.kind := rfl
  unfold refusal
  rw [kind]
  split <;> exact aboutMoved n t _

theorem numberMoved (n : Nat) (t : Token) :
    (t.moved n).number = t.number.mapError (ParseError.moved n) := by
  have text : (t.moved n).text = t.text := rfl
  simp only [number, aboutMoved, text]
  split <;> rfl

theorem sidesMoved (n : Nat) (t : Token) :
    (t.moved n).sides = t.sides.mapError (ParseError.moved n) := by
  simp only [sides, numberMoved, mapErrorBind, aboutMoved]
  refine congrArg _ (funext fun word => ?_)
  split <;> rfl

end Token

namespace Reading

theorem nextMoved (n : Nat) (r : Reading) (t : Token) :
    r.next (t.moved n) = (r.next t).mapError (ParseError.moved n) := by
  have kind : (t.moved n).kind = t.kind := rfl
  unfold next
  rw [kind]
  split
  case h_2 | h_3 => rw [Token.numberMoved, mapErrorBind]; rfl
  case h_6 => rw [Token.sidesMoved, mapErrorBind]; rfl
  case h_8 => exact congrArg _ (Token.refusalMoved n t _)
  all_goals rfl

theorem stepsMoved (n : Nat) (r : Reading) (ts : List Token) :
    (ts.map (Token.moved n)).foldlM next r =
      (ts.foldlM next r).mapError (ParseError.moved n) := by
  induction ts generalizing r with
  | nil => rfl
  | cons t ts ih => simp only [List.map_cons, List.foldlM_cons, nextMoved, mapErrorBind, ih]

theorem finishMoved (n : Nat) (r : Reading) (size : Nat) :
    r.finish (n + size) = (r.finish size).mapError (ParseError.moved n) := by
  rw [Nat.add_comm]
  cases r <;> rfl

def read (r : Reading) (t : Text) : Except ParseError Expression := do
  (← t.tokens.foldlM next r).finish t.size

theorem parseAppend {x y : Text} (apart : ¬ Fuses x y) :
    Expression.parse (x ++ y) = (do
      let place ← x.tokens.foldlM next start
      (place.read y).mapError (ParseError.moved x.size)) := by
  simp only [Expression.parse, Text.tokensAppend apart, List.foldlM_append, bind_assoc,
    stepsMoved, Text.sizeAppend, finishMoved, read, mapErrorBind]

theorem nextSpan {r : Reading} {t : Token} {e : ParseError} (failed : r.next t = .error e) :
    e.span = t.span := by
  cases nextRefusal failed <;> rfl

theorem stepsSpan {t : Text} {e : ParseError} (failed : t.tokens.foldlM next start = .error e) :
    e.span.start < t.size := by
  obtain ⟨before, k, after, place, whole, _, refused⟩ := foldlFails failed
  have member : k ∈ t.tokens := by simp [whole]
  obtain ⟨a, b, text, span⟩ := Token.slice member
  have positive := Text.sizePositive (Token.properFilled (Token.properOf member))
  rw [nextSpan refused, span, text]
  simp only [Text.sizeAppend]
  omega

end Reading

/-- The same error when there is one more byte at a place: what stands there or behind it moves. -/
def ParseError.spaced (place : Nat) (e : ParseError) : ParseError :=
  if place ≤ e.span.start then e.moved 1 else e

theorem parseSpaced {x y : Text} {c : Char} (blank : c ∈ Text.blanks) (apart : ¬ Fuses x y) :
    Expression.parse (x ++ c :: y) =
      (Expression.parse (x ++ y)).mapError (ParseError.spaced x.size) := by
  have spaced := Reading.parseAppend (Text.blankApart blank x y)
  rw [Text.tokensBlank blank, Text.sizeAppend, Text.blankSize c blank, List.append_assoc,
    List.singleton_append] at spaced
  rw [spaced, Reading.parseAppend apart]
  cases front : x.tokens.foldlM Reading.next .start with
  | error e =>
    have place := Reading.stepsSpan front
    change Except.error e = .error (e.spaced x.size)
    rw [ParseError.spaced, if_neg (Nat.not_le.mpr place)]
  | ok place =>
    change (place.read y).mapError _ = ((place.read y).mapError _).mapError _
    cases place.read y with
    | ok e => rfl
    | error e =>
      have behind : x.size ≤ (e.moved x.size).span.start := Nat.le_add_left _ _
      change Except.error (e.moved (x.size + 1)) = .error ((e.moved x.size).spaced x.size)
      rw [ParseError.spaced, if_pos behind]
      rfl

theorem parseSpacedZeroSides :
    '\t' ∈ Text.blanks ∧ ¬ Fuses ['2', 'd'] ['0', '0', 'é'] ∧
    Expression.parse ['2', 'd', '0', '0', 'é'] = .error ⟨.zeroSides, ⟨2, 4⟩, ['0', '0']⟩ ∧
    Expression.parse ['2', 'd', '\t', '0', '0', 'é'] =
      .error ⟨.zeroSides, ⟨3, 5⟩, ['0', '0']⟩ := by
  have blank : '\t' ∈ Text.blanks := by decide
  have apart : ¬ Fuses ['2', 'd'] ['0', '0', 'é'] := apartAfter (c := 'd') rfl ['2'] _
  have tight : Expression.parse ['2', 'd', '0', '0', 'é'] =
      .error ⟨.zeroSides, ⟨2, 4⟩, ['0', '0']⟩ := rfl
  have spaced := parseSpaced blank apart
  simp only [List.cons_append, List.nil_append, tight] at spaced
  exact ⟨blank, apart, tight, spaced⟩

end Dice
