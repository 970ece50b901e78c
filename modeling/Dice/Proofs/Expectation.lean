import Dice.Proofs.Viability

/-! What a complaint says should have come. The kinds it lists are those that some text goes on
with from there; only the die marker is left out behind a number, where it may always come. -/
namespace Dice

def Text.tokensBefore (t : Text) (place : Nat) : List Token :=
  t.tokens.filter fun k => k.start < place

/-- Some tokens end in a number that a die marker may follow: it is no number of sides. -/
def EndsInCount (before : List Token) : Prop :=
  before.getLast?.map Token.kind = some .integer ∧ ¬ SidesPlace before.dropLast

instance : DecidablePred EndsInCount := fun _ => inferInstanceAs (Decidable (_ ∧ _))

def Problem.expected? : Problem → Option (List TokenKind)
  | .unexpectedToken _ expected => some expected
  | .unexpectedEnd expected => some expected
  | .unrecognized | .zeroSides | .integerOverflow => none

theorem tokensBeforeToken {t : Text} {before after : List Token} {k : Token}
    (whole : t.tokens = before ++ k :: after) : t.tokensBefore k.start = before := by
  have apart := Token.locateApart 0 t.lexemes
  change t.tokens.Pairwise _ at apart
  rw [whole, List.pairwise_append, List.pairwise_cons] at apart
  obtain ⟨_, ⟨later, _⟩, earlier⟩ := apart
  have front : ∀ b ∈ before, b.start < k.start := by
    intro b hb
    have filled := Text.sizePositive (Token.properFilled (Token.properOf (t := t) (k := b)
      (by simp [whole, hb])))
    have stop := earlier b hb k List.mem_cons_self
    simp only [Token.span] at stop
    omega
  have back : ∀ a ∈ k :: after, ¬ a.start < k.start := by
    intro a ha
    rcases List.mem_cons.mp ha with rfl | behind
    · exact Nat.lt_irrefl _
    · have stop := later a behind
      simp only [Token.span] at stop
      omega
  rw [Text.tokensBefore, whole, List.filter_append, List.filter_eq_self.mpr (by simpa using front),
    List.filter_eq_nil_iff.mpr (by simpa using back), List.append_nil]

theorem tokensBeforeEnd (t : Text) : t.tokensBefore t.size = t.tokens := by
  refine List.filter_eq_self.mpr ?_
  intro k hk
  obtain ⟨a, b, whole, place⟩ := Token.slice hk
  have filled := Text.sizePositive (Token.properFilled (Token.properOf hk))
  have size := congrArg Text.size whole
  have start : k.start = Text.size a := congrArg Span.start place
  rw [Text.sizeAppend, Text.sizeAppend] at size
  exact decide_eq_true (by omega)

namespace Reading

theorem endsInCount {before : List Token} {r : Reading} (steps : Steps start before r) :
    EndsInCount before ↔ r.AwaitsMarker := by
  rcases stepsLast steps with ⟨rfl, rfl⟩ | ⟨before, t, p, rfl, earlier, step⟩
  · simp [EndsInCount, AwaitsMarker]
  · have last : EndsInCount (before ++ [t]) ↔ t.kind = .integer ∧ ¬ p.AwaitsSides := by
      simp [EndsInCount, sidesPlace earlier]
    rw [last]
    cases step <;> simp [AwaitsMarker, AwaitsSides, *]

theorem expectedDistinct (r : Reading) : r.expected.Nodup := by
  cases r <;> simp [expected]

theorem markerUnlisted (r : Reading) : .dieMarker ∉ r.expected := by
  cases r <;> simp [expected]

theorem listedExact {r : Reading} {kind : TokenKind} :
    kind ∈ r.expected ↔ r.Admits kind ∧ ¬ (kind = .dieMarker ∧ r.AwaitsMarker) := by
  constructor
  · intro listed
    refine ⟨Or.inl listed, ?_⟩
    intro marker
    exact r.markerUnlisted (marker.1 ▸ listed)
  · intro h
    obtain ⟨listed | marker, other⟩ := h
    · exact listed
    · exact absurd marker other

end Reading

theorem listedPlace {t : Text} {e : ParseError} {expected : List TokenKind}
    (failed : Expression.parse t = .error e) (listed : e.problem.expected? = some expected) :
    ∃ r, Reading.Steps .start (t.tokensBefore e.span.start) r ∧ expected = r.expected ∧
      ∀ found, e.problem = .unexpectedToken found expected →
        found ≠ .unrecognized ∧ found ∉ expected := by
  rcases failedSteps failed with ⟨before, k, after, r, whole, steps, refused⟩ | ⟨r, steps, last⟩
  · cases Reading.nextRefusal refused with
    | unrecognized kind => cases listed
    | overflow kind place large => cases listed
    | zeroSides kind place zero => cases listed
    | unexpected kind place =>
      cases listed
      refine ⟨r, ?_, rfl, ?_⟩
      · change Reading.Steps .start (t.tokensBefore k.start) r
        rwa [tokensBeforeToken whole]
      · intro found same
        cases same
        exact ⟨kind, place⟩
  · obtain ⟨problem, span, _⟩ := finishFails last
    rw [problem] at listed
    cases listed
    refine ⟨r, ?_, rfl, ?_⟩
    · rwa [span, tokensBeforeEnd]
    · intro found same
      rw [problem] at same
      cases same

theorem expectedExact {t : Text} {e : ParseError} {expected : List TokenKind}
    (failed : Expression.parse t = .error e) (listed : e.problem.expected? = some expected) :
    expected.Nodup ∧
    (∀ kind, kind ∈ expected ↔ MayStand (t.tokensBefore e.span.start) kind ∧
      ¬ (kind = .dieMarker ∧ EndsInCount (t.tokensBefore e.span.start))) ∧
    (EndsInCount (t.tokensBefore e.span.start) →
      MayStand (t.tokensBefore e.span.start) .dieMarker) ∧
    ∀ found, e.problem = .unexpectedToken found expected →
      found ≠ .unrecognized ∧ found ∉ expected := by
  obtain ⟨r, steps, rfl, others⟩ := listedPlace failed listed
  have proper : ∀ k ∈ t.tokensBefore e.span.start, k.Proper :=
    fun k hk => Token.properOf (List.mem_of_mem_filter hk)
  have count := Reading.endsInCount steps
  refine ⟨r.expectedDistinct, ?_, ?_, others⟩
  · intro kind
    rw [Reading.mayStandExact proper steps, count]
    exact Reading.listedExact
  · intro ends
    exact (Reading.mayStandExact proper steps).mpr (Or.inr ⟨rfl, count.mp ends⟩)

theorem expectedExactAfterCount :
    Expression.parse "1d4 + 2 7".toList =
      .error ⟨.unexpectedToken .integer [.sign .plus, .sign .minus], ⟨8, 9⟩, ['7']⟩ ∧
    EndsInCount (Text.tokensBefore "1d4 + 2 7".toList 8) ∧
    MayStand (Text.tokensBefore "1d4 + 2 7".toList 8) .dieMarker ∧
    MayStand (Text.tokensBefore "1d4 + 2 7".toList 8) (.sign .minus) ∧
    ¬ MayStand (Text.tokensBefore "1d4 + 2 7".toList 8) .integer := by
  have failed : Expression.parse "1d4 + 2 7".toList =
      .error ⟨.unexpectedToken .integer [.sign .plus, .sign .minus], ⟨8, 9⟩, ['7']⟩ := rfl
  obtain ⟨_, kinds, marker, _⟩ := expectedExact failed rfl
  have ends : EndsInCount (Text.tokensBefore "1d4 + 2 7".toList 8) := by decide
  refine ⟨failed, ends, marker ends, ((kinds (.sign .minus)).mp (by decide)).1, ?_⟩
  intro stands
  have listed := (kinds .integer).mpr ⟨stands, by simp⟩
  exact absurd listed (by decide)

end Dice
