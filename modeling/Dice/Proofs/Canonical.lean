import Dice.Expression.Canonical
import Dice.Proofs.Grammar

/-! Canonical text is read back as the expression that was written. A number is written with
digits alone and nothing that follows one starts with a digit, so the tokens of the text are
those of the clauses, one clause for each term. -/
namespace Dice

namespace Text

def meanings (t : Text) : List (TokenKind × Option Nat) := t.tokens.map Token.meaning

def Apart (t : Text) : Prop := ∀ c ∈ t.head?, c.isDigit = false

theorem meaningsLexemes (t : Text) : t.meanings =
    t.lexemes.flatMap fun l => (l.kind?.map fun kind => Token.meaning ⟨kind, 0, l.text⟩).toList :=
  Token.locateMeaning 0 t.lexemes

theorem meaningsAppend {s u : Text} (apart : ¬ Fuses s u) :
    (s ++ u).meanings = s.meanings ++ u.meanings := by
  simp only [meaningsLexemes, lexemesAppend apart, List.flatMap_append]

theorem lexemesDigits {ds : Text} (filled : ds ≠ []) (digits : ∀ c ∈ ds, c.isDigit) :
    ds.lexemes = [⟨some .integer, ds⟩] := by
  induction ds with
  | nil => contradiction
  | cons c ds ih =>
    have kind := kindInteger.mpr (digits c (by simp))
    rw [lexemesCons]
    cases ds with
    | nil => exact congrArg (fun kind? => [Lexeme.mk kind? [c]]) kind
    | cons d ds =>
      rw [ih (by simp) fun x hx => digits x (by simp [hx])]
      exact if_pos ⟨kind, rfl⟩

theorem meaningsNumber (n : Nat) {u : Text} (apart : u.Apart) :
    (Decimal.ofNat n ++ u).meanings = (.integer, some n) :: u.meanings := by
  have digits : ∀ c ∈ Decimal.ofNat n, c.isDigit := fun c hc => Decimal.ofNatDigits hc
  have number : (Decimal.ofNat n).meanings = [(.integer, some n)] := by
    rw [meaningsLexemes, lexemesDigits (Decimal.ofNatNonempty n) digits]
    simp [Token.meaning]
  rw [meaningsAppend (apartBefore apart _), number]
  rfl

theorem meaningsCons {c : Char} (plain : c.isDigit = false) (u : Text) :
    meanings (c :: u) = meanings [c] ++ u.meanings :=
  meaningsAppend (s := [c]) (apartAfter plain [] u)

end Text

namespace Token

def ofNat (n : Nat) : Token := ⟨.integer, 0, Decimal.ofNat n⟩

def ofSign (s : Sign) : Token := ⟨.sign s, 0, [s.symbol]⟩

def dieMarker : Token := ⟨.dieMarker, 0, ['d']⟩

theorem meaningOfNat (n : Nat) : (ofNat n).meaning = (.integer, some n) := by
  simp [ofNat, meaning]

end Token

theorem meaningsSign (s : Sign) (u : Text) :
    Text.meanings (s.symbol :: u) = (Token.ofSign s).meaning :: u.meanings := by
  cases s with
  | plus => exact Text.meaningsCons (by decide) u
  | minus => exact Text.meaningsCons (by decide) u

theorem meaningsMarker (u : Text) :
    Text.meanings ('d' :: u) = Token.dieMarker.meaning :: u.meanings :=
  Text.meaningsCons (by decide) u

theorem meaningsBlank (u : Text) : Text.meanings (' ' :: u) = u.meanings :=
  Text.meaningsCons (by decide) u

namespace Quantity

def clause (sign? : Option Token) : Quantity → Clause
  | constant value => ⟨sign?, .ofNat value.toNat, none⟩
  | dice count sides =>
    ⟨sign?, .ofNat count.toNat, some (.dieMarker, .ofNat sides.toNat)⟩

theorem clauseSign (sign? : Option Token) (q : Quantity) : (q.clause sign?).sign? = sign? := by
  cases q <;> rfl

theorem clauseFormed {sign? : Option Token} (isSign : ∀ t ∈ sign?, ∃ s, t.kind = .sign s)
    (q : Quantity) : (q.clause sign?).Formed := by
  cases q with
  | constant value => exact ⟨isSign, rfl, nofun⟩
  | dice count sides =>
    refine ⟨isSign, rfl, ?_⟩
    intro _ h
    cases h
    exact ⟨rfl, rfl⟩

theorem clauseDenotes {sign? : Option Token} {s : Sign}
    (same : (sign?.bind fun t => t.kind.sign?).getD .plus = s) (q : Quantity) :
    (q.clause sign?).Denotes ⟨s, q⟩ := by
  subst same
  cases q with
  | constant value => exact ⟨rfl, (Decimal.valueOfNat _).symm, rfl⟩
  | dice count sides =>
    exact ⟨rfl, (Decimal.valueOfNat _).symm, congrArg some (Decimal.valueOfNat _).symm⟩

theorem meaningsCanonical (sign? : Option Token) (q : Quantity) {u : Text} (apart : u.Apart) :
    Text.meanings (q.canonical ++ u) = (q.clause sign?).body.map Token.meaning ++ u.meanings := by
  cases q with
  | constant value =>
    rw [canonical, Text.meaningsNumber _ apart, ← Token.meaningOfNat]
    rfl
  | dice count sides =>
    have marked : Text.Apart ('d' :: (Decimal.ofNat sides.toNat ++ u)) := by simp [Text.Apart]
    rw [canonical, List.append_assoc, List.cons_append, Text.meaningsNumber _ marked,
      meaningsMarker, Text.meaningsNumber _ apart, ← Token.meaningOfNat, ← Token.meaningOfNat]
    rfl

end Quantity

namespace Term

def clause (t : Term) : Clause := t.quantity.clause (some (.ofSign t.sign))

theorem clauseDenotes (t : Term) : t.clause.Denotes t := Quantity.clauseDenotes rfl t.quantity

theorem meaningsCanonical (t : Term) {u : Text} (apart : u.Apart) :
    Text.meanings (' ' :: t.canonical ++ u) = t.clause.tokens.map Token.meaning ++ u.meanings := by
  rw [canonical, List.cons_append, List.cons_append, List.cons_append, meaningsBlank,
    meaningsSign, meaningsBlank,
    Quantity.meaningsCanonical (some (.ofSign t.sign)) t.quantity apart, Clause.tokens, clause,
    Quantity.clauseSign]
  rfl

def writtenAfter (ts : List Term) : Text := ts.flatMap fun t => ' ' :: t.canonical

theorem writtenAfterApart (ts : List Term) : (writtenAfter ts).Apart := by
  cases ts with
  | nil => simp [writtenAfter, Text.Apart]
  | cons t ts => simp [writtenAfter, Text.Apart]

theorem meaningsWrittenAfter (ts : List Term) :
    (writtenAfter ts).meanings = ((ts.map clause).flatMap Clause.tokens).map Token.meaning := by
  induction ts with
  | nil => rfl
  | cons t ts ih =>
    have first := meaningsCanonical t (writtenAfterApart ts)
    rw [ih] at first
    rw [List.map_cons, List.flatMap_cons, List.map_append, ← first]
    rfl

end Term

def Sign.leadToken? : Sign → Option Token
  | .plus => none
  | .minus => some (.ofSign .minus)

theorem meaningsLeading (s : Sign) (u : Text) :
    Text.meanings (s.leading ++ u) = s.leadToken?.toList.map Token.meaning ++ u.meanings := by
  cases s with
  | plus => rfl
  | minus => exact meaningsSign .minus u

namespace Expression

def clauses (e : Expression) : List Clause :=
  e.first.quantity.clause e.first.sign.leadToken? :: e.rest.map Term.clause

theorem clausesFollow (e : Expression) : Reading.Follows .start e.clauses := by
  refine ⟨?_, fun _ _ _ => rfl, ?_⟩
  · intro c hc
    rcases List.mem_cons.mp hc with rfl | later
    · apply Quantity.clauseFormed
      intro t ht
      cases sign : e.first.sign with
      | plus => simp [sign, Sign.leadToken?] at ht
      | minus =>
        rw [sign] at ht
        cases ht
        exact ⟨.minus, rfl⟩
    · obtain ⟨t, _, rfl⟩ := List.mem_map.mp later
      refine Quantity.clauseFormed ?_ t.quantity
      intro k hk
      cases hk
      exact ⟨t.sign, rfl⟩
  · intro c hc
    obtain ⟨t, _, rfl⟩ := List.mem_map.mp hc
    rw [Term.clause, Quantity.clauseSign]
    simp

theorem clausesDenote (e : Expression) : List.Forall₂ Clause.Denotes e.clauses e.terms := by
  refine .cons (Quantity.clauseDenotes ?_ e.first.quantity) ?_
  · cases e.first.sign <;> rfl
  · rw [List.forall₂_map_left_iff]
    exact List.forall₂_same.mpr fun t _ => t.clauseDenotes

theorem meaningsCanonical (e : Expression) :
    e.canonical.meanings = (e.clauses.flatMap Clause.tokens).map Token.meaning := by
  have apart := Term.writtenAfterApart e.rest
  change Text.meanings (e.first.sign.leading ++ e.first.quantity.canonical ++
    Term.writtenAfter e.rest) = _
  rw [List.append_assoc, meaningsLeading,
    Quantity.meaningsCanonical e.first.sign.leadToken? e.first.quantity apart,
    Term.meaningsWrittenAfter, clauses, List.flatMap_cons, List.map_append, Clause.tokens,
    Quantity.clauseSign, List.map_append, List.append_assoc]

theorem parseCanonical (e : Expression) : parse e.canonical = .ok e :=
  clausesParse e.clausesFollow e.clausesDenote e.meaningsCanonical

end Expression

def Text.canonical (t : Text) : Except ParseError Text := return (← Expression.parse t).canonical

theorem canonicalInverse :
    (∀ e, Expression.parse e.canonical = .ok e) ∧
    (∀ d e : Expression, d.canonical = e.canonical → d = e) ∧
    ∀ t e, Expression.parse t = .ok e →
      Expression.parse e.canonical = Expression.parse t ∧
      t.canonical = .ok e.canonical ∧ Text.canonical e.canonical = .ok e.canonical := by
  have canonical {t : Text} {e : Expression} (read : Expression.parse t = .ok e) :
      t.canonical = .ok e.canonical := by
    rw [Text.canonical, read]
    rfl
  refine ⟨Expression.parseCanonical, ?_, ?_⟩
  · intro d e same
    have left := d.parseCanonical
    rw [same, e.parseCanonical] at left
    exact (Except.ok.inj left).symm
  · intro t e read
    rw [read]
    exact ⟨e.parseCanonical, canonical read, canonical e.parseCanonical⟩

theorem canonicalInverseNoDice :
    Expression.parse
        ['+', '0', '7', '-', '0', 'D', '4', '2', '9', '4', '9', '6', '7', '2', '9', '5'] =
      .ok ⟨⟨.plus, .constant 7⟩, [⟨.minus, .dice 0 ⟨4294967295, by decide⟩⟩]⟩ ∧
    Text.canonical
        ['+', '0', '7', '-', '0', 'D', '4', '2', '9', '4', '9', '6', '7', '2', '9', '5'] =
      .ok ['7', ' ', '-', ' ', '0', 'd', '4', '2', '9', '4', '9', '6', '7', '2', '9', '5'] ∧
    Text.canonical
        ['7', ' ', '-', ' ', '0', 'd', '4', '2', '9', '4', '9', '6', '7', '2', '9', '5'] =
      .ok ['7', ' ', '-', ' ', '0', 'd', '4', '2', '9', '4', '9', '6', '7', '2', '9', '5'] := by
  have read : Expression.parse
      ['+', '0', '7', '-', '0', 'D', '4', '2', '9', '4', '9', '6', '7', '2', '9', '5'] =
      .ok ⟨⟨.plus, .constant 7⟩, [⟨.minus, .dice 0 ⟨4294967295, by decide⟩⟩]⟩ := by decide
  exact ⟨read, (canonicalInverse.2.2 _ _ read).2⟩

end Dice
