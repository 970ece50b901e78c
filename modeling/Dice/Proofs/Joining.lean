import Dice.Face.Listed
import Dice.Proofs.Canonical
import Dice.Proofs.Overflow

/-! Notations written one after the other. The second one keeps its leading sign or is given one,
and the whole is then read as the terms of both, is rolled as both in turn, from one source, and
comes to the sum of both. -/
namespace Dice

namespace Expression

def join (d e : Expression) : Expression := ⟨d.first, d.rest ++ e.terms⟩

theorem joinTerms (d e : Expression) : (d.join e).terms = d.terms ++ e.terms := by
  simp [join, terms]

def led (e : Expression) (s : Sign) : Expression := ⟨⟨s, e.first.quantity⟩, e.rest⟩

end Expression

def Text.leadingSign? (t : Text) : Option Sign := t.tokens.head?.bind fun k => k.kind.sign?

theorem leadingKind {c : Char} {kind : TokenKind} (admitted : TokenKind.ofChar? c = some kind)
    (t : Text) : Text.leadingSign? (c :: t) = kind.sign? := by
  obtain ⟨l, rest, shape, same⟩ := Text.attachHead c (Text.lexemes t)
  rw [admitted] at same
  rw [Text.leadingSign?, Text.tokens, Text.lexemesCons, shape, Token.locateCons, same]
  rfl

theorem leadingSymbol (s : Sign) (t : Text) : Text.leadingSign? (s.symbol :: t) = some s := by
  have admitted : TokenKind.ofChar? s.symbol = some (.sign s) := by cases s <;> rfl
  exact leadingKind admitted t

theorem signedApart {a b : Text} (signed : b.leadingSign? ≠ none) : ¬ Fuses a b := by
  intro fuses
  obtain ⟨_, d, _, first, _, digit⟩ := fuses
  obtain ⟨t, rfl⟩ := List.head?_eq_some_iff.mp first
  exact signed (leadingKind (Text.kindInteger.mpr digit) t)

namespace Clause

def led (c : Clause) (s : Sign) : Clause := { c with sign? := some (.ofSign s) }

theorem ledFormed {c : Clause} (formed : c.Formed) (s : Sign) : (c.led s).Formed := by
  refine ⟨?_, formed.count, formed.die⟩
  intro t ht
  cases ht
  exact ⟨s, rfl⟩

theorem ledDenotes {c : Clause} {t : Term} (denotes : c.Denotes t) (s : Sign) :
    (c.led s).Denotes ⟨s, t.quantity⟩ := ⟨rfl, denotes.count, denotes.sides⟩

theorem leadingSign {t : Text} {c : Clause} {cs : List Clause} (formed : c.Formed)
    (whole : (c :: cs).flatMap tokens = t.tokens) :
    t.leadingSign? = none ↔ c.sign? = none := by
  rw [Text.leadingSign?, ← whole, List.flatMap_cons, tokens, body]
  cases sign : c.sign? with
  | none => simp [formed.count, TokenKind.sign?]
  | some k =>
    obtain ⟨s, kind⟩ := formed.sign k sign
    simp [kind, TokenKind.sign?]

end Clause

theorem parsedClauses {t : Text} {e : Expression} (parsed : Expression.parse t = .ok e) :
    ∃ c cs, (c :: cs).flatMap Clause.tokens = t.tokens ∧ Reading.Follows .start (c :: cs) ∧
      c.Formed ∧ c.Denotes e.first ∧ List.Forall₂ Clause.Denotes cs e.rest := by
  obtain ⟨cs, derives, _⟩ := parsedDerives parsed
  have denote := parsedTerms parsed derives
  cases cs with
  | nil => exact absurd rfl derives.nonempty
  | cons c cs =>
    obtain ⟨first, rest⟩ := List.forall₂_cons.mp denote
    exact ⟨c, cs, derives.whole, derivesFollows derives, derives.formed c (by simp), first, rest⟩

theorem parseJoined {a b : Text} {d e : Expression} (first : Expression.parse a = .ok d)
    (second : Expression.parse b = .ok e) (signed : b.leadingSign? ≠ none) :
    Expression.parse (a ++ b) = .ok (d.join e) := by
  obtain ⟨c, cs, front, left, _, start, earlier⟩ := parsedClauses first
  obtain ⟨h, hs, back, right, formed, head, later⟩ := parsedClauses second
  have lead : h.sign? ≠ none := fun missing =>
    signed ((Clause.leadingSign formed back).mpr missing)
  have follows := Reading.followsAppend left right fun _ k hk => by
    cases hk
    exact lead
  have meanings := Text.meaningsAppend (signedApart (a := a) signed)
  refine clausesParse follows ?_ ?_
  · rw [Expression.joinTerms]
    exact List.rel_append (.cons start earlier) (.cons head later)
  · rw [List.flatMap_append, List.map_append, front, back]
    exact meanings

theorem parseLed {t : Text} {e : Expression} (parsed : Expression.parse t = .ok e)
    (plain : t.leadingSign? = none) (s : Sign) :
    Expression.parse (s.symbol :: t) = .ok (e.led s) := by
  obtain ⟨c, cs, whole, follows, formed, head, later⟩ := parsedClauses parsed
  have unsigned := (Clause.leadingSign formed whole).mp plain
  have led : Reading.Follows .start (c.led s :: cs) := by
    refine ⟨?_, fun _ _ _ => rfl, follows.signed⟩
    intro k hk
    rcases List.mem_cons.mp hk with rfl | rest
    · exact Clause.ledFormed formed s
    · exact follows.formed k (List.mem_cons_of_mem _ rest)
  have tokens : (c.led s :: cs).flatMap Clause.tokens = .ofSign s :: t.tokens := by
    rw [← whole]
    simp [Clause.tokens, Clause.led, Clause.body, unsigned]
  refine clausesParse led (.cons (Clause.ledDenotes head s) later) ?_
  rw [tokens]
  exact meaningsSign s t

theorem plainLed {t : Text} {e : Expression} (parsed : Expression.parse t = .ok e)
    (plain : t.leadingSign? = none) : e.led .plus = e := by
  obtain ⟨c, cs, whole, _, formed, denotes, _⟩ := parsedClauses parsed
  have unsigned := (Clause.leadingSign formed whole).mp plain
  have sign : e.first.sign = .plus := by
    rw [denotes.sign, Clause.sign, unsigned]
    rfl
  rw [Expression.led, ← sign]

theorem parseSignJoined {a b : Text} {d e : Expression} (first : Expression.parse a = .ok d)
    (second : Expression.parse b = .ok e) (plain : b.leadingSign? = none) (s : Sign) :
    Expression.parse (a ++ s.symbol :: b) = .ok (d.join (e.led s)) := by
  refine parseJoined first (parseLed second plain s) ?_
  rw [leadingSymbol]
  exact Option.some_ne_none s

namespace Roll

def join (r s : Roll) : Roll := ⟨r.first, r.rest ++ s.parts⟩

theorem joinParts (r s : Roll) : (r.join s).parts = r.parts ++ s.parts := by simp [join, parts]

theorem sharesAppend (ps qs : List Part) : shares (ps ++ qs) = shares ps + shares qs := by
  induction ps with
  | nil => simp [shares]
  | cons p ps ih => simp [shares, ih, Int.add_assoc]

theorem joinShares (r s : Roll) :
    shares (r.join s).parts = shares r.parts + shares s.parts := by
  rw [joinParts, sharesAppend]

theorem joinTotal {r s : Roll} {l m n : Int} (left : r.total = .ok l) (right : s.total = .ok m)
    (both : (r.join s).total = .ok n) : n = l + m := by
  rw [(totalOk.mp both).2, joinShares, ← (totalOk.mp left).2, ← (totalOk.mp right).2]

end Roll

theorem rollJoined {ρ : Type} [FaceSource ρ] (d e : Expression) :
    (d.join e).roll = (do return (← d.roll).join (← e.roll) : Rolling ρ Roll) := by
  simp [Expression.roll, Expression.join, Expression.terms, Roll.join, Roll.parts]

theorem notationsJoined {a b : Text} {d e : Expression} (first : Expression.parse a = .ok d)
    (second : Expression.parse b = .ok e) :
    (b.leadingSign? ≠ none → Expression.parse (a ++ b) = .ok (d.join e)) ∧
    (b.leadingSign? = none → Expression.parse (a ++ '+' :: b) = .ok (d.join e) ∧
      Expression.parse (a ++ '-' :: b) = .ok (d.join (e.led .minus))) ∧
    (∀ f : Expression, (d.join f).terms = d.terms ++ f.terms ∧
      ∀ {ρ : Type} [FaceSource ρ] (source : ρ), (d.join f).roll source = (do
        let (r, middle) ← d.roll source
        let (s, last) ← f.roll middle
        return (r.join s, last))) ∧
    ∀ r s : Roll, (r.join s).parts = r.parts ++ s.parts ∧
      Roll.shares (r.join s).parts = Roll.shares r.parts + Roll.shares s.parts ∧
      ∀ l m n, r.total = .ok l → s.total = .ok m → (r.join s).total = .ok n → n = l + m := by
  refine ⟨parseJoined first second, ?_, ?_, ?_⟩
  · intro plain
    have added := parseSignJoined first second plain .plus
    rw [plainLed second plain] at added
    exact ⟨added, parseSignJoined first second plain .minus⟩
  · intro f
    exact ⟨Expression.joinTerms d f, fun source => congrFun (rollJoined d f) source⟩
  · intro r s
    exact ⟨Roll.joinParts r s, Roll.joinShares r s, fun _ _ _ => Roll.joinTotal⟩

theorem notationsJoinedSubtracted :
    Expression.parse "2d6\t".toList = .ok ⟨⟨.plus, .dice 2 ⟨6, by decide⟩⟩, []⟩ ∧
    Expression.parse " 03-1d4".toList =
      .ok ⟨⟨.plus, .constant 3⟩, [⟨.minus, .dice 1 ⟨4, by decide⟩⟩]⟩ ∧
    Expression.parse "2d6\t- 03-1d4".toList =
      .ok ⟨⟨.plus, .dice 2 ⟨6, by decide⟩⟩,
        [⟨.minus, .constant 3⟩, ⟨.minus, .dice 1 ⟨4, by decide⟩⟩]⟩ ∧
    Expression.roll ⟨⟨.plus, .dice 2 ⟨6, by decide⟩⟩,
        [⟨.minus, .constant 3⟩, ⟨.minus, .dice 1 ⟨4, by decide⟩⟩]⟩
        (ListedFaces.ofList [5, 6, 2, 9]) =
      .ok (⟨⟨.plus, [5, 6]⟩, [⟨.minus, [3]⟩, ⟨.minus, [2]⟩]⟩, ⟨[9], 3⟩) := by
  have first : Expression.parse "2d6\t".toList =
      .ok ⟨⟨.plus, .dice 2 ⟨6, by decide⟩⟩, []⟩ := rfl
  have second : Expression.parse " 03-1d4".toList =
      .ok ⟨⟨.plus, .constant 3⟩, [⟨.minus, .dice 1 ⟨4, by decide⟩⟩]⟩ := rfl
  obtain ⟨_, plain, turns, _⟩ := notationsJoined first second
  have rolled := (turns ⟨⟨.minus, .constant 3⟩, [⟨.minus, .dice 1 ⟨4, by decide⟩⟩]⟩).2
    (ListedFaces.ofList [5, 6, 2, 9])
  exact ⟨first, second, (plain rfl).2, rolled⟩

end Dice
