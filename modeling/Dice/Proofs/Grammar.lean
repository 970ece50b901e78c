import Dice.Proofs.Reading
import Mathlib.Data.List.Forall2
import Mathlib.Data.List.Induction

/-! The grammar of expressions, on tokens:

    sign? clause (sign clause)*        clause = integer | integer 'd' integer

A text is read exactly when its tokens are derived from the grammar, their integers are
words and no dice are without sides; the terms are then those of the derivation. -/
namespace Dice

structure Clause where
  sign? : Option Token
  count : Token
  die? : Option (Token × Token)
  deriving DecidableEq, Repr

namespace Clause

def body (c : Clause) : List Token :=
  c.count :: match c.die? with
    | none => []
    | some (marker, sides) => [marker, sides]

def tokens (c : Clause) : List Token := c.sign?.toList ++ c.body

def sign (c : Clause) : Sign := (c.sign?.bind fun t => t.kind.sign?).getD .plus

structure Formed (c : Clause) : Prop where
  sign : ∀ t ∈ c.sign?, ∃ s, t.kind = .sign s
  count : c.count.kind = .integer
  die : ∀ d ∈ c.die?, d.1.kind = .dieMarker ∧ d.2.kind = .integer

structure Denotes (c : Clause) (t : Term) : Prop where
  sign : t.sign = c.sign
  count : t.quantity.count.toNat = Decimal.value c.count.text
  sides : t.quantity.sides?.map Sides.toNat = c.die?.map fun d => Decimal.value d.2.text

end Clause

structure Derives (ts : List Token) (cs : List Clause) : Prop where
  whole : cs.flatMap Clause.tokens = ts
  nonempty : cs ≠ []
  formed : ∀ c ∈ cs, c.Formed
  signed : ∀ c ∈ cs.tail, c.sign? ≠ none

structure Sized (ts : List Token) (cs : List Clause) : Prop where
  recognized : ∀ t ∈ ts, t.kind ≠ .unrecognized
  range : ∀ t ∈ ts, t.kind = .integer → Decimal.value t.text ≤ 4294967295
  sides : ∀ c ∈ cs, ∀ d ∈ c.die?, 1 ≤ Decimal.value d.2.text

namespace Reading

def settled : Reading → Option (List Term)
  | start => some []
  | counted earlier sign n => some (⟨sign, .constant n⟩ :: earlier)
  | ended earlier latest => some (latest :: earlier)
  | signed .. | marked .. => none

theorem finishExact {r : Reading} {size : Nat} {e : Expression} :
    r.finish size = .ok e ↔ r ≠ start ∧ r.settled = some e.terms.reverse := by
  have last (latest : Term) (earlier : List Term) :
      .ofLatest latest earlier = e ↔ latest :: earlier = e.terms.reverse := by
    rw [eq_comm (a := latest :: earlier), List.reverse_eq_iff, List.reverse_cons,
      ← Expression.termsOfLatest]
    constructor
    · intro same
      subst same
      rfl
    · intro same
      exact Expression.termsInjective same.symm
  cases r with
  | start => simp [finish]
  | signed earlier sign => simp [finish, settled]
  | counted earlier sign n => simp [finish, settled, last]
  | marked earlier sign n => simp [finish, settled]
  | ended earlier latest => simp [finish, settled, last]

theorem signStep {r q : Reading} {t : Token} {earlier : List Term} {sign : Sign}
    (settled : r.settled = some earlier) (kind : t.kind = .sign sign) :
    Step r t q ↔ q = signed earlier sign := by
  have step : Step r t (signed earlier sign) := by
    cases r with
    | start =>
      cases settled
      exact .leadSign kind
    | counted before sign n =>
      cases settled
      exact .afterConstant kind
    | ended before latest =>
      cases settled
      exact .afterDice kind
    | signed before sign => contradiction
    | marked before sign n => contradiction
  constructor
  · intro other
    exact stepUnique other step
  · intro same
    subst same
    exact step

theorem countStep {q : Reading} {t : Token} {earlier : List Term} {sign : Sign}
    (kind : t.kind = .integer) : Step (signed earlier sign) t q ↔
      ∃ n : UInt32, Decimal.value t.text = n.toNat ∧ q = counted earlier sign n := by
  constructor
  · intro step
    cases step with
    | count _ value => exact ⟨_, value, rfl⟩
  · intro h
    obtain ⟨n, value, rfl⟩ := h
    exact .count kind value

theorem sidesStep {q : Reading} {t : Token} {earlier : List Term} {sign : Sign} {n : UInt32}
    (kind : t.kind = .integer) : Step (marked earlier sign n) t q ↔
      ∃ s : Sides, Decimal.value t.text = s.toNat ∧ q = ended earlier ⟨sign, .dice n s⟩ := by
  constructor
  · intro step
    cases step with
    | sides _ value => exact ⟨_, value, rfl⟩
  · intro h
    obtain ⟨s, value, rfl⟩ := h
    exact .sides kind value

theorem markerStep {q : Reading} {t : Token} {earlier : List Term} {sign : Sign} {n : UInt32}
    (kind : t.kind = .dieMarker) :
    Step (counted earlier sign n) t q ↔ q = marked earlier sign n := by
  constructor
  · intro other
    exact stepUnique other (.marker kind)
  · intro same
    subst same
    exact .marker kind

theorem leadStep {t : Token} {q : Reading} (kind : t.kind = .integer) :
    Step start t q ↔ Step (signed [] .plus) t q := by
  rw [countStep kind]
  constructor
  · intro step
    cases step with
    | leadSign wrong => simp [kind] at wrong
    | leadCount _ value => exact ⟨_, value, rfl⟩
  · intro h
    obtain ⟨n, value, rfl⟩ := h
    exact .leadCount kind value

theorem clauseSteps {r q : Reading} {c : Clause} {earlier : List Term} (formed : c.Formed)
    (settled : r.settled = some earlier) (lead : c.sign? = none → r = start) :
    Steps r c.tokens q ↔ Steps (signed earlier c.sign) c.body q := by
  unfold Clause.tokens Clause.sign
  cases sign? : c.sign? with
  | none =>
    obtain rfl := lead sign?
    cases settled
    simp only [Clause.body, Option.toList_none, List.nil_append, Option.bind_none,
      Option.getD_none, stepsCons, leadStep formed.count]
  | some t =>
    obtain ⟨sign, kind⟩ := formed.sign t sign?
    simp only [Option.toList_some, List.singleton_append, Option.bind_some, kind,
      TokenKind.sign?, Option.getD_some, stepsCons, signStep settled kind, exists_eq_left]

theorem bodyDenotes {q : Reading} {c : Clause} {earlier : List Term} (formed : c.Formed)
    (steps : Steps (signed earlier c.sign) c.body q) :
    ∃ t, c.Denotes t ∧ q.settled = some (t :: earlier) := by
  rw [Clause.body, stepsCons] at steps
  obtain ⟨p, head, tail⟩ := steps
  obtain ⟨n, value, rfl⟩ := (countStep formed.count).mp head
  cases die? : c.die? with
  | none =>
    simp only [die?, stepsNil] at tail
    subst q
    exact ⟨⟨c.sign, .constant n⟩, ⟨rfl, value.symm, by rw [die?]; rfl⟩, rfl⟩
  | some d =>
    obtain ⟨isMarker, isInteger⟩ := formed.die d die?
    simp only [die?, stepsCons, stepsNil, markerStep isMarker, exists_eq_left,
      sidesStep isInteger] at tail
    obtain ⟨_, ⟨s, sides, rfl⟩, rfl⟩ := tail
    refine ⟨⟨c.sign, .dice n s⟩, ⟨rfl, value.symm, ?_⟩, rfl⟩
    rw [die?]
    exact congrArg some sides.symm

theorem denotesBody {c : Clause} {t : Term} (formed : c.Formed) (denotes : c.Denotes t)
    (earlier : List Term) :
    ∃ q, Steps (signed earlier c.sign) c.body q ∧ q.settled = some (t :: earlier) := by
  obtain ⟨sign, quantity⟩ := t
  obtain ⟨rfl, count, sides⟩ := denotes
  rw [Clause.body]
  simp only [stepsCons, countStep formed.count]
  cases quantity with
  | constant n =>
    have die? : c.die? = none := Option.map_eq_none_iff.mp sides.symm
    refine ⟨counted earlier c.sign n, ⟨_, ⟨n, count.symm, rfl⟩, ?_⟩, rfl⟩
    rw [die?]
    exact .nil
  | dice n s =>
    obtain ⟨d, die?, value⟩ := Option.map_eq_some_iff.mp sides.symm
    obtain ⟨isMarker, isInteger⟩ := formed.die d die?
    refine ⟨ended earlier ⟨c.sign, .dice n s⟩, ⟨_, ⟨n, count.symm, rfl⟩, ?_⟩, rfl⟩
    simp only [die?, stepsCons, stepsNil, markerStep isMarker, exists_eq_left,
      sidesStep isInteger]
    exact ⟨_, ⟨s, value, rfl⟩, rfl⟩

structure Follows (r : Reading) (cs : List Clause) : Prop where
  formed : ∀ c ∈ cs, c.Formed
  lead : ∀ c ∈ cs.head?, c.sign? = none → r = start
  signed : ∀ c ∈ cs.tail, c.sign? ≠ none

theorem followsTail {r : Reading} {c : Clause} {cs : List Clause} (follows : Follows r (c :: cs))
    (q : Reading) : Follows q cs := by
  have signed : ∀ d ∈ cs, d.sign? ≠ none := follows.signed
  refine ⟨fun d hd => follows.formed d (by simp [hd]), ?_, ?_⟩
  · intro d first missing
    exact absurd missing (signed d (List.mem_of_mem_head? first))
  · intro d later
    exact signed d (List.mem_of_mem_tail later)

theorem clausesDenote {r q : Reading} {cs : List Clause} {earlier : List Term}
    (follows : Follows r cs) (settled : r.settled = some earlier)
    (steps : Steps r (cs.flatMap Clause.tokens) q) :
    ∃ terms, List.Forall₂ Clause.Denotes cs terms ∧
      q.settled = some (terms.reverse ++ earlier) := by
  induction cs generalizing r earlier with
  | nil =>
    rw [List.flatMap_nil, stepsNil] at steps
    subst q
    exact ⟨[], .nil, settled⟩
  | cons c cs ih =>
    rw [List.flatMap_cons, stepsAppend] at steps
    obtain ⟨p, head, tail⟩ := steps
    have formed := follows.formed c (by simp)
    have body := (clauseSteps formed settled (follows.lead c rfl)).mp head
    obtain ⟨t, denotes, between⟩ := bodyDenotes formed body
    obtain ⟨terms, all, last⟩ := ih (followsTail follows p) between tail
    exact ⟨t :: terms, .cons denotes all, by simpa using last⟩

theorem denotedClauses {r : Reading} {cs : List Clause} {terms earlier : List Term}
    (follows : Follows r cs) (settled : r.settled = some earlier)
    (denote : List.Forall₂ Clause.Denotes cs terms) :
    ∃ q, Steps r (cs.flatMap Clause.tokens) q ∧
      q.settled = some (terms.reverse ++ earlier) := by
  induction denote generalizing r earlier with
  | nil => exact ⟨r, .nil, settled⟩
  | @cons c t cs terms first rest ih =>
    have formed := follows.formed c (by simp)
    obtain ⟨p, body, between⟩ := denotesBody formed first earlier
    obtain ⟨q, tail, last⟩ := ih (followsTail follows p) between
    refine ⟨q, ?_, by simpa using last⟩
    rw [List.flatMap_cons, stepsAppend]
    exact ⟨p, (clauseSteps formed settled (follows.lead c rfl)).mpr body, tail⟩

theorem followsAppend {cs ds : List Clause} (left : Follows start cs) (right : Follows start ds)
    (signed : cs ≠ [] → ∀ c ∈ ds.head?, c.sign? ≠ none) : Follows start (cs ++ ds) := by
  refine ⟨?_, fun _ _ _ => rfl, ?_⟩
  · intro c hc
    rcases List.mem_append.mp hc with before | after
    · exact left.formed c before
    · exact right.formed c after
  · intro c hc
    cases cs with
    | nil => exact right.signed c hc
    | cons b cs =>
      rcases List.mem_append.mp hc with before | after
      · exact left.signed c before
      · cases ds with
        | nil => contradiction
        | cons d ds =>
          rcases List.mem_cons.mp after with rfl | later
          · exact signed (by simp) c rfl
          · exact right.signed c later

theorem followsSnoc {cs : List Clause} {c : Clause} (follows : Follows start cs)
    (formed : c.Formed) (signed : cs ≠ [] → c.sign? ≠ none) : Follows start (cs ++ [c]) := by
  have last : Follows start [c] := ⟨by simpa using formed, fun _ _ _ => rfl, by simp⟩
  exact followsAppend follows last (by simpa using signed)

/-- What has been read at a place: complete clauses, and how much of another one. -/
def Partial (ts : List Token) : Reading → Prop
  | start => ts = []
  | signed .. => ∃ cs t s, Follows start cs ∧ t.kind = .sign s ∧
      ts = cs.flatMap Clause.tokens ++ [t]
  | counted .. => ∃ cs sign? count, Follows start (cs ++ [⟨sign?, count, none⟩]) ∧
      ts = (cs ++ [⟨sign?, count, none⟩]).flatMap Clause.tokens
  | marked .. => ∃ cs sign? count marker, Follows start (cs ++ [⟨sign?, count, none⟩]) ∧
      marker.kind = .dieMarker ∧
      ts = (cs ++ [⟨sign?, count, none⟩]).flatMap Clause.tokens ++ [marker]
  | ended .. => ∃ cs, Follows start cs ∧ cs ≠ [] ∧ ts = cs.flatMap Clause.tokens

theorem followsNil : Follows start [] := ⟨by simp, by simp, by simp⟩

theorem followsDie {cs : List Clause} {sign? : Option Token} {count marker sides : Token}
    (follows : Follows start (cs ++ [⟨sign?, count, none⟩]))
    (isMarker : marker.kind = .dieMarker) (isInteger : sides.kind = .integer) :
    Follows start (cs ++ [⟨sign?, count, some (marker, sides)⟩]) := by
  have old := follows.formed _ (List.mem_append_right cs (List.mem_singleton.mpr rfl))
  have before : Follows start cs := by
    refine ⟨fun c hc => follows.formed c (by simp [hc]), fun _ _ _ => rfl, ?_⟩
    intro c hc
    cases cs with
    | nil => contradiction
    | cons b cs => exact follows.signed c (List.mem_append_left _ hc)
  apply followsSnoc before
  · refine ⟨old.sign, old.count, ?_⟩
    intro _ h
    cases h
    exact ⟨isMarker, isInteger⟩
  · intro nonempty
    cases cs with
    | nil => contradiction
    | cons b cs => exact follows.signed ⟨sign?, count, none⟩ (by simp)

theorem partialStep {ts : List Token} {r q : Reading} {t : Token} (state : Partial ts r)
    (step : Step r t q) : Partial (ts ++ [t]) q := by
  cases step with
  | leadSign kind =>
    subst ts
    exact ⟨[], t, _, followsNil, kind, rfl⟩
  | leadCount kind value =>
    subst ts
    refine ⟨[], none, t, followsSnoc followsNil ⟨by simp, kind, by simp⟩ (by simp), rfl⟩
  | count kind value =>
    obtain ⟨cs, sign, s, follows, isSign, rfl⟩ := state
    have formed : Clause.Formed ⟨some sign, t, none⟩ :=
      ⟨fun _ h => by cases h; exact ⟨s, isSign⟩, kind, by simp⟩
    refine ⟨cs, some sign, t, followsSnoc follows formed (by simp), ?_⟩
    simp [Clause.tokens, Clause.body]
  | marker kind =>
    obtain ⟨cs, sign?, count, follows, rfl⟩ := state
    exact ⟨cs, sign?, count, t, follows, kind, rfl⟩
  | afterConstant kind =>
    obtain ⟨cs, sign?, count, follows, rfl⟩ := state
    exact ⟨_, t, _, follows, kind, rfl⟩
  | sides kind value =>
    obtain ⟨cs, sign?, count, marker, follows, isMarker, rfl⟩ := state
    refine ⟨_, followsDie follows isMarker kind, by simp, ?_⟩
    simp [Clause.tokens, Clause.body]
  | afterDice kind =>
    obtain ⟨cs, follows, _, rfl⟩ := state
    exact ⟨cs, t, _, follows, kind, rfl⟩

theorem partialSteps {ts : List Token} {r : Reading} (steps : Steps start ts r) :
    Partial ts r := by
  induction ts using List.reverseRecOn generalizing r with
  | nil =>
    rw [stepsNil] at steps
    subst r
    rfl
  | append_singleton ts t ih =>
    obtain ⟨q, before, last⟩ := stepsSnoc.mp steps
    exact partialStep (ih before) last

theorem derivesSettled {ts : List Token} {r : Reading} {terms : List Term}
    (steps : Steps start ts r) (settled : r.settled = some terms) (nonempty : r ≠ start) :
    ∃ cs, Derives ts cs := by
  have state := partialSteps steps
  cases r with
  | start => contradiction
  | signed earlier sign => contradiction
  | marked earlier sign n => contradiction
  | counted earlier sign n =>
    obtain ⟨cs, sign?, count, follows, rfl⟩ := state
    exact ⟨_, rfl, by simp, follows.formed, follows.signed⟩
  | ended earlier latest =>
    obtain ⟨cs, follows, some, rfl⟩ := state
    exact ⟨cs, rfl, some, follows.formed, follows.signed⟩

end Reading

theorem derivesFollows {ts : List Token} {cs : List Clause} (derives : Derives ts cs) :
    Reading.Follows .start cs :=
  ⟨derives.formed, fun _ _ _ => rfl, derives.signed⟩

theorem parseSteps {t : Text} {e : Expression} : Expression.parse t = .ok e ↔
    ∃ r, Reading.Steps .start t.tokens r ∧ r.finish t.size = .ok e := by
  rw [Expression.parse, bindOk]
  simp only [Reading.stepsExact]

theorem clausesParse {t : Text} {e : Expression} {cs : List Clause}
    (follows : Reading.Follows .start cs) (denote : List.Forall₂ Clause.Denotes cs e.terms)
    (same : t.tokens.map Token.meaning = (cs.flatMap Clause.tokens).map Token.meaning) :
    Expression.parse t = .ok e := by
  obtain ⟨r, steps, settled⟩ := Reading.denotedClauses follows rfl denote
  refine parseSteps.mpr ⟨r, Reading.stepsMeaning same.symm steps, ?_⟩
  refine Reading.finishExact.mpr ⟨?_, by simpa using settled⟩
  intro same
  subst same
  simp [Reading.settled, Expression.terms] at settled

theorem parsedTerms {t : Text} {e : Expression} {cs : List Clause}
    (parsed : Expression.parse t = .ok e) (derives : Derives t.tokens cs) :
    List.Forall₂ Clause.Denotes cs e.terms := by
  obtain ⟨r, steps, finished⟩ := parseSteps.mp parsed
  rw [← derives.whole] at steps
  obtain ⟨terms, denote, settled⟩ := Reading.clausesDenote (derivesFollows derives) rfl steps
  obtain ⟨_, same⟩ := Reading.finishExact.mp finished
  rw [settled, List.append_nil, Option.some.injEq] at same
  rwa [← List.reverse_injective same]

theorem denotedSides {c : Clause} {t : Term} (denotes : c.Denotes t) :
    ∀ d ∈ c.die?, 1 ≤ Decimal.value d.2.text := by
  intro d die?
  have sides := denotes.sides
  rw [die?] at sides
  obtain ⟨s, _, value⟩ := Option.map_eq_some_iff.mp sides
  have positive := s.toNatPositive
  rw [value] at positive
  exact positive

theorem parsedDerives {t : Text} {e : Expression} (parsed : Expression.parse t = .ok e) :
    ∃ cs, Derives t.tokens cs ∧ Sized t.tokens cs := by
  obtain ⟨r, steps, finished⟩ := parseSteps.mp parsed
  obtain ⟨nonempty, settled⟩ := Reading.finishExact.mp finished
  obtain ⟨cs, derives⟩ := Reading.derivesSettled steps settled nonempty
  refine ⟨cs, derives, Reading.stepsEach Reading.stepRecognized steps, ?_, ?_⟩
  · intro k hk kind
    have small := Reading.stepsEach (fun step => Reading.stepRange step) steps k hk kind
    exact Nat.le_of_lt_succ small
  · intro c hc
    obtain ⟨i, hi, rfl⟩ := List.getElem_of_mem hc
    have all := parsedTerms parsed derives
    have size := all.length_eq
    exact denotedSides (all.get hi (size ▸ hi))

theorem sizedDenotes {ts : List Token} {cs : List Clause} (derives : Derives ts cs)
    (sized : Sized ts cs) {c : Clause} (member : c ∈ cs) : ∃ t, c.Denotes t := by
  have formed := derives.formed c member
  have inside : ∀ t ∈ c.tokens, t ∈ ts := by
    intro t ht
    rw [← derives.whole]
    exact List.mem_flatMap.mpr ⟨c, member, ht⟩
  have word {t : Token} (ht : t ∈ c.tokens) (kind : t.kind = .integer) :
      (UInt32.ofNat (Decimal.value t.text)).toNat = Decimal.value t.text :=
    UInt32.toNat_ofNat_of_lt (Nat.lt_succ_of_le (sized.range t (inside t ht) kind))
  have count := word (t := c.count) (by simp [Clause.tokens, Clause.body]) formed.count
  cases die? : c.die? with
  | none => exact ⟨⟨c.sign, .constant _⟩, ⟨rfl, count, by rw [die?]; rfl⟩⟩
  | some d =>
    have kind := (formed.die d die?).2
    have sides := word (t := d.2) (by simp [Clause.tokens, Clause.body, die?]) kind
    have positive := sized.sides c member d die?
    have nonzero : UInt32.ofNat (Decimal.value d.2.text) ≠ 0 := by
      intro zero
      rw [← sides, zero] at positive
      contradiction
    refine ⟨⟨c.sign, .dice _ ⟨_, nonzero⟩⟩, ⟨rfl, count, ?_⟩⟩
    rw [die?]
    exact congrArg some sides

theorem clausesDenoted {cs : List Clause} (each : ∀ c ∈ cs, ∃ t, c.Denotes t) :
    ∃ terms, List.Forall₂ Clause.Denotes cs terms := by
  induction cs with
  | nil => exact ⟨[], .nil⟩
  | cons c cs ih =>
    obtain ⟨t, first⟩ := each c (by simp)
    obtain ⟨terms, rest⟩ := ih fun d hd => each d (by simp [hd])
    exact ⟨t :: terms, .cons first rest⟩

theorem derivedParses {t : Text} {cs : List Clause} (derives : Derives t.tokens cs)
    (sized : Sized t.tokens cs) : ∃ e, Expression.parse t = .ok e := by
  obtain ⟨terms, denote⟩ := clausesDenoted fun c hc => sizedDenotes derives sized hc
  cases terms with
  | nil => exact absurd (List.forall₂_nil_right_iff.mp denote) derives.nonempty
  | cons first rest =>
    exact ⟨⟨first, rest⟩, clausesParse (derivesFollows derives) denote (by rw [derives.whole])⟩

theorem parseExact (t : Text) :
    ((∃ e, Expression.parse t = .ok e) ↔
      ∃ cs, Derives t.tokens cs ∧ Sized t.tokens cs) ∧
    ∀ e cs, Expression.parse t = .ok e → Derives t.tokens cs →
      List.Forall₂ Clause.Denotes cs e.terms ∧ e.terms ≠ [] := by
  refine ⟨⟨?_, ?_⟩, ?_⟩
  · intro h
    obtain ⟨e, parsed⟩ := h
    exact parsedDerives parsed
  · intro h
    obtain ⟨cs, derives, sized⟩ := h
    exact derivedParses derives sized
  · intro e cs parsed derives
    exact ⟨parsedTerms parsed derives, e.termsNonempty⟩

theorem parseExactLeadingZeros :
    Expression.parse ['2', 'd', '6', ' ', '-', '0', '3'] =
      .ok ⟨⟨.plus, .dice 2 ⟨6, by decide⟩⟩, [⟨.minus, .constant 3⟩]⟩ ∧
    List.Forall₂ Clause.Denotes
      [⟨none, ⟨.integer, 0, ['2']⟩, some (⟨.dieMarker, 1, ['d']⟩, ⟨.integer, 2, ['6']⟩)⟩,
        ⟨some ⟨.sign .minus, 4, ['-']⟩, ⟨.integer, 5, ['0', '3']⟩, none⟩]
      [⟨.plus, .dice 2 ⟨6, by decide⟩⟩, ⟨.minus, .constant 3⟩] := by
  have parsed : Expression.parse ['2', 'd', '6', ' ', '-', '0', '3'] =
      .ok ⟨⟨.plus, .dice 2 ⟨6, by decide⟩⟩, [⟨.minus, .constant 3⟩]⟩ := by decide
  refine ⟨parsed, ((parseExact _).2 _ _ parsed ⟨by decide, by decide, ?_, by decide⟩).1⟩
  intro c member
  rcases List.mem_pair.mp member with rfl | rfl
  · exact ⟨nofun, rfl, by decide⟩
  · exact ⟨fun t ht => ⟨.minus, by cases ht; rfl⟩, rfl, by decide⟩

end Dice
