import Dice.Expression.Parse
import Dice.Proofs.Checked
import Dice.Proofs.Lexing

/-! The reader of expressions as a machine that takes one token at a time. A step is
admitted or refused by the place, the kind of the token and its value alone; a refusal
names the token and says what is wrong with it. -/
namespace Dice

namespace Sides

theorem ofWordExact {n : UInt32} {s : Sides} : ofWord? n = some s ↔ n = s.count := by
  unfold ofWord?
  split
  · next zero =>
    subst n
    simp [s.pos.symm]
  · next positive =>
    rw [Option.some.injEq]
    constructor
    · intro same
      subst same
      rfl
    · intro same
      subst same
      rfl

end Sides

namespace Token

theorem numberExact {t : Token} {n : UInt32} :
    t.number = .ok n ↔ Decimal.value t.text = n.toNat := by
  simp only [number]
  split
  · next small =>
    rw [Except.ok.injEq]
    constructor
    · intro same
      subst same
      exact (UInt32.toNat_ofNat_of_lt small).symm
    · intro same
      rw [same]
      exact UInt32.ofNat_toNat
  · next large =>
    have fits := n.toNat_lt
    constructor
    · intro wrong
      contradiction
    · intro same
      exact absurd (same ▸ fits) large

theorem numberFails {t : Token} {e : ParseError} :
    t.number = .error e ↔ UInt32.size ≤ Decimal.value t.text ∧ e = .about t .integerOverflow := by
  simp only [number]
  split
  · next small => simp [Nat.not_le.mpr small]
  · next large => simp [Nat.not_lt.mp large, eq_comm]

theorem sidesExact {t : Token} {s : Sides} :
    t.sides = .ok s ↔ Decimal.value t.text = s.toNat := by
  rw [sides, bindOk]
  constructor
  · intro h
    obtain ⟨n, number, last⟩ := h
    cases found : Sides.ofWord? n with
    | none => simp [found] at last
    | some q =>
      simp only [found, Except.ok.injEq] at last
      subst q
      rw [numberExact.mp number, Sides.ofWordExact.mp found]
      rfl
  · intro value
    refine ⟨s.count, numberExact.mpr value, ?_⟩
    rw [Sides.ofWordExact.mpr rfl]

theorem sidesFails {t : Token} {e : ParseError} :
    t.sides = .error e ↔
      (UInt32.size ≤ Decimal.value t.text ∧ e = .about t .integerOverflow) ∨
      (Decimal.value t.text = 0 ∧ e = .about t .zeroSides) := by
  rw [sides, bindError, numberFails]
  refine or_congr_right ?_
  constructor
  · intro h
    obtain ⟨n, number, last⟩ := h
    cases found : Sides.ofWord? n with
    | none =>
      simp only [found, Except.error.injEq] at last
      have zero : n = 0 := by simpa [Sides.ofWord?] using found
      exact ⟨by rw [numberExact.mp number, zero]; rfl, last.symm⟩
    | some q => simp [found] at last
  · intro h
    obtain ⟨zero, rfl⟩ := h
    exact ⟨0, numberExact.mpr zero, rfl⟩

end Token

namespace Reading

inductive Step : Reading → Token → Reading → Prop where
  | leadSign {t sign} (kind : t.kind = .sign sign) : Step start t (signed [] sign)
  | leadCount {t n} (kind : t.kind = .integer) (value : Decimal.value t.text = n.toNat) :
      Step start t (counted [] .plus n)
  | count {t earlier sign n} (kind : t.kind = .integer)
      (value : Decimal.value t.text = n.toNat) :
      Step (signed earlier sign) t (counted earlier sign n)
  | marker {t earlier sign n} (kind : t.kind = .dieMarker) :
      Step (counted earlier sign n) t (marked earlier sign n)
  | afterConstant {t earlier sign n following} (kind : t.kind = .sign following) :
      Step (counted earlier sign n) t (signed (⟨sign, .constant n⟩ :: earlier) following)
  | sides {t earlier sign n s} (kind : t.kind = .integer)
      (value : Decimal.value t.text = s.toNat) :
      Step (marked earlier sign n) t (ended earlier ⟨sign, .dice n s⟩)
  | afterDice {t earlier latest following} (kind : t.kind = .sign following) :
      Step (ended earlier latest) t (signed (latest :: earlier) following)

theorem nextStep {r q : Reading} {t : Token} (ok : r.next t = .ok q) : Step r t q := by
  unfold next at ok
  split at ok
  · next kind =>
    cases ok
    exact .leadSign kind
  · next kind =>
    obtain ⟨n, number, last⟩ := bindOk.mp ok
    cases pureOk.mp last
    exact .leadCount kind (Token.numberExact.mp number)
  · next kind =>
    obtain ⟨n, number, last⟩ := bindOk.mp ok
    cases pureOk.mp last
    exact .count kind (Token.numberExact.mp number)
  · next kind =>
    cases ok
    exact .marker kind
  · next kind =>
    cases ok
    exact .afterConstant kind
  · next kind =>
    obtain ⟨s, sides, last⟩ := bindOk.mp ok
    cases pureOk.mp last
    exact .sides kind (Token.sidesExact.mp sides)
  · next kind =>
    cases ok
    exact .afterDice kind
  · contradiction

theorem stepNext {r q : Reading} {t : Token} (step : Step r t q) : r.next t = .ok q := by
  cases step with
  | leadSign kind => simp only [next, kind]
  | leadCount kind value =>
    simp only [next, kind]
    exact bindOk.mpr ⟨_, Token.numberExact.mpr value, rfl⟩
  | count kind value =>
    simp only [next, kind]
    exact bindOk.mpr ⟨_, Token.numberExact.mpr value, rfl⟩
  | marker kind => simp only [next, kind]
  | afterConstant kind => simp only [next, kind]
  | sides kind value =>
    simp only [next, kind]
    exact bindOk.mpr ⟨_, Token.sidesExact.mpr value, rfl⟩
  | afterDice kind => simp only [next, kind]

theorem stepExact {r q : Reading} {t : Token} : r.next t = .ok q ↔ Step r t q :=
  ⟨nextStep, stepNext⟩

theorem stepUnique {r p q : Reading} {t : Token} (left : Step r t p) (right : Step r t q) :
    p = q := by
  have next := stepNext left
  rw [stepNext right] at next
  exact (Except.ok.inj next).symm

inductive Steps : Reading → List Token → Reading → Prop where
  | nil {r} : Steps r [] r
  | cons {r t q ts p} (head : Step r t q) (tail : Steps q ts p) : Steps r (t :: ts) p

theorem stepsNil {r q : Reading} : Steps r [] q ↔ q = r := by
  constructor
  · intro steps
    cases steps
    rfl
  · intro same
    subst same
    exact .nil

theorem stepsCons {r q : Reading} {t : Token} {ts : List Token} :
    Steps r (t :: ts) q ↔ ∃ p, Step r t p ∧ Steps p ts q := by
  constructor
  · intro steps
    cases steps with
    | cons head tail => exact ⟨_, head, tail⟩
  · intro h
    obtain ⟨p, head, tail⟩ := h
    exact .cons head tail

theorem stepsExact {r q : Reading} {ts : List Token} :
    ts.foldlM next r = .ok q ↔ Steps r ts q := by
  induction ts generalizing r with
  | nil =>
    rw [List.foldlM_nil, pureOk, stepsNil, eq_comm]
  | cons t ts ih => simp only [List.foldlM_cons, bindOk, stepsCons, stepExact, ih]

theorem stepsUnique {r p q : Reading} {ts : List Token} (left : Steps r ts p)
    (right : Steps r ts q) : p = q := by
  have run := stepsExact.mpr left
  rw [stepsExact.mpr right] at run
  exact (Except.ok.inj run).symm

theorem stepsAppend {r q : Reading} {ts us : List Token} :
    Steps r (ts ++ us) q ↔ ∃ p, Steps r ts p ∧ Steps p us q := by
  simp only [← stepsExact, List.foldlM_append, bindOk]

theorem stepsSnoc {r q : Reading} {ts : List Token} {t : Token} :
    Steps r (ts ++ [t]) q ↔ ∃ p, Steps r ts p ∧ Step p t q := by
  simp only [stepsAppend, stepsCons, stepsNil, exists_eq_right']

theorem stepsLast {r q : Reading} {ts : List Token} (steps : Steps r ts q) :
    ts = [] ∧ q = r ∨ ∃ front t p, ts = front ++ [t] ∧ Steps r front p ∧ Step p t q := by
  rcases List.eq_nil_or_concat ts with rfl | ⟨front, t, rfl⟩
  · exact Or.inl ⟨rfl, stepsNil.mp steps⟩
  · rw [List.concat_eq_append] at steps ⊢
    obtain ⟨p, earlier, step⟩ := stepsSnoc.mp steps
    exact Or.inr ⟨front, t, p, rfl, earlier, step⟩

theorem stepMeaning {r q : Reading} {t u : Token} (same : t.meaning = u.meaning)
    (step : Step r t q) : Step r u q := by
  obtain ⟨kinds, values⟩ := Prod.mk.inj same
  have value (kind : t.kind = .integer) : Decimal.value u.text = Decimal.value t.text := by
    rw [if_pos kind, if_pos (kinds ▸ kind)] at values
    exact (Option.some.inj values).symm
  cases step with
  | leadSign kind => exact .leadSign (kinds ▸ kind)
  | leadCount kind number => exact .leadCount (kinds ▸ kind) ((value kind).trans number)
  | count kind number => exact .count (kinds ▸ kind) ((value kind).trans number)
  | marker kind => exact .marker (kinds ▸ kind)
  | afterConstant kind => exact .afterConstant (kinds ▸ kind)
  | sides kind number => exact .sides (kinds ▸ kind) ((value kind).trans number)
  | afterDice kind => exact .afterDice (kinds ▸ kind)

theorem stepsMeaning {r q : Reading} {ts us : List Token}
    (same : ts.map Token.meaning = us.map Token.meaning) (steps : Steps r ts q) :
    Steps r us q := by
  induction steps generalizing us with
  | nil =>
    obtain rfl := List.map_eq_nil_iff.mp same.symm
    exact .nil
  | cons head tail ih =>
    cases us with
    | nil => contradiction
    | cons u us =>
      obtain ⟨first, rest⟩ := List.cons.inj same
      exact .cons (stepMeaning first head) (ih rest)

theorem stepRecognized {r q : Reading} {t : Token} (step : Step r t q) :
    t.kind ≠ .unrecognized := by
  cases step <;> simp [*]

theorem stepRange {r q : Reading} {t : Token} (step : Step r t q) (kind : t.kind = .integer) :
    Decimal.value t.text < UInt32.size := by
  cases step with
  | leadCount _ value => exact value ▸ UInt32.toNat_lt _
  | count _ value => exact value ▸ UInt32.toNat_lt _
  | sides _ value => exact value ▸ Sides.toNatRange _
  | leadSign wrong => simp [kind] at wrong
  | marker wrong => simp [kind] at wrong
  | afterConstant wrong => simp [kind] at wrong
  | afterDice wrong => simp [kind] at wrong

theorem stepsEach {P : Token → Prop} (each : ∀ {r t q}, Step r t q → P t) {r q : Reading}
    {ts : List Token} (steps : Steps r ts q) : ∀ t ∈ ts, P t := by
  induction steps with
  | nil => simp
  | cons head tail ih => exact List.forall_mem_cons.mpr ⟨each head, ih⟩

def AwaitsSides (r : Reading) : Prop := ∃ earlier sign n, r = marked earlier sign n

inductive Refusal (r : Reading) (t : Token) : ParseError → Prop where
  | unrecognized (kind : t.kind = .unrecognized) : Refusal r t (.about t .unrecognized)
  | overflow (kind : t.kind = .integer) (place : .integer ∈ r.expected)
      (large : UInt32.size ≤ Decimal.value t.text) : Refusal r t (.about t .integerOverflow)
  | zeroSides (kind : t.kind = .integer) (place : r.AwaitsSides)
      (zero : Decimal.value t.text = 0) : Refusal r t (.about t .zeroSides)
  | unexpected (kind : t.kind ≠ .unrecognized) (place : t.kind ∉ r.expected) :
      Refusal r t (.about t (.unexpectedToken t.kind r.expected))

theorem refusalOf {r : Reading} {t : Token} (place : t.kind ∉ r.expected) :
    Refusal r t (t.refusal r.expected) := by
  unfold Token.refusal
  split
  · next kind => exact .unrecognized kind
  · next kind => exact .unexpected kind place

theorem numberRefusal {r : Reading} {t : Token} {e : ParseError} {f : UInt32 → Reading}
    (kind : t.kind = .integer) (place : .integer ∈ r.expected)
    (failed : t.number >>= (fun n => pure (f n)) = .error e) : Refusal r t e := by
  rcases bindError.mp failed with number | ⟨n, _, last⟩
  · obtain ⟨large, rfl⟩ := Token.numberFails.mp number
    exact .overflow kind place large
  · cases last

theorem signExpected {kind : TokenKind} (member : kind ∈ [.sign .plus, .sign .minus]) :
    ∃ sign, kind = .sign sign := by
  rcases List.mem_cons.mp member with plus | later
  · exact ⟨.plus, plus⟩
  · exact ⟨.minus, List.mem_singleton.mp later⟩

theorem startExpected {kind : TokenKind} (member : kind ∈ start.expected) :
    kind = .integer ∨ ∃ sign, kind = .sign sign := by
  have parts : kind ∈ [.sign .plus, .sign .minus] ++ [TokenKind.integer] := member
  rcases List.mem_append.mp parts with sign | integer
  · exact .inr (signExpected sign)
  · exact .inl (List.mem_singleton.mp integer)

theorem nextRefusal {r : Reading} {t : Token} {e : ParseError} (failed : r.next t = .error e) :
    Refusal r t e := by
  unfold next at failed
  split at failed
  · cases failed
  · next kind => exact numberRefusal kind (by simp [expected]) failed
  · next kind => exact numberRefusal kind (by simp [expected]) failed
  · cases failed
  · cases failed
  · next earlier sign n kind =>
    rcases bindError.mp failed with sides | ⟨s, _, last⟩
    · rcases Token.sidesFails.mp sides with ⟨large, rfl⟩ | ⟨zero, rfl⟩
      · exact .overflow kind (by simp [expected]) large
      · exact .zeroSides kind ⟨earlier, sign, n, rfl⟩ zero
    · cases last
  · cases failed
  · next place _ _ leadSign leadCount count _ constantSign sides diceSign =>
    cases failed
    apply refusalOf
    intro member
    cases place with
    | start =>
      rcases startExpected member with integer | ⟨sign, kind⟩
      · exact leadCount rfl integer
      · exact leadSign _ rfl kind
    | signed earlier sign => exact count _ _ rfl (List.mem_singleton.mp member)
    | counted earlier sign n =>
      obtain ⟨following, kind⟩ := signExpected member
      exact constantSign _ _ _ _ rfl kind
    | marked earlier sign n => exact sides _ _ _ rfl (List.mem_singleton.mp member)
    | ended earlier latest =>
      obtain ⟨following, kind⟩ := signExpected member
      exact diceSign _ _ _ rfl kind

end Reading
end Dice
