import Dice.Proofs.Breakdown
import Dice.Proofs.Viability
import Mathlib.Data.List.Nodup

/-! A message says all of an error. The words of a complaint are cut at the blanks, a quoted text
ends at the first quotation mark that no backslash escapes, and where the span stops is known from
the slice: it is as long as the slice. -/
namespace Dice

namespace Text

def lettered : List (Char × Char) :=
  [('"', '"'), ('\\', '\\'), ('\n', 'n'), ('\r', 'r'), ('\t', 't'), ('\x00', '0')]

inductive Escapes : Char → Text → Prop where
  | plain {c : Char} (unquoted : c ≠ '"') (unmarked : c ≠ '\\') : Escapes c [c]
  | letter {c x : Char} (among : (c, x) ∈ lettered) : Escapes c ['\\', x]
  | number (c : Char) : Escapes c (byNumber c)

theorem escapeExact (c : Char) : Escapes c (escape c) := by
  unfold escape
  split
  · next quote => exact .letter (by simp [lettered, quote])
  split
  · next mark => exact .letter (by simp [lettered, mark])
  split
  · next newline => exact .letter (by simp [lettered, newline])
  split
  · next carriage => exact .letter (by simp [lettered, carriage])
  split
  · next tab => exact .letter (by simp [lettered, tab])
  split
  · next null => exact .letter (by simp [lettered, null])
  split
  · exact .number c
  · next unquoted unmarked _ _ _ _ _ => exact .plain unquoted unmarked

def digitValue (c : Char) : Nat := "0123456789abcdef".toList.idxOf c

theorem digitExact : ∀ n < 16, digitValue (Nat.digitChar n) = n := by decide

theorem digitOpen : ∀ n < 16, '\x7d' ≠ Nat.digitChar n := by decide

theorem digitsExact (n : Nat) :
    (Nat.toDigits 16 n).foldl (fun value c => 16 * value + digitValue c) 0 = n := by
  induction n using Nat.strongRecOn with
  | ind n ih =>
    by_cases small : n < 16
    · rw [Nat.toDigits_of_lt_base small, List.foldl_cons, List.foldl_nil, digitExact n small]
      omega
    · rw [Nat.toDigits_of_base_le (by decide) (by omega), List.foldl_append, ih _ (by omega),
        List.foldl_cons, List.foldl_nil, digitExact _ (Nat.mod_lt n (by decide))]
      omega

theorem digitsUnique {m n : Nat} (same : Nat.toDigits 16 m = Nat.toDigits 16 n) : m = n := by
  rw [← digitsExact m, same, digitsExact]

theorem digitsOpen (n : Nat) : '\x7d' ∉ Nat.toDigits 16 n := by
  induction n using Nat.strongRecOn with
  | ind n ih =>
    by_cases small : n < 16
    · rw [Nat.toDigits_of_lt_base small, List.mem_singleton]
      exact digitOpen n small
    · rw [Nat.toDigits_of_base_le (by decide) (by omega), List.mem_append, List.mem_singleton]
      exact not_or.mpr ⟨ih (n / 16) (by omega), digitOpen _ (Nat.mod_lt n (by decide))⟩

theorem escapesUnique {c d : Char} {s u a b : Text} (left : Escapes c s) (right : Escapes d u)
    (same : s ++ a = u ++ b) : c = d ∧ a = b := by
  have lone : ∀ p ∈ lettered, ∀ q ∈ lettered, p.2 = q.2 → p.1 = q.1 := by decide
  have other : ∀ p ∈ lettered, p.2 ≠ 'u' := by decide
  cases left with
  | plain unquoted unmarked =>
    cases right with
    | plain _ _ => exact List.cons.inj same
    | letter among => exact absurd (List.cons.inj same).1 unmarked
    | number => exact absurd (List.cons.inj same).1 unmarked
  | letter among =>
    cases right with
    | plain _ unmarked => exact absurd (List.cons.inj same).1.symm unmarked
    | letter among' =>
      obtain ⟨letter, rest⟩ := List.cons.inj (List.cons.inj same).2
      exact ⟨lone _ among _ among' letter, rest⟩
    | number => exact absurd (List.cons.inj (List.cons.inj same).2).1 (other _ among)
  | number =>
    cases right with
    | plain _ unmarked => exact absurd (List.cons.inj same).1.symm unmarked
    | letter among => exact absurd (List.cons.inj (List.cons.inj same).2).1.symm (other _ among)
    | number =>
      simp only [byNumber, List.cons_append, List.nil_append, List.append_assoc,
        List.cons.injEq, true_and] at same
      obtain ⟨digits, rest⟩ := cutAt same (digitsOpen _) (digitsOpen _) (by simp) (by simp)
      exact ⟨Char.toNat_inj.mp (digitsUnique digits), (List.cons.inj rest).2⟩

theorem escapesStart {c : Char} {s : Text} (escapes : Escapes c s) :
    ∃ x rest, s = x :: rest ∧ x ≠ '"' := by
  cases escapes with
  | plain unquoted _ => exact ⟨c, [], rfl, unquoted⟩
  | letter among => exact ⟨_, _, rfl, by decide⟩
  | number => exact ⟨_, _, rfl, by decide⟩

theorem escapedUnique {s u a b : Text}
    (same : s.flatMap escape ++ '"' :: a = u.flatMap escape ++ '"' :: b) : s = u ∧ a = b := by
  have open' (c : Char) (s v w : Text) : '"' :: v ≠ (c :: s).flatMap escape ++ w := by
    intro closes
    obtain ⟨x, rest, start, other⟩ := escapesStart (escapeExact c)
    rw [List.flatMap_cons, start] at closes
    exact other (List.cons.inj closes).1.symm
  induction s generalizing u with
  | nil =>
    cases u with
    | nil => exact ⟨rfl, (List.cons.inj same).2⟩
    | cons d u => exact absurd same (open' d u a _)
  | cons c s ih =>
    cases u with
    | nil => exact absurd same.symm (open' c s b _)
    | cons d u =>
      rw [List.flatMap_cons, List.flatMap_cons, List.append_assoc, List.append_assoc] at same
      obtain ⟨rfl, later⟩ := escapesUnique (escapeExact c) (escapeExact d) same
      obtain ⟨rfl, rest⟩ := ih later
      exact ⟨rfl, rest⟩

theorem quotedUnique {s u a b : Text} (same : s.quoted ++ a = u.quoted ++ b) :
    s = u ∧ a = b := by
  have inside (t v : Text) : t.quoted ++ v = '"' :: (t.flatMap escape ++ '"' :: v) := by
    simp [quoted]
  rw [inside, inside] at same
  exact escapedUnique (List.cons.inj same).2

end Text

def alternativeWords : List Text → List Text
  | [] => []
  | [a] => [a]
  | [a, b] => [a, "or".toList, b]
  | many => listed many
where
  listed : List Text → List Text
    | [] => []
    | [c] => ["or".toList, c]
    | b :: rest => (b ++ [',']) :: listed rest

theorem joinedMore (separator t u : Text) (ts : List Text) :
    Text.joined separator (t :: u :: ts) = t ++ separator ++ Text.joined separator (u :: ts) := by
  simp [Text.joinedCons]

theorem listedWords (a : Text) (rest : List Text) :
    alternatives.listed (a :: rest) = Text.joined [' '] (alternativeWords.listed (a :: rest)) := by
  induction rest generalizing a with
  | nil => simp [alternatives.listed, alternativeWords.listed, joinedMore]
  | cons b rest ih =>
    obtain ⟨w, ws, later⟩ : ∃ w ws, alternativeWords.listed (b :: rest) = w :: ws := by
      cases rest <;> exact ⟨_, _, rfl⟩
    rw [alternatives.listed, alternativeWords.listed, ih, later, joinedMore]
    · simp
    · nofun
    · nofun

theorem alternativesJoined (words : List Text) :
    alternatives words = Text.joined [' '] (alternativeWords words) := by
  match words with
  | [] => rfl
  | [a] => exact (Text.joinedOne [' '] a).symm
  | [a, b] => simp [alternatives, alternativeWords, joinedMore]
  | a :: b :: c :: rest => exact listedWords a _

theorem listedLength (a : Text) (rest : List Text) :
    (alternativeWords.listed (a :: rest)).length = rest.length + 2 := by
  induction rest generalizing a with
  | nil => rfl
  | cons b rest ih => exact congrArg (· + 1) (ih b)

theorem alternativeWordsLength (ts : List Text) : (alternativeWords ts).length =
    if ts.length ≤ 1 then ts.length else if ts.length = 2 then 3 else ts.length + 1 := by
  match ts with
  | [] => rfl
  | [a] => rfl
  | [a, b] => rfl
  | a :: b :: c :: rest => simpa [alternativeWords] using listedLength a (b :: c :: rest)

theorem listedUnique {xs ys : List Text} (size : xs.length = ys.length)
    (same : alternativeWords.listed xs = alternativeWords.listed ys) : xs = ys := by
  induction xs generalizing ys with
  | nil => exact (List.length_eq_zero_iff.mp size.symm).symm
  | cons x xs ih =>
    match xs, ys, size with
    | [], [y], _ => simpa [alternativeWords.listed] using same
    | _ :: _, y :: _ :: _, size =>
      obtain ⟨word, later⟩ := List.cons.inj same
      rw [List.append_cancel_right word, ih (Nat.succ.inj size) later]

theorem alternativeWordsUnique {xs ys : List Text}
    (same : alternativeWords xs = alternativeWords ys) : xs = ys := by
  have size : xs.length = ys.length := by
    have sizes := congrArg List.length same
    rw [alternativeWordsLength, alternativeWordsLength] at sizes
    repeat' split at sizes
    all_goals omega
  match xs, ys, size with
  | [], [], _ => rfl
  | [a], [b], _ => simpa [alternativeWords] using same
  | [a, b], [c, d], _ => simpa [alternativeWords] using same
  | _ :: _ :: _ :: _, _ :: _ :: _ :: _, size => exact listedUnique size same

theorem listedWhole {ts : List Text} (whole : ∀ t ∈ ts, t ≠ [] ∧ ' ' ∉ t) :
    ∀ w ∈ alternativeWords.listed ts, w ≠ [] ∧ ' ' ∉ w := by
  induction ts with
  | nil => exact nofun
  | cons t ts ih =>
    obtain ⟨here, later⟩ := List.forall_mem_cons.mp whole
    cases ts with
    | nil => simpa [alternativeWords.listed] using here
    | cons u ts =>
      refine List.forall_mem_cons.mpr ⟨?_, ih later⟩
      simpa using here.2

theorem alternativesWhole {ts : List Text} (whole : ∀ t ∈ ts, t ≠ [] ∧ ' ' ∉ t) :
    ∀ w ∈ alternativeWords ts, w ≠ [] ∧ ' ' ∉ w := by
  match ts with
  | [] => exact nofun
  | [a] => exact whole
  | [a, b] => simpa [alternativeWords] using whole
  | a :: b :: c :: rest => exact listedWhole whole

theorem alternativesUnique {xs ys : List Text} (left : ∀ t ∈ xs, t ≠ [] ∧ ' ' ∉ t)
    (right : ∀ t ∈ ys, t ≠ [] ∧ ' ' ∉ t) (same : alternatives xs = alternatives ys) :
    xs = ys := by
  rw [alternativesJoined, alternativesJoined] at same
  exact alternativeWordsUnique
    (Text.joinedUnique same (alternativesWhole left) (alternativesWhole right))

namespace TokenKind

def all : List TokenKind := [.integer, .dieMarker, .sign .plus, .sign .minus, .unrecognized]

theorem allMember (k : TokenKind) : k ∈ all := by
  cases k with
  | sign s => cases s <;> decide
  | integer => decide
  | dieMarker => decide
  | unrecognized => decide

theorem displayUnique {j k : TokenKind} (same : j.display = k.display) : j = k :=
  List.inj_on_of_nodup_map (show (all.map display).Nodup by decide) (allMember j) (allMember k) same

theorem displayWord (k : TokenKind) : k.display ≠ [] ∧ ' ' ∉ k.display ∧ ',' ∉ k.display := by
  have words : ∀ k ∈ all, k.display ≠ [] ∧ ' ' ∉ k.display ∧ ',' ∉ k.display := by decide
  exact words k (allMember k)

theorem expectedUnique {js ks : List TokenKind}
    (same : alternatives (js.map display) = alternatives (ks.map display)) : js = ks := by
  have words (ks : List TokenKind) : ∀ t ∈ ks.map display, t ≠ [] ∧ ' ' ∉ t := by
    simpa using fun k _ => ⟨(displayWord k).1, (displayWord k).2.1⟩
  exact List.map_injective_iff.mpr (fun _ _ => displayUnique)
    (alternativesUnique (words js) (words ks) same)

end TokenKind

namespace Problem

def rank : Problem → Nat
  | unrecognized => 0
  | unexpectedToken .. => 1
  | unexpectedEnd .. => 2
  | zeroSides => 3
  | integerOverflow => 4

/-- The kinds of problems are told apart by the twelfth letter of their messages. -/
theorem messageRank (p : Problem) : p.rank = "dteal".toList.idxOf (p.message.getD 11 ' ') := by
  cases p <;> rfl

theorem unexpectedMessage (found : TokenKind) (expected : List TokenKind) :
    message (unexpectedToken found expected) = "unexpected token: found ".toList ++
      (found.display ++ ',' :: (" expected ".toList ++
        alternatives (expected.map TokenKind.display))) := by
  change "unexpected token: found ".toList ++ found.display ++ ", expected ".toList ++ _ = _
  rw [List.append_assoc, List.append_assoc]
  rfl

theorem rankedUnique {p q : Problem} (ranks : p.rank = q.rank) :
    p.message = q.message → p = q := by
  match p, q, ranks with
  | unrecognized, unrecognized, _ => exact fun _ => rfl
  | unexpectedToken found expected, unexpectedToken found' expected', _ =>
    intro same
    rw [unexpectedMessage, unexpectedMessage] at same
    obtain ⟨display, rest⟩ := Text.cutAt (List.append_cancel_left same)
      found.displayWord.2.2 found'.displayWord.2.2 (by simp) (by simp)
    rw [TokenKind.displayUnique display,
      TokenKind.expectedUnique (List.append_cancel_left (List.cons.inj rest).2)]
  | unexpectedEnd expected, unexpectedEnd expected', _ =>
    intro same
    rw [TokenKind.expectedUnique (List.append_cancel_left same)]
  | zeroSides, zeroSides, _ => exact fun _ => rfl
  | integerOverflow, integerOverflow, _ => exact fun _ => rfl

theorem messageUnique {p q : Problem} (same : p.message = q.message) : p = q := by
  have ranks : p.rank = q.rank := by rw [messageRank, messageRank, same]
  exact rankedUnique ranks same

end Problem

namespace ParseError

theorem messageParts (e : ParseError) : e.message = "error at position ".toList ++
    (Decimal.ofNat e.span.start ++ ' ' :: '(' :: (e.slice.quoted ++
      ("): ".toList ++ e.problem.message))) := by
  change "error at position ".toList ++ _ ++ " (".toList ++ _ ++ "): ".toList ++ _ = _
  rw [List.append_assoc, List.append_assoc, List.append_assoc, List.append_assoc]
  rfl

theorem placedUnique {e f : ParseError} (left : e.span.stop = e.span.start + e.slice.size)
    (right : f.span.stop = f.span.start + f.slice.size) (same : e.message = f.message) :
    e = f := by
  have plain (n : Nat) : ' ' ∉ Decimal.ofNat n := Decimal.ofNatWithout (by decide) n
  rw [messageParts, messageParts] at same
  obtain ⟨start, rest⟩ := Text.cutAt (List.append_cancel_left same) (plain _) (plain _)
    (by simp) (by simp)
  obtain ⟨slice, rest⟩ := Text.quotedUnique (List.cons.inj (List.cons.inj rest).2).2
  have starts := Decimal.ofNatInjective start
  -- The message leaves out where the span stops, which the slice tells.
  have stops : e.span.stop = f.span.stop := by rw [left, right, starts, slice]
  have problem := Problem.messageUnique (List.append_cancel_left rest)
  exact ParseError.ext problem (Span.ext starts stops) slice

end ParseError

theorem errorPlaced {t : Text} {e : ParseError} (failed : Expression.parse t = .error e) :
    e.span.stop = e.span.start + e.slice.size := by
  rcases failedSteps failed with ⟨_, k, _, r, _, _, refused⟩ | ⟨r, _, last⟩
  · cases Reading.nextRefusal refused <;> rfl
  · obtain ⟨_, span, slice⟩ := finishFails last
    rw [span, slice]
    rfl

theorem messagesUnique :
    (∀ {p q : Problem}, p.message = q.message → p = q) ∧
    ∀ {s t : Text} {e f : ParseError}, Expression.parse s = .error e →
      Expression.parse t = .error f →
      (e.message = f.message ↔ e.problem = f.problem ∧ e.span = f.span ∧ e.slice = f.slice) := by
  refine ⟨Problem.messageUnique, ?_⟩
  intro s t e f left right
  constructor
  · intro same
    obtain rfl := ParseError.placedUnique (errorPlaced left) (errorPlaced right) same
    exact ⟨rfl, rfl, rfl⟩
  · intro parts
    obtain ⟨problem, span, slice⟩ := parts
    rw [ParseError.ext problem span slice]

theorem messagesUniqueEscapes :
    Expression.parse "2\\d".toList = .error ⟨.unrecognized, ⟨1, 2⟩, ['\\']⟩ ∧
    Expression.parse "7\"+".toList = .error ⟨.unrecognized, ⟨1, 2⟩, ['"']⟩ ∧
    ParseError.message ⟨.unrecognized, ⟨1, 2⟩, ['\\']⟩ ≠
      ParseError.message ⟨.unrecognized, ⟨1, 2⟩, ['"']⟩ := by
  have left : Expression.parse "2\\d".toList = .error ⟨.unrecognized, ⟨1, 2⟩, ['\\']⟩ := rfl
  have right : Expression.parse "7\"+".toList = .error ⟨.unrecognized, ⟨1, 2⟩, ['"']⟩ := rfl
  refine ⟨left, right, ?_⟩
  intro same
  obtain ⟨_, _, slice⟩ := (messagesUnique.2 left right).mp same
  exact absurd slice (by decide)

end Dice
