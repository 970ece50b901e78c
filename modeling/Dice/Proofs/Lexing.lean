import Dice.Token
import Dice.Text.Decimal

/-! Lexing respects every cut that does not go through a run of digits: the tokens behind the cut
stay what they are and only move. So a token on its own is read as itself and tokens set apart by
blanks are read one by one. What the grammar sees of a token is its kind and, for an integer, its
value. -/
namespace Dice

def Fuses (s u : Text) : Prop :=
  ∃ c d, s.getLast? = some c ∧ u.head? = some d ∧ c.isDigit ∧ d.isDigit

theorem apartAfter {c : Char} (plain : c.isDigit = false) (s u : Text) : ¬ Fuses (s ++ [c]) u := by
  intro fuses
  obtain ⟨d, _, last, _, digit, _⟩ := fuses
  obtain rfl : c = d := by simpa using last
  rw [plain] at digit
  contradiction

theorem apartBefore {u : Text} (plain : ∀ c ∈ u.head?, c.isDigit = false) (s : Text) :
    ¬ Fuses s u := by
  intro fuses
  obtain ⟨_, d, _, first, _, digit⟩ := fuses
  rw [plain d first] at digit
  contradiction

namespace Text

theorem lexemesCons (c : Char) (t : Text) : lexemes (c :: t) = Lexeme.attach c (lexemes t) := rfl

theorem kindInteger {c : Char} : TokenKind.ofChar? c = some .integer ↔ c.isDigit := by
  unfold TokenKind.ofChar?
  by_cases digit : c.isDigit
  · simp [digit]
  · rw [if_neg digit, iff_false_right digit]
    repeat' split
    all_goals simp

theorem attachHead (c : Char) (ls : List Lexeme) :
    ∃ l rest, Lexeme.attach c ls = l :: rest ∧ l.kind? = TokenKind.ofChar? c := by
  cases ls with
  | nil => exact ⟨_, _, rfl, rfl⟩
  | cons l rest =>
    by_cases both : TokenKind.ofChar? c = some .integer ∧ l.kind? = some .integer
    · exact ⟨_, rest, if_pos both, both.1.symm⟩
    · exact ⟨_, l :: rest, if_neg both, rfl⟩

theorem attachApart {c : Char} {ls : List Lexeme}
    (apart : ∀ l ∈ ls.head?, ¬ (TokenKind.ofChar? c = some .integer ∧ l.kind? = some .integer)) :
    Lexeme.attach c ls = Lexeme.ofChar c :: ls := by
  cases ls with
  | nil => rfl
  | cons l rest => exact if_neg (apart l rfl)

theorem attachAppend (c : Char) (l : Lexeme) (ls ms : List Lexeme) :
    Lexeme.attach c (l :: ls ++ ms) = Lexeme.attach c (l :: ls) ++ ms := by
  simp only [List.cons_append, Lexeme.attach]
  split <;> rfl

theorem lexemesAppend {s u : Text} (apart : ¬ Fuses s u) :
    lexemes (s ++ u) = lexemes s ++ lexemes u := by
  induction s with
  | nil => rfl
  | cons c s ih =>
    cases s with
    | nil =>
      change Lexeme.attach c (lexemes u) = Lexeme.ofChar c :: lexemes u
      apply attachApart
      intro l first both
      cases u with
      | nil => contradiction
      | cons d u =>
        obtain ⟨m, rest, whole, kind⟩ := attachHead d (lexemes u)
        rw [lexemesCons, whole] at first
        obtain rfl : m = l := by simpa using first
        refine apart ⟨c, d, rfl, rfl, kindInteger.mp both.1, kindInteger.mp ?_⟩
        rw [← kind, both.2]
    | cons d s =>
      have tail : ¬ Fuses (d :: s) u := by
        intro h
        obtain ⟨x, y, last, rest⟩ := h
        exact apart ⟨x, y, by simpa using last, rest⟩
      obtain ⟨l, rest, whole, _⟩ := attachHead d (lexemes s)
      have step := attachAppend c l rest (lexemes u)
      rw [List.cons_append, lexemesCons, ih tail, lexemesCons c, lexemesCons d, whole, step]

theorem lexemeEach {motive : Lexeme → Prop} (single : ∀ c, motive (Lexeme.ofChar c))
    (longer : ∀ c l, TokenKind.ofChar? c = some .integer → l.kind? = some .integer →
      motive l → motive ⟨some .integer, c :: l.text⟩) (t : Text) :
    ∀ l ∈ lexemes t, motive l := by
  induction t with
  | nil => exact nofun
  | cons c t ih =>
    rw [lexemesCons]
    cases shape : lexemes t with
    | nil => exact List.forall_mem_singleton.mpr (single c)
    | cons m rest =>
      rw [shape] at ih
      obtain ⟨first, later⟩ := List.forall_mem_cons.mp ih
      rw [Lexeme.attach]
      split
      · next both => exact List.forall_mem_cons.mpr ⟨longer c m both.1 both.2 first, later⟩
      · exact List.forall_mem_cons.mpr ⟨single c, ih⟩

theorem lexemeAlone {t : Text} {l : Lexeme} (member : l ∈ lexemes t) : lexemes l.text = [l] := by
  refine lexemeEach (motive := fun l => lexemes l.text = [l]) (fun _ => rfl) ?_ t l member
  intro c l digit integer alone
  rw [lexemesCons, alone, Lexeme.attach, if_pos ⟨digit, integer⟩]

theorem lexemeKind {t : Text} {l : Lexeme} (member : l ∈ lexemes t) :
    ∀ c ∈ l.text, TokenKind.ofChar? c = l.kind? := by
  refine lexemeEach (motive := fun l => ∀ c ∈ l.text, TokenKind.ofChar? c = l.kind?)
    (by simp [Lexeme.ofChar]) ?_ t l member
  intro c l digit integer inner
  rw [integer] at inner
  exact List.forall_mem_cons.mpr ⟨digit, inner⟩

theorem lexemeSingle {t : Text} {l : Lexeme} (member : l ∈ lexemes t)
    (other : l.kind? ≠ some .integer) : ∃ c, l = Lexeme.ofChar c := by
  refine lexemeEach (motive := fun l => l.kind? ≠ some .integer → ∃ c, l = Lexeme.ofChar c)
    (fun c _ => ⟨c, rfl⟩) ?_ t l member other
  intro c l _ _ _ other
  exact absurd rfl other

end Text

namespace Token

def meaning (t : Token) : TokenKind × Option Nat :=
  ⟨t.kind, if t.kind = .integer then some (Decimal.value t.text) else none⟩

def Proper (t : Token) : Prop := t.text.lexemes = [⟨some t.kind, t.text⟩]

theorem locateAt {start : Nat} {ls : List Lexeme} {t : Token} (member : t ∈ locate start ls) :
    ∃ before after, ls = before ++ ⟨some t.kind, t.text⟩ :: after ∧
      t.start = start + Text.size (before.flatMap Lexeme.text) := by
  induction ls generalizing start with
  | nil => contradiction
  | cons l ls ih =>
    rw [locateCons] at member
    rcases List.mem_append.mp member with here | later
    · cases kind : l.kind? with
      | none => simp [kind] at here
      | some k =>
        simp only [kind, Option.map_some, Option.toList_some, List.mem_singleton] at here
        subst t
        refine ⟨[], ls, ?_, rfl⟩
        rw [← kind]
        rfl
    · obtain ⟨before, after, rfl, place⟩ := ih later
      refine ⟨l :: before, after, rfl, ?_⟩
      rw [place, List.flatMap_cons, Text.sizeAppend]
      omega

theorem placed {t : Text} {k : Token} (member : k ∈ t.tokens) :
    ∃ before after, t.lexemes = before ++ ⟨some k.kind, k.text⟩ :: after ∧
      t = before.flatMap Lexeme.text ++ k.text ++ after.flatMap Lexeme.text ∧
      k.span = ⟨Text.size (before.flatMap Lexeme.text),
        Text.size (before.flatMap Lexeme.text ++ k.text)⟩ := by
  obtain ⟨before, after, whole, place⟩ := locateAt member
  refine ⟨before, after, whole, ?_, ?_⟩
  · have text := t.lexemesTexts
    rw [whole] at text
    rw [← text]
    simp
  · rw [Nat.zero_add] at place
    simp [span, place]

theorem slice {t : Text} {k : Token} (member : k ∈ t.tokens) :
    ∃ a b, t = a ++ k.text ++ b ∧ k.span = ⟨Text.size a, Text.size (a ++ k.text)⟩ := by
  obtain ⟨before, after, _, text, span⟩ := placed member
  exact ⟨_, _, text, span⟩

theorem properOf {t : Text} {k : Token} (member : k ∈ t.tokens) : Proper k := by
  obtain ⟨before, after, whole, _⟩ := locateAt member
  exact Text.lexemeAlone (l := ⟨some k.kind, k.text⟩) (by rw [whole]; simp)

theorem locateMeaning (start : Nat) (ls : List Lexeme) :
    (locate start ls).map meaning =
      ls.flatMap fun l => (l.kind?.map fun kind => meaning ⟨kind, 0, l.text⟩).toList := by
  induction ls generalizing start with
  | nil => rfl
  | cons l ls ih =>
    rw [locateCons, List.map_append, ih, List.flatMap_cons]
    cases l.kind? <;> rfl

theorem ofAdmitted {t : Text} {c : Char} {kind : TokenKind} (member : c ∈ t)
    (admitted : TokenKind.ofChar? c = some kind) : ∃ k ∈ t.tokens, k.kind = kind := by
  rw [← t.lexemesTexts] at member
  obtain ⟨l, among, inside⟩ := List.mem_flatMap.mp member
  have same := Text.lexemeKind among c inside
  rw [admitted] at same
  have meant : meaning ⟨kind, 0, l.text⟩ ∈ t.tokens.map meaning := by
    rw [Text.tokens, locateMeaning]
    refine List.mem_flatMap.mpr ⟨l, among, ?_⟩
    simp [← same]
  obtain ⟨k, found, same⟩ := List.mem_map.mp meant
  exact ⟨k, found, congrArg Prod.fst same⟩

def moved (n : Nat) (t : Token) : Token := { t with start := t.start + n }

theorem meaningsMoved (n : Nat) (ts : List Token) :
    (ts.map (moved n)).map meaning = ts.map meaning := List.map_map

theorem locateMoved (start n : Nat) (ls : List Lexeme) :
    locate (start + n) ls = (locate start ls).map (moved n) := by
  induction ls generalizing start with
  | nil => rfl
  | cons l rest ih =>
    rw [locateCons, locateCons, List.map_append, ← ih, Nat.add_right_comm]
    cases l.kind? <;> rfl

theorem properFilled {t : Token} (proper : t.Proper) : t.text ≠ [] := by
  intro none
  rw [Proper, none] at proper
  cases proper

theorem locateApart (start : Nat) (ls : List Lexeme) :
    (locate start ls).Pairwise fun a b => a.span.stop ≤ b.start := by
  induction ls generalizing start with
  | nil => exact .nil
  | cons l ls ih =>
    rw [locateCons]
    cases l.kind? with
    | none => exact ih _
    | some kind =>
      refine List.pairwise_cons.mpr ⟨?_, ih _⟩
      intro b later
      obtain ⟨_, _, _, place⟩ := locateAt later
      rw [place]
      exact Nat.le_add_right _ _

theorem locateAppend (start : Nat) (ls ms : List Lexeme) : locate start (ls ++ ms) =
    locate start ls ++ locate (start + Text.size (ls.flatMap Lexeme.text)) ms := by
  induction ls generalizing start with
  | nil => rfl
  | cons l rest ih =>
    rw [List.cons_append, locateCons, locateCons, ih, List.append_assoc, List.flatMap_cons,
      Text.sizeAppend, Nat.add_assoc]

end Token

namespace Text

theorem tokensAppend {x y : Text} (apart : ¬ Fuses x y) :
    (x ++ y).tokens = x.tokens ++ y.tokens.map (Token.moved x.size) := by
  rw [tokens, lexemesAppend apart, Token.locateAppend, lexemesTexts, Token.locateMoved]
  rfl

def blanks : Text := [' ', '\t', '\n', '\x0c', '\r']

theorem blankEach {motive : Char → Prop} (space : motive ' ') (tab : motive '\t')
    (newline : motive '\n') (feed : motive '\x0c') (carriage : motive '\r') :
    ∀ c ∈ blanks, motive c := by
  simp only [blanks, List.forall_mem_cons]
  exact ⟨space, tab, newline, feed, carriage, nofun⟩

theorem blankSize : ∀ c ∈ blanks, size [c] = 1 := blankEach rfl rfl rfl rfl rfl

theorem blankTokens : ∀ c ∈ blanks, tokens [c] = [] := blankEach rfl rfl rfl rfl rfl

theorem blankDigit : ∀ c ∈ blanks, c.isDigit = false := blankEach rfl rfl rfl rfl rfl

theorem tokensBlank {c : Char} (blank : c ∈ blanks) (x : Text) : (x ++ [c]).tokens = x.tokens := by
  have apart : ¬ Fuses x [c] := apartBefore (by simpa using blankDigit c blank) x
  rw [tokensAppend apart, blankTokens c blank]
  simp

theorem blankApart {c : Char} (blank : c ∈ blanks) (x y : Text) : ¬ Fuses (x ++ [c]) y :=
  apartAfter (blankDigit c blank) x y

end Text

namespace Token

def spaced (ts : List Token) : Text := ts.flatMap fun t => t.text ++ [' ']

theorem spacedTokens {ts : List Token} (proper : ∀ t ∈ ts, Proper t) (u : Text) :
    (Text.tokens (spaced ts ++ u)).map meaning = ts.map meaning ++ u.tokens.map meaning := by
  induction ts with
  | nil => rfl
  | cons t ts ih =>
    have blank : ' ' ∈ Text.blanks := List.mem_cons_self
    have whole : spaced (t :: ts) ++ u = (t.text ++ [' ']) ++ (spaced ts ++ u) := by simp [spaced]
    have single : t.text.tokens = [⟨t.kind, 0, t.text⟩] := by
      rw [Text.tokens, proper t List.mem_cons_self]
      rfl
    rw [whole, Text.tokensAppend (Text.blankApart blank _ _), Text.tokensBlank blank, single,
      List.map_append, meaningsMoved, ih fun k hk => proper k (List.mem_cons_of_mem _ hk)]
    rfl

end Token
end Dice
