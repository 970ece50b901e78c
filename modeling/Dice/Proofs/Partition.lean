import Dice.Proofs.Lexing
import Mathlib.Data.List.Chain
import Mathlib.Data.List.Nodup

/-! Tokens part a text. What is between them is blank, each of them is written as its kind is
written, and an integer is as long as its digits reach; so two tokens that share a character are
one, and only one list of tokens leaves nothing but blanks out. -/
namespace Dice

def TokenKind.Letter : TokenKind → Char → Prop
  | .integer, c => c.isDigit = true
  | .dieMarker, c => c = 'd' ∨ c = 'D'
  | .sign s, c => c = s.symbol
  | .unrecognized, c => c.isDigit = false ∧ c ∉ "dD+-".toList ∧ c ∉ Text.blanks

inductive Spells (before after : Text) : TokenKind → Text → Prop where
  | integer {digits : Text} (filled : digits ≠ []) (inside : ∀ c ∈ digits, c.isDigit)
      (starts : ∀ c ∈ before.getLast?, c.isDigit = false)
      (ends : ∀ c ∈ after.head?, c.isDigit = false) : Spells before after .integer digits
  | single {kind : TokenKind} {c : Char} (other : kind ≠ .integer) (letter : kind.Letter c) :
      Spells before after kind [c]

namespace Token

def Stands (t : Text) (k : Token) : Prop :=
  ∃ before after, t = before ++ k.text ++ after ∧
    k.span = ⟨Text.size before, Text.size (before ++ k.text)⟩ ∧
    Spells before after k.kind k.text

def Covers (k : Token) (place : Nat) : Prop := k.span.start ≤ place ∧ place < k.span.stop

end Token

structure Partitions (t : Text) (ts : List Token) : Prop where
  filled : ∀ k ∈ ts, k.span.start < k.span.stop
  apart : ts.Pairwise fun j k => j.span.stop ≤ k.span.start
  stand : ∀ k ∈ ts, k.Stands t
  outside : ∀ before c after, t = before ++ c :: after →
    (∀ k ∈ ts, ¬ k.Covers (Text.size before)) → c ∈ Text.blanks
  inside : ∀ k ∈ ts, ∀ c ∈ k.text, c ∉ Text.blanks

theorem blankExact {c : Char} : TokenKind.ofChar? c = none ↔ c ∈ Text.blanks := by
  constructor
  · intro skipped
    unfold TokenKind.ofChar? at skipped
    repeat' split at skipped
    all_goals cases skipped
    next blank => simpa [Text.blanks] using blank
  · exact Text.blankEach (motive := fun c => TokenKind.ofChar? c = none) rfl rfl rfl rfl rfl c

theorem kindLetter {c : Char} {kind : TokenKind} (read : TokenKind.ofChar? c = some kind) :
    kind.Letter c := by
  unfold TokenKind.ofChar? at read
  repeat' split at read
  all_goals cases read
  · next digit => exact digit
  · next letter => exact letter
  · next plus => exact plus
  · next minus => exact minus
  · next digit letter plus minus blank =>
    refine ⟨by simpa using digit, ?_, ?_⟩
    · simpa using ⟨fun h => letter (Or.inl h), fun h => letter (Or.inr h), plus, minus⟩
    · simpa [Text.blanks] using blank

theorem letterExact {c : Char} {kind : TokenKind} :
    TokenKind.ofChar? c = some kind ↔ kind.Letter c := by
  refine ⟨kindLetter, ?_⟩
  intro letter
  cases kind with
  | integer => exact Text.kindInteger.mpr letter
  | dieMarker => rcases letter with rfl | rfl <;> rfl
  | sign s =>
    obtain rfl : c = s.symbol := letter
    cases s <;> rfl
  | unrecognized =>
    obtain ⟨plain, other, visible⟩ := letter
    cases read : TokenKind.ofChar? c with
    | none => exact absurd (blankExact.mp read) visible
    | some kind =>
      have letter := kindLetter read
      cases kind with
      | integer => exact absurd letter (by simp [plain, TokenKind.Letter])
      | dieMarker => rcases letter with rfl | rfl <;> simp at other
      | sign s =>
        obtain rfl : c = s.symbol := letter
        cases s <;> simp [Sign.symbol] at other
      | unrecognized => rfl

theorem spellsFilled {before after u : Text} {kind : TokenKind}
    (spells : Spells before after kind u) : u ≠ [] := by
  cases spells with
  | integer filled inside starts ends => exact filled
  | single other letter => simp

theorem spellsKind {before after u : Text} {kind : TokenKind}
    (spells : Spells before after kind u) : ∀ c ∈ u, TokenKind.ofChar? c = some kind := by
  cases spells with
  | integer filled inside starts ends => exact fun c hc => letterExact.mpr (inside c hc)
  | single other letter => simpa using letterExact.mpr letter

theorem digitsBehind {a v b w : Text} (same : v ++ a = w ++ b) (left : ∀ c ∈ v, c.isDigit)
    (right : ∀ c ∈ w, c.isDigit) (ends : ∀ c ∈ a.head?, c.isDigit = false)
    (again : ∀ c ∈ b.head?, c.isDigit = false) : v = w ∧ a = b :=
  @Text.cutUnique (fun c => !c.isDigit) _ _ _ _ same (by simpa using left) (by simpa using right)
    (by simpa using ends) (by simpa using again)

theorem digitsBefore {a v b w : Text} (same : a ++ v = b ++ w) (left : ∀ c ∈ v, c.isDigit)
    (right : ∀ c ∈ w, c.isDigit) (starts : ∀ c ∈ a.getLast?, c.isDigit = false)
    (again : ∀ c ∈ b.getLast?, c.isDigit = false) : a = b ∧ v = w := by
  have mirrored := congrArg List.reverse same
  rw [List.reverse_append, List.reverse_append] at mirrored
  obtain ⟨digits, rest⟩ := digitsBehind mirrored (by simpa using left) (by simpa using right)
    (by simpa using starts) (by simpa using again)
  exact ⟨List.reverse_inj.mp rest, List.reverse_inj.mp digits⟩

theorem coveredSplit {a u b x y : Text} {c : Char} (whole : a ++ u ++ b = x ++ c :: y)
    (low : a.size ≤ x.size) (high : x.size < (a ++ u).size) :
    ∃ v w, x = a ++ v ∧ u = v ++ c :: w ∧ y = w ++ b := by
  rcases List.append_eq_append_iff.mp whole with ⟨more, rfl, _⟩ | ⟨more, front, back⟩
  · rw [Text.sizeAppend _ more] at high
    omega
  cases more with
  | nil =>
    rw [front, List.append_nil] at high
    omega
  | cons d w =>
    obtain ⟨rfl, rfl⟩ := List.cons.inj back
    rcases List.append_eq_append_iff.mp front with ⟨v, rfl, rfl⟩ | ⟨more, rfl, here⟩
    · exact ⟨v, w, rfl, rfl, rfl⟩
    · cases more with
      | nil => exact ⟨[], w, by simp, here.symm, rfl⟩
      | cons d more =>
        have filled := Text.sizePositive (List.cons_ne_nil d more)
        rw [Text.sizeAppend] at low
        omega

theorem spellsUnique {a b v w a' b' v' w' : Text} {c : Char} {kind : TokenKind}
    (left : Spells a b kind (v ++ c :: w)) (right : Spells a' b' kind (v' ++ c :: w'))
    (front : a ++ v = a' ++ v') (back : w ++ b = w' ++ b') : a = a' ∧ v = v' ∧ w = w' := by
  generalize here : v ++ c :: w = u at left
  generalize there : v' ++ c :: w' = u' at right
  cases left with
  | integer filled inside starts ends =>
    cases right with
    | single other letter => contradiction
    | integer filled' inside' starts' ends' =>
      subst here there
      simp only [List.forall_mem_append, List.forall_mem_cons] at inside inside'
      obtain ⟨rfl, rfl⟩ := digitsBefore front inside.1 inside'.1 starts starts'
      obtain ⟨rfl, _⟩ := digitsBehind back inside.2.2 inside'.2.2 ends ends'
      exact ⟨rfl, rfl, rfl⟩
  | single other letter =>
    cases right with
    | integer filled' inside' starts' ends' => contradiction
    | single other' letter' =>
      obtain ⟨rfl, _, rfl⟩ : v = [] ∧ _ ∧ w = [] := by simpa [List.append_eq_cons_iff] using here
      obtain ⟨rfl, _, rfl⟩ : v' = [] ∧ _ ∧ w' = [] := by
        simpa [List.append_eq_cons_iff] using there
      exact ⟨by simpa using front, rfl, rfl⟩

namespace Token

theorem standsUnique {t x y : Text} {c : Char} {j k : Token} (whole : t = x ++ c :: y)
    (left : j.Stands t) (right : k.Stands t) (first : j.Covers x.size)
    (second : k.Covers x.size) : j = k := by
  obtain ⟨a, b, split, span, spells⟩ := left
  obtain ⟨a', b', split', span', spells'⟩ := right
  rw [Covers, span] at first
  rw [Covers, span'] at second
  obtain ⟨v, w, rfl, text, rfl⟩ := coveredSplit (split.symm.trans whole) first.1 first.2
  obtain ⟨v', w', front, text', back⟩ := coveredSplit (split'.symm.trans whole) second.1 second.2
  have kind : j.kind = k.kind := by
    have here := spellsKind spells c (by simp [text])
    have again := spellsKind spells' c (by simp [text'])
    exact Option.some.inj (here.symm.trans again)
  rw [text] at spells
  rw [text', ← kind] at spells'
  obtain ⟨rfl, rfl, rfl⟩ := spellsUnique spells spells' front back
  have starts : j.start = k.start := by
    have here : j.start = _ := congrArg Span.start span
    exact here.trans (congrArg Span.start span').symm
  exact Token.ext kind starts (text.trans text'.symm)

end Token

namespace Text

theorem lexemesApart (t : Text) : t.lexemes.IsChain fun l m =>
    ¬ (l.kind? = some .integer ∧ m.kind? = some .integer) := by
  induction t with
  | nil => exact .nil
  | cons c t ih =>
    rw [lexemesCons]
    cases shape : lexemes t with
    | nil => exact .singleton _
    | cons m rest =>
      rw [shape] at ih
      rw [Lexeme.attach]
      split
      -- The digit joins the integer that it would otherwise stand next to.
      · next both =>
        cases rest with
        | nil => exact .singleton _
        | cons n rest =>
          obtain ⟨first, later⟩ := List.isChain_cons_cons.mp ih
          exact .cons_cons (fun integers => first ⟨both.2, integers.2⟩) later
      · next apart => exact .cons_cons apart ih

theorem lexemeFilled {t : Text} {l : Lexeme} (member : l ∈ lexemes t) : l.text ≠ [] := by
  intro none
  have alone := lexemeAlone member
  rw [none] at alone
  cases alone

theorem lexemeAt {ls : List Lexeme} {x y : Text} {c : Char}
    (whole : ls.flatMap Lexeme.text = x ++ c :: y) :
    ∃ before l after v w, ls = before ++ l :: after ∧ l.text = v ++ c :: w ∧
      x = before.flatMap Lexeme.text ++ v := by
  induction ls generalizing x with
  | nil => simp at whole
  | cons l ls ih =>
    rw [List.flatMap_cons] at whole
    rcases List.append_eq_append_iff.mp whole with ⟨more, rfl, later⟩ | ⟨more, text, back⟩
    · obtain ⟨before, m, after, v, w, rfl, text, rfl⟩ := ih later
      exact ⟨l :: before, m, after, v, w, rfl, text, by simp⟩
    cases more with
    | nil =>
      obtain ⟨before, m, after, v, w, rfl, inner, front⟩ := ih (x := []) back.symm
      exact ⟨l :: before, m, after, v, w, rfl, inner, by simp [← front, text]⟩
    | cons d w =>
      obtain ⟨rfl, _⟩ := List.cons.inj back
      exact ⟨[], l, ls, x, w, rfl, text, rfl⟩

theorem lexemePlain {t : Text} {l : Lexeme} (member : l ∈ lexemes t)
    (other : l.kind? ≠ some .integer) {c : Char} (inside : c ∈ l.text) : c.isDigit = false := by
  refine Bool.eq_false_iff.mpr ?_
  intro digit
  exact other ((lexemeKind member c inside).symm.trans (kindInteger.mpr digit))

theorem plainLast {t : Text} {ls : List Lexeme} (within : ∀ l ∈ ls, l ∈ lexemes t)
    (other : ∀ l ∈ ls.getLast?, l.kind? ≠ some .integer) :
    ∀ c ∈ (ls.flatMap Lexeme.text).getLast?, c.isDigit = false := by
  rcases List.eq_nil_or_concat ls with rfl | ⟨front, l, rfl⟩
  · exact nofun
  have member := within l (by simp)
  intro c last
  rw [List.concat_eq_append, List.flatMap_append, List.flatMap_singleton,
    List.getLast?_append_of_ne_nil _ (lexemeFilled member)] at last
  exact lexemePlain member (other l (by simp)) (List.mem_of_getLast? last)

theorem plainFirst {t : Text} {ls : List Lexeme} (within : ∀ l ∈ ls, l ∈ lexemes t)
    (other : ∀ l ∈ ls.head?, l.kind? ≠ some .integer) :
    ∀ c ∈ (ls.flatMap Lexeme.text).head?, c.isDigit = false := by
  cases ls with
  | nil => exact nofun
  | cons l rest =>
    have member := within l List.mem_cons_self
    intro c first
    rw [List.flatMap_cons, List.head?_append_of_ne_nil _ (lexemeFilled member)] at first
    exact lexemePlain member (other l rfl) (List.mem_of_head? first)

end Text

namespace Token

theorem ofLexeme {t : Text} {before after : List Lexeme} {l : Lexeme} {kind : TokenKind}
    (whole : t.lexemes = before ++ l :: after) (read : l.kind? = some kind) :
    ⟨kind, Text.size (before.flatMap Lexeme.text), l.text⟩ ∈ t.tokens := by
  rw [Text.tokens, whole, locateAppend, locateCons, read, Nat.zero_add]
  simp

theorem stands {t : Text} {k : Token} (member : k ∈ t.tokens) : k.Stands t := by
  obtain ⟨before, after, whole, text, span⟩ := placed member
  have within : (⟨some k.kind, k.text⟩ : Lexeme) ∈ t.lexemes := by simp [whole]
  refine ⟨_, _, text, span, ?_⟩
  by_cases integer : k.kind = .integer
  · have digits : ∀ c ∈ k.text, c.isDigit := by
      intro c inside
      rw [← Text.kindInteger, Text.lexemeKind within c inside, integer]
    have chain := t.lexemesApart
    rw [whole, List.isChain_append, List.isChain_cons, integer] at chain
    obtain ⟨_, ⟨behind, _⟩, front⟩ := chain
    rw [integer]
    refine .integer (Text.lexemeFilled within) digits ?_ ?_
    · refine Text.plainLast (t := t) (fun l hl => by simp [whole, hl]) ?_
      intro l last kind
      exact front l last _ rfl ⟨kind, rfl⟩
    · refine Text.plainFirst (t := t) (fun l hl => by simp [whole, hl]) ?_
      intro l first kind
      exact behind l first ⟨rfl, kind⟩
  · obtain ⟨c, same⟩ := Text.lexemeSingle within (by simpa using integer)
    obtain ⟨kind, alone⟩ := Lexeme.mk.inj same
    rw [alone]
    exact .single integer (letterExact.mp kind.symm)

theorem covers {t before after : Text} {c : Char} (whole : t = before ++ c :: after)
    (visible : c ∉ Text.blanks) : ∃ k ∈ t.tokens, k.Covers before.size := by
  obtain ⟨front, l, back, v, w, split, text, rfl⟩ :=
    Text.lexemeAt (t.lexemesTexts.trans whole)
  have read := Text.lexemeKind (l := l) (t := t) (by simp [split]) c (by simp [text])
  cases kind : l.kind? with
  | none => exact absurd (blankExact.mp (read.trans kind)) visible
  | some kind' =>
    refine ⟨_, ofLexeme split kind, ?_⟩
    have size := c.utf8Size_pos
    simp only [Covers, span, text, Text.sizeAppend, Text.sizeCons]
    omega

end Token

theorem partitionsTokens (t : Text) : Partitions t t.tokens := by
  refine ⟨?_, ?_, fun k member => Token.stands member, ?_, ?_⟩
  · intro k member
    have filled := Text.sizePositive (Token.properFilled (Token.properOf member))
    simp only [Token.span]
    omega
  · exact Token.locateApart 0 t.lexemes
  · intro before c after whole free
    by_contra visible
    obtain ⟨k, member, covers⟩ := Token.covers whole visible
    exact free k member covers
  · intro k member c inside blank
    obtain ⟨_, _, _, _, spells⟩ := Token.stands member
    have kind := spellsKind spells c inside
    rw [blankExact.mpr blank] at kind
    cases kind

theorem partitionsMember {t : Text} {ts : List Token} (parts : Partitions t ts) {k : Token} :
    k ∈ ts ↔ k.Stands t := by
  refine ⟨parts.stand k, ?_⟩
  intro stands
  obtain ⟨before, after, whole, span, spells⟩ := id stands
  obtain ⟨c, w, text⟩ := List.exists_cons_of_ne_nil (spellsFilled spells)
  have split : t = before ++ c :: (w ++ after) := by simp [whole, text]
  have own : k.Covers before.size := by
    have size := c.utf8Size_pos
    simp only [Token.Covers, span, text, Text.sizeAppend, Text.sizeCons]
    omega
  have read := spellsKind spells c (by simp [text])
  by_cases free : ∀ j ∈ ts, ¬ j.Covers before.size
  · rw [blankExact.mpr (parts.outside before c _ split free)] at read
    cases read
  · obtain ⟨j, member, covers⟩ : ∃ j ∈ ts, j.Covers before.size := by simpa using free
    rwa [← Token.standsUnique split (parts.stand j member) stands covers own]

theorem partitionsAscend {t : Text} {ts : List Token} (parts : Partitions t ts) :
    ts.Pairwise fun j k => j.start < k.start := by
  refine parts.apart.imp_of_mem ?_
  intro j k member _ behind
  exact Nat.lt_of_lt_of_le (parts.filled j member) behind

theorem ascendDistinct {ts : List Token} (ascend : ts.Pairwise fun j k => j.start < k.start) :
    ts.Nodup := ascend.imp fun less => ne_of_apply_ne Token.start (Nat.ne_of_lt less)

theorem tokensPartition (t : Text) (ts : List Token) : Partitions t ts ↔ ts = t.tokens := by
  constructor
  · intro parts
    have own := partitionsTokens t
    have left := partitionsAscend parts
    have right := partitionsAscend own
    have same : ts.Perm t.tokens := by
      refine (List.perm_ext_iff_of_nodup (ascendDistinct left) (ascendDistinct right)).mpr ?_
      intro k
      rw [partitionsMember parts, partitionsMember own]
    exact same.eq_of_pairwise (fun _ _ _ _ less more => absurd less (Nat.lt_asymm more)) left right
  · intro same
    subst same
    exact partitionsTokens t

end Dice
