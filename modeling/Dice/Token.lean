import Dice.Sign

/-!
Tokens of dice notation. A text is cut into lexemes, which are blanks or tokens without a place;
the lexemes one after another give the text back, and the only ones that can be longer than a
character are integers, which are as long as the digits reach.
-/
namespace Dice

inductive TokenKind where
  | integer
  | dieMarker
  | sign (s : Sign)
  | unrecognized
  deriving DecidableEq, Repr

namespace TokenKind

def ofChar? (c : Char) : Option TokenKind :=
  if c.isDigit then some .integer
  else if c = 'd' ∨ c = 'D' then some .dieMarker
  else if c = '+' then some (.sign .plus)
  else if c = '-' then some (.sign .minus)
  else if c = ' ' ∨ c = '\t' ∨ c = '\n' ∨ c = '\x0c' ∨ c = '\r' then none
  else some .unrecognized

def sign? : TokenKind → Option Sign
  | .sign s => some s
  | _ => none

def display : TokenKind → Text
  | .integer => "<integer>".toList
  | .dieMarker => "'d'".toList
  | .sign .plus => "'+'".toList
  | .sign .minus => "'-'".toList
  | .unrecognized => "<error>".toList

end TokenKind

/-- A stretch of text that no token crosses; without a kind, a blank. -/
structure Lexeme where
  kind? : Option TokenKind
  text : Text
  deriving DecidableEq, Repr

namespace Lexeme

def ofChar (c : Char) : Lexeme := ⟨TokenKind.ofChar? c, [c]⟩

def attach (c : Char) (ls : List Lexeme) : List Lexeme :=
  match ls with
  | l :: rest =>
    if TokenKind.ofChar? c = some .integer ∧ l.kind? = some .integer
    then ⟨some .integer, c :: l.text⟩ :: rest
    else ofChar c :: l :: rest
  | [] => [ofChar c]

theorem attachTexts (c : Char) (ls : List Lexeme) :
    (attach c ls).flatMap Lexeme.text = c :: ls.flatMap Lexeme.text := by
  cases ls with
  | nil => rfl
  | cons l rest => simp only [attach, ofChar]; split <;> simp

end Lexeme

def Text.lexemes (t : Text) : List Lexeme := t.foldr Lexeme.attach []

theorem Text.lexemesTexts (t : Text) : (lexemes t).flatMap Lexeme.text = t := by
  induction t with
  | nil => rfl
  | cons c t ih =>
    rw [lexemes, List.foldr_cons, Lexeme.attachTexts]
    exact congrArg _ ih

@[ext]
structure Span where
  start : Nat
  stop : Nat
  deriving DecidableEq, Repr

@[ext]
structure Token where
  kind : TokenKind
  start : Nat
  text : Text
  deriving DecidableEq, Repr

namespace Token

def span (t : Token) : Span := ⟨t.start, t.start + t.text.size⟩

def collect (done : List Token) (start : Nat) : List Lexeme → List Token
  | [] => done.reverse
  | l :: rest =>
    match l.kind? with
    | some kind => collect (⟨kind, start, l.text⟩ :: done) (start + l.text.size) rest
    | none => collect done (start + l.text.size) rest

def locate (start : Nat) (ls : List Lexeme) : List Token := collect [] start ls

theorem collectExact (done : List Token) (start : Nat) (ls : List Lexeme) :
    collect done start ls = done.reverse ++ locate start ls := by
  induction ls generalizing done start with
  | nil => simp [collect, locate]
  | cons l rest ih =>
    cases h : l.kind? with
    | none => simp only [locate, collect, h]; exact ih done _
    | some kind => simp only [locate, collect, h]; rw [ih, ih [_]]; simp

theorem locateCons (start : Nat) (l : Lexeme) (rest : List Lexeme) :
    locate start (l :: rest) =
      (l.kind?.map fun kind => ⟨kind, start, l.text⟩).toList
        ++ locate (start + l.text.size) rest := by
  cases h : l.kind? with
  | none => simp [locate, collect, h]
  | some kind => simp [locate, collect, h, collectExact [_]]

end Token

def Text.tokens (t : Text) : List Token := Token.locate 0 t.lexemes

end Dice
