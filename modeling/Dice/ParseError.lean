import Dice.Token
import Dice.Text.Decimal
import Dice.Text.Quoted

/-! What can be wrong with a notation, where, and how it is said. -/
namespace Dice

inductive Problem where
  | unrecognized
  | unexpectedToken (found : TokenKind) (expected : List TokenKind)
  | unexpectedEnd (expected : List TokenKind)
  | zeroSides
  | integerOverflow
  deriving DecidableEq, Repr

def alternatives : List Text → Text
  | [] => []
  | [a] => a
  | [a, b] => a ++ " or ".toList ++ b
  | many => listed many
where
  listed : List Text → Text
    | [] => []
    | [c] => "or ".toList ++ c
    | b :: rest => b ++ ", ".toList ++ listed rest

def Problem.message : Problem → Text
  | unrecognized => "unrecognized input".toList
  | unexpectedToken found expected =>
    "unexpected token: found ".toList ++ found.display ++ ", expected ".toList
      ++ alternatives (expected.map TokenKind.display)
  | unexpectedEnd expected =>
    "unexpected end of input, expected ".toList
      ++ alternatives (expected.map TokenKind.display)
  | zeroSides => "dice must have at least one side".toList
  | integerOverflow => "integer is larger than 4294967295".toList

@[ext]
structure ParseError where
  problem : Problem
  span : Span
  slice : Text
  deriving DecidableEq, Repr

namespace ParseError

def about (t : Token) (p : Problem) : ParseError := ⟨p, t.span, t.text⟩

def isLexical (e : ParseError) : Bool := e.problem = .unrecognized

def message (e : ParseError) : Text :=
  "error at position ".toList ++ Decimal.ofNat e.span.start ++ " (".toList
    ++ Text.quoted e.slice ++ "): ".toList ++ e.problem.message

end ParseError
end Dice
