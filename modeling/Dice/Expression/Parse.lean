import Dice.Expression
import Dice.ParseError
import Dice.Text.Decimal

/-!
Reading an expression, one token at a time. A `Reading` is a place in the notation

    sign? quantity (sign quantity)*        quantity = integer | integer 'd' integer

with the terms read so far. Each place either admits the next token or is the cause of a complaint
about it, so the leftmost token that cannot stand where it stands is the one that is reported.
-/
namespace Dice

namespace Token

def number (t : Token) : Except ParseError UInt32 :=
  let n := Decimal.value t.text
  if n < UInt32.size then .ok (UInt32.ofNat n) else .error (.about t .integerOverflow)

def sides (t : Token) : Except ParseError Sides := do
  match Sides.ofWord? (← t.number) with
  | some sides => .ok sides
  | none => .error (.about t .zeroSides)

def refusal (t : Token) (expected : List TokenKind) : ParseError :=
  match t.kind with
  | .unrecognized => .about t .unrecognized
  | found => .about t (.unexpectedToken found expected)

end Token

/-- A place in the notation; `earlier` holds the terms read, the latest one first. -/
inductive Reading where
  | start
  | signed (earlier : List Term) (sign : Sign)
  | counted (earlier : List Term) (sign : Sign) (count : UInt32)
  | marked (earlier : List Term) (sign : Sign) (count : UInt32)
  | ended (earlier : List Term) (latest : Term)
  deriving DecidableEq, Repr

namespace Reading

/-- The kinds that complaints at a place name. They leave out the die marker after a number. -/
def expected : Reading → List TokenKind
  | start => [.sign .plus, .sign .minus, .integer]
  | signed .. | marked .. => [.integer]
  | counted .. | ended .. => [.sign .plus, .sign .minus]

def next (r : Reading) (t : Token) : Except ParseError Reading :=
  match r, t.kind with
  | start, .sign sign => .ok (signed [] sign)
  | start, .integer => return counted [] .plus (← t.number)
  | signed earlier sign, .integer => return counted earlier sign (← t.number)
  | counted earlier sign count, .dieMarker => .ok (marked earlier sign count)
  | counted earlier sign count, .sign following =>
    .ok (signed (⟨sign, .constant count⟩ :: earlier) following)
  | marked earlier sign count, .integer =>
    return ended earlier ⟨sign, .dice count (← t.sides)⟩
  | ended earlier latest, .sign following => .ok (signed (latest :: earlier) following)
  | place, _ => .error (t.refusal place.expected)

def finish (r : Reading) (size : Nat) : Except ParseError Expression :=
  match r with
  | counted earlier sign count => .ok (.ofLatest ⟨sign, .constant count⟩ earlier)
  | ended earlier latest => .ok (.ofLatest latest earlier)
  | place => .error ⟨.unexpectedEnd place.expected, ⟨size, size⟩, []⟩

end Reading

def Expression.parse (t : Text) : Except ParseError Expression := do
  let place ← t.tokens.foldlM Reading.next Reading.start
  place.finish t.size

end Dice
