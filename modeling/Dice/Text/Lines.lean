import Dice.Text

/-!
The lines of a stream of bytes. A stream is cut at its newline bytes first, and every line is
decoded on its own, so an unreadable line leaves the lines before it readable.
-/
namespace Dice

structure ByteLine where
  bytes : List UInt8
  ended : Bool
  deriving DecidableEq, Repr

namespace ByteLine

def newline : UInt8 := 10

def carriageReturn : UInt8 := 13

def attach (b : UInt8) (ls : List ByteLine) : List ByteLine :=
  if b = newline then ⟨[], true⟩ :: ls
  else match ls with
    | [] => [⟨[b], false⟩]
    | l :: rest => ⟨b :: l.bytes, l.ended⟩ :: rest

def ofBytes (stream : List UInt8) : List ByteLine := stream.foldr attach []

def content (l : ByteLine) : List UInt8 :=
  if l.ended ∧ l.bytes.getLast? = some carriageReturn then l.bytes.dropLast else l.bytes

end ByteLine

def Text.ofUtf8? (bytes : List UInt8) : Option Text :=
  bytes.toByteArray.utf8Decode?.map Array.toList

end Dice
