import Dice.Word.Source

/-! Words from a list, and zeros for ever once it is used up. A zero is accepted for every die. -/
namespace Dice

structure ListedWords where
  left : List UInt32
  drawn : Nat
  deriving DecidableEq, Repr

namespace ListedWords

def ofList (words : List UInt32) : ListedWords := ⟨words, 0⟩

def next (s : ListedWords) : UInt32 × ListedWords :=
  match s.left with
  | [] => (0, ⟨[], s.drawn + 1⟩)
  | word :: left => (word, ⟨left, s.drawn + 1⟩)

instance : WordSource ListedWords where
  next := next
  span s := s.left.length + 1

end ListedWords
end Dice
