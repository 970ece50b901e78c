import Dice.Text.Hidden

/-! Quoted texts: what error messages show of the notation they complain about. -/
namespace Dice.Text

def byNumber (c : Char) : Text :=
  ['\\', 'u', '\x7b'] ++ Nat.toDigits 16 c.toNat ++ ['\x7d']

def escape (c : Char) : Text :=
  if c = '"' then ['\\', '"']
  else if c = '\\' then ['\\', '\\']
  else if c = '\n' then ['\\', 'n']
  else if c = '\r' then ['\\', 'r']
  else if c = '\t' then ['\\', 't']
  else if c = '\x00' then ['\\', '0']
  else if isHidden c then byNumber c
  else [c]

def quoted (t : Text) : Text := '"' :: (t.flatMap escape ++ ['"'])

end Dice.Text
