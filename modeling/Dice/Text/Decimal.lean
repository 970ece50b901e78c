import Dice.Text

/-! Decimal numerals: the shortest one of a number, and the value of any run of digits. -/
namespace Dice.Decimal

def ofNat (n : Nat) : Text := Nat.toDigits 10 n

def ofInt : Int → Text
  | .ofNat n => ofNat n
  | .negSucc n => '-' :: ofNat (n + 1)

def value (digits : Text) : Nat := Nat.ofDigitChars 10 digits 0

@[simp] theorem valueOfNat (n : Nat) : value (ofNat n) = n := Nat.ofDigitChars_ten_toDigits

theorem ofNatNonempty (n : Nat) : ofNat n ≠ [] := Nat.toDigits_ne_nil

theorem ofNatDigits {n : Nat} {c : Char} (h : c ∈ ofNat n) : c.isDigit :=
  Nat.isDigit_of_mem_toDigits (by decide) (by decide) h

theorem ofNatInjective {m n : Nat} (h : ofNat m = ofNat n) : m = n := by
  rw [← valueOfNat m, h, valueOfNat]

theorem ofNatWithout {c : Char} (plain : c.isDigit = false) (n : Nat) : c ∉ ofNat n := by
  intro among
  rw [ofNatDigits among] at plain
  contradiction

theorem ofIntWithout {c : Char} (plain : c.isDigit = false) (noMinus : c ≠ '-') (n : Int) :
    c ∉ ofInt n := by
  cases n with
  | ofNat m => exact ofNatWithout plain m
  | negSucc m => exact List.not_mem_cons_of_ne_of_not_mem noMinus (ofNatWithout plain (m + 1))

theorem ofIntInjective {m n : Int} (h : ofInt m = ofInt n) : m = n := by
  have minus (k l : Nat) : ofNat k ≠ '-' :: ofNat l :=
    fun same => ofNatWithout (by decide) k (same ▸ List.mem_cons_self)
  cases m with
  | ofNat k =>
    cases n with
    | ofNat l => exact congrArg Int.ofNat (ofNatInjective h)
    | negSucc l => exact absurd h (minus k (l + 1))
  | negSucc k =>
    cases n with
    | ofNat l => exact absurd h.symm (minus l (k + 1))
    | negSucc l => rw [Nat.succ.inj (ofNatInjective (List.cons.inj h).2)]

end Dice.Decimal
