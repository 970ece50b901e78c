import Dice.Text
import Dice.Text.Decimal

/-!
The arguments of the command. They are first told apart, each on its own but for a seed that stands
in the argument after its flag, and then taken up from left to right until one asks for help or
cannot be taken.
-/
namespace Dice.CommandLine

inductive UsageError where
  | unknownFlag (argument : Text)
  | repeatedFlag (name : Text)
  | missingSeed
  | invalidSeed (value : Text)
  | specsWithText
  | noSpecs
  deriving DecidableEq, Repr

def UsageError.message : UsageError → Text
  | unknownFlag argument => "unexpected argument ".toList ++ argument
  | repeatedFlag name => "--".toList ++ name ++ " cannot be used multiple times".toList
  | missingSeed => "a value is required for --seed".toList
  | invalidSeed value => "invalid value for --seed: ".toList ++ value
  | specsWithText => "--text cannot be used with roll specs".toList
  | noSpecs => "no roll specs were provided".toList

inductive Item where
  | spec (t : Text)
  | verbose
  | text
  | help
  | seed (value : Text)
  | bareSeed
  | unknown (argument : Text)
  deriving DecidableEq, Repr

namespace Item

/-- A flag written out: no abbreviations, and a value only for the seed. -/
def ofName (name : Text) (value? : Option Text) : Item :=
  if name = "verbose".toList ∧ value? = none then .verbose
  else if name = "text".toList ∧ value? = none then .text
  else if name = "help".toList ∧ value? = none then .help
  else if name = "seed".toList then value?.elim .bareSeed .seed
  else .unknown ("--".toList ++ name)

def ofLetters : Text → List Item
  | [] => []
  | 'v' :: rest => .verbose :: ofLetters rest
  | 't' :: rest => .text :: ofLetters rest
  | 'h' :: rest => .help :: ofLetters rest
  | ['s'] => [.bareSeed]
  | 's' :: '=' :: value => [.seed value]
  | 's' :: value => [.seed value]
  | letter :: _ => [.unknown ['-', letter]]

def ofArgument : Text → List Item
  | '-' :: '-' :: rest =>
    let name := rest.takeWhile (· ≠ '=')
    [ofName name (if name = rest then none else some (rest.drop (name.length + 1)))]
  | '-' :: letter :: rest => ofLetters (letter :: rest)
  | argument => [.spec argument]

def isFlag : Text → Bool
  | '-' :: _ :: _ => true
  | _ => false

def ofArguments : List Text → List Item
  | [] => []
  | argument :: rest =>
    if argument = ['-', '-'] then rest.map .spec
    else
      let said := ofArgument argument
      match rest with
      | [] => said
      | value :: later =>
        if said.getLast? = some .bareSeed ∧ ¬ isFlag value
        then said.dropLast ++ .seed value :: ofArguments later
        else said ++ ofArguments (value :: later)

end Item

def seed? (value : Text) : Option UInt64 :=
  let digits := match value with
    | '+' :: rest => rest
    | value => value
  if digits ≠ [] ∧ digits.all Char.isDigit ∧ Decimal.value digits < UInt64.size
  then some (UInt64.ofNat (Decimal.value digits)) else none

structure Options where
  specs : List Text := []
  verbose : Bool := false
  seed? : Option UInt64 := none
  text : Bool := false
  deriving DecidableEq, Repr

inductive Stop where
  | help
  | usage (error : UsageError)
  deriving DecidableEq, Repr

namespace Options

def take (o : Options) : Item → Except Stop Options
  | .spec t => .ok { o with specs := o.specs ++ [t] }
  | .verbose =>
    if o.verbose then .error (.usage (.repeatedFlag "verbose".toList))
    else .ok { o with verbose := true }
  | .text =>
    if o.text then .error (.usage (.repeatedFlag "text".toList))
    else .ok { o with text := true }
  | .seed value =>
    if o.seed?.isSome then .error (.usage (.repeatedFlag "seed".toList))
    else match CommandLine.seed? value with
      | some seed => .ok { o with seed? := some seed }
      | none => .error (.usage (.invalidSeed value))
  | .bareSeed => .error (.usage .missingSeed)
  | .help => .error .help
  | .unknown argument => .error (.usage (.unknownFlag argument))

def check (o : Options) : Except Stop Options :=
  match o.text, o.specs with
  | true, _ :: _ => .error (.usage .specsWithText)
  | false, [] => .error (.usage .noSpecs)
  | _, _ => .ok o

def ofArguments (arguments : List Text) : Except Stop Options := do
  (← (Item.ofArguments arguments).foldlM take {}).check

end Options
end Dice.CommandLine
