import Dice.CommandLine.Run
import Dice.Word.Keystream

/-! The command `roll`: reads the streams, runs, and writes. -/
namespace Dice.CommandLine

def freshKey : IO Key := do
  let bytes ← IO.getRandomBytes 32
  let word (i : Nat) : UInt32 :=
    ((bytes.toList.drop (4 * i)).take 4).foldr (fun b n => n * 256 + b.toUInt32) 0
  return ⟨⟨word 0, word 1, word 2, word 3⟩, ⟨word 4, word 5, word 6, word 7⟩⟩

def source (seed? : Option UInt64) : IO Keystream :=
  match seed? with
  | some seed => return .ofSeed seed
  | none => return .ofKey (← freshKey)

def outcome (arguments : List Text) : IO Outcome := do
  match Options.ofArguments arguments with
  | .error stop => return .ofStop stop
  | .ok options =>
    let stream ← if options.text then (← IO.getStdin).readBinToEnd else pure .empty
    return options.run stream.toList (← source options.seed?)

end Dice.CommandLine

def main (arguments : List String) : IO UInt32 := do
  let result ← Dice.CommandLine.outcome (arguments.map String.toList)
  IO.print (String.ofList result.output)
  IO.eprint (String.ofList result.complaint)
  return result.code
