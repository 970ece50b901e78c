import Dice.CommandLine.Arguments
import Dice.CommandLine.Report

/-! One run of the command: what it writes, and the code it ends with. -/
namespace Dice.CommandLine

structure Outcome where
  code : UInt32
  output : Text
  complaint : Text
  deriving DecidableEq, Repr

namespace Outcome

def ofReport (r : Report) : Outcome :=
  match r.failure? with
  | none => ⟨0, r.written, []⟩
  | some failure => ⟨1, r.written, failure.message⟩

/-- A fault leaves no report behind, so what was written before it is not part of the output. Only
the code and the complaint of such a run are told. -/
def ofFault (f : Fault) : Outcome := ⟨101, [], f.message ++ ['\n']⟩

def usage : Text := "Usage: roll [OPTIONS] [ROLLSPEC]...\n".toList

def help : Text :=
  "Roll dice notation such as 1d20+5\n\n".toList ++ usage
    ++ "\nArguments:\n".toList
    ++ "  [ROLLSPEC]...  One or more roll specs, like 1d6+2\n".toList
    ++ "\nOptions:\n".toList
    ++ "  -v, --verbose      Print every die rolled, not just the total\n".toList
    ++ "  -s, --seed <SEED>  Seed the random source to make rolls reproducible\n".toList
    ++ "  -t, --text         Read lines from stdin and roll every bracketed expression in them\n".toList
    ++ "  -h, --help         Print help\n".toList

def ofStop : Stop → Outcome
  | .help => ⟨0, help, []⟩
  | .usage error =>
    ⟨2, [], "error: ".toList ++ error.message ++ "\n\n".toList ++ usage⟩

end Outcome

def Options.run {ρ : Type} [FaceSource ρ] (o : Options) (stream : List UInt8) (source : ρ) :
    Outcome :=
  let job : Rolling ρ Report := if o.text then annotateLines stream else rollSpecs o.verbose o.specs
  match job source with
  | .ok (report, _) => .ofReport report
  | .error fault => .ofFault fault

end Dice.CommandLine
