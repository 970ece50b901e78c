import Dice.ParseError
import Dice.Roll.Style
import Dice.Substitution
import Dice.Text.Blank
import Dice.Text.Lines

/-!
The two jobs of the command: rolling notations given one by one, and rolling the regions in the
lines of a stream. Either job ends at its first failure, with what it wrote before.
-/
namespace Dice

inductive Failure where
  | invalidSpec (spec : Text) (error : ParseError)
  | unreadableInput
  deriving DecidableEq, Repr

namespace Failure

def context : Failure → Text
  | invalidSpec spec _ => "invalid roll spec ".toList ++ spec.quoted
  | unreadableInput => "failed to read stdin".toList

def cause : Failure → Text
  | invalidSpec _ error => error.message
  | unreadableInput => "stream did not contain valid UTF-8".toList

def message (f : Failure) : Text :=
  "Error: ".toList ++ f.context ++ "\n\nCaused by:\n    ".toList ++ f.cause ++ ['\n']

end Failure

structure Report where
  entries : List Text
  failure? : Option Failure
  deriving DecidableEq, Repr

def Report.written (r : Report) : Text := r.entries.flatMap fun entry => entry ++ ['\n']

def untilRefused {α β ε : Type} (f : α → Except ε β) (items : List α) : List β × Option ε :=
  items.foldr (fun item later =>
    match f item with
    | .ok result => (result :: later.1, later.2)
    | .error refusal => ([], some refusal)) ([], none)

theorem refusedNone {α β ε : Type} {f : α → Except ε β} {item : α} {result : β}
    (accepted : f item = .ok result) (items : List α) :
    untilRefused f (item :: items) =
      (result :: (untilRefused f items).1, (untilRefused f items).2) := by
  simp [untilRefused, accepted]

structure Spec where
  text : Text
  expression : Expression
  deriving DecidableEq, Repr

def Spec.ofText (t : Text) : Except Failure Spec :=
  match Expression.parse t with
  | .ok e => .ok ⟨t, e⟩
  | .error error => .error (.invalidSpec t error)

def Spec.style (s : Spec) (several : Bool) : Style :=
  if several then .labelled s.text.trim else .plain

def ByteLine.text (l : ByteLine) : Except Failure Text :=
  match Text.ofUtf8? l.content with
  | some t => .ok t
  | none => .error .unreadableInput

variable {ρ : Type} [FaceSource ρ]

def Spec.roll (s : Spec) (verbose several : Bool) : Rolling ρ Text := do
  let roll : Roll ← s.expression.roll
  if verbose then liftM ((s.style several).write roll)
  else return Decimal.ofInt (← liftM roll.total)

def rollSpecs (verbose : Bool) (specs : List Text) : Rolling ρ Report := do
  let (valid, failure?) := untilRefused Spec.ofText specs
  let entries ← valid.mapM fun s => s.roll verbose (specs.length > 1)
  return ⟨entries, failure?⟩

def annotateLines (stream : List UInt8) : Rolling ρ Report := do
  let (lines, failure?) := untilRefused ByteLine.text (ByteLine.ofBytes stream)
  let entries ← lines.mapM Text.substitute
  return ⟨entries, failure?⟩

end Dice
