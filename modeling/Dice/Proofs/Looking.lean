import Dice.Proofs.Positions
import Dice.Proofs.Substitution

/-! The search for a region by positions. It looks at bytes, from one bracket that opens to the
stop behind it, and goes on behind the line when that is a newline. From a place between two
characters it finds the region that the search through the characters finds. -/
namespace Dice

/-- One look for a bracket: nothing opens or what opens is never closed, it is closed, or its line
ends and the search goes on behind the newline. -/
inductive Look where
  | nothing
  | region (span : Span)
  | beyond (pos : Nat)
  deriving DecidableEq, Repr

namespace Look

def opens (b : UInt8) : Bool := b = '['.toUInt8

def ends (b : UInt8) : Bool := b = ']'.toUInt8 || b = '\n'.toUInt8

def closing (t : Text) (start : Nat) : Except Breach Look := do
  let inside ← t.bytesFrom (start + 1)
  match inside.findIdx? ends with
  | none => return nothing
  | some length =>
    if (← byteAt inside length) = ']'.toUInt8 then return region ⟨start, start + length + 2⟩
    else return beyond (start + length + 2)

def ahead (t : Text) (pos : Nat) : Except Breach Look := do
  match (← t.bytesFrom pos).findIdx? opens with
  | none => return nothing
  | some offset => closing t (pos + offset)

theorem closingAdvances {t : Text} {start next : Nat} (line : closing t start = .ok (beyond next)) :
    start < next ∧ next ≤ t.size := by
  obtain ⟨inside, sliced, line⟩ := bindOk.mp line
  split at line
  · cases line
  · next length found =>
    obtain ⟨b, read, line⟩ := bindOk.mp line
    split at line
    · cases line
    · cases line
      obtain ⟨s, u, rfl, place, rfl⟩ := Text.bytesFromExact.mp sliced
      obtain ⟨short, _⟩ := List.getElem?_eq_some_iff.mp (byteAtExact.mp read)
      rw [Text.utf8Length] at short
      rw [Text.sizeAppend]
      omega

theorem advances {t : Text} {pos next : Nat} (line : ahead t pos = .ok (beyond next)) :
    pos < next ∧ next ≤ t.size := by
  obtain ⟨bytes, _, line⟩ := bindOk.mp line
  split at line
  · cases line
  · have := closingAdvances line
    omega

end Look

namespace Span

def find (t : Text) (pos : Nat) : Except Breach (Option Span) :=
  match _h : Look.ahead t pos with
  | .error breach => .error breach
  | .ok .nothing => .ok none
  | .ok (.region span) => .ok (some span)
  | .ok (.beyond next) => find t next
termination_by t.size - pos
decreasing_by
  have := Look.advances _h
  omega

end Span

theorem openSize : '['.utf8Size = 1 := rfl

theorem closeSize : ']'.utf8Size = 1 := rfl

theorem lineSize : '\n'.utf8Size = 1 := rfl

namespace Look

theorem opensBytewise : Bytewise opens fun c => c = '[' := by
  intro c b among
  exact decide_eq_decide.mpr (asciiByte (by decide) among)

theorem endsBytewise : Bytewise ends stops := by
  intro c b among
  have bracket := asciiByte (d := ']') (by decide) among
  have newline := asciiByte (d := '\n') (by decide) among
  simp only [ends, stops, bracket, newline]

theorem bracketless {u : Text} (plain : '[' ∉ u) : ∀ c ∈ u, decide (c = '[') = false := by
  intro c member
  exact decide_eq_false fun same => plain (same ▸ member)

theorem aheadPlain (x : Text) {u : Text} (plain : '[' ∉ u) :
    ahead (x ++ u) x.size = .ok nothing := by
  refine bindOk.mpr ⟨_, Text.bytesBehind x u, ?_⟩
  rw [Text.bytesFail opensBytewise (bracketless plain)]
  rfl

theorem aheadBracket (x : Text) {lead : Text} (u : Text) (plain : '[' ∉ lead) {look : Look}
    (behind : closing (x ++ (lead ++ '[' :: u)) (x.size + lead.size) = .ok look) :
    ahead (x ++ (lead ++ '[' :: u)) x.size = .ok look := by
  have first := Text.bytesPass opensBytewise u (bracketless plain) (decide_eq_true (Eq.refl '['))
  refine bindOk.mpr ⟨_, Text.bytesBehind x _, ?_⟩
  rw [first]
  exact behind

theorem closingBytes (x u : Text) :
    Text.bytesFrom (x ++ '[' :: u) (x.size + 1) = .ok u.utf8 := by
  have bytes := Text.bytesBehind (x ++ ['[']) u
  rwa [List.append_assoc, Text.sizeAppend] at bytes

theorem closingNever (x : Text) {inside : Text} (inner : Interior inside) :
    closing (x ++ '[' :: inside) x.size = .ok nothing := by
  refine bindOk.mpr ⟨_, closingBytes x inside, ?_⟩
  rw [Text.bytesFail endsBytewise (interiorIff.mp inner)]
  rfl

theorem closingStop (x : Text) {inside : Text} {c : Char} (u : Text) (inner : Interior inside)
    (stop : stops c) : closing (x ++ '[' :: (inside ++ c :: u)) x.size =
      .ok (if c = ']' then region ⟨x.size, x.size + inside.size + 2⟩
        else beyond (x.size + inside.size + 2)) := by
  have first := Text.bytesPass endsBytewise u (interiorIff.mp inner) stop
  have either : c = ']' ∨ c = '\n' := by simpa [stops] using stop
  have byte : byteAt (Text.utf8 (inside ++ c :: u)) inside.size = .ok c.toUInt8 := by
    rcases either with rfl | rfl <;> exact Text.byteHere (by decide) inside u
  refine bindOk.mpr ⟨_, closingBytes x _, ?_⟩
  rw [first]
  refine bindOk.mpr ⟨_, byte, ?_⟩
  rcases either with rfl | rfl <;> rfl

theorem aheadNever (x : Text) {lead inside : Text} (plain : '[' ∉ lead)
    (inner : Interior inside) : ahead (x ++ (lead ++ '[' :: inside)) x.size = .ok nothing := by
  refine aheadBracket x inside plain ?_
  rw [← List.append_assoc, ← Text.sizeAppend]
  exact closingNever (x ++ lead) inner

theorem aheadStop (x : Text) {lead inside : Text} {c : Char} (u : Text) (plain : '[' ∉ lead)
    (inner : Interior inside) (stop : stops c) :
    ahead (x ++ (lead ++ '[' :: (inside ++ c :: u))) x.size =
      .ok (if c = ']' then region ⟨x.size + lead.size, x.size + lead.size + inside.size + 2⟩
        else beyond (x.size + lead.size + inside.size + 2)) := by
  refine aheadBracket x _ plain ?_
  rw [← List.append_assoc, ← Text.sizeAppend]
  exact closingStop (x ++ lead) u inner stop

end Look

theorem byBrackets {motive : Text → Prop} (plain : ∀ u : Text, '[' ∉ u → motive u)
    (never : ∀ lead inside : Text, '[' ∉ lead → Interior inside → motive (lead ++ '[' :: inside))
    (closed : ∀ lead inside rest : Text, '[' ∉ lead → Interior inside →
      motive (lead ++ '[' :: (inside ++ ']' :: rest)))
    (line : ∀ lead inside rest : Text, '[' ∉ lead → Interior inside → motive rest →
      motive (lead ++ '[' :: (inside ++ '\n' :: rest))) (u : Text) : motive u := by
  induction size : u.length using Nat.strongRecOn generalizing u with
  | ind n ih =>
    by_cases among : '[' ∈ u
    · obtain ⟨lead, behind, rfl, before⟩ := List.eq_append_cons_of_mem among
      cases found : behind.find? stops with
      | none =>
        have inner : Interior behind := by
          rw [interiorIff]
          simpa using List.find?_eq_none.mp found
        exact never lead behind before inner
      | some c =>
        obtain ⟨stop, inside, rest, rfl, inner⟩ := List.find?_eq_some_iff_append.mp found
        have inner : Interior inside := by
          rw [interiorIff]
          simpa using inner
        have either : c = ']' ∨ c = '\n' := by simpa [stops] using stop
        rcases either with rfl | rfl
        · exact closed lead inside rest before inner
        · refine line lead inside rest before inner (ih rest.length ?_ rest rfl)
          simp only [← size, List.length_append, List.length_cons]
          omega
    · exact plain u among

namespace Region

def span (x : Text) (r : Region) : Span :=
  ⟨x.size + r.lead.size, x.size + r.lead.size + r.interior.size + 2⟩

theorem spanPreceded (x u : Text) (r : Region) : (r.precededBy u).span x = r.span (x ++ u) := by
  simp only [span, precededBy, Text.sizeAppend, Nat.add_assoc]

theorem findUnopened {u : Text} (plain : '[' ∉ u) : find? u = none :=
  findNone.mpr (bareWithout plain [])

theorem findNever {lead inside : Text} (plain : '[' ∉ lead) (inner : Interior inside) :
    find? (lead ++ '[' :: inside) = none := by
  rw [findNone, bareAppend]
  exact ⟨bareWithout plain _, bareOpened inner (by decide)⟩

theorem findClosed {lead inside : Text} (rest : Text) (plain : '[' ∉ lead)
    (inner : Interior inside) :
    find? (lead ++ '[' :: (inside ++ ']' :: rest)) = some ⟨lead, inside, rest⟩ :=
  findExact.mpr ⟨rfl, inner, bareWithout plain _⟩

theorem findLine {lead inside : Text} (rest : Text) (plain : '[' ∉ lead)
    (inner : Interior inside) : find? (lead ++ '[' :: (inside ++ ['\n']) ++ rest) =
      (find? rest).map fun r => r.precededBy (lead ++ '[' :: (inside ++ ['\n'])) := by
  have bare : Bare (lead ++ '[' :: (inside ++ ['\n'])) rest :=
    bareAppend.mpr ⟨bareWithout plain _, bareLine inner⟩
  cases found : find? rest with
  | none => exact findNeither bare found
  | some r => exact findPreceded bare found

end Region

namespace Span

theorem findStep (t : Text) (pos : Nat) : find t pos = match Look.ahead t pos with
    | .error breach => .error breach
    | .ok .nothing => .ok none
    | .ok (.region span) => .ok (some span)
    | .ok (.beyond next) => find t next := by
  rw [find]
  split <;> next look => rw [look]

theorem findExact (x u : Text) :
    find (x ++ u) x.size = .ok ((Region.find? u).map fun r => r.span x) := by
  induction u using byBrackets generalizing x with
  | plain u plain =>
    rw [findStep, Look.aheadPlain x plain, Region.findUnopened plain]
    rfl
  | never lead inside plain inner =>
    rw [findStep, Look.aheadNever x plain inner, Region.findNever plain inner]
    rfl
  | closed lead inside rest plain inner =>
    rw [findStep, Look.aheadStop x rest plain inner rfl, Region.findClosed rest plain inner]
    rfl
  | line lead inside rest plain inner ih =>
    -- The search goes on from behind the newline, where what is passed over belongs to `x`.
    have whole : lead ++ '[' :: (inside ++ '\n' :: rest) =
        lead ++ '[' :: (inside ++ ['\n']) ++ rest := by simp
    have place : x.size + lead.size + inside.size + 2 =
        Text.size (x ++ (lead ++ '[' :: (inside ++ ['\n']))) := by
      simp only [Text.sizeAppend, Text.sizeCons, Text.sizeNil, openSize, lineSize]
      omega
    rw [findStep, Look.aheadStop x rest plain inner rfl]
    simp only [Char.reduceEq, if_false]
    rw [place, whole, ← List.append_assoc, ih, Region.findLine rest plain inner, Option.map_map]
    simp only [Function.comp_def, Region.spanPreceded]

end Span

end Dice
