import Dice.Proofs.Streams
import Dice.Proofs.Substitution

/-! Lines and cells one by one are the text as a whole. No region, escape or open bracket reaches
over a newline, so a text may be cut at each of them; what a stream is annotated with is what its
text is substituted by, line ends put into the one form that is written. -/
namespace Dice

def Text.withoutReturns : Text → Text
  | [] => []
  | c :: t =>
    if c = '\r' ∧ t.head? = some '\n' then withoutReturns t else c :: withoutReturns t

def Text.closing (t : Text) : Text := if t = [] ∨ t.getLast? = some '\n' then [] else ['\n']

def Text.written (ls : List Text) : Text := ls.flatMap fun l => l ++ ['\n']

theorem writtenCons (l : Text) (ls : List Text) :
    Text.written (l :: ls) = l ++ '\n' :: Text.written ls := by
  simp [Text.written]

theorem byLines {motive : Text → Prop} (empty : motive [])
    (last : ∀ l : Text, l ≠ [] → '\n' ∉ l → motive l)
    (line : ∀ l rest : Text, '\n' ∉ l → motive rest → motive (l ++ '\n' :: rest)) (t : Text) :
    motive t := by
  induction t using bySeparated '\n' with
  | last l inner =>
    by_cases none : l = []
    · rwa [none]
    · exact last l none inner
  | line l rest inner ih => exact line l rest inner ih

theorem returnsLast {l : Text} (inner : '\n' ∉ l) : l.withoutReturns = l := by
  induction l with
  | nil => rfl
  | cons c l ih =>
    have later : '\n' ∉ l := fun among => inner (List.mem_cons_of_mem _ among)
    have head : l.head? ≠ some '\n' := fun head => later (List.mem_of_head? head)
    rw [Text.withoutReturns, if_neg (fun both => head both.2), ih later]

theorem returnsLine {l : Text} (inner : '\n' ∉ l) (rest : Text) :
    Text.withoutReturns (l ++ '\n' :: rest) = l.withoutReturn ++ '\n' :: rest.withoutReturns := by
  induction l with
  | nil => rfl
  | cons c l ih =>
    have later : '\n' ∉ l := fun among => inner (List.mem_cons_of_mem _ among)
    rw [List.cons_append, Text.withoutReturns, ih later]
    cases l with
    | nil => by_cases carriage : c = '\r' <;> simp [Text.withoutReturn, carriage]
    | cons d l =>
      have other : d ≠ '\n' := fun same => later (by simp [same])
      by_cases carriage : (d :: l).getLast? = some '\r'
      · simp [Text.withoutReturn, other, carriage]
      · simp [Text.withoutReturn, other, carriage]

example : Text.withoutReturns "a\r\r\n[\rb]\r".toList = "a\r\n[\rb]\r".toList := rfl

theorem closingLine (l rest : Text) : Text.closing (l ++ '\n' :: rest) = rest.closing := by
  cases rest with
  | nil => simp [Text.closing]
  | cons c rest => simp [Text.closing]

theorem closingLast {l : Text} (filled : l ≠ []) (inner : '\n' ∉ l) : l.closing = ['\n'] := by
  refine if_neg (not_or.mpr ⟨filled, ?_⟩)
  intro last
  exact inner (List.mem_of_getLast? last)

theorem linesRead (s : Text) :
    ∃ ls, untilRefused ByteLine.text (ByteLine.ofBytes s.utf8) = (ls, none) ∧
      s.withoutReturns ++ s.closing = Text.written ls := by
  induction s using byLines with
  | empty => exact ⟨[], rfl, rfl⟩
  | last l filled inner =>
    refine ⟨[l], ?_, ?_⟩
    · rw [ByteLine.ofBytesOpen (newlineAbsent inner) (utf8Filled filled),
        refusedNone (ByteLine.textOpen l)]
      rfl
    · rw [returnsLast inner, closingLast filled inner]
      simp [Text.written]
  | line l rest inner ih =>
    obtain ⟨ls, read, written⟩ := ih
    refine ⟨l.withoutReturn :: ls, ?_, ?_⟩
    · rw [utf8Append, utf8Newline, ByteLine.ofBytesEnded (newlineAbsent inner),
        refusedNone (ByteLine.textEnded l), read]
    · rw [returnsLine inner, closingLine, List.append_assoc, List.cons_append, written,
        writtenCons]

variable {ρ : Type} [FaceSource ρ]

theorem substituteLine (l rest : Text) :
    (l ++ '\n' :: rest).substitute = (do
      let first ← l.substitute
      let later ← rest.substitute
      return first ++ '\n' :: later : Rolling ρ Text) := by
  have before : CleanCut l ('\n' :: rest) :=
    ⟨fun both => notClosesAtNewline interiorNil both.2, fun both => by simp at both⟩
  have after : CleanCut ['\n'] rest := by
    refine ⟨?_, fun both => by simp at both⟩
    intro both
    obtain ⟨⟨x, y, split, _⟩, _⟩ := both
    have among : '[' ∈ ['\n'] := split ▸ List.mem_append_right x List.mem_cons_self
    simp at among
  rw [substituteJoined before]
  have newline := substituteJoined (ρ := ρ) after
  rw [List.singleton_append] at newline
  rw [newline, substitutePlain (t := ['\n']) rfl]
  simp

theorem joinedLine (l next : Text) (ls : List Text) :
    Text.joined ['\n'] (l :: next :: ls) = l ++ '\n' :: Text.joined ['\n'] (next :: ls) := by
  simp [Text.joinedCons]

theorem substituteCells (cells : List Text) :
    (Text.joined ['\n'] cells).substitute =
      (do return Text.joined ['\n'] (← substituteAll cells) : Rolling ρ Text) := by
  induction cells with
  | nil => exact substitutePlain rfl
  | cons cell cells ih =>
    cases cells with
    | nil => simp [Text.joined, substituteAll]
    | cons next cells =>
      rw [joinedLine, substituteLine, ih]
      simp [substituteAll, joinedLine]

theorem substituteWritten (ls : List Text) :
    (Text.written ls).substitute =
      (do return Text.written (← ls.mapM Text.substitute) : Rolling ρ Text) := by
  induction ls with
  | nil => exact substitutePlain rfl
  | cons l ls ih =>
    rw [writtenCons, substituteLine, ih]
    simp [writtenCons]

theorem annotateText (s : Text) :
    (do let report ← annotateLines s.utf8
        return (report.written, report.failure?) : Rolling ρ (Text × Option Failure)) =
      (do return (← (s.withoutReturns ++ s.closing).substitute, none)) := by
  obtain ⟨ls, read, written⟩ := linesRead s
  rw [written, substituteWritten]
  simp [annotateLines, read, Report.written, Text.written]

theorem linesSubstituted (cells : List Text) {stream : List UInt8} {s : Text}
    (valid : Text.ofUtf8? stream = some s) (source : ρ) :
    ((Text.joined ['\n'] cells).substitute source = do
      let (shown, last) ← substituteAll cells source
      return (Text.joined ['\n'] shown, last)) ∧
    (do let (report, last) ← annotateLines stream source
        return ((report.written, report.failure?), last)) =
      (do let (shown, last) ← (s.withoutReturns ++ s.closing).substitute source
          return ((shown, none), last)) := by
  refine ⟨congrFun (substituteCells cells) source, ?_⟩
  obtain rfl := ofUtf8Exact.mp valid
  exact congrFun (annotateText s) source

theorem linesSubstitutedOpenLine :
    Text.ofUtf8? (Text.utf8 "é[1d6]\r\n[1d6]".toList) = some "é[1d6]\r\n[1d6]".toList ∧
    (annotateLines (Text.utf8 "é[1d6]\r\n[1d6]".toList) (ListedFaces.ofList [3, 2])).map
      (fun p => ((p.1.written, p.1.failure?), p.2)) =
      .ok (("é[1d6 = 3]\n[1d6 = 2]\n".toList, none), ⟨[], 2⟩) := by
  have valid : Text.ofUtf8? (Text.utf8 "é[1d6]\r\n[1d6]".toList) = some "é[1d6]\r\n[1d6]".toList :=
    ofUtf8Exact.mpr rfl
  refine ⟨valid, ?_⟩
  have first : Region.find? "é[1d6]\n[1d6]\n".toList =
      some ⟨['é'], "1d6".toList, "\n[1d6]\n".toList⟩ := rfl
  have second : Region.find? "\n[1d6]\n".toList = some ⟨['\n'], "1d6".toList, ['\n']⟩ := rfl
  have annotated := (linesSubstituted [] valid (ListedFaces.ofList [3, 2])).2
  have ends : Text.withoutReturns "é[1d6]\r\n[1d6]".toList ++
    Text.closing "é[1d6]\r\n[1d6]".toList = "é[1d6]\n[1d6]\n".toList := rfl
  rw [ends, substituteRegion first, substituteRegion second,
    substitutePlain (t := ['\n']) rfl] at annotated
  exact annotated

end Dice
