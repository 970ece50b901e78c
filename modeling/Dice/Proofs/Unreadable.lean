import Dice.Proofs.Lines
import Dice.Proofs.Drawing
import Dice.Proofs.Refusal

/-! Streams that are no texts. The newlines cut a stream into lines, and it is a text exactly when
all of them are. Up to the first line that is none the stream is annotated as if it ended there:
the failure comes on top, and nothing behind that line is looked at. -/
namespace Dice

def Readable (bytes : List UInt8) : Prop := (Text.ofUtf8? bytes).isSome

instance : DecidablePred Readable := fun bytes =>
  inferInstanceAs (Decidable ((Text.ofUtf8? bytes).isSome = true))

def byteLines (stream : List UInt8) : List (List UInt8) := stream.splitOn ByteLine.newline

def firstUnreadable (stream : List UInt8) : Nat :=
  (byteLines stream).findIdx fun l => !Readable l

def readableStart (stream : List UInt8) : List UInt8 :=
  ((byteLines stream).take (firstUnreadable stream)).flatMap fun l => l ++ [ByteLine.newline]

theorem readableExact {bytes : List UInt8} :
    Readable bytes ↔ ∃ t : Text, bytes = t.utf8 := by
  simp only [Readable, Option.isSome_iff_exists, ofUtf8Exact]

theorem byteLinesOpen {l : List UInt8} (inner : ByteLine.newline ∉ l) : byteLines l = [l] :=
  List.splitOn_eq_singleton inner

theorem byteLinesEnded {l : List UInt8} (inner : ByteLine.newline ∉ l) (rest : List UInt8) :
    byteLines (l ++ ByteLine.newline :: rest) = l :: byteLines rest :=
  List.splitOn_append_cons_self_of_not_mem inner rest

theorem plainCut {b : UInt8} (plain : b.toNat < 128) {before after : List UInt8} {t : Text}
    (whole : t.utf8 = before ++ b :: after) :
    ∃ s u : Text, before = s.utf8 ∧ after = u.utf8 := by
  induction t generalizing before with
  | nil => simp [Text.utf8] at whole
  | cons c t ih =>
    have first : Text.utf8 (c :: t) = String.utf8EncodeChar c ++ Text.utf8 t := rfl
    rw [first, List.append_eq_append_iff] at whole
    rcases whole with ⟨more, rfl, later⟩ | ⟨more, bytes, later⟩
    · obtain ⟨s, u, rfl, rfl⟩ := ih later
      exact ⟨c :: s, u, rfl, rfl⟩
    cases more with
    | nil =>
      have front : Text.utf8 t = [] ++ b :: after := later.symm
      obtain ⟨s, u, none, rfl⟩ := ih front
      exact ⟨[c], u, by simpa [Text.utf8] using bytes.symm, rfl⟩
    | cons d more =>
      obtain ⟨rfl, rfl⟩ := List.cons.inj later
      have number := plainByte plain (c := c) (bytes ▸ by simp)
      have alone : (String.utf8EncodeChar c).length = 1 := by
        rw [String.length_utf8EncodeChar, asciiSize (number ▸ plain)]
      rw [bytes, List.length_append, List.length_cons] at alone
      obtain rfl : before = [] := List.eq_nil_of_length_eq_zero (by omega)
      obtain rfl : more = [] := List.eq_nil_of_length_eq_zero (by omega)
      exact ⟨[], t, rfl, rfl⟩

theorem readableAround {c : Char} {b : UInt8} (plain : b.toNat < 128)
    (byte : String.utf8EncodeChar c = [b]) (before after : List UInt8) :
    Readable (before ++ b :: after) ↔ Readable before ∧ Readable after := by
  simp only [readableExact]
  constructor
  · intro h
    obtain ⟨t, whole⟩ := h
    obtain ⟨s, u, rfl, rfl⟩ := plainCut plain whole.symm
    exact ⟨⟨s, rfl⟩, u, rfl⟩
  · intro h
    obtain ⟨⟨s, rfl⟩, u, rfl⟩ := h
    refine ⟨s ++ c :: u, ?_⟩
    rw [utf8Append]
    simp [Text.utf8, byte]

theorem readableEnded (l rest : List UInt8) :
    Readable (l ++ ByteLine.newline :: rest) ↔ Readable l ∧ Readable rest :=
  readableAround (c := '\n') (by decide) rfl l rest

theorem readableReturn (l : List UInt8) :
    Readable (l ++ [ByteLine.carriageReturn]) ↔ Readable l := by
  have around := readableAround (c := '\r') (b := ByteLine.carriageReturn) (by decide) rfl l []
  exact around.trans (and_iff_left (by decide))

theorem readableLines (stream : List UInt8) :
    Readable stream ↔ ∀ l ∈ byteLines stream, Readable l := by
  induction stream using bySeparated ByteLine.newline with
  | last l inner => simp [byteLinesOpen inner]
  | line l rest inner ih =>
    rw [byteLinesEnded inner, readableEnded, ih, List.forall_mem_cons]

namespace ByteLine

theorem contentReadable (l : ByteLine) : Readable l.content ↔ Readable l.bytes := by
  unfold content
  split
  · next carriage =>
    obtain ⟨front, last⟩ := List.getLast?_eq_some_iff.mp carriage.2
    rw [last, List.dropLast_concat, readableReturn]
  · rfl

theorem textRefused {l : ByteLine} (unreadable : ¬ Readable l.bytes) :
    l.text = .error .unreadableInput := by
  rw [← contentReadable] at unreadable
  have none := Option.not_isSome_iff_eq_none.mp unreadable
  rw [text, none]

theorem textAccepted {l : ByteLine} (readable : Readable l.bytes) : ∃ t, l.text = .ok t := by
  rw [← contentReadable] at readable
  obtain ⟨t, decoded⟩ := Option.isSome_iff_exists.mp readable
  exact ⟨t, by rw [text, decoded]⟩

end ByteLine

theorem startEnded {l : List UInt8} (inner : ByteLine.newline ∉ l) (rest : List UInt8)
    (readable : Readable l) :
    readableStart (l ++ ByteLine.newline :: rest) =
      l ++ ByteLine.newline :: readableStart rest := by
  simp [readableStart, firstUnreadable, byteLinesEnded inner, List.findIdx_cons, readable]

theorem startHere {l : List UInt8} (inner : ByteLine.newline ∉ l) (rest : List UInt8)
    (unreadable : ¬ Readable l) : readableStart (l ++ ByteLine.newline :: rest) = [] := by
  simp [readableStart, firstUnreadable, byteLinesEnded inner, List.findIdx_cons, unreadable]

theorem startReadable (stream : List UInt8) (unreadable : ¬ Readable stream) :
    Readable (readableStart stream) ∧
    untilRefused ByteLine.text (ByteLine.ofBytes stream) =
      ((untilRefused ByteLine.text (ByteLine.ofBytes (readableStart stream))).1,
        some .unreadableInput) := by
  induction stream using bySeparated ByteLine.newline with
  | last l inner =>
    have filled : l ≠ [] := by
      rintro rfl
      exact unreadable (by decide)
    have start : readableStart l = [] := by
      simp [readableStart, firstUnreadable, byteLinesOpen inner, List.findIdx_cons, unreadable]
    have refused : ByteLine.text ⟨l, false⟩ = .error .unreadableInput :=
      ByteLine.textRefused unreadable
    rw [start, ByteLine.ofBytesOpen inner filled, refusedHere refused]
    exact ⟨by decide, rfl⟩
  | line l rest inner ih =>
    by_cases readable : Readable l
    · have later : ¬ Readable rest := by
        intro all
        exact unreadable ((readableEnded l rest).mpr ⟨readable, all⟩)
      obtain ⟨t, accepted⟩ := ByteLine.textAccepted (l := ⟨l, true⟩) readable
      obtain ⟨starts, read⟩ := ih later
      rw [startEnded inner rest readable, ByteLine.ofBytesEnded inner, ByteLine.ofBytesEnded inner,
        refusedNone accepted, refusedNone accepted, read]
      exact ⟨(readableEnded l _).mpr ⟨readable, starts⟩, rfl⟩
    · have refused : ByteLine.text ⟨l, true⟩ = .error .unreadableInput :=
        ByteLine.textRefused readable
      rw [startHere inner rest readable, ByteLine.ofBytesEnded inner, refusedHere refused]
      exact ⟨by decide, rfl⟩

variable {ρ : Type} [FaceSource ρ]

theorem annotateUnreadable {stream : List UInt8} (unreadable : ¬ Readable stream) :
    annotateLines stream = (do
      let report ← annotateLines (readableStart stream)
      return ⟨report.entries, some .unreadableInput⟩ : Rolling ρ Report) := by
  simp [annotateLines, (startReadable stream unreadable).2]

theorem annotateTotalled {stream : List UInt8} {s : Text} (valid : Text.ofUtf8? stream = some s)
    {source last : ρ} {totals : List Int}
    (totalled : Totalled (s.withoutReturns ++ s.closing).expressions source totals last) :
    ∃ entries, annotateLines stream source = .ok (⟨entries, none⟩, last) := by
  obtain rfl := ofUtf8Exact.mp valid
  obtain ⟨shown, run, _⟩ := substituteDraws totalled
  have annotated := congrFun (annotateText (ρ := ρ) s) source
  have final : (do return (← (s.withoutReturns ++ s.closing).substitute, none) :
      Rolling ρ (Text × Option Failure)) source = .ok ((shown, none), last) :=
    stateBindOk.mpr ⟨shown, last, run, rfl⟩
  obtain ⟨report, _, ended, same⟩ := stateBindOk.mp (annotated.trans final)
  obtain ⟨pair, rfl⟩ := statePureOk.mp same
  obtain ⟨_, none⟩ := Prod.mk.inj pair
  exact ⟨report.entries, by rw [ended, ← none]⟩

theorem linesUntilUnreadable (stream : List UInt8) (source : ρ) :
    (Readable stream ↔ ∀ l ∈ byteLines stream, Readable l) ∧
    (∀ s, Text.ofUtf8? stream = some s →
      ∀ totals last, Totalled (s.withoutReturns ++ s.closing).expressions source totals last →
        ∃ entries, annotateLines stream source = .ok (⟨entries, none⟩, last)) ∧
    (¬ Readable stream →
      (annotateLines stream source = do
        let (report, last) ← annotateLines (readableStart stream) source
        return (⟨report.entries, some .unreadableInput⟩, last)) ∧
      ∃ s, Text.ofUtf8? (readableStart stream) = some s ∧
        ∀ totals last, Totalled (s.withoutReturns ++ s.closing).expressions source totals last →
          ∃ entries, annotateLines (readableStart stream) source = .ok (⟨entries, none⟩, last) ∧
            annotateLines stream source = .ok (⟨entries, some .unreadableInput⟩, last)) := by
  refine ⟨readableLines stream, fun s valid _ _ totalled => annotateTotalled valid totalled, ?_⟩
  intro unreadable
  have same := congrFun (annotateUnreadable (ρ := ρ) unreadable) source
  obtain ⟨s, valid⟩ := Option.isSome_iff_exists.mp (startReadable stream unreadable).1
  refine ⟨same, s, valid, ?_⟩
  intro totals last totalled
  obtain ⟨entries, run⟩ := annotateTotalled valid totalled
  exact ⟨entries, run, same.trans (stateBindOk.mpr ⟨_, last, run, rfl⟩)⟩

/-- The newline parts the two bytes of a character, and both lines are unreadable. -/
theorem linesUntilUnreadableParted :
    ¬ Readable (Text.utf8 "[1d6]\n".toList ++ [0xC3, 10, 0xA9] ++ Text.utf8 "[1d6]".toList) ∧
    Totalled (Text.expressions "[1d6]\n".toList) (ListedFaces.ofList [3, 2]) [3] ⟨[2], 1⟩ ∧
    ∃ entries,
      annotateLines (Text.utf8 "[1d6]\n".toList) (ListedFaces.ofList [3, 2]) =
        .ok (⟨entries, none⟩, ⟨[2], 1⟩) ∧
      annotateLines (Text.utf8 "[1d6]\n".toList ++ [0xC3, 10, 0xA9] ++ Text.utf8 "[1d6]".toList)
        (ListedFaces.ofList [3, 2]) = .ok (⟨entries, some .unreadableInput⟩, ⟨[2], 1⟩) := by
  have unreadable :
      ¬ Readable (Text.utf8 "[1d6]\n".toList ++ [0xC3, 10, 0xA9] ++ Text.utf8 "[1d6]".toList) := by
    decide
  have start : readableStart
      (Text.utf8 "[1d6]\n".toList ++ [0xC3, 10, 0xA9] ++ Text.utf8 "[1d6]".toList) =
      Text.utf8 "[1d6]\n".toList := by decide
  have live : Region.find? "[1d6]\n".toList = some ⟨[], "1d6".toList, ['\n']⟩ := rfl
  have one : Text.expressions "[1d6]\n".toList = [⟨⟨.plus, .dice 1 ⟨6, by decide⟩⟩, []⟩] := by
    rw [Text.expressions, segmentsRegion live, segmentsPlain (t := ['\n']) rfl]
    rfl
  have totalled : Totalled (Text.expressions "[1d6]\n".toList) (ListedFaces.ofList [3, 2]) [3]
      ⟨[2], 1⟩ := by
    rw [one]
    exact ⟨[⟨⟨.plus, [3]⟩, []⟩], rfl, rfl⟩
  obtain ⟨_, _, cut⟩ := linesUntilUnreadable
    (Text.utf8 "[1d6]\n".toList ++ [0xC3, 10, 0xA9] ++ Text.utf8 "[1d6]".toList)
    (ListedFaces.ofList [3, 2])
  obtain ⟨_, s, valid, runs⟩ := cut unreadable
  rw [start] at valid runs
  obtain rfl := Option.some.inj ((ofUtf8Exact.mpr rfl).symm.trans valid)
  exact ⟨unreadable, totalled, runs [3] ⟨[2], 1⟩ totalled⟩

end Dice
