import Dice.Face.Listed
import Dice.Proofs.Checked
import Dice.Proofs.Decomposition
import Dice.Substitution

/-! Which parts of a text draw. Substitution takes its faces for the live regions that read as
expressions, from left to right, and for nothing else: what surrounds them, what is escaped and
what does not read as an expression leaves the source alone. -/
namespace Dice

def Segment.expression? : Segment → Option Expression
  | .live interior => (Expression.parse interior).toOption
  | .text _ | .escaped _ => none

def Segment.kept : Segment → Text
  | .text t => t
  | .escaped interior => bracketed interior
  | .live interior => bracketed ("ERR:".toList ++ interior)

def Expression.shownWith (e : Expression) (total : Int) : Text :=
  bracketed (e.canonical ++ " = ".toList ++ Decimal.ofInt total)

def Text.expressions (t : Text) : List Expression := t.segments.filterMap Segment.expression?

/-- A text is put together from segments: each expression shows the next of the totals, and
every total is shown. -/
inductive Shown : List Segment → List Int → Text → Prop where
  | nil : Shown [] [] []
  | kept {s ss totals shown} (silent : s.expression? = none) (later : Shown ss totals shown) :
      Shown (s :: ss) totals (s.kept ++ shown)
  | rolled {s ss e total totals shown} (reads : s.expression? = some e)
      (later : Shown ss totals shown) :
      Shown (s :: ss) (total :: totals) (e.shownWith total ++ shown)

variable {ρ : Type} [FaceSource ρ]

theorem keptSubstitute {s : Segment} (silent : s.expression? = none) :
    s.substitute = (pure s.kept : Rolling ρ Text) := by
  cases s with
  | text t => rfl
  | escaped interior => rfl
  | live interior =>
    simp only [Segment.expression?, Segment.substitute, rollRegion] at silent ⊢
    cases parsed : Expression.parse interior with
    | ok e => simp [parsed, Except.toOption] at silent
    | error problem => rfl

theorem rolledSubstitute {s : Segment} {e : Expression} (reads : s.expression? = some e) :
    s.substitute = (do return e.shownWith (← e.rollTotal) : Rolling ρ Text) := by
  cases s with
  | text t => simp [Segment.expression?] at reads
  | escaped interior => simp [Segment.expression?] at reads
  | live interior =>
    simp only [Segment.expression?, Segment.substitute, rollRegion] at reads ⊢
    cases parsed : Expression.parse interior with
    | ok d =>
      obtain rfl : d = e := by simpa [parsed, Except.toOption] using reads
      rfl
    | error problem => simp [parsed, Except.toOption] at reads

theorem rollTotalOk {e : Expression} {source last : ρ} {total : Int} :
    e.rollTotal source = .ok (total, last) ↔
      ∃ r, e.roll source = .ok (r, last) ∧ r.total = .ok total := by
  simp [Expression.rollTotal, stateBindOk, stateLiftOk]

def Totalled (es : List Expression) (source : ρ) (totals : List Int) (last : ρ) : Prop :=
  ∃ rolls, es.mapM Expression.roll source = .ok (rolls, last) ∧
    rolls.mapM Roll.total = .ok totals

theorem totalledNil {source last : ρ} {totals : List Int} :
    Totalled [] source totals last ↔ totals = [] ∧ source = last := by
  simp only [Totalled, List.mapM_nil, statePureOk]
  constructor
  · intro h
    obtain ⟨_, ⟨rfl, rfl⟩, shares⟩ := h
    exact ⟨(pureOk.mp shares).symm, rfl⟩
  · intro h
    obtain ⟨rfl, rfl⟩ := h
    exact ⟨[], ⟨rfl, rfl⟩, rfl⟩

theorem totalledCons {e : Expression} {es : List Expression} {source last : ρ}
    {totals : List Int} :
    Totalled (e :: es) source totals last ↔
      ∃ total middle rest, e.rollTotal source = .ok (total, middle) ∧
        Totalled es middle rest last ∧ totals = total :: rest := by
  simp only [Totalled, List.mapM_cons, stateBindOk, statePureOk, rollTotalOk]
  constructor
  · intro h
    obtain ⟨_, ⟨r, middle, first, rolls, m, later, rfl, rfl⟩, shares⟩ := h
    simp only [List.mapM_cons, bindOk, pureOk] at shares
    obtain ⟨total, here, rest, there, rfl⟩ := shares
    exact ⟨total, middle, rest, ⟨r, first, here⟩, ⟨rolls, later, there⟩, rfl⟩
  · intro h
    obtain ⟨total, middle, rest, ⟨r, first, here⟩, ⟨rolls, later, there⟩, rfl⟩ := h
    refine ⟨r :: rolls, ⟨r, middle, first, rolls, last, later, rfl, rfl⟩, ?_⟩
    simp only [List.mapM_cons, bindOk, pureOk]
    exact ⟨total, here, rest, there, rfl⟩

theorem totalledExact {es : List Expression} {source last : ρ} {totals : List Int} :
    Totalled es source totals last ↔
      es.mapM Expression.rollTotal source = .ok (totals, last) := by
  induction es generalizing source totals with
  | nil => rw [totalledNil, List.mapM_nil, statePureOk, eq_comm (a := totals)]
  | cons e es ih =>
    simp only [totalledCons, ih, List.mapM_cons, stateBindOk, statePureOk]
    constructor
    · intro h
      obtain ⟨total, middle, rest, first, later, rfl⟩ := h
      exact ⟨total, middle, first, rest, last, later, rfl, rfl⟩
    · intro h
      obtain ⟨total, middle, first, rest, _, later, rfl, rfl⟩ := h
      exact ⟨total, middle, rest, first, later, rfl⟩

theorem totalledLength {es : List Expression} {source last : ρ} {totals : List Int}
    (totalled : Totalled es source totals last) : totals.length = es.length := by
  induction es generalizing source totals with
  | nil =>
    rw [(totalledNil.mp totalled).1]
    rfl
  | cons e es ih =>
    obtain ⟨_, _, rest, _, later, rfl⟩ := totalledCons.mp totalled
    rw [List.length_cons, ih later, List.length_cons]

theorem silentStep {s : Segment} {ss : List Segment} {source last : ρ} {shown : List Text}
    (silent : s.expression? = none) :
    (s :: ss).mapM Segment.substitute source = .ok (shown, last) ↔
      ∃ rest, ss.mapM Segment.substitute source = .ok (rest, last) ∧ shown = s.kept :: rest := by
  simp only [List.mapM_cons, keptSubstitute silent, pure_bind, stateBindOk, statePureOk]
  constructor
  · intro h
    obtain ⟨rest, m, later, rfl, rfl⟩ := h
    exact ⟨rest, later, rfl⟩
  · intro h
    obtain ⟨rest, later, rfl⟩ := h
    exact ⟨rest, last, later, rfl, rfl⟩

theorem readsStep {s : Segment} {e : Expression} {ss : List Segment} {source last : ρ}
    {shown : List Text} (reads : s.expression? = some e) :
    (s :: ss).mapM Segment.substitute source = .ok (shown, last) ↔
      ∃ total middle rest, e.rollTotal source = .ok (total, middle) ∧
        ss.mapM Segment.substitute middle = .ok (rest, last) ∧
        shown = e.shownWith total :: rest := by
  simp only [List.mapM_cons, rolledSubstitute reads, bind_assoc, pure_bind, stateBindOk,
    statePureOk]
  constructor
  · intro h
    obtain ⟨total, middle, first, rest, m, later, rfl, rfl⟩ := h
    exact ⟨total, middle, rest, first, later, rfl⟩
  · intro h
    obtain ⟨total, middle, rest, first, later, rfl⟩ := h
    exact ⟨total, middle, first, rest, last, later, rfl, rfl⟩

theorem segmentsDraw {ss : List Segment} {source last : ρ} {totals : List Int}
    (totalled : Totalled (ss.filterMap Segment.expression?) source totals last) :
    ∃ shown, ss.mapM Segment.substitute source = .ok (shown, last) ∧
      Shown ss totals shown.flatten := by
  induction ss generalizing source totals with
  | nil =>
    obtain ⟨rfl, rfl⟩ := totalledNil.mp totalled
    exact ⟨[], rfl, .nil⟩
  | cons s ss ih =>
    cases reads : s.expression? with
    | none =>
      rw [List.filterMap_cons_none reads] at totalled
      obtain ⟨shown, later, form⟩ := ih totalled
      exact ⟨s.kept :: shown, (silentStep reads).mpr ⟨shown, later, rfl⟩, .kept reads form⟩
    | some e =>
      rw [List.filterMap_cons_some reads, totalledCons] at totalled
      obtain ⟨total, middle, rest, first, others, rfl⟩ := totalled
      obtain ⟨shown, later, form⟩ := ih others
      exact ⟨e.shownWith total :: shown,
        (readsStep reads).mpr ⟨total, middle, shown, first, later, rfl⟩, .rolled reads form⟩

theorem segmentsDrawn {ss : List Segment} {source last : ρ} {shown : List Text}
    (run : ss.mapM Segment.substitute source = .ok (shown, last)) :
    ∃ totals, Totalled (ss.filterMap Segment.expression?) source totals last := by
  induction ss generalizing source shown with
  | nil =>
    rw [List.mapM_nil, statePureOk] at run
    exact ⟨[], totalledNil.mpr ⟨rfl, run.2⟩⟩
  | cons s ss ih =>
    cases reads : s.expression? with
    | none =>
      obtain ⟨rest, later, _⟩ := (silentStep reads).mp run
      rw [List.filterMap_cons_none reads]
      exact ih later
    | some e =>
      obtain ⟨total, middle, rest, first, later, _⟩ := (readsStep reads).mp run
      obtain ⟨totals, others⟩ := ih later
      rw [List.filterMap_cons_some reads]
      exact ⟨total :: totals, totalledCons.mpr ⟨total, middle, totals, first, others, rfl⟩⟩

theorem substituteDraws {t : Text} {source last : ρ} {totals : List Int}
    (totalled : Totalled t.expressions source totals last) :
    ∃ shown, t.substitute source = .ok (shown, last) ∧ Shown t.segments totals shown := by
  obtain ⟨shown, run, form⟩ := segmentsDraw totalled
  exact ⟨shown.flatten, stateBindOk.mpr ⟨shown, last, run, rfl⟩, form⟩

theorem substituteDrawn {t : Text} {source last : ρ} {shown : Text}
    (run : t.substitute source = .ok (shown, last)) :
    ∃ totals, Totalled t.expressions source totals last ∧ Shown t.segments totals shown := by
  obtain ⟨pieces, m, inner, final⟩ := stateBindOk.mp run
  obtain ⟨rfl, rfl⟩ := statePureOk.mp final
  obtain ⟨totals, totalled⟩ := segmentsDrawn inner
  obtain ⟨again, same, form⟩ := segmentsDraw totalled
  rw [inner, Except.ok.injEq, Prod.mk.injEq] at same
  exact ⟨totals, totalled, same.1 ▸ form⟩

theorem regionsDraw (t : Text) (source : ρ) :
    (∀ totals last, Totalled t.expressions source totals last →
      ∃ shown, t.substitute source = .ok (shown, last) ∧ Shown t.segments totals shown) ∧
    (∀ shown last, t.substitute source = .ok (shown, last) →
      ∃ totals, Totalled t.expressions source totals last ∧ Shown t.segments totals shown) ∧
    ∀ u : Text, u.expressions = t.expressions →
      ∀ shown last, t.substitute source = .ok (shown, last) →
        ∃ totals other, u.substitute source = .ok (other, last) ∧
          Shown t.segments totals shown ∧ Shown u.segments totals other := by
  refine ⟨fun _ _ totalled => substituteDraws totalled, fun _ _ run => substituteDrawn run, ?_⟩
  intro u same shown last run
  obtain ⟨totals, totalled, form⟩ := substituteDrawn run
  obtain ⟨other, again, otherForm⟩ := substituteDraws (same ▸ totalled)
  exact ⟨totals, other, again, form, otherForm⟩

theorem regionsDrawMixed :
    Text.expressions "\\[2d4][1d6+2d] [1d6]\n".toList = Text.expressions "[1d6]".toList ∧
    Totalled (Text.expressions "[1d6]".toList) (ListedFaces.ofList [5, 2]) [5] ⟨[2], 1⟩ ∧
    ∃ totals shown other,
      Text.substitute "[1d6]".toList (ListedFaces.ofList [5, 2]) = .ok (shown, ⟨[2], 1⟩) ∧
      Text.substitute "\\[2d4][1d6+2d] [1d6]\n".toList (ListedFaces.ofList [5, 2]) =
        .ok (other, ⟨[2], 1⟩) ∧
      Shown (Text.segments "[1d6]".toList) totals shown ∧
      Shown (Text.segments "\\[2d4][1d6+2d] [1d6]\n".toList) totals other := by
  have escaped : Region.find? "\\[2d4][1d6+2d] [1d6]\n".toList =
      some ⟨['\\'], "2d4".toList, "[1d6+2d] [1d6]\n".toList⟩ := rfl
  have invalid : Region.find? "[1d6+2d] [1d6]\n".toList =
      some ⟨[], "1d6+2d".toList, " [1d6]\n".toList⟩ := rfl
  have live : Region.find? " [1d6]\n".toList = some ⟨[' '], "1d6".toList, ['\n']⟩ := rfl
  have alone : Region.find? "[1d6]".toList = some ⟨[], "1d6".toList, []⟩ := rfl
  have one : Text.expressions "[1d6]".toList = [⟨⟨.plus, .dice 1 ⟨6, by decide⟩⟩, []⟩] := by
    rw [Text.expressions, segmentsRegion alone, segmentsPlain (t := []) rfl]
    rfl
  have same : Text.expressions "\\[2d4][1d6+2d] [1d6]\n".toList =
      Text.expressions "[1d6]".toList := by
    rw [one, Text.expressions, segmentsRegion escaped, segmentsRegion invalid,
      segmentsRegion live, segmentsPlain (t := ['\n']) rfl]
    rfl
  have totalled : Totalled (Text.expressions "[1d6]".toList) (ListedFaces.ofList [5, 2]) [5]
      ⟨[2], 1⟩ := by
    rw [one]
    exact ⟨[⟨⟨.plus, [5]⟩, []⟩], rfl, rfl⟩
  obtain ⟨draws, _, shared⟩ := regionsDraw "[1d6]".toList (ListedFaces.ofList [5, 2])
  obtain ⟨shown, run, _⟩ := draws [5] ⟨[2], 1⟩ totalled
  obtain ⟨totals, other, again, form, otherForm⟩ := shared _ same shown ⟨[2], 1⟩ run
  exact ⟨same, totalled, totals, shown, other, run, again, form, otherForm⟩

end Dice
