import Dice.CommandLine.Report
import Dice.Proofs.Drawing
import Dice.Proofs.Grammar
import Dice.Proofs.Substitution

/-! Specs on their own and specs embedded in a text. A spec that reads as an expression holds no
closing bracket, so between brackets it is one region, whatever stands around it that opens none.
The totals that the text then shows are those that the specs come to when they are rolled in a row
from the same source. -/
namespace Dice

theorem parsedInterior {t : Text} {e : Expression} (parsed : Expression.parse t = .ok e)
    (line : '\n' ∉ t) : Interior t := by
  obtain ⟨_, _, sized⟩ := parsedDerives parsed
  refine ⟨?_, line⟩
  intro bracket
  have other : TokenKind.ofChar? ']' = some .unrecognized := rfl
  obtain ⟨k, found, kind⟩ := Token.ofAdmitted bracket other
  exact sized.recognized k found kind

structure Separates (t : Text) : Prop where
  bracket : '[' ∉ t
  ending : t.getLast? ≠ some '\\'

structure Embedded where
  spec : Text
  expression : Expression
  behind : Text
  reads : Expression.parse spec = .ok expression
  line : '\n' ∉ spec
  apart : Separates behind

def embedding (lead : Text) (xs : List Embedded) : Text :=
  lead ++ xs.flatMap fun x => bracketed x.spec ++ x.behind

def Embedded.shown (x : Embedded) (total : Text) : Text :=
  bracketed (x.expression.canonical ++ " = ".toList ++ total) ++ x.behind

theorem embeddingNil (lead : Text) : embedding lead [] = lead := List.append_nil lead

theorem embeddingCons (lead : Text) (x : Embedded) (xs : List Embedded) :
    embedding lead (x :: xs) = lead ++ '[' :: (x.spec ++ ']' :: embedding x.behind xs) := by
  simp [embedding, bracketed]

theorem embeddingFound {lead : Text} (leading : Separates lead) (x : Embedded)
    (xs : List Embedded) :
    Region.find? (embedding lead (x :: xs)) = some ⟨lead, x.spec, embedding x.behind xs⟩ :=
  Region.findExact.mpr ⟨embeddingCons lead x xs, parsedInterior x.reads x.line,
    bareWithout leading.bracket _⟩

variable {ρ : Type} [FaceSource ρ]

theorem substituteEmbedding {lead : Text} (leading : Separates lead) (xs : List Embedded) :
    (embedding lead xs).substitute = (do
      let totals ← (xs.map Embedded.expression).mapM Expression.rollTotal
      return lead ++ (List.zipWith Embedded.shown xs (totals.map Decimal.ofInt)).flatten :
        Rolling ρ Text) := by
  induction xs generalizing lead with
  | nil =>
    rw [embeddingNil, substitutePlain (Region.findNone.mpr (bareWithout leading.bracket []))]
    simp
  | cons x xs ih =>
    have found := embeddingFound leading x xs
    have live : Region.isEscaped ⟨lead, x.spec, embedding x.behind xs⟩ = false :=
      decide_eq_false leading.ending
    rw [substituteRegion found, ih x.apart]
    simp [Region.before, Region.segment, live, Segment.substitute, rollRegion, x.reads,
      Embedded.shown]

theorem Spec.rollTotal (s : Spec) (several : Bool) : s.roll false several =
    (do return Decimal.ofInt (← s.expression.rollTotal) : Rolling ρ Text) := by
  simp [Spec.roll, Expression.rollTotal]

theorem specsValid (xs : List Embedded) :
    untilRefused Spec.ofText (xs.map Embedded.spec) =
      (xs.map fun x => ⟨x.spec, x.expression⟩, none) := by
  induction xs with
  | nil => rfl
  | cons x xs ih =>
    have accepted : Spec.ofText x.spec = .ok ⟨x.spec, x.expression⟩ := by
      rw [Spec.ofText, x.reads]
    rw [List.map_cons, refusedNone accepted, ih]
    rfl

theorem mapMEach {m : Type → Type} [Monad m] [LawfulMonad m] {α β γ : Type} (f : α → m β)
    (g : β → γ) (items : List α) :
    items.mapM (fun item => g <$> f item) = List.map g <$> items.mapM f := by
  induction items with
  | nil => simp
  | cons item items ih => simp [ih]

theorem rollSpecsTotals (xs : List Embedded) :
    rollSpecs false (xs.map Embedded.spec) = (do
      let totals ← (xs.map Embedded.expression).mapM Expression.rollTotal
      return ⟨totals.map Decimal.ofInt, none⟩ : Rolling ρ Report) := by
  rw [rollSpecs, specsValid]
  simp only [Spec.rollTotal, bind_pure_comp, List.mapM_map, Function.comp_def, mapMEach,
    Functor.map_map]

theorem rollSpecsOk {xs : List Embedded} {source last : ρ} {report : Report} :
    rollSpecs false (xs.map Embedded.spec) source = .ok (report, last) ↔
      ∃ totals, Totalled (xs.map Embedded.expression) source totals last ∧
        totals.length = xs.length ∧ report = ⟨totals.map Decimal.ofInt, none⟩ := by
  rw [rollSpecsTotals, stateBindOk]
  constructor
  · intro h
    obtain ⟨totals, _, run, final⟩ := h
    obtain ⟨rfl, rfl⟩ := statePureOk.mp final
    have totalled := totalledExact.mpr run
    exact ⟨totals, totalled, by simpa using totalledLength totalled, rfl⟩
  · intro h
    obtain ⟨totals, totalled, _, rfl⟩ := h
    exact ⟨totals, last, totalledExact.mp totalled, rfl⟩

theorem specsEmbedded {lead : Text} (leading : Separates lead) (xs : List Embedded) (source : ρ) :
    (embedding lead xs).substitute source = (do
      let (report, last) ← rollSpecs false (xs.map Embedded.spec) source
      return (lead ++ (List.zipWith Embedded.shown xs report.entries).flatten, last)) ∧
    ∀ report last, rollSpecs false (xs.map Embedded.spec) source = .ok (report, last) ↔
      ∃ totals, Totalled (xs.map Embedded.expression) source totals last ∧
        totals.length = xs.length ∧ report = ⟨totals.map Decimal.ofInt, none⟩ := by
  refine ⟨?_, fun _ _ => rollSpecsOk⟩
  have same : (embedding lead xs).substitute = (do
      let report ← rollSpecs false (xs.map Embedded.spec)
      return lead ++ (List.zipWith Embedded.shown xs report.entries).flatten : Rolling ρ Text) := by
    rw [substituteEmbedding leading, rollSpecsTotals]
    simp
  exact congrFun same source

theorem specsEmbeddedTabbed :
    Separates "]\n".toList ∧
    rollSpecs false ["2D6\t".toList, " 1d4 -03".toList] (ListedFaces.ofList [5, 6, 2]) =
      .ok (⟨["11".toList, "-1".toList], none⟩, ⟨[], 3⟩) ∧
    Text.substitute "]\n[2D6\t]]\\\n[ 1d4 -03]\\.".toList (ListedFaces.ofList [5, 6, 2]) =
      .ok ("]\n[2d6 = 11]]\\\n[1d4 - 3 = -1]\\.".toList, ⟨[], 3⟩) := by
  have leading : Separates "]\n".toList := ⟨by decide, by decide⟩
  let tabbed : Embedded := ⟨"2D6\t".toList, ⟨⟨.plus, .dice 2 ⟨6, by decide⟩⟩, []⟩,
    "]\\\n".toList, rfl, by decide, ⟨by decide, by decide⟩⟩
  let signed : Embedded := ⟨" 1d4 -03".toList,
    ⟨⟨.plus, .dice 1 ⟨4, by decide⟩⟩, [⟨.minus, .constant 3⟩]⟩,
    "\\.".toList, rfl, by decide, ⟨by decide, by decide⟩⟩
  have rolled : rollSpecs false ["2D6\t".toList, " 1d4 -03".toList]
      (ListedFaces.ofList [5, 6, 2]) =
      .ok (⟨["11".toList, "-1".toList], none⟩, ⟨[], 3⟩) := rfl
  have shown := (specsEmbedded leading [tabbed, signed] (ListedFaces.ofList [5, 6, 2])).1
  refine ⟨leading, rolled, shown.trans ?_⟩
  rfl

end Dice
