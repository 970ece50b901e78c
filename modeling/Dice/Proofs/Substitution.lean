import Dice.Face.Listed
import Dice.Proofs.Decomposition
import Dice.Substitution

/-! Substitution is a homomorphism: a text that is cut where no region and no escape is
parted may be substituted piece by piece, the source running on from one piece to the next.
The proof goes through the first text region by region; its last plain stretch joins whatever
the second text starts with. -/
namespace Dice

/-- A bracket is open at the end of the text: its line has not ended and it is not closed. -/
def LeavesOpen (t : Text) : Prop := ∃ x y, t = x ++ '[' :: y ∧ Interior y

structure CleanCut (a b : Text) : Prop where
  region : ¬ (LeavesOpen a ∧ Closes b)
  escape : ¬ (a.getLast? = some '\\' ∧ b.head? = some '[')

theorem closesStopped {s : Text} (stopped : ¬ Interior s) (t : Text) :
    Closes (s ++ t) ↔ Closes s := by
  cases found : s.find? stops with
  | none =>
    have all := List.find?_eq_none.mp found
    exact absurd (interiorIff.mpr fun c hc => by simpa using all c hc) stopped
  | some c => simp only [Closes, List.find?_append, found, Option.some_or]

theorem bareSame {u s t : Text} (same : Closes s ↔ Closes t) : Bare u s ↔ Bare u t := by
  have step (y : Text) : Closes (y ++ s) ↔ Closes (y ++ t) := by
    by_cases inside : Interior y
    · rw [closesAfter inside, closesAfter inside, same]
    · rw [closesStopped inside, closesStopped inside]
  simp only [Bare, step]

theorem bareStopped {u s : Text} (stopped : ¬ Interior s) (t : Text) :
    Bare u (s ++ t) ↔ Bare u s := bareSame (closesStopped stopped t)

theorem bareCut {a b : Text} (cut : CleanCut a b) (bare : Bare a []) : Bare a b := by
  intro x y split closed
  by_cases inside : Interior y
  · exact cut.region ⟨⟨x, y, split, inside⟩, (closesAfter inside).mp closed⟩
  · refine bare x y split ?_
    rw [List.append_nil]
    exact (closesStopped inside b).mp closed

namespace Region

def followedBy (r : Region) (u : Text) : Region := { r with rest := r.rest ++ u }

@[simp] theorem followedBefore (r : Region) (u : Text) : (r.followedBy u).before = r.before := rfl

@[simp] theorem followedSegment (r : Region) (u : Text) :
    (r.followedBy u).segment = r.segment := rfl

@[simp] theorem followedRest (r : Region) (u : Text) : (r.followedBy u).rest = r.rest ++ u := rfl

def precededBy (r : Region) (u : Text) : Region := { r with lead := u ++ r.lead }

theorem findFollowed {t : Text} {r : Region} (found : find? t = some r) (u : Text) :
    find? (t ++ u) = some (r.followedBy u) := by
  have leftmost := findExact.mp found
  refine findExact.mpr ⟨?_, leftmost.inside, ?_⟩
  · rw [leftmost.whole]
    simp [followedBy]
  · have stopped : ¬ Interior ('[' :: (r.interior ++ ']' :: r.rest)) := by simp [Interior]
    have bare := (bareStopped stopped u).mpr leftmost.bare
    simpa [followedBy] using bare

theorem findPreceded {a b : Text} {r : Region} (bare : Bare a b) (found : find? b = some r) :
    find? (a ++ b) = some (r.precededBy a) := by
  have leftmost := findExact.mp found
  refine findExact.mpr ⟨?_, leftmost.inside, ?_⟩
  · simp [precededBy, ← leftmost.whole]
  · change Bare (a ++ r.lead) ('[' :: (r.interior ++ ']' :: r.rest))
    refine bareAppend.mpr ⟨?_, leftmost.bare⟩
    rwa [← leftmost.whole]

theorem findNeither {a b : Text} (bare : Bare a b) (plain : find? b = none) :
    find? (a ++ b) = none := by
  refine findNone.mpr (bareAppend.mpr ⟨?_, findNone.mp plain⟩)
  rwa [List.append_nil]

theorem escapedPreceded {a b : Text} {r : Region} (cut : CleanCut a b)
    (found : find? b = some r) : (r.precededBy a).isEscaped = r.isEscaped := by
  have whole := (findExact.mp found).whole
  cases lead : r.lead with
  | nil =>
    have bracket : b.head? = some '[' := by rw [whole, lead]; rfl
    have plain : a.getLast? ≠ some '\\' := fun last => cut.escape ⟨last, bracket⟩
    simp [isEscaped, precededBy, lead, plain]
  | cons c cs => simp [isEscaped, precededBy, lead, List.getLast?_append]

theorem beforePreceded {a b : Text} {r : Region} (cut : CleanCut a b)
    (found : find? b = some r) : (r.precededBy a).before = a ++ r.before := by
  unfold before
  rw [escapedPreceded cut found]
  split
  · next escaped =>
    have filled : r.lead ≠ [] := by
      intro empty
      simp [isEscaped, empty] at escaped
    exact List.dropLast_append_of_ne_nil filled
  · rfl

theorem segmentPreceded {a b : Text} {r : Region} (cut : CleanCut a b)
    (found : find? b = some r) : (r.precededBy a).segment = r.segment := by
  unfold segment
  rw [escapedPreceded cut found]
  rfl

end Region

variable {ρ : Type} [FaceSource ρ]

theorem substituteLeading (u : Text) (ss : List Segment) :
    (u.leading ++ ss).mapM Segment.substitute >>= (fun ts => pure ts.flatten) =
      (do return u ++ (← ss.mapM Segment.substitute).flatten : Rolling ρ Text) := by
  unfold Text.leading
  split
  · next empty => simp [empty]
  · simp [Segment.substitute]

theorem substitutePlain {t : Text} (plain : Region.find? t = none) :
    t.substitute = (pure t : Rolling ρ Text) := by
  have rest := substituteLeading (ρ := ρ) t []
  rw [List.append_nil, ← segmentsPlain plain] at rest
  simpa [Text.substitute] using rest

theorem substituteRegion {t : Text} {r : Region} (found : Region.find? t = some r) :
    t.substitute = (do
      let shown ← r.segment.substitute
      let rest ← r.rest.substitute
      return r.before ++ (shown ++ rest) : Rolling ρ Text) := by
  unfold Text.substitute
  rw [segmentsRegion found, substituteLeading]
  simp

theorem substitutePreceded {a b : Text} (cut : CleanCut a b) (plain : Region.find? a = none) :
    (a ++ b).substitute = (do return a ++ (← b.substitute) : Rolling ρ Text) := by
  have bare := bareCut cut (Region.findNone.mp plain)
  cases found : Region.find? b with
  | none =>
    rw [substitutePlain found, substitutePlain (Region.findNeither bare found)]
    simp
  | some r =>
    rw [substituteRegion found, substituteRegion (Region.findPreceded bare found),
      Region.beforePreceded cut found, Region.segmentPreceded cut found]
    simp [Region.precededBy]

theorem cutRest {a b : Text} {r : Region} (cut : CleanCut a b)
    (found : Region.find? a = some r) : CleanCut r.rest b := by
  have whole : a = (r.lead ++ '[' :: (r.interior ++ [']'])) ++ r.rest := by
    simpa using (Region.findExact.mp found).whole
  refine ⟨?_, ?_⟩
  · intro both
    obtain ⟨⟨x, y, split, inside⟩, closed⟩ := both
    refine cut.region ⟨⟨r.lead ++ '[' :: (r.interior ++ [']']) ++ x, y, ?_, inside⟩, closed⟩
    rw [whole, split]
    simp
  · intro both
    obtain ⟨last, bracket⟩ := both
    refine cut.escape ⟨?_, bracket⟩
    rw [whole, List.getLast?_append, last]
    rfl

theorem substituteJoined {a b : Text} (cut : CleanCut a b) :
    (a ++ b).substitute = (do
      let first ← a.substitute
      let second ← b.substitute
      return first ++ second : Rolling ρ Text) := by
  induction a using byRegions with
  | plain a plain =>
    rw [substitutePreceded cut plain, substitutePlain plain, pure_bind]
  | region a r found ih =>
    rw [substituteRegion found, substituteRegion (Region.findFollowed found b)]
    simp only [Region.followedBefore, Region.followedSegment, Region.followedRest,
      ih (cutRest cut found), bind_assoc, pure_bind, List.append_assoc]

theorem substituteAppend {a b : Text} (cut : CleanCut a b) (source : ρ) :
    (a ++ b).substitute source = do
      let (first, middle) ← a.substitute source
      let (second, last) ← b.substitute middle
      return (first ++ second, last) :=
  congrFun (substituteJoined cut) source

theorem substituteAppendOpenLine :
    CleanCut ['[', '1', 'd', '6', ']', '[', '\\'] ['\n', '[', '1', 'd', '4', ']', ']'] ∧
    Text.substitute ['[', '1', 'd', '6', ']', '[', '\\', '\n', '[', '1', 'd', '4', ']', ']']
      (ListedFaces.ofList [3, 2]) =
      .ok (['[', '1', 'd', '6', ' ', '=', ' ', '3', ']', '[', '\\', '\n', '[', '1', 'd', '4',
        ' ', '=', ' ', '2', ']', ']'], ⟨[], 2⟩) := by
  have cut : CleanCut ['[', '1', 'd', '6', ']', '[', '\\'] ['\n', '[', '1', 'd', '4', ']', ']'] :=
    ⟨fun both => absurd both.2 (by decide), fun both => absurd both.2 (by decide)⟩
  have first : Region.find? ['[', '1', 'd', '6', ']', '[', '\\'] =
      some ⟨[], ['1', 'd', '6'], ['[', '\\']⟩ := rfl
  have second : Region.find? ['\n', '[', '1', 'd', '4', ']', ']'] =
      some ⟨['\n'], ['1', 'd', '4'], [']']⟩ := rfl
  refine ⟨cut, (substituteAppend cut (ListedFaces.ofList [3, 2])).trans ?_⟩
  rw [substituteRegion first, substituteRegion second, substitutePlain (t := ['[', '\\']) rfl,
    substitutePlain (t := [']']) rfl]
  rfl

end Dice
