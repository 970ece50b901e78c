import Dice.Proofs.Region
import Mathlib.Data.List.Chain

/-! Segments are the one lossless cut of a text: each piece is written as its kind
is written, the pieces give the text back, and no other list of segments has pieces
that stand where a live region, an escaped region and plain text may stand. -/
namespace Dice

structure Piece where
  segment : Segment
  source : Text
  deriving DecidableEq, Repr

namespace Piece

def IsText (p : Piece) : Prop := ∃ t, p.segment = .text t

inductive Written : Piece → Prop where
  | text (t : Text) : Written ⟨.text t, t⟩
  | live (s : Text) (inside : Interior s) : Written ⟨.live s, '[' :: (s ++ [']'])⟩
  | halfEscaped (s : Text) (inside : Interior s) (ending : s.getLast? ≠ some '\\') :
      Written ⟨.escaped s, '\\' :: '[' :: (s ++ [']'])⟩
  | escaped (s : Text) (inside : Interior s) :
      Written ⟨.escaped s, '\\' :: '[' :: (s ++ ['\\', ']'])⟩

def joined (ps : List Piece) : Text := ps.flatMap source

theorem joinedCons (p : Piece) (ps : List Piece) : joined (p :: ps) = p.source ++ joined ps := by
  simp [joined]

theorem joinedAppend (ps qs : List Piece) : joined (ps ++ qs) = joined ps ++ joined qs := by
  simp [joined]

theorem regionEnd {p : Piece} (written : Written p) (region : ¬ p.IsText) :
    p.source.getLast? = some ']' := by
  cases written with
  | text t => exact absurd ⟨t, rfl⟩ region
  | live s inside => simp [List.getLast?_cons]
  | halfEscaped s inside ending => simp [List.getLast?_cons]
  | escaped s inside => simp [List.getLast?_cons]

end Piece

open Piece

/-- The character before a live region and what follows a bracket in plain text are
read in the whole input, whatever pieces they belong to. -/
structure Decomposes (t : Text) (ps : List Piece) : Prop where
  whole : joined ps = t
  written : ∀ p ∈ ps, Written p
  filled : ∀ p ∈ ps, p.segment ≠ .text []
  apart : ps.IsChain fun p q => ¬ (p.IsText ∧ q.IsText)
  unescaped : ∀ before s source after, ps = before ++ ⟨.live s, source⟩ :: after →
    (joined before).getLast? ≠ some '\\'
  unclosed : ∀ before u source after, ps = before ++ ⟨.text u, source⟩ :: after →
    Bare u (joined after)

def Text.leading (u : Text) : List Segment := if u = [] then [] else [.text u]

theorem segmentsPlain {t : Text} (plain : Region.find? t = none) : t.segments = t.leading := by
  rw [Text.segments, Cursor.toListNext]
  by_cases empty : t = []
  · simp [Cursor.next?, Cursor.start, Text.leading, empty]
  · have rest : (Cursor.mk [] none).toList = [] := by
      rw [Cursor.toListNext]
      rfl
    simp [Cursor.next?, Cursor.start, Text.leading, empty, plain, rest]

theorem segmentsRegion {t : Text} {r : Region} (found : Region.find? t = some r) :
    t.segments = r.before.leading ++ r.segment :: r.rest.segments := by
  have nonempty := Region.findFilled found
  rw [Text.segments, Cursor.toListNext]
  by_cases empty : r.before = []
  · simp [Cursor.next?, Cursor.start, Text.leading, empty, nonempty, found, Text.segments]
  · have pending : (Cursor.mk r.rest (some r.segment)).toList = r.segment :: r.rest.segments := by
      rw [Cursor.toListNext]
      rfl
    simp [Cursor.next?, Cursor.start, Text.leading, empty, nonempty, found, pending]

theorem byRegions {motive : Text → Prop} (plain : ∀ t, Region.find? t = none → motive t)
    (region : ∀ t r, Region.find? t = some r → motive r.rest → motive t) (t : Text) :
    motive t := by
  induction size : t.length using Nat.strongRecOn generalizing t with
  | ind n ih =>
    cases found : Region.find? t with
    | none => exact plain t found
    | some r =>
      have shorter := Region.findShorter found
      exact region t r found (ih _ (size ▸ shorter) _ rfl)

namespace Region

def mark (r : Region) : Text := if r.isEscaped then ['\\'] else []

def piece (r : Region) : Piece := ⟨r.segment, r.mark ++ '[' :: (r.interior ++ [']'])⟩

theorem leadSplit (r : Region) : r.lead = r.before ++ r.mark := by
  unfold before mark
  split
  · next escaped =>
    have last : r.lead.getLast? = some '\\' := by simpa [isEscaped] using escaped
    exact (List.dropLast_append_getLast? _ last).symm
  · simp

theorem pieceRegion (r : Region) : ¬ r.piece.IsText := by
  intro h
  obtain ⟨t, same⟩ := h
  simp only [piece, segment] at same
  split at same <;> contradiction

theorem pieceWritten {r : Region} (inside : Interior r.interior) : Written r.piece := by
  by_cases escaped : r.isEscaped
  · by_cases ending : r.interior.getLast? = some '\\'
    · have split := List.dropLast_append_getLast? _ ending
      have written := Written.escaped r.interior.dropLast
        (interiorAppend.mp (split ▸ inside)).1
      have source : '\\' :: '[' :: (r.interior.dropLast ++ ['\\', ']']) =
          '\\' :: '[' :: (r.interior ++ [']']) := by
        rw [← split]
        simp
      rw [source] at written
      simpa [piece, segment, mark, escaped, ending] using written
    · simpa [piece, segment, mark, escaped, ending] using Written.halfEscaped _ inside ending
  · simpa [piece, segment, mark, escaped] using Written.live _ inside

theorem beforeLive {r : Region} {s : Text} (live : r.segment = .live s) :
    r.before.getLast? ≠ some '\\' := by
  unfold segment at live
  split at live
  · contradiction
  · next escaped =>
    have whole : r.before = r.lead := by simp [before, escaped]
    simpa [whole, isEscaped] using escaped

end Region

theorem decomposesNil : Decomposes [] [] := by
  refine ⟨rfl, by simp, by simp, .nil, ?_, ?_⟩
  all_goals
    intro before u source after split
    simp at split

theorem decomposesText {u : Text} (filled : u ≠ []) (bare : Bare u []) :
    Decomposes u [⟨.text u, u⟩] := by
  refine ⟨by simp [joined], ?_, ?_, .singleton _, ?_, ?_⟩
  · intro p hp
    rw [List.mem_singleton.mp hp]
    exact .text u
  · intro p hp
    simpa [List.mem_singleton.mp hp] using filled
  · intro before s source after split
    simp [List.cons_eq_append_iff] at split
  · intro before v source after split
    obtain ⟨rfl, ⟨rfl, rfl⟩, rfl⟩ : before = [] ∧ (v = u ∧ source = u) ∧ after = [] := by
      simpa [List.cons_eq_append_iff] using split
    exact bare

theorem decomposesRegion {p : Piece} {t : Text} {ps : List Piece} (written : Written p)
    (region : ¬ p.IsText) (rest : Decomposes t ps) : Decomposes (p.source ++ t) (p :: ps) := by
  refine ⟨by rw [joinedCons, rest.whole], ?_, ?_, ?_, ?_, ?_⟩
  · simpa using ⟨written, rest.written⟩
  · exact List.forall_mem_cons.mpr ⟨fun same => region ⟨[], same⟩, rest.filled⟩
  · cases ps with
    | nil => exact .singleton _
    | cons q ps => exact .cons_cons (fun both => region both.1) rest.apart
  · intro before s source after split
    rcases List.cons_eq_append_iff.mp split with ⟨rfl, _⟩ | ⟨b, rfl, inner⟩
    · simp [joined]
    · have earlier := rest.unescaped b s source after inner
      rw [joinedCons, List.getLast?_append, regionEnd written region]
      cases last : (joined b).getLast? with
      | none => simp
      | some c => simpa [last] using earlier
  · intro before u source after split
    rcases List.cons_eq_append_iff.mp split with ⟨rfl, same⟩ | ⟨b, rfl, inner⟩
    · exact absurd ⟨u, congrArg Piece.segment (List.cons.inj same).1.symm⟩ region
    · exact rest.unclosed b u source after inner

theorem decomposesLead {u t : Text} {p : Piece} {ps : List Piece} (filled : u ≠ [])
    (region : ¬ p.IsText) (bare : Bare u t)
    (unescaped : ∀ s, p.segment = .live s → u.getLast? ≠ some '\\')
    (rest : Decomposes t (p :: ps)) : Decomposes (u ++ t) (⟨.text u, u⟩ :: p :: ps) := by
  have written := rest.written p (by simp)
  refine ⟨by rw [joinedCons, rest.whole], ?_, ?_, ?_, ?_, ?_⟩
  · exact List.forall_mem_cons.mpr ⟨.text u, rest.written⟩
  · exact List.forall_mem_cons.mpr ⟨by simpa using filled, rest.filled⟩
  · exact .cons_cons (fun both => region both.2) rest.apart
  · intro before s source after split
    rcases List.cons_eq_append_iff.mp split with ⟨rfl, same⟩ | ⟨b, rfl, inner⟩
    · simp at same
    · rcases List.cons_eq_append_iff.mp inner with ⟨rfl, same⟩ | ⟨c, rfl, _⟩
      · have live : p.segment = .live s := congrArg Piece.segment (List.cons.inj same).1.symm
        simpa [joined] using unescaped s live
      · have earlier := rest.unescaped (p :: c) s source after inner
        have last := regionEnd written region
        rw [joinedCons, List.getLast?_append, last] at earlier
        rw [joinedCons, List.getLast?_append, joinedCons, List.getLast?_append, last,
          Option.or_assoc, Option.some_or]
        exact earlier
  · intro before v source after split
    rcases List.cons_eq_append_iff.mp split with ⟨rfl, same⟩ | ⟨b, rfl, inner⟩
    · obtain ⟨⟨rfl, _⟩, rfl⟩ : (v = u ∧ source = u) ∧ after = p :: ps := by simpa using same
      rwa [rest.whole]
    · exact rest.unclosed b v source after inner

theorem segmentsDecompose (t : Text) :
    ∃ ps, ps.map Piece.segment = t.segments ∧ Decomposes t ps := by
  induction t using byRegions with
  | plain t plain =>
    rw [segmentsPlain plain]
    by_cases empty : t = []
    · subst t
      exact ⟨[], rfl, decomposesNil⟩
    · refine ⟨[⟨.text t, t⟩], by simp [Text.leading, empty], ?_⟩
      exact decomposesText empty (Region.findNone.mp plain)
  | region t r found ih =>
    obtain ⟨ps, segments, rest⟩ := ih
    have leftmost := Region.findExact.mp found
    have whole : t = r.before ++ (r.piece.source ++ r.rest) := by
      simpa [Region.piece, r.leadSplit] using leftmost.whole
    have written := Region.pieceWritten leftmost.inside
    have tail := decomposesRegion written r.pieceRegion rest
    rw [segmentsRegion found, whole]
    by_cases empty : r.before = []
    · refine ⟨r.piece :: ps, by simp [segments, Text.leading, empty, Region.piece], ?_⟩
      rwa [empty]
    · refine ⟨⟨.text r.before, r.before⟩ :: r.piece :: ps,
        by simp [segments, Text.leading, empty, Region.piece], ?_⟩
      have bare : Bare r.before (r.piece.source ++ r.rest) := by
        have split := leftmost.bare
        rw [r.leadSplit, bareAppend] at split
        simpa [Region.piece] using split.1
      exact decomposesLead empty r.pieceRegion bare (fun s live => Region.beforeLive live) tail

theorem firstRegion (ps : List Piece) : (∀ p ∈ ps, p.IsText) ∨
    ∃ before p after, ps = before ++ p :: after ∧ (∀ q ∈ before, q.IsText) ∧ ¬ p.IsText := by
  induction ps with
  | nil => exact Or.inl (by simp)
  | cons p ps ih =>
    by_cases text : p.IsText
    · rcases ih with all | ⟨before, q, after, rfl, texts, region⟩
      · exact Or.inl (List.forall_mem_cons.mpr ⟨text, all⟩)
      · exact Or.inr ⟨p :: before, q, after, rfl, List.forall_mem_cons.mpr ⟨text, texts⟩, region⟩
    · exact Or.inr ⟨[], p, ps, rfl, by simp, text⟩

theorem textWritten {p : Piece} (written : Written p) (text : p.IsText) :
    p = ⟨.text p.source, p.source⟩ := by
  obtain ⟨t, same⟩ := text
  cases written with
  | text u => rfl
  | live s inside => contradiction
  | halfEscaped s inside ending => contradiction
  | escaped s inside => contradiction

theorem leadingTexts {t : Text} {before after : List Piece} (d : Decomposes t (before ++ after))
    (texts : ∀ q ∈ before, q.IsText) :
    before.map Piece.segment = (joined before).leading ∧ Bare (joined before) (joined after) := by
  cases before with
  | nil => exact ⟨rfl, bareNil _⟩
  | cons p tail =>
    have text := textWritten (d.written p (by simp)) (texts p (by simp))
    cases tail with
    | nil =>
      have filled : p.source ≠ [] := by
        intro empty
        refine d.filled p (by simp) ?_
        rw [text, empty]
      have bare := d.unclosed [] p.source p.source after (by rw [← text]; rfl)
      have whole : joined [p] = p.source := by simp [joined]
      rw [whole]
      refine ⟨?_, bare⟩
      rw [Text.leading, if_neg filled, text]
      rfl
    | cons q tail =>
      have adjacent := (List.isChain_cons_cons.mp d.apart).1
      exact absurd ⟨texts p (by simp), texts q (by simp)⟩ adjacent

theorem decomposesAfter {t : Text} {before after : List Piece} {p : Piece}
    (d : Decomposes t (before ++ p :: after)) : Decomposes (joined after) after := by
  refine ⟨rfl, fun q hq => d.written q (by simp [hq]), fun q hq => d.filled q (by simp [hq]),
    ?_, ?_, ?_⟩
  · exact (List.isChain_append.mp d.apart).2.1.tail
  · intro b s source a split
    have earlier := d.unescaped (before ++ p :: b) s source a (by rw [split]; simp)
    intro last
    rw [joinedAppend, joinedCons, List.getLast?_append, List.getLast?_append, last] at earlier
    exact earlier rfl
  · intro b u source a split
    exact d.unclosed (before ++ p :: b) u source a (by rw [split]; simp)

theorem regionOfPiece {p : Piece} {u rest : Text} (written : Written p) (region : ¬ p.IsText)
    (unescaped : ∀ s, p.segment = .live s → u.getLast? ≠ some '\\')
    (bare : Bare u (p.source ++ rest)) :
    ∃ r, Leftmost (u ++ (p.source ++ rest)) r ∧ r.before = u ∧ r.segment = p.segment ∧
      r.rest = rest := by
  cases written with
  | text t => exact absurd ⟨t, rfl⟩ region
  | live s inside =>
    have plain : u.getLast? ≠ some '\\' := unescaped s rfl
    refine ⟨⟨u, s, rest⟩, ⟨by simp, inside, by simpa using bare⟩, ?_, ?_, rfl⟩
    · simp [Region.before, Region.isEscaped, plain]
    · simp [Region.segment, Region.isEscaped, plain]
  | halfEscaped s inside ending =>
    refine ⟨⟨u ++ ['\\'], s, rest⟩, ⟨by simp, inside, ?_⟩, ?_, ?_, rfl⟩
    · simpa [bareAppend, bareCons, bareNil] using bare
    · simp [Region.before, Region.isEscaped]
    · simp [Region.segment, Region.isEscaped, ending]
  | escaped s inside =>
    refine ⟨⟨u ++ ['\\'], s ++ ['\\'], rest⟩, ⟨by simp, ?_, ?_⟩, ?_, ?_, rfl⟩
    · exact interiorAppend.mpr ⟨inside, by decide⟩
    · simpa [bareAppend, bareCons, bareNil] using bare
    · simp [Region.before, Region.isEscaped]
    · simp [Region.segment, Region.isEscaped]

theorem decompositionRegion {t : Text} {before after : List Piece} {p : Piece}
    (d : Decomposes t (before ++ p :: after)) (texts : ∀ q ∈ before, q.IsText)
    (region : ¬ p.IsText) :
    ∃ r, Region.find? t = some r ∧ Decomposes r.rest after ∧
      (before ++ p :: after).map Piece.segment =
        r.before.leading ++ r.segment :: after.map Piece.segment := by
  have written := d.written p (by simp)
  obtain ⟨lead, bare⟩ := leadingTexts d texts
  rw [joinedCons] at bare
  have unescaped : ∀ s, p.segment = .live s → (joined before).getLast? ≠ some '\\' := by
    intro s live
    exact d.unescaped before s p.source after (by rw [← live])
  obtain ⟨r, leftmost, ahead, segment, rest⟩ := regionOfPiece written region unescaped bare
  have whole : joined before ++ (p.source ++ joined after) = t := by
    rw [← joinedCons, ← joinedAppend]
    exact d.whole
  rw [whole] at leftmost
  refine ⟨r, Region.findExact.mpr leftmost, ?_, ?_⟩
  · rw [rest]
    exact decomposesAfter d
  · rw [List.map_append, lead, ahead, List.map_cons, segment]

theorem decompositionSegments {t : Text} {ps : List Piece} (d : Decomposes t ps) :
    ps.map Piece.segment = t.segments := by
  induction t using byRegions generalizing ps with
  | plain t plain =>
    rcases firstRegion ps with texts | ⟨before, p, after, rfl, texts, region⟩
    · rw [← List.append_nil ps] at d
      rw [(leadingTexts d texts).1, ← List.append_nil ps, d.whole, segmentsPlain plain]
    · obtain ⟨r, found, _, _⟩ := decompositionRegion d texts region
      rw [plain] at found
      contradiction
  | region t r found ih =>
    rcases firstRegion ps with texts | ⟨before, p, after, rfl, texts, region⟩
    · rw [← List.append_nil ps] at d
      have bare := (leadingTexts d texts).2
      rw [← List.append_nil ps, d.whole] at bare
      exact absurd bare (leftmostNotBare (Region.findExact.mp found))
    · obtain ⟨q, again, rest, segments⟩ := decompositionRegion d texts region
      obtain rfl : r = q := Option.some.inj (found.symm.trans again)
      rw [segments, ih rest, segmentsRegion found]

theorem segmentsUnique (t : Text) (segments : List Segment) :
    (∃ ps, ps.map Piece.segment = segments ∧ Decomposes t ps) ↔ segments = t.segments := by
  constructor
  · intro h
    obtain ⟨ps, rfl, d⟩ := h
    exact decompositionSegments d
  · intro same
    subst same
    exact segmentsDecompose t

end Dice
