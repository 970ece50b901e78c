import Dice.Proofs.Substitution

/-! Every text can be written so that substitution gives it back. One more backslash before each
bracket of a region moves no region: the same brackets are found, every region is an escaped one,
and exactly the backslashes that were put in are dropped. -/
namespace Dice

def Text.shielded (t : Text) : Text :=
  match _found : Region.find? t with
  | none => t
  | some r => r.lead ++ '\\' :: '[' :: (r.interior ++ '\\' :: ']' :: shielded r.rest)
termination_by t.length
decreasing_by exact Region.findShorter _found

theorem shieldedPlain {t : Text} (plain : Region.find? t = none) : t.shielded = t := by
  rw [Text.shielded]
  split
  · rfl
  · next found => rw [plain] at found; contradiction

theorem shieldedRegion {t : Text} {r : Region} (found : Region.find? t = some r) :
    t.shielded = r.lead ++ '\\' :: '[' :: (r.interior ++ '\\' :: ']' :: r.rest.shielded) := by
  rw [Text.shielded]
  split
  · next plain => rw [plain] at found; contradiction
  · next q again =>
    obtain rfl : r = q := Option.some.inj (found.symm.trans again)
    rfl

namespace Region

def shielded (r : Region) (rest : Text) : Region := ⟨r.lead ++ ['\\'], r.interior ++ ['\\'], rest⟩

theorem shieldedBefore (r : Region) (rest : Text) : (r.shielded rest).before = r.lead := by
  simp [before, isEscaped, shielded]

theorem shieldedSegment (r : Region) (rest : Text) :
    (r.shielded rest).segment = .escaped r.interior := by
  simp [segment, isEscaped, shielded]

theorem findShielded {t : Text} {r : Region} (found : find? t = some r) :
    find? t.shielded = some (r.shielded r.rest.shielded) := by
  have leftmost := findExact.mp found
  have inside : Interior (r.interior ++ ['\\']) := interiorAppend.mpr ⟨leftmost.inside, by decide⟩
  have opened : Interior ('[' :: r.interior) := interiorCons.mpr ⟨rfl, leftmost.inside⟩
  have shut : Interior ('\\' :: '[' :: (r.interior ++ ['\\'])) :=
    interiorCons.mpr ⟨rfl, interiorCons.mpr ⟨rfl, inside⟩⟩
  -- The bracket that closes the region is the first stop with and without the backslashes.
  have same : Closes ('[' :: (r.interior ++ ']' :: r.rest)) ↔
      Closes ('\\' :: '[' :: (r.interior ++ '\\' :: ']' :: r.rest.shielded)) := by
    have before := closesAtBracket (t := r.rest) opened
    have after := closesAtBracket (t := r.rest.shielded) shut
    exact iff_of_true before (by simpa using after)
  refine findExact.mpr ⟨by simp [shieldedRegion found, shielded], inside, ?_⟩
  have bare := (bareSame same).mp leftmost.bare
  simpa [shielded, bareAppend, bareCons, bareNil] using bare

end Region

variable {ρ : Type} [FaceSource ρ]

theorem shieldedPure (t : Text) : t.shielded.substitute = (pure t : Rolling ρ Text) := by
  induction t using byRegions with
  | plain t plain => rw [shieldedPlain plain, substitutePlain plain]
  | region t r found ih =>
    have whole := (Region.findExact.mp found).whole
    rw [substituteRegion (Region.findShielded found), Region.shieldedBefore,
      Region.shieldedSegment]
    simp only [Segment.substitute, Region.shielded, ih, pure_bind, bracketed]
    rw [whole]
    simp

theorem substituteShielded (t : Text) (source : ρ) :
    t.shielded.substitute source = .ok (t, source) := by
  rw [shieldedPure]
  rfl

end Dice
