import Dice.Text

/-!
Text with bracketed regions. A region reaches from a `[` to the next `]` on the same line; regions
do not nest. A backslash right before the `[` makes the region an escaped one, and is dropped
together with a backslash right before its `]`; every other region is live.
-/
namespace Dice

inductive Segment where
  | text (t : Text)
  | escaped (interior : Text)
  | live (interior : Text)
  deriving DecidableEq, Repr

structure Region where
  lead : Text
  interior : Text
  rest : Text
  deriving DecidableEq, Repr

namespace Region

/-- Looks for a region in the text that follows what is in `lead` and, since an open bracket, in
`inside?` (both latest character first). A line that ends inside a bracket closes nothing. -/
def search (lead : Text) (inside? : Option Text) : Text → Option Region
  | [] => none
  | c :: rest =>
    match inside? with
    | none => if c = '[' then search lead (some []) rest else search (c :: lead) none rest
    | some interior =>
      if c = ']' then some ⟨lead.reverse, interior.reverse, rest⟩
      else if c = '\n' then search (c :: (interior ++ '[' :: lead)) none rest
      else search lead (some (c :: interior)) rest

def find? (t : Text) : Option Region := search [] none t

theorem searchShorter {t : Text} {lead : Text} {inside? : Option Text} {r : Region}
    (h : search lead inside? t = some r) : r.rest.length < t.length := by
  induction t generalizing lead inside? with
  | nil => simp [search] at h
  | cons c t ih =>
    have shorter {lead inside?} (h : search lead inside? t = some r) :
        r.rest.length < (c :: t).length := by
      have := ih h; simp only [List.length_cons]; omega
    cases inside? with
    | none =>
      simp only [search] at h
      split at h <;> exact shorter h
    | some interior =>
      simp only [search] at h
      split at h
      · cases h; simp
      · split at h <;> exact shorter h

theorem findShorter {t : Text} {r : Region} (h : find? t = some r) :
    r.rest.length < t.length := searchShorter h

/-- Whether a backslash stands right before the `[`. What precedes the lead is no backslash: it is
the start of a text or the `]` of the region before. -/
def isEscaped (r : Region) : Bool := r.lead.getLast? = some '\\'

def before (r : Region) : Text := if r.isEscaped then r.lead.dropLast else r.lead

def segment (r : Region) : Segment :=
  if r.isEscaped then
    .escaped (if r.interior.getLast? = some '\\' then r.interior.dropLast else r.interior)
  else .live r.interior

end Region

/-- A place between two segments: the text ahead, which starts a text or follows a `]`, and before
it the region, if any, whose preceding text has been handed out already. -/
structure Cursor where
  ahead : Text
  pending? : Option Segment
  deriving DecidableEq, Repr

namespace Cursor

def start (t : Text) : Cursor := ⟨t, none⟩

def next? (c : Cursor) : Option (Segment × Cursor) :=
  match c.pending? with
  | some segment => some (segment, ⟨c.ahead, none⟩)
  | none =>
    if c.ahead = [] then none
    else match Region.find? c.ahead with
      | none => some (.text c.ahead, ⟨[], none⟩)
      | some region =>
        if region.before = [] then some (region.segment, ⟨region.rest, none⟩)
        else some (.text region.before, ⟨region.rest, some region.segment⟩)

/-- Falls with each segment: characters ahead count twice, a pending region once. -/
def work (c : Cursor) : Nat := 2 * c.ahead.length + c.pending?.toList.length

theorem nextWork {c d : Cursor} {s : Segment} (h : c.next? = some (s, d)) :
    d.work < c.work := by
  unfold next? at h
  split at h
  · next hp => cases h; simp [work, hp]
  · next hp =>
    split at h
    · cases h
    · next ha =>
      have : 0 < c.ahead.length := List.length_pos_iff.2 ha
      split at h
      · cases h; simp [work, hp]; omega
      · next hr =>
        have := Region.findShorter hr
        split at h <;> cases h <;> simp [work, hp] <;> omega

def collect (done : List Segment) (c : Cursor) : List Segment :=
  match _h : c.next? with
  | none => done.reverse
  | some (s, d) => collect (s :: done) d
termination_by c.work
decreasing_by exact nextWork _h

def toList (c : Cursor) : List Segment := collect [] c

theorem collectExact (done : List Segment) (c : Cursor) :
    collect done c = done.reverse ++ c.toList := by
  induction hw : c.work using Nat.strongRecOn generalizing c done with
  | ind w ih =>
    unfold toList
    rw [collect, collect]
    split
    · simp
    · next s d h =>
      have := nextWork h
      rw [ih _ (by omega) _ _ rfl, ih _ (by omega) [s] _ rfl]
      simp

theorem toListNext (c : Cursor) :
    c.toList = match c.next? with
      | none => []
      | some (s, d) => s :: d.toList := by
  rw [toList, collect]
  split
  · next h => rw [h]; rfl
  · next h => rw [h, collectExact]; rfl

end Cursor

def Text.segments (t : Text) : List Segment := (Cursor.start t).toList

end Dice
