import Dice.Proofs.Looking

/-! The segments by positions. A scan keeps the whole text and the byte up to which it has been
handed out; all that it reads, it reads by position, and each of these reads can be a breach. From
the start of a text none ever is: behind each call the text stands parted where a segment ends, as
a cursor has it, and the scan hands out what the cursor does. -/
namespace Dice

namespace Span

def isEscaped (t : Text) (span : Span) : Except Breach Bool :=
  if 0 < span.start then do
    let b ← byteAt t.utf8 (← stepBack span.start 1)
    return b = '\\'.toUInt8
  else .ok false

def close (t : Text) (span : Span) : Except Breach Nat := do
  if (← byteAt t.utf8 (← stepBack span.stop 2)) = '\\'.toUInt8 then stepBack span.stop 2
  else stepBack span.stop 1

def region (t : Text) (span : Span) : Except Breach (Nat × Segment) := do
  if ← isEscaped t span then
    let interior ← t.slice (span.start + 1) (← close t span)
    return (← stepBack span.start 1, .escaped interior)
  else
    let interior ← t.slice (span.start + 1) (← stepBack span.stop 1)
    return (span.start, .live interior)

end Span

structure Scan where
  text : Text
  pos : Nat
  pending? : Option Segment
  deriving DecidableEq, Repr

namespace Scan

def start (t : Text) : Scan := ⟨t, 0, none⟩

def search (s : Scan) : Except Breach (Option Segment × Scan) := do
  match ← Span.find s.text s.pos with
  | none =>
    let rest ← s.text.slice s.pos s.text.size
    return (some (.text rest), { s with pos := s.text.size })
  | some span =>
    let (stop, segment) ← span.region s.text
    let before ← s.text.slice s.pos stop
    if before = [] then return (some segment, { s with pos := span.stop })
    else return (some (.text before), { s with pos := span.stop, pending? := some segment })

def next (s : Scan) : Except Breach (Option Segment × Scan) :=
  match s.pending? with
  | some segment => .ok (some segment, { s with pending? := none })
  | none => if s.text.size ≤ s.pos then .ok (none, s) else s.search

def handed : Nat → Scan → Except Breach (List (Option Segment))
  | 0, _ => .ok []
  | n + 1, s => do
    let (segment?, s) ← s.next
    return segment? :: (← handed n s)

inductive Reached (t : Text) : Scan → Prop where
  | start : Reached t (.start t)
  | next {s s' : Scan} {segment? : Option Segment} (reached : Reached t s)
      (call : s.next = .ok (segment?, s')) : Reached t s'

end Scan

namespace Region

def kept (r : Region) : Text :=
  if r.interior.getLast? = some '\\' then r.interior.dropLast else r.interior

theorem keptSplit (r : Region) :
    r.interior = r.kept ++ if r.interior.getLast? = some '\\' then ['\\'] else [] := by
  unfold kept
  split
  · next last => exact (List.dropLast_append_getLast? _ last).symm
  · exact (List.append_nil _).symm

theorem keptSize (r : Region) :
    r.interior.size = r.kept.size + if r.interior.getLast? = some '\\' then 1 else 0 := by
  have size := congrArg Text.size r.keptSplit
  rw [size, Text.sizeAppend]
  split <;> rfl

theorem leadSize (r : Region) : r.lead.size = r.before.size + if r.isEscaped then 1 else 0 := by
  have size := congrArg Text.size r.leadSplit
  rw [size, Text.sizeAppend, mark]
  split <;> rfl

theorem lastBefore {x : Text} (fresh : x.getLast? ≠ some '\\') (r : Region) :
    (x ++ r.lead).getLast? = some '\\' ↔ r.isEscaped := by
  simp only [isEscaped, decide_eq_true_eq, List.getLast?_append]
  cases r.lead.getLast? with
  | none => simp [fresh]
  | some c => simp

end Region

namespace Span
variable {x u : Text} {r : Region}

theorem escapedExact (fresh : x.getLast? ≠ some '\\') (found : Region.find? u = some r) :
    isEscaped (x ++ u) (r.span x) = .ok r.isEscaped := by
  rw [(Region.findExact.mp found).whole, ← List.append_assoc, isEscaped]
  have start : (r.span x).start = Text.size (x ++ r.lead) := (Text.sizeAppend x r.lead).symm
  rw [start]
  by_cases empty : x ++ r.lead = []
  · obtain ⟨rfl, lead⟩ := List.append_eq_nil_iff.mp empty
    simp [Region.isEscaped, lead]
  · have positive := Text.sizePositive empty
    obtain ⟨b, read, exact⟩ := Text.byteBefore empty ('[' :: (r.interior ++ ']' :: r.rest))
    rw [if_pos positive]
    refine bindOk.mpr ⟨_, stepBackExact.mpr (Nat.sub_add_cancel positive), ?_⟩
    refine bindOk.mpr ⟨b, read, pureOk.mpr ?_⟩
    rw [Bool.eq_iff_iff, decide_eq_true_eq, exact '\\' (by decide), Region.lastBefore fresh]

theorem closeExact (found : Region.find? u = some r) :
    close (x ++ u) (r.span x) = .ok (x.size + r.lead.size + 1 + r.kept.size) := by
  have whole : x ++ u = (x ++ r.lead ++ '[' :: r.interior) ++ ']' :: r.rest := by
    rw [(Region.findExact.mp found).whole]
    simp
  have filled : x ++ r.lead ++ '[' :: r.interior ≠ [] := by simp
  have place : Text.size (x ++ r.lead ++ '[' :: r.interior) - 1 =
      x.size + r.lead.size + r.interior.size := by
    simp only [Text.sizeAppend, Text.sizeCons, openSize]
    omega
  obtain ⟨b, read, exact⟩ := Text.byteBefore filled (']' :: r.rest)
  have last : b = '\\'.toUInt8 ↔ r.interior.getLast? = some '\\' := by
    rw [exact '\\' (by decide), List.getLast?_append, List.getLast?_cons]
    cases r.interior.getLast? <;> simp
  rw [whole]
  refine bindOk.mpr ⟨_, stepBackExact.mpr rfl, bindOk.mpr ⟨b, place ▸ read, ?_⟩⟩
  by_cases ending : r.interior.getLast? = some '\\'
  · rw [if_pos (last.mpr ending), stepBackExact]
    simp only [Region.span, r.keptSize, if_pos ending]
    omega
  · rw [if_neg (mt last.mp ending), stepBackExact]
    simp only [Region.span, r.keptSize, if_neg ending]
    omega

theorem sliceInside {s tail : Text} (found : Region.find? u = some r)
    (split : r.interior = s ++ tail) :
    (x ++ u).slice ((r.span x).start + 1) (x.size + r.lead.size + 1 + s.size) = .ok s := by
  refine Text.sliceExact.mpr ⟨x ++ r.lead ++ ['['], tail ++ ']' :: r.rest, ?_, ?_, ?_⟩
  · rw [(Region.findExact.mp found).whole, split]
    simp
  · simp only [Text.sizeAppend, Text.sizeCons, Text.sizeNil, openSize, Region.span]
  · simp only [Text.sizeAppend, Text.sizeCons, Text.sizeNil, openSize]

theorem regionExact (fresh : x.getLast? ≠ some '\\') (found : Region.find? u = some r) :
    region (x ++ u) (r.span x) = .ok (Text.size (x ++ r.before), r.segment) := by
  refine bindOk.mpr ⟨_, escapedExact fresh found, ?_⟩
  by_cases escaped : r.isEscaped
  · have segment : r.segment = .escaped r.kept := if_pos escaped
    have start : Text.size (x ++ r.before) + 1 = (r.span x).start := by
      simp only [Text.sizeAppend, Region.span, r.leadSize, if_pos escaped]
      omega
    rw [if_pos escaped, segment]
    refine bindOk.mpr ⟨_, closeExact found, ?_⟩
    refine bindOk.mpr ⟨_, sliceInside found r.keptSplit, ?_⟩
    exact bindOk.mpr ⟨_, stepBackExact.mpr start, rfl⟩
  · have segment : r.segment = .live r.interior := if_neg escaped
    have start : Text.size (x ++ r.before) = (r.span x).start := by
      simp only [Text.sizeAppend, Region.span, r.leadSize, if_neg escaped, Nat.add_zero]
    have stop : x.size + r.lead.size + 1 + r.interior.size + 1 = (r.span x).stop := by
      simp only [Region.span]
      omega
    rw [if_neg escaped, segment, start]
    refine bindOk.mpr ⟨_, stepBackExact.mpr stop, ?_⟩
    exact bindOk.mpr ⟨_, sliceInside found (List.append_nil _).symm, rfl⟩

end Span

namespace Scan

/-- A scan of a text stands where a cursor does, with `x` handed out or pending before it. -/
structure Shadows (t x : Text) (s : Scan) (c : Cursor) : Prop where
  text : s.text = t
  whole : t = x ++ c.ahead
  place : s.pos = x.size
  pending : s.pending? = c.pending?
  fresh : x = [] ∨ c.ahead = [] ∨ x.getLast? = some ']'

def Progress (s s' : Scan) : Prop :=
  (s.pending? ≠ none ∧ s'.pending? = none ∧ s'.pos = s.pos) ∨ s.pos < s'.pos

variable {t x u : Text} {s : Scan} {c : Cursor}

theorem Shadows.source (shadows : Shadows t x s c) : s.text = x ++ c.ahead :=
  shadows.text.trans shadows.whole

theorem nextEnd (shadows : Shadows t x s ⟨[], none⟩) : s.next = .ok (none, s) := by
  have done : s.text.size ≤ s.pos := by
    rw [shadows.source, shadows.place, List.append_nil]
  rw [next, shadows.pending]
  exact if_pos done

theorem nextPending {segment : Segment} (shadows : Shadows t x s ⟨u, some segment⟩) :
    s.next = .ok (some segment, { s with pending? := none }) ∧
      Shadows t x { s with pending? := none } ⟨u, none⟩ := by
  refine ⟨?_, ⟨shadows.text, shadows.whole, shadows.place, rfl, shadows.fresh⟩⟩
  rw [next, shadows.pending]

theorem nextSearch (shadows : Shadows t x s ⟨u, none⟩) (filled : u ≠ []) :
    s.pos < s.text.size ∧ s.next = s.search := by
  have inside : s.pos < s.text.size := by
    have positive := Text.sizePositive filled
    rw [shadows.source, shadows.place]
    simp only [Text.sizeAppend]
    omega
  refine ⟨inside, ?_⟩
  rw [next, shadows.pending]
  exact if_neg (Nat.not_le.mpr inside)

theorem searchSpan (shadows : Shadows t x s ⟨u, none⟩) :
    Span.find s.text s.pos = .ok ((Region.find? u).map fun r => r.span x) := by
  rw [shadows.source, shadows.place]
  exact Span.findExact x u

theorem nextLast (shadows : Shadows t x s ⟨u, none⟩) (filled : u ≠ [])
    (plain : Region.find? u = none) :
    s.next = .ok (some (.text u), { s with pos := s.text.size }) ∧
      Shadows t t { s with pos := s.text.size } ⟨[], none⟩ := by
  have found := searchSpan shadows
  rw [plain] at found
  have slice : s.text.slice s.pos s.text.size = .ok u := by
    refine Text.sliceExact.mpr ⟨x, [], ?_, shadows.place.symm, ?_⟩
    · rw [List.append_nil]
      exact shadows.source
    · rw [shadows.source]
  have place : s.text.size = t.size := by rw [shadows.text]
  refine ⟨?_, ⟨shadows.text, (List.append_nil t).symm, place, shadows.pending, .inr (.inl rfl)⟩⟩
  rw [(nextSearch shadows filled).2]
  exact bindOk.mpr ⟨_, found, bindOk.mpr ⟨_, slice, rfl⟩⟩

theorem unescaped (shadows : Shadows t x s c) (filled : c.ahead ≠ []) :
    x.getLast? ≠ some '\\' := by
  rcases shadows.fresh with rfl | done | bracket
  · simp
  · exact absurd done filled
  · simp [bracket]

theorem nextFound {r : Region} (shadows : Shadows t x s ⟨u, none⟩)
    (found : Region.find? u = some r) :
    s.next = .ok (if r.before = [] then (some r.segment, { s with pos := (r.span x).stop })
      else (some (.text r.before),
        { s with pos := (r.span x).stop, pending? := some r.segment })) := by
  have filled := Region.findFilled found
  have span := searchSpan shadows
  have region := Span.regionExact (unescaped shadows filled) found
  rw [← shadows.source] at region
  rw [found] at span
  have slice : s.text.slice s.pos (Text.size (x ++ r.before)) = .ok r.before := by
    refine Text.sliceExact.mpr
      ⟨x, r.mark ++ '[' :: (r.interior ++ ']' :: r.rest), ?_, shadows.place.symm, rfl⟩
    rw [shadows.source, (Region.findExact.mp found).whole, ← List.append_assoc r.before,
      ← r.leadSplit]
  rw [(nextSearch shadows filled).2]
  refine bindOk.mpr ⟨_, span, bindOk.mpr ⟨_, region, bindOk.mpr ⟨_, slice, ?_⟩⟩⟩
  split <;> rfl

theorem shadowsBehind {r : Region} (shadows : Shadows t x s ⟨u, none⟩)
    (found : Region.find? u = some r) (pending? : Option Segment) :
    Shadows t (x ++ (r.lead ++ '[' :: (r.interior ++ [']'])))
      ⟨s.text, (r.span x).stop, pending?⟩ ⟨r.rest, pending?⟩ := by
  refine ⟨shadows.text, ?_, ?_, rfl, .inr (.inr ?_)⟩
  · rw [shadows.whole, (Region.findExact.mp found).whole]
    simp
  · simp only [Region.span, Text.sizeAppend, Text.sizeCons, Text.sizeNil, openSize, closeSize]
    omega
  · simp [List.getLast?_cons]

theorem nextShadows (shadows : Shadows t x s c) : match c.next? with
    | none => s.next = .ok (none, s)
    | some (segment, d) =>
      ∃ y s', s.next = .ok (some segment, s') ∧ Shadows t y s' d ∧ Progress s s' := by
  obtain ⟨u, pending?⟩ := c
  cases pending? with
  | some segment =>
    -- Handing out what is pending leaves the scan where it is; every other call moves it on.
    obtain ⟨call, after⟩ := nextPending shadows
    exact ⟨x, _, call, after, .inl ⟨by simp [shadows.pending], rfl, rfl⟩⟩
  | none =>
    by_cases filled : u = []
    · subst filled
      exact nextEnd shadows
    obtain ⟨inside, _⟩ := nextSearch shadows filled
    cases found : Region.find? u with
    | none =>
      obtain ⟨call, after⟩ := nextLast shadows filled found
      simp only [Cursor.next?, if_neg filled, found]
      exact ⟨_, _, call, after, .inr inside⟩
    | some r =>
      have call := nextFound shadows found
      have further : s.pos < (r.span x).stop := by
        rw [shadows.place]
        simp only [Region.span]
        omega
      simp only [Cursor.next?, if_neg filled, found]
      by_cases empty : r.before = []
      · rw [if_pos empty] at call ⊢
        have after := shadowsBehind shadows found none
        have pending : s.pending? = none := shadows.pending
        exact ⟨_, _, call, by simpa only [pending] using after, .inr further⟩
      · rw [if_neg empty] at call ⊢
        exact ⟨_, _, call, shadowsBehind shadows found (some r.segment), .inr further⟩

theorem shadowsStart (t : Text) : Shadows t [] (start t) (Cursor.start t) :=
  ⟨rfl, rfl, rfl, rfl, .inl rfl⟩

theorem reachedShadows (reached : Reached t s) : ∃ x c, Shadows t x s c := by
  induction reached with
  | start => exact ⟨[], _, shadowsStart t⟩
  | next reached call ih =>
    obtain ⟨x, c, shadows⟩ := ih
    have step := nextShadows shadows
    split at step
    · cases step.symm.trans call
      exact ⟨x, c, shadows⟩
    · next d _ =>
      obtain ⟨y, after, exact, later, _⟩ := step
      cases exact.symm.trans call
      exact ⟨y, d, later⟩

theorem handedExact (shadows : Shadows t x s c) (n : Nat) :
    s.handed n = .ok ((List.range n).map fun k => c.toList[k]?) := by
  induction n generalizing x s c with
  | zero => rfl
  | succ n ih =>
    have step := nextShadows shadows
    rw [List.range_succ_eq_map, List.map_cons, List.map_map]
    cases found : c.next? with
    | none =>
      have done : c.toList = [] := by rw [Cursor.toListNext, found]
      simp only [found] at step
      refine bindOk.mpr ⟨_, step, bindOk.mpr ⟨_, ih shadows, ?_⟩⟩
      rw [done]
      rfl
    | some result =>
      obtain ⟨segment, d⟩ := result
      have more : c.toList = segment :: d.toList := by rw [Cursor.toListNext, found]
      simp only [found] at step
      obtain ⟨y, s', call, after, _⟩ := step
      refine bindOk.mpr ⟨_, call, bindOk.mpr ⟨_, ih after, ?_⟩⟩
      rw [more]
      rfl

theorem handedNone (call : s.next = .ok (none, s)) (n : Nat) :
    s.handed n = .ok (List.replicate n none) := by
  induction n with
  | zero => rfl
  | succ n ih => exact bindOk.mpr ⟨_, call, bindOk.mpr ⟨_, ih, rfl⟩⟩

theorem placeInside (shadows : Shadows t x s c) : s.pos ≤ t.size ∧ t.Boundary s.pos := by
  rw [shadows.place]
  refine ⟨?_, x, c.ahead, shadows.whole, rfl⟩
  rw [shadows.whole, Text.sizeAppend]
  exact Nat.le_add_right _ _

theorem bracketBehind (shadows : Shadows t x s c) (started : s.pos ≠ 0) (unended : s.pos ≠ t.size) :
    byteAt t.utf8 (s.pos - 1) = .ok ']'.toUInt8 := by
  rw [shadows.place] at started unended ⊢
  have filled : x ≠ [] := by
    rintro rfl
    exact started rfl
  have ahead : c.ahead ≠ [] := by
    intro done
    rw [shadows.whole, done, List.append_nil] at unended
    exact unended rfl
  have last := (shadows.fresh.resolve_left filled).resolve_left ahead
  obtain ⟨b, read, exact⟩ := Text.byteBefore filled c.ahead
  rw [shadows.whole, read, (exact ']' (by decide)).mpr last]

theorem regionInside {span : Span} (shadows : Shadows t x s c)
    (found : Span.find t s.pos = .ok (some span)) :
    (s.pos ≤ span.start ∧ span.start + 1 < span.stop ∧ span.stop ≤ t.size) ∧
    (span.isEscaped t = .ok true → s.pos + 1 ≤ span.start ∧
      ∃ close, span.close t = .ok close ∧ span.start + 1 ≤ close ∧ close < span.stop) := by
  rw [shadows.place, shadows.whole, Span.findExact, Except.ok.injEq] at found
  obtain ⟨r, region, rfl⟩ := Option.map_eq_some_iff.mp found
  have size := congrArg Text.size (Region.findExact.mp region).whole
  have lead := r.leadSize
  have interior := r.keptSize
  simp only [Text.sizeAppend, Text.sizeCons, openSize, closeSize] at size
  rw [shadows.place, shadows.whole, Text.sizeAppend,
    Span.escapedExact (unescaped shadows (Region.findFilled region)) region,
    Span.closeExact region, Except.ok.injEq]
  refine ⟨by simp only [Region.span]; omega, ?_⟩
  intro escaped
  rw [if_pos escaped] at lead
  refine ⟨?_, _, rfl, ?_⟩ <;> simp only [Region.span] <;> omega

end Scan

theorem scanWithoutBreach (t : Text) :
    (∀ s, Scan.Reached t s →
      (s.text = t ∧ s.pos ≤ t.size ∧ t.Boundary s.pos ∧
        (s.pos ≠ 0 → s.pos ≠ t.size → byteAt t.utf8 (s.pos - 1) = .ok ']'.toUInt8)) ∧
      (∀ span, Span.find t s.pos = .ok (some span) →
        (s.pos ≤ span.start ∧ span.start + 1 < span.stop ∧ span.stop ≤ t.size) ∧
        (span.isEscaped t = .ok true → s.pos + 1 ≤ span.start ∧
          ∃ close, span.close t = .ok close ∧ span.start + 1 ≤ close ∧ close < span.stop)) ∧
      ∃ segment? s', s.next = .ok (segment?, s') ∧
        (Scan.Progress s s' ∨
          segment? = none ∧ ∀ n, s.handed n = .ok (List.replicate n none))) ∧
    ∀ n, (Scan.start t).handed n = .ok ((List.range n).map fun k => t.segments[k]?) := by
  refine ⟨?_, fun n => Scan.handedExact (Scan.shadowsStart t) n⟩
  intro s reached
  obtain ⟨x, c, shadows⟩ := Scan.reachedShadows reached
  obtain ⟨inside, boundary⟩ := Scan.placeInside shadows
  refine ⟨⟨shadows.text, inside, boundary, Scan.bracketBehind shadows⟩,
    fun span found => Scan.regionInside shadows found, ?_⟩
  have step := Scan.nextShadows shadows
  split at step
  · exact ⟨none, s, step, .inr ⟨rfl, Scan.handedNone step⟩⟩
  · obtain ⟨y, s', call, _, progress⟩ := step
    exact ⟨_, s', call, .inl progress⟩

theorem scanWithoutBreachEscaped :
    Scan.Reached "é\\[1\\]ü\\[2]".toList ⟨"é\\[1\\]ü\\[2]".toList, 7, none⟩ ∧
    byteAt (Text.utf8 "é\\[1\\]ü\\[2]".toList) 6 = .ok ']'.toUInt8 ∧
    Span.find "é\\[1\\]ü\\[2]".toList 7 = .ok (some ⟨10, 13⟩) ∧
    Span.isEscaped "é\\[1\\]ü\\[2]".toList ⟨10, 13⟩ = .ok true ∧
    ∃ close, Span.close "é\\[1\\]ü\\[2]".toList ⟨10, 13⟩ = .ok close ∧ 11 ≤ close ∧ close < 13 := by
  have first : Region.find? "é\\[1\\]ü\\[2]".toList =
      some ⟨['é', '\\'], ['1', '\\'], "ü\\[2]".toList⟩ := rfl
  have reached : Scan.Reached "é\\[1\\]ü\\[2]".toList ⟨"é\\[1\\]ü\\[2]".toList, 7, none⟩ :=
    .next (.next .start (Scan.nextFound (Scan.shadowsStart _) first)) rfl
  have second : Span.find "é\\[1\\]ü\\[2]".toList 7 = .ok (some ⟨10, 13⟩) :=
    Span.findExact "é\\[1\\]".toList "ü\\[2]".toList
  have escaped : Span.isEscaped "é\\[1\\]ü\\[2]".toList ⟨10, 13⟩ = .ok true := by decide
  obtain ⟨⟨_, _, _, bracket⟩, regions, _⟩ := (scanWithoutBreach _).1 _ reached
  obtain ⟨_, inside⟩ := regions _ second
  exact ⟨reached, bracket (by decide) (by decide), second, escaped, (inside escaped).2⟩

end Dice
