import Dice.Face.Source
import Dice.Proofs.Checked

/-! The dice of a handful are dealt one by one and each takes only what it needs. They may as well
be rolled in two lots, the second one from the source that the first has left; also where a source
runs dry within either lot, for it stays dry. -/
namespace Dice

namespace Handful

variable {ρ : Type} [FaceSource ρ]

theorem collectPushed (done : List UInt32) (limit : Nat) (h : Handful) :
    collect done limit h = ((done.reverse ++ ·) <$> collect [] limit h : Rolling ρ _) := by
  induction limit generalizing done h with
  | zero => simp [collect]
  | succ limit ih =>
    rw [collect, collect, map_bind]
    refine bind_congr fun dealt? => ?_
    cases dealt? with
    | none => simp
    | some dealt =>
      simp only []
      rw [ih (dealt.1 :: done), ih [dealt.1]]
      simp

theorem takeNone (limit : Nat) (s : Sides) : take limit ⟨0, s⟩ = (pure [] : Rolling ρ _) := by
  cases limit <;> rfl

theorem takeStep (limit left : Nat) (s : Sides) (source : ρ) :
    take (limit + 1) ⟨left + 1, s⟩ source =
      match FaceSource.deal? s source with
      | .ok (some (face, middle)) =>
        ((face :: ·) <$> take limit ⟨left, s⟩ : Rolling ρ (List UInt32)) middle
      | .ok none => .ok ([], source)
      | .error fault => .error fault := by
  rw [take, collect]
  change next? ⟨left + 1, s⟩ source >>= _ = _
  unfold next?
  cases FaceSource.deal? s source with
  | error fault => rfl
  | ok dealt? =>
    cases dealt? with
    | none => rfl
    | some dealt =>
      change collect [dealt.1] limit ⟨left, s⟩ dealt.2 = _
      rw [collectPushed]
      rfl

theorem rollDealt {n : Nat} {s : Sides} {source middle last : ρ} {face : UInt32}
    {faces : List UInt32} (dealt : FaceSource.deal? s source = .ok (some (face, middle)))
    (rest : roll ⟨n, s⟩ middle = .ok (faces, last)) :
    roll ⟨n + 1, s⟩ source = .ok (face :: faces, last) := by
  change take (n + 1) ⟨n + 1, s⟩ source = _
  rw [takeStep, dealt]
  change ((face :: ·) <$> roll ⟨n, s⟩ : Rolling ρ (List UInt32)) middle = _
  rw [map_eq_pure_bind, stateBindOk]
  exact ⟨faces, last, rest, rfl⟩

theorem takeDry {s : Sides} {source : ρ} (dry : FaceSource.deal? s source = .ok none)
    (limit left : Nat) : take limit ⟨left, s⟩ source = .ok ([], source) := by
  cases limit with
  | zero => rfl
  | succ limit =>
    cases left with
    | zero => rfl
    | succ left => rw [takeStep, dry]

theorem takeLeast (limit left : Nat) (s : Sides) :
    take limit ⟨left, s⟩ = (roll ⟨min limit left, s⟩ : Rolling ρ _) := by
  funext source
  induction limit generalizing left source with
  | zero => rw [Nat.zero_min]; rfl
  | succ limit ih =>
    cases left with
    | zero => rfl
    | succ left =>
      rw [Nat.succ_min_succ, roll, takeStep, takeStep, funext (ih left)]
      rfl

theorem rollSplit (n m : Nat) (s : Sides) :
    roll ⟨n + m, s⟩ = (do return (← roll ⟨n, s⟩) ++ (← roll ⟨m, s⟩) : Rolling ρ _) := by
  induction n with
  | zero => simp [roll, takeNone]
  | succ n ih =>
    funext source
    rw [Nat.succ_add]
    change take (n + m + 1) ⟨n + m + 1, s⟩ source =
      take (n + 1) ⟨n + 1, s⟩ source >>= fun p => (do return p.1 ++ (← roll ⟨m, s⟩)) p.2
    rw [takeStep, takeStep]
    cases dealt? : FaceSource.deal? s source with
    | error fault => rfl
    | ok dealt =>
      cases dealt with
      | none =>
        have later : roll ⟨m, s⟩ source = .ok ([], source) := takeDry dealt? m m
        exact (stateBindOk.mpr ⟨[], source, later, rfl⟩).symm
      | some dealt =>
        have behind : (dealt.1 :: ·) <$> roll ⟨n + m, s⟩ = (do
            let first ← (dealt.1 :: ·) <$> roll ⟨n, s⟩
            return first ++ (← roll ⟨m, s⟩) : Rolling ρ _) := by
          rw [ih]
          simp
        exact congrFun behind dealt.2

end Handful

end Dice
