import Dice.CommandLine.Report

/-! Streams that are texts. A newline or a carriage return is one byte in UTF-8, and that byte
stands in the bytes of no other character, so the lines of the bytes are the bytes of the lines
and each of them is a text on its own. -/
namespace Dice

theorem bySeparated {α : Type} [DecidableEq α] (c : α) {motive : List α → Prop}
    (last : ∀ l : List α, c ∉ l → motive l)
    (line : ∀ l rest : List α, c ∉ l → motive rest → motive (l ++ c :: rest)) (t : List α) :
    motive t := by
  induction size : t.length using Nat.strongRecOn generalizing t with
  | ind n ih =>
    by_cases among : c ∈ t
    · obtain ⟨l, rest, rfl, inner⟩ := List.eq_append_cons_of_mem among
      refine line l rest inner (ih rest.length ?_ rest rfl)
      rw [← size, List.length_append, List.length_cons]
      omega
    · exact last t among

def Text.utf8 (t : Text) : List UInt8 := t.flatMap String.utf8EncodeChar

theorem utf8Append (s t : Text) : Text.utf8 (s ++ t) = s.utf8 ++ t.utf8 := List.flatMap_append

theorem ofUtf8Exact {bytes : List UInt8} {t : Text} :
    Text.ofUtf8? bytes = some t ↔ bytes = t.utf8 := by
  constructor
  · intro decoded
    obtain ⟨characters, found, rfl⟩ := Option.map_eq_some_iff.mp decoded
    have back := ByteArray.utf8Encode_get_utf8Decode? (h := Option.isSome_of_eq_some found)
    simp only [found, Option.get_some] at back
    have bytes := congrArg (fun b => b.data.toList) back
    simpa [List.utf8Encode, Text.utf8] using bytes.symm
  · intro same
    subst same
    have decoded : t.utf8.toByteArray.utf8Decode? = some t.toArray := List.utf8Decode?_utf8Encode
    rw [Text.ofUtf8?, decoded]
    rfl

theorem utf8Newline (t : Text) : Text.utf8 ('\n' :: t) = ByteLine.newline :: t.utf8 := rfl

theorem utf8Filled {t : Text} (filled : t ≠ []) : t.utf8 ≠ [] := by
  cases t with
  | nil => contradiction
  | cons c t => simp [Text.utf8]

theorem asciiSize {c : Char} (ascii : c.toNat < 128) : c.utf8Size = 1 := by
  rw [Char.utf8Size_eq_one_iff, UInt32.le_iff_toNat_le]
  change c.toNat ≤ 127
  omega

theorem plainByte {c : Char} {b : UInt8} (plain : b.toNat < 128)
    (among : b ∈ String.utf8EncodeChar c) : c.toNat = b.toNat := by
  have byte (n : Nat) : (UInt8.ofNat n).toNat = n % 256 := UInt8.toNat_ofNat'
  change c.val.toNat = b.toNat
  simp only [String.utf8EncodeChar] at among
  split at among
  · rw [List.mem_singleton.mp among, byte]
    omega
  · split at among
    · simp only [List.mem_cons, List.not_mem_nil, or_false] at among
      rcases among with rfl | rfl <;> rw [byte] at plain <;> omega
    · split at among
      · simp only [List.mem_cons, List.not_mem_nil, or_false] at among
        rcases among with rfl | rfl | rfl <;> rw [byte] at plain <;> omega
      · simp only [List.mem_cons, List.not_mem_nil, or_false] at among
        rcases among with rfl | rfl | rfl | rfl <;> rw [byte] at plain <;> omega

theorem newlineOf {c : Char} (among : ByteLine.newline ∈ String.utf8EncodeChar c) : c = '\n' :=
  Char.toNat_inj.mp (plainByte (by decide) among)

theorem returnOf {c : Char} (among : ByteLine.carriageReturn ∈ String.utf8EncodeChar c) :
    c = '\r' := Char.toNat_inj.mp (plainByte (by decide) among)

theorem newlineAbsent {t : Text} (inner : '\n' ∉ t) : ByteLine.newline ∉ t.utf8 := by
  intro among
  obtain ⟨c, member, byte⟩ := List.mem_flatMap.mp among
  exact inner (newlineOf byte ▸ member)

def Text.withoutReturn (l : Text) : Text := if l.getLast? = some '\r' then l.dropLast else l

namespace ByteLine

theorem ofBytesEnded {bytes : List UInt8} (inner : newline ∉ bytes) (rest : List UInt8) :
    ofBytes (bytes ++ newline :: rest) = ⟨bytes, true⟩ :: ofBytes rest := by
  induction bytes with
  | nil => rfl
  | cons b bytes ih =>
    obtain ⟨other, later⟩ := not_or.mp (mt List.mem_cons.mpr inner)
    change attach b (ofBytes (bytes ++ newline :: rest)) = _
    simp only [ih later, attach, if_neg (Ne.symm other)]

theorem ofBytesOpen {bytes : List UInt8} (inner : newline ∉ bytes) (filled : bytes ≠ []) :
    ofBytes bytes = [⟨bytes, false⟩] := by
  induction bytes with
  | nil => contradiction
  | cons b bytes ih =>
    obtain ⟨other, later⟩ := not_or.mp (mt List.mem_cons.mpr inner)
    change attach b (ofBytes bytes) = _
    cases bytes with
    | nil => simp [ofBytes, attach, Ne.symm other]
    | cons d bytes => simp only [ih later (by simp), attach, if_neg (Ne.symm other)]

theorem contentEnded (l : Text) : content ⟨l.utf8, true⟩ = l.withoutReturn.utf8 := by
  rcases List.eq_nil_or_concat l with rfl | ⟨front, c, rfl⟩
  · rfl
  rw [List.concat_eq_append, utf8Append]
  by_cases carriage : c = '\r'
  · subst carriage
    have byte : Text.utf8 ['\r'] = [carriageReturn] := rfl
    simp [content, Text.withoutReturn, byte]
  · have filled : String.utf8EncodeChar c ≠ [] := String.utf8EncodeChar_ne_nil
    have final := List.getLast?_eq_some_getLast filled
    have byte : Text.utf8 [c] = String.utf8EncodeChar c := List.flatMap_singleton _ _
    have other : (String.utf8EncodeChar c).getLast filled ≠ carriageReturn := by
      intro same
      exact carriage (returnOf (same ▸ List.getLast_mem filled))
    simp [content, Text.withoutReturn, byte, final, other, carriage, utf8Append]

theorem textEnded (l : Text) : text ⟨l.utf8, true⟩ = .ok l.withoutReturn := by
  rw [text, contentEnded, ofUtf8Exact.mpr rfl]

theorem textOpen (l : Text) : text ⟨l.utf8, false⟩ = .ok l := by
  have whole : content ⟨l.utf8, false⟩ = l.utf8 := rfl
  rw [text, whole, ofUtf8Exact.mpr rfl]

end ByteLine

end Dice
