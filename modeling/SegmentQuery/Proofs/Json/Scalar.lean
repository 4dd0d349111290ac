import SegmentQuery.Proofs.Json.Spelling
import SegmentQuery.Proofs.Token.Lexable

namespace SegmentQuery.Json

namespace Quoted

/-- An escape is read as the character that it stands for. -/
theorem read_backslash {care : Care} {cs rest : List Char} {c : Char} (h : escape care cs = .ok (c, rest)) :
    read care ('\\' :: cs) = (read care rest).withValue (c :: ·) := by
  rw [read, if_neg (by decide), if_pos rfl]
  split
  · next e he =>
    rw [h] at he
    cases he
  · next heq =>
    rw [h] at heq
    cases heq
    rfl

theorem codeUnit_append {digits : List Char} {n : Nat} (h : IsCodeUnit digits n) (rest : List Char) :
    codeUnit (digits ++ rest) = .ok (n, rest) := by
  obtain ⟨ha, hb, hc, hd⟩ := h
  simp only [List.cons_append, List.nil_append, codeUnit, ha, hb, hc, hd]

/-- Two surrogates that belong together are read as one character. -/
theorem partner_append {digits : List Char} {m n : Nat} (h : IsCodeUnit digits n) (hn : isTrailing n = true)
    (rest : List Char) : partner m ('\\' :: 'u' :: (digits ++ rest)) = .ok (paired m n, rest) := by
  simp [partner, sign, Read.andThen, codeUnit_append h, hn]

/-- The characters of a string are read to its closing quotation mark. -/
theorem read_of_spells {care : Care} {s cs : List Char} (h : Spells care s cs) (rest : List Char) :
    read care (cs ++ '"' :: rest) = .ok (s, rest) := by
  induction h with
  | nil =>
    rw [List.nil_append, read]
    rfl
  | plain hquote hbackslash hcontrol _ ih =>
    rw [List.cons_append, read, if_neg hquote, if_neg hbackslash, if_neg (Nat.not_lt.mpr hcontrol), ih]
    rfl
  | @letter l c s cs hl _ ih =>
    have hescape : escape care (l :: (cs ++ '"' :: rest)) = .ok (c, cs ++ '"' :: rest) := by
      have hu : l ≠ 'u' := by
        rintro rfl
        cases hl
      simp [escape, hu, hl]
    rw [List.cons_append, List.cons_append, read_backslash hescape, ih]
    rfl
  | @unit n digits s cs hdigits hn _ ih =>
    have hescape : escape care ('u' :: (digits ++ (cs ++ '"' :: rest))) = .ok (Char.ofNat n, cs ++ '"' :: rest) := by
      have hleading : ¬(care = .kept ∧ isLeading n = true) := fun h => by simp [hn h.1] at h
      have htrailing : ¬(care = .kept ∧ isTrailing n = true) := fun h => by simp [hn h.1] at h
      simp only [escape, if_true, numbered, codeUnit_append hdigits, Read.andThen, if_neg hleading, if_neg htrailing]
    rw [List.cons_append, List.cons_append, List.append_assoc, read_backslash hescape, ih]
    rfl
  | @pair m n first second s cs hcare hfirst hm hsecond hn _ ih =>
    have hescape : escape care ('u' :: (first ++ '\\' :: 'u' :: (second ++ (cs ++ '"' :: rest)))) =
        .ok (paired m n, cs ++ '"' :: rest) := by
      simp only [escape, if_true, numbered, codeUnit_append hfirst, Read.andThen, if_pos (And.intro hcare hm),
        partner_append hsecond hn]
    rw [List.cons_append, List.cons_append, List.append_assoc, List.cons_append, List.cons_append, List.append_assoc,
      read_backslash hescape, ih]
    rfl

end Quoted

/-- A rest of a text that does not go on with a number. -/
def Ends (rest : List Char) : Prop := ∀ c ∈ rest.head?, c.isDigit = false ∧ c ≠ '.' ∧ c ≠ 'e' ∧ c ≠ 'E'

/-- No number goes on with one of some other characters. -/
theorem ends_of_mem {rest : List Char} (others : List Char)
    (hothers : others.all (fun c => !c.isDigit && !(['.', 'e', 'E'].contains c)) = true)
    (h : ∀ c ∈ rest.head?, c ∈ others) : Ends rest := by
  intro c hc
  simpa using List.all_eq_true.mp hothers c (h c hc)

end SegmentQuery.Json

namespace SegmentQuery.Numeral

open Json

/-- Only zero is written with a zero at its front. -/
theorem eq_zero_of_head?_toDigits {n : Nat} (h : (Nat.toDigits 10 n).head? = some '0') : n = 0 := by
  induction n using Nat.strongRecOn with
  | _ n ih =>
    rw [Nat.toDigits_eq_if (by decide)] at h
    by_cases hn : n < 10
    · rw [if_pos hn] at h
      have hdigit : ∀ m < 10, Nat.digitChar m = '0' → m = 0 := by decide
      exact hdigit n hn (Option.some.inj h)
    · rw [if_neg hn, List.head?_append, List.head?_eq_some_head Nat.toDigits_ne_nil, Option.some_or,
        ← List.head?_eq_some_head Nat.toDigits_ne_nil] at h
      have hzero := ih (n / 10) (by omega) h
      omega

/-- No number is written with a zero before its other digits. -/
theorem toDigits_ne_zero_cons (n : Nat) (d : Char) (ds : List Char) : Nat.toDigits 10 n ≠ '0' :: d :: ds := by
  intro hdigits
  have hzero : n = 0 := eq_zero_of_head?_toDigits (by rw [hdigits, List.head?_cons])
  rw [hzero, Nat.toDigits_zero] at hdigits
  cases hdigits

/-- The digits of a whole number are taken up to its end. -/
theorem wholeDigits_toDigits (care : Care) (n : Nat) {rest : List Char} (hrest : Ends rest) :
    wholeDigits care (Nat.toDigits 10 n ++ rest) = .ok (Nat.toDigits 10 n, rest) := by
  have hall : (Nat.toDigits 10 n).all Char.isDigit = true := List.all_eq_true.mpr fun c hc =>
    Nat.isDigit_of_mem_toDigits (by decide) (by decide) hc
  have hstop : ∀ c ∈ rest.head?, c.isDigit = false := fun c hc => (hrest c hc).1
  have hdigits : digits care (Nat.toDigits 10 n ++ rest) = .ok (Nat.toDigits 10 n, rest) := by
    rw [digits, Token.takeWhile_append hall hstop, Token.dropWhile_append hall hstop]
    obtain ⟨d, ds, hds⟩ := List.exists_cons_of_ne_nil (@Nat.toDigits_ne_nil n 10)
    rw [hds]
  rw [wholeDigits, hdigits, Read.andThen]
  split
  · next heq => exact absurd heq (toDigits_ne_zero_cons n _ _)
  · rfl

/-- A whole number is read as it has been written. -/
theorem read_toDigits (care : Care) (n : UInt64) {rest : List Char} (hrest : Ends rest) :
    read care (Nat.toDigits 10 n.toNat ++ rest) = .ok (.natural n, rest) := by
  have hfraction : fractionPart care rest = .ok (none, rest) := by
    unfold fractionPart
    split
    · exact absurd rfl (hrest '.' rfl).2.1
    · rfl
  have hexponent : exponentPart care rest = .ok (none, rest) := by
    cases rest with
    | nil => rfl
    | cons c rest =>
      obtain ⟨-, -, hlower, hupper⟩ := hrest c rfl
      simp [exponentPart, hlower, hupper]
  have hunsigned : readUnsigned care false (Nat.toDigits 10 n.toNat ++ rest) =
      .ok (⟨false, Nat.toDigits 10 n.toNat, none, none⟩, rest) := by
    simp [readUnsigned, wholeDigits_toDigits care _ hrest, Read.andThen, hfraction, hexponent, Read.withValue]
  have hsigned : readSigned care (Nat.toDigits 10 n.toNat ++ rest) =
      readUnsigned care false (Nat.toDigits 10 n.toNat ++ rest) := by
    obtain ⟨d, ds, hds⟩ := List.exists_cons_of_ne_nil (@Nat.toDigits_ne_nil n.toNat 10)
    have hdigit : d.isDigit = true :=
      Nat.isDigit_of_mem_toDigits (by decide) (by decide) (hds ▸ List.mem_cons_self : d ∈ Nat.toDigits 10 n.toNat)
    rw [hds, List.cons_append]
    unfold readSigned
    split
    · next heq =>
      cases heq
      exact absurd hdigit (by decide)
    · rfl
  have hnatural : natural? ⟨false, Nat.toDigits 10 n.toNat, none, none⟩ = some n := by
    simp [natural?, Nat.ofDigitChars_ten_toDigits, UInt64.toNat_lt_size]
  rw [read, hsigned, hunsigned]
  simp [Read.andThen, hnatural, ofNumeral]

end SegmentQuery.Numeral
