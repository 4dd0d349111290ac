namespace SegmentQuery.Text

/-- The characters of a text with the letters `a` to `z` in upper case. -/
def upper (s : String) : List Char := s.toList.map Char.toUpper

/-- Two texts that differ at most in the case of ASCII letters. -/
def sameLetters (a b : String) : Bool := upper a == upper b

theorem sameLetters_iff {a b : String} : sameLetters a b = true ↔ upper a = upper b := by
  simp [sameLetters]

/-- The ranges of blank characters, by code point. -/
def blankRanges : List (Nat × Nat) :=
  [(0x09, 0x0d), (0x20, 0x20), (0x85, 0x85), (0xa0, 0xa0), (0x1680, 0x1680), (0x2000, 0x200a),
    (0x2028, 0x2029), (0x202f, 0x202f), (0x205f, 0x205f), (0x3000, 0x3000)]

/-- A character with the Unicode property `White_Space`: there are 25 of them. -/
def isBlank (c : Char) : Bool := blankRanges.any fun (low, high) => low ≤ c.toNat && c.toNat ≤ high

/-- The zeros of the decimal digit runs, by code point. -/
def decimalZeros : List Nat :=
  [0x30, 0x660, 0x6f0, 0x7c0, 0x966, 0x9e6, 0xa66, 0xae6, 0xb66, 0xbe6, 0xc66, 0xce6, 0xd66, 0xde6, 0xe50,
    0xed0, 0xf20, 0x1040, 0x1090, 0x17e0, 0x1810, 0x1946, 0x19d0, 0x1a80, 0x1a90, 0x1b50, 0x1bb0, 0x1c40,
    0x1c50, 0xa620, 0xa8d0, 0xa900, 0xa9d0, 0xa9f0, 0xaa50, 0xabf0, 0xff10, 0x104a0, 0x10d30, 0x10d40,
    0x11066, 0x110f0, 0x11136, 0x111d0, 0x112f0, 0x11450, 0x114d0, 0x11650, 0x116c0, 0x116d0, 0x116da,
    0x11730, 0x118e0, 0x11950, 0x11bf0, 0x11c50, 0x11d50, 0x11da0, 0x11f50, 0x16130, 0x16a60, 0x16ac0,
    0x16b50, 0x16d70, 0x1ccf0, 0x1d7ce, 0x1d7d8, 0x1d7e2, 0x1d7ec, 0x1d7f6, 0x1e140, 0x1e2f0, 0x1e4f0, 0x1e5f1, 0x1e950,
    0x1fbf0]

/-- A character of the Unicode category `Nd`. These come in runs of ten, from a zero to a nine. -/
def isDecimalDigit (c : Char) : Bool := decimalZeros.any fun first => first ≤ c.toNat && c.toNat < first + 10

/-- The ASCII digits are decimal digits. -/
theorem isDecimalDigit_of_isDigit {c : Char} (h : c.isDigit = true) : isDecimalDigit c = true := by
  have hlow : 48 ≤ c.toNat ∧ c.toNat ≤ 57 := by
    simp only [Char.isDigit, Bool.and_eq_true, decide_eq_true_eq] at h
    exact ⟨UInt32.le_iff_toNat_le.mp h.1, UInt32.le_iff_toNat_le.mp h.2⟩
  simp only [isDecimalDigit, decimalZeros, List.any_cons, Bool.or_eq_true, Bool.and_eq_true, decide_eq_true_eq]
  exact Or.inl ⟨hlow.1, by omega⟩

namespace Quoted

/-- Writes every quote of the text twice. -/
def double : List Char → List Char
  | [] => []
  | c :: rest => if c = '\'' then '\'' :: '\'' :: double rest else c :: double rest

/-- The text between quotes, as it is written. -/
def encode (s : String) : List Char := '\'' :: double s.toList ++ ['\'']

/-- The quoted text as a string. -/
def quote (s : String) : String := String.ofList (encode s)

/-- Reads a quoted text after its opening quote: the text, and what follows its closing quote. A text that is not closed
runs to the end of what is read. -/
def read : List Char → List Char × List Char
  | [] => ([], [])
  | '\'' :: '\'' :: rest => ('\'' :: (read rest).1, (read rest).2)
  | '\'' :: rest => ([], rest)
  | c :: rest => (c :: (read rest).1, (read rest).2)

theorem length_read_le (cs : List Char) : (read cs).2.length ≤ cs.length := by
  fun_induction read cs <;> simp_all <;> omega

/-- A written text reads back, whatever follows it, as long as that is no further quote. -/
theorem read_double_append (s rest : List Char) (hrest : rest.head? ≠ some '\'') :
    read (double s ++ '\'' :: rest) = (s, rest) := by
  induction s with
  | nil =>
    cases rest with
    | nil => simp [double, read]
    | cons c rest =>
      have hc : c ≠ '\'' := by simpa using hrest
      simp only [double, List.nil_append]
      rw [read.eq_3]
      intro tail htail
      simp_all
  | cons c s ih =>
    by_cases hc : c = '\''
    · simp [double, hc, read, ih]
    · simp only [double, hc, if_false, List.cons_append]
      rw [read.eq_4 _ _ (by simp_all) (by simp_all), ih]

end Quoted

end SegmentQuery.Text
