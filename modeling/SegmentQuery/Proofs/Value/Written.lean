import Mathlib.Data.List.TakeWhile
import SegmentQuery.Proofs.Token.Lexable
import SegmentQuery.Statement.Resolve

namespace SegmentQuery

namespace Integer

theorem all_isDigit_repr (n : Nat) : n.repr.toList.all Char.isDigit = true := by
  rw [Nat.toList_repr, List.all_eq_true]
  exact fun c hc => Nat.isDigit_of_mem_toDigits (by decide) (by decide) hc

theorem isUnsigned_repr (n : Nat) : Token.IsUnsigned n.repr.toList :=
  .whole (by simp [Nat.toList_repr, Nat.toDigits_ne_nil]) (all_isDigit_repr n)

theorem text_ne_empty (n : Int) : text n ≠ "" := by
  cases n with
  | ofNat n => exact Nat.repr_ne_empty
  | negSucc n => simp [text]

theorem isNumeral_text (n : Int) : Token.IsNumeral (text n).toList := by
  cases n with
  | ofNat n => exact .unsigned (isUnsigned_repr n)
  | negSucc n =>
    rw [text, String.toList_append]
    exact .negative (isUnsigned_repr (n + 1))

theorem isBlank_of_isDigit {c : Char} (h : c.isDigit = true) : Text.isBlank c = false := by
  rw [Bool.eq_false_iff]
  intro hblank
  have hnone := Token.lexeme?_of_isBlank hblank []
  rw [Token.lexeme?_of_isDigit h] at hnone
  cases hnone

theorem magnitude_repr (n : Nat) : magnitude n.repr.toList = min largest n := by
  have hall : n.repr.toList.takeWhile Char.isDigit = n.repr.toList := by
    rw [List.takeWhile_eq_self_iff]
    exact List.all_eq_true.mp (all_isDigit_repr n)
  rw [magnitude, hall, Nat.toList_repr, Nat.ofDigitChars_ten_toDigits]

/-- A number in decimal digits is read as that number, held at the largest one. -/
theorem ofText_repr (n : Nat) : ofText n.repr = (min largest n : Nat) := by
  obtain ⟨c, rest, hcs, hc⟩ := (isUnsigned_repr n).exists_cons
  have hsigned : ofSigned n.repr.toList = magnitude n.repr.toList := by
    rw [hcs, ofSigned]
    · rintro rest' ⟨⟩
      exact absurd hc (by decide)
    · rintro rest' ⟨⟩
      exact absurd hc (by decide)
  rw [ofText, hcs, List.dropWhile_cons_of_neg (by simp [isBlank_of_isDigit hc]), ← hcs, hsigned, magnitude_repr]

/-- Different numbers are written in different ways. -/
theorem text_inj {m n : Int} : text m = text n ↔ m = n := by
  have hdigits {k l : Nat} (h : k.repr = l.repr) : k = l := by
    rw [← Nat.ofDigitChars_ten_toDigits (n := k), ← Nat.toList_repr, h, Nat.toList_repr, Nat.ofDigitChars_ten_toDigits]
  have hminus (k l : Nat) : k.repr ≠ "-" ++ l.repr := by
    intro h
    have hmem : '-' ∈ k.repr.toList := by
      rw [h, String.toList_append]
      exact List.mem_cons_self
    exact absurd (List.all_eq_true.mp (all_isDigit_repr k) _ hmem) (by decide)
  refine ⟨fun h => ?_, congrArg text⟩
  cases m with
  | ofNat k =>
    cases n with
    | ofNat l => rw [hdigits h]
    | negSucc l => exact absurd h (hminus k (l + 1))
  | negSucc k =>
    cases n with
    | ofNat l => exact absurd h.symm (hminus l (k + 1))
    | negSucc l => rw [Nat.succ.inj (hdigits (String.append_right_inj "-" |>.mp h))]

/-- A number in range is read as it is written. -/
theorem ofText_text {n : Int} (h : n.natAbs ≤ largest) : ofText (text n) = n := by
  cases n with
  | ofNat n =>
    rw [text, ofText_repr, Nat.min_eq_right (by simpa using h)]
    rfl
  | negSucc n =>
    have hminus : ("-" ++ (n + 1).repr).toList.dropWhile Text.isBlank = '-' :: (n + 1).repr.toList := by
      rw [String.toList_append]
      rfl
    rw [text, ofText, hminus, ofSigned, magnitude_repr, Nat.min_eq_right (by simpa using h)]
    rfl

end Integer

theorem Ticks.ofTime_le (s : String) : ofTime s ≤ Integer.largest := by
  rw [ofTime]
  cases Clock.read? s.toList with
  | none => exact Nat.zero_le _
  | some c => exact ofClock_le c

/-- The value that a literal gives to a condition under an operator. -/
def Literal.valueUnder (type : FieldType) (op : Operator) (l : Literal) : String :=
  if op.isPattern then Value.stripWildcards l.raw else l.value type

namespace Value

/-- The literal that is written for a value. -/
def written (type : FieldType) (op : Operator) (value : String) : Literal :=
  if value = "" then .text ""
  else match type with
    | .text | .enumerable => .text (if op.isPattern then "%" ++ value ++ "%" else value)
    | .integer => .number (Integer.text (Integer.ofText value))
    | .ticks => .number (Ticks.ofTime value).repr
    | .boolean => .number (if value = "1" then "1" else "0")

theorem literal_eq_display (type : FieldType) (op : Operator) (value : String) :
    literal type op value = (written type op value).token.display := by
  unfold literal written
  by_cases hempty : value = ""
  · rw [if_pos hempty, if_pos hempty]
    decide
  · rw [if_neg hempty, if_neg hempty]
    cases type with
    | text | enumerable => by_cases hpattern : op.isPattern = true <;> simp [hpattern, Literal.token, Token.display]
    | integer | ticks => rfl
    | boolean => by_cases hone : value = "1" <;> simp [hone, Literal.token, Token.display]

theorem lexable_written (type : FieldType) (op : Operator) (value : String) :
    (written type op value).token.Lexable := by
  unfold written
  by_cases hempty : value = ""
  · rw [if_pos hempty]
    trivial
  · rw [if_neg hempty]
    cases type with
    | text | enumerable => trivial
    | integer => exact Integer.isNumeral_text _
    | ticks => exact .unsigned (Integer.isUnsigned_repr _)
    | boolean =>
      by_cases hone : value = "1"
      · rw [if_pos hone]
        exact .unsigned (Integer.isUnsigned_repr 1)
      · rw [if_neg hone]
        exact .unsigned (Integer.isUnsigned_repr 0)

/-- The literal of a value is a single token. -/
theorem scan_literal (type : FieldType) (op : Operator) (value : String) :
    Token.scan (literal type op value).toList = [(written type op value).token] := by
  have hends : (written type op value).token.EndsBefore [] := by
    cases written type op value <;> simp [Literal.token, Token.EndsBefore]
  have h := Token.scan_display (lexable_written type op value) hends
  rwa [List.append_nil, ← literal_eq_display, Token.scan_nil] at h

/-- What the literal of a value is read back as. -/
def reread (type : FieldType) (op : Operator) (value : String) : String :=
  match Token.scan (literal type op value).toList with
  | [t] => (Literal.ofToken? t).elim "" (Literal.valueUnder type op)
  | _ => ""

theorem reread_eq (type : FieldType) (op : Operator) (value : String) :
    reread type op value = (written type op value).valueUnder type op := by
  have hread := Literal.ofToken?_eq_some.mpr (rfl : (written type op value).token = (written type op value).token)
  simp only [reread, scan_literal, hread, Option.elim_some]

theorem stripWildcards_wrap (value : String) : stripWildcards ("%" ++ value ++ "%") = value := by
  simp [stripWildcards, stripLeading, stripTrailing]

theorem stripLeading_of_head? {cs : List Char} (h : cs.head? ≠ some '%') : stripLeading cs = cs := by
  unfold stripLeading
  split
  · simp at h
  · rfl

theorem stripWildcards_of_not_mem {value : String} (h : '%' ∉ value.toList) : stripWildcards value = value := by
  have hhead : value.toList.head? ≠ some '%' := fun hhead => h (List.mem_of_head? hhead)
  have hlast : value.toList.reverse.head? ≠ some '%' := by
    rw [List.head?_reverse]
    exact fun hlast => h (List.mem_of_getLast? hlast)
  rw [stripWildcards, stripLeading_of_head? hhead, stripTrailing, stripLeading_of_head? hlast, List.reverse_reverse,
    String.ofList_toList]

theorem stripWildcards_text (n : Int) : stripWildcards (Integer.text n) = Integer.text n := by
  apply stripWildcards_of_not_mem
  have hdigits : ∀ m : Nat, '%' ∉ m.repr.toList := fun m hmem =>
    absurd (List.all_eq_true.mp (Integer.all_isDigit_repr m) _ hmem) (by decide)
  cases n with
  | ofNat n => exact hdigits n
  | negSucc n => simpa [Integer.text] using hdigits (n + 1)

theorem reread_empty (type : FieldType) (op : Operator) : reread type op "" = "" := by
  rw [reread_eq]
  unfold written Literal.valueUnder
  split <;> rfl

/-- What a value is read back as: a text as itself, and any other value in the form of its type. -/
theorem reread_of_ne {type : FieldType} {op : Operator} {value : String} (hvalue : value ≠ "") :
    reread type op value = match type with
    | .text | .enumerable => value
    | .integer => Integer.text (Integer.ofText value)
    | .ticks => if op.isPattern then (Ticks.ofTime value).repr else Ticks.time (Ticks.ofTime value)
    | .boolean => if value = "1" then "1" else "0" := by
  have hticks : Integer.ofText (Ticks.ofTime value).repr = Ticks.ofTime value := by
    rw [Integer.ofText_repr, Nat.min_eq_right (Ticks.ofTime_le value)]
  rw [reread_eq]
  unfold written Literal.valueUnder
  rw [if_neg hvalue]
  by_cases hop : op.isPattern = true
  · rw [if_pos hop]
    cases type with
    | text | enumerable =>
      rw [if_pos hop]
      exact stripWildcards_wrap value
    | integer => exact stripWildcards_text _
    | ticks =>
      simp only [hop, if_true]
      exact stripWildcards_text (Ticks.ofTime value)
    | boolean => by_cases hone : value = "1" <;> simp [hone] <;> decide
  · rw [if_neg hop]
    cases type with
    | text | enumerable => simp [hop, Literal.value]
    | integer => rfl
    | ticks => simp [hop, Literal.value, hticks]
    | boolean => by_cases hone : value = "1" <;> simp [hone, Literal.value]

/-- A value that its field type shows in exactly this form: any text, a number in plain digits, a time in full, and `0`
or `1`. An empty value is of every type. -/
def Stable (type : FieldType) (value : String) : Prop :=
  value = "" ∨ match type with
    | .text | .enumerable => True
    | .integer => value = Integer.text (Integer.ofText value)
    | .ticks => value = Ticks.time (Ticks.ofTime value)
    | .boolean => value = "0" ∨ value = "1"

/-- A stable value is read back as itself, except by a pattern on a time. -/
theorem reread_of_stable {type : FieldType} {op : Operator} {value : String} (h : Stable type value)
    (hpattern : op.isPattern = true → type ≠ .ticks) : reread type op value = value := by
  by_cases hempty : value = ""
  · rw [hempty, reread_empty]
  · have hvalue := h.resolve_left hempty
    rw [reread_of_ne hempty]
    cases type with
    | text | enumerable => rfl
    | integer => exact hvalue.symm
    | ticks =>
      rw [if_neg fun hop => hpattern hop rfl]
      exact hvalue.symm
    | boolean => rcases hvalue with rfl | rfl <;> rfl

end Value

end SegmentQuery
