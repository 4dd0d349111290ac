import Mathlib.Algebra.Group.Int.Defs
import SegmentQuery.Proofs.Token.Tiling
import SegmentQuery.Proofs.Value.Written

namespace SegmentQuery.Integer

/-- A result held at the largest number. -/
def held (n : Nat) : Nat := min largest n

/-- Holding before an addition changes nothing if the sum is held. -/
theorem held_held_add (m n : Nat) : held (held m + n) = held (m + n) := by
  simp only [held]
  omega

/-- Holding before a multiplication changes nothing if the product is held. -/
theorem held_held_mul (m k : Nat) : held (held m * k) = held (m * k) := by
  simp only [held]
  rcases Nat.le_total m largest with hle | hle
  · rw [Nat.min_eq_right hle]
  · rw [Nat.min_eq_left hle]
    rcases Nat.eq_zero_or_pos k with rfl | hk
    · rfl
    · have hlargest : largest ≤ largest * k := Nat.le_mul_of_pos_right largest hk
      have hproduct : largest * k ≤ m * k := Nat.mul_le_mul_right k hle
      rw [Nat.min_eq_left hlargest, Nat.min_eq_left (hlargest.trans hproduct)]

/-- A number with one more digit, held after each of the two steps. -/
def heldDigit (n : Nat) (c : Char) : Nat := held (held (n * 10) + (c.toNat - '0'.toNat))

theorem heldDigit_held (n : Nat) (c : Char) : heldDigit (held n) c = held (10 * n + (c.toNat - '0'.toNat)) := by
  rw [heldDigit, held_held_mul, held_held_add, Nat.mul_comm]

/-- The largest number absorbs all further digits: holding every step and holding the end come to the same. -/
theorem foldl_heldDigit (digits : List Char) (n : Nat) :
    digits.foldl heldDigit (held n) = held (Nat.ofDigitChars 10 digits n) := by
  induction digits generalizing n with
  | nil => rfl
  | cons c digits ih => rw [List.foldl_cons, heldDigit_held, ih, Nat.ofDigitChars_cons]

/-- What may stand in front of the digits of a number. -/
inductive Sign where
  | absent
  | plus
  | minus
  deriving Repr, DecidableEq

namespace Sign

def text : Sign → List Char
  | absent => []
  | plus => ['+']
  | minus => ['-']

/-- The number with a magnitude. -/
def apply : Sign → Nat → Int
  | minus, n => -(n : Int)
  | _, n => n

/-- The sign that a text starts with. -/
def ofFront : List Char → Sign
  | '+' :: _ => plus
  | '-' :: _ => minus
  | _ => absent

end Sign

/-- The parts of a text that is read as a number. Each part goes on as long as it can: the rest starts with no digit,
and if there is neither a sign nor a digit, with no blank and no sign either. -/
@[ext]
structure Parts where
  blanks : List Char
  sign : Sign
  digits : List Char
  rest : List Char
  all_isBlank : blanks.all Text.isBlank = true
  all_isDigit : digits.all Char.isDigit = true
  rest_ends : ∀ c ∈ rest.head?, c.isDigit = false
  rest_starts : sign = .absent → digits = [] → ∀ c ∈ rest.head?, Text.isBlank c = false ∧ c ≠ '+' ∧ c ≠ '-'

namespace Parts

def text (p : Parts) : String := String.ofList (p.blanks ++ (p.sign.text ++ (p.digits ++ p.rest)))

/-- The number that sign and digits denote; zero if there are no digits. -/
def number (p : Parts) : Int := p.sign.apply (Nat.ofDigitChars 10 p.digits 0)

variable (p : Parts)

theorem toList_text : p.text.toList = p.blanks ++ (p.sign.text ++ (p.digits ++ p.rest)) := String.toList_ofList

theorem takeWhile_isDigit : (p.digits ++ p.rest).takeWhile Char.isDigit = p.digits :=
  Token.takeWhile_append p.all_isDigit p.rest_ends

/-- Without a sign, what follows the blanks starts neither with a blank nor with a sign. -/
theorem of_mem_head? (hsign : p.sign = .absent) {c : Char} (hc : c ∈ (p.digits ++ p.rest).head?) :
    Text.isBlank c = false ∧ c ≠ '+' ∧ c ≠ '-' := by
  cases hdigits : p.digits with
  | nil =>
    rw [hdigits, List.nil_append] at hc
    exact p.rest_starts hsign hdigits c hc
  | cons d digits =>
    rw [hdigits, List.cons_append, List.head?_cons, Option.mem_some_iff] at hc
    subst hc
    have hdigit : d.isDigit = true := List.all_eq_true.mp p.all_isDigit d (by simp [hdigits])
    refine ⟨isBlank_of_isDigit hdigit, ?_, ?_⟩
    · rintro rfl
      exact absurd hdigit (by decide)
    · rintro rfl
      exact absurd hdigit (by decide)

theorem isBlank_head? : ∀ c ∈ (p.sign.text ++ (p.digits ++ p.rest)).head?, Text.isBlank c = false := by
  intro c hc
  cases hsign : p.sign with
  | absent =>
    rw [hsign, Sign.text, List.nil_append] at hc
    exact (p.of_mem_head? hsign hc).1
  | plus | minus =>
    rw [hsign] at hc
    cases hc
    decide

theorem takeWhile_isBlank : p.text.toList.takeWhile Text.isBlank = p.blanks := by
  rw [toList_text]
  exact Token.takeWhile_append p.all_isBlank p.isBlank_head?

theorem dropWhile_isBlank : p.text.toList.dropWhile Text.isBlank = p.sign.text ++ (p.digits ++ p.rest) := by
  rw [toList_text]
  exact Token.dropWhile_append p.all_isBlank p.isBlank_head?

theorem ofFront_eq : Sign.ofFront (p.sign.text ++ (p.digits ++ p.rest)) = p.sign := by
  cases hsign : p.sign with
  | absent =>
    rw [Sign.text, List.nil_append, Sign.ofFront]
    · rintro rest hplus
      exact absurd rfl (p.of_mem_head? hsign (by simp [hplus])).2.1
    · rintro rest hminus
      exact absurd rfl (p.of_mem_head? hsign (by simp [hminus])).2.2
  | plus | minus => rfl

/-- A text has one way at most to be taken apart. -/
theorem eq_of_text_eq {p q : Parts} (h : p.text = q.text) : p = q := by
  have hblanks : p.blanks = q.blanks := by rw [← p.takeWhile_isBlank, h, q.takeWhile_isBlank]
  have hfront : p.sign.text ++ (p.digits ++ p.rest) = q.sign.text ++ (q.digits ++ q.rest) := by
    rw [← p.dropWhile_isBlank, h, q.dropWhile_isBlank]
  have hsign : p.sign = q.sign := by rw [← p.ofFront_eq, hfront, q.ofFront_eq]
  have hnumber : p.digits ++ p.rest = q.digits ++ q.rest := by
    rw [hsign] at hfront
    exact List.append_cancel_left hfront
  have hdigits : p.digits = q.digits := by rw [← p.takeWhile_isDigit, hnumber, q.takeWhile_isDigit]
  have hrest : p.rest = q.rest := by
    rw [hdigits] at hnumber
    exact List.append_cancel_left hnumber
  exact Parts.ext hblanks hsign hdigits hrest

/-- The digits at the front of a text, after a sign that is not missing where a text starts with one. -/
private theorem exists_of_front {blanks : List Char} (hblanks : blanks.all Text.isBlank = true) (sign : Sign)
    (cs : List Char) (hcs : sign = .absent → ∀ c ∈ cs.head?, Text.isBlank c = false ∧ c ≠ '+' ∧ c ≠ '-') :
    ∃ p : Parts, p.text = String.ofList (blanks ++ (sign.text ++ cs)) := by
  have hsplit : cs.takeWhile Char.isDigit ++ cs.dropWhile Char.isDigit = cs := List.takeWhile_append_dropWhile
  refine ⟨{
    blanks, sign
    digits := cs.takeWhile Char.isDigit
    rest := cs.dropWhile Char.isDigit
    all_isBlank := hblanks
    all_isDigit := List.all_takeWhile
    rest_ends := fun c hc => Token.head?_dropWhile hc
    rest_starts := fun hsign hdigits c hc => hcs hsign c ?_ }, ?_⟩
  · rw [hdigits, List.nil_append] at hsplit
    rwa [hsplit] at hc
  · exact congrArg (fun front => String.ofList (blanks ++ (sign.text ++ front))) hsplit

/-- Every text can be taken apart. -/
theorem exists_text_eq (s : String) : ∃ p : Parts, p.text = s := by
  have hblanks : (s.toList.takeWhile Text.isBlank).all Text.isBlank = true := List.all_takeWhile
  have hsplit : s.toList.takeWhile Text.isBlank ++ s.toList.dropWhile Text.isBlank = s.toList :=
    List.takeWhile_append_dropWhile
  have hstart : ∀ c ∈ (s.toList.dropWhile Text.isBlank).head?, Text.isBlank c = false := fun c hc =>
    Token.head?_dropWhile hc
  generalize s.toList.dropWhile Text.isBlank = front at hsplit hstart
  rw [← String.ofList_toList (s := s), ← hsplit]
  cases front with
  | nil => exact exists_of_front hblanks .absent [] nofun
  | cons c cs =>
    by_cases hplus : c = '+'
    · subst hplus
      exact exists_of_front hblanks .plus cs nofun
    · by_cases hminus : c = '-'
      · subst hminus
        exact exists_of_front hblanks .minus cs nofun
      · refine exists_of_front hblanks .absent (c :: cs) fun _ d hd => ?_
        cases hd
        exact ⟨hstart c rfl, hplus, hminus⟩

/-- Text is read by its sign and its digits, one by one and held after every step. -/
theorem ofText_text (p : Parts) : ofText p.text = p.sign.apply (p.digits.foldl heldDigit 0) := by
  have hmagnitude : magnitude (p.digits ++ p.rest) = p.digits.foldl heldDigit 0 := by
    have hzero : held 0 = 0 := by decide
    rw [magnitude, takeWhile_isDigit, ← hzero, foldl_heldDigit]
    rfl
  rw [ofText, dropWhile_isBlank, ← hmagnitude]
  cases hsign : p.sign with
  | absent =>
    rw [Sign.text, List.nil_append, ofSigned]
    · rfl
    · intro rest hminus
      exact absurd rfl (p.of_mem_head? hsign (by simp [hminus])).2.2
    · intro rest hplus
      exact absurd rfl (p.of_mem_head? hsign (by simp [hplus])).2.1
  | plus | minus => rfl

end Parts

/-- A number moved to the nearest one of 64 bits, with a sign. -/
def clamp (n : Int) : Int := max Int64.minValue.toInt (min Int64.maxValue.toInt n)

theorem clamp_eq (n : Int) : clamp n = max (-2 ^ 63) (min (2 ^ 63 - 1) n) := rfl

theorem clamp_toInt (n : Int64) : clamp n.toInt = n.toInt := by
  have hle := n.le_toInt
  have hlt := n.toInt_lt
  rw [clamp_eq]
  omega

/-- The magnitude is held below the end of the range, so the smallest number of the range is not reached. -/
theorem apply_held (sign : Sign) (n : Nat) : sign.apply (held n) = max (-(largest : Int)) (clamp (sign.apply n)) := by
  rw [clamp_eq]
  cases sign <;> simp only [Sign.apply, held, largest] <;> omega

namespace Parts

variable (p : Parts)

theorem ofText_text_eq : ofText p.text = max (-(largest : Int)) (clamp p.number) := by
  have hzero : held 0 = 0 := by decide
  rw [ofText_text, ← hzero, foldl_heldDigit, apply_held]
  rfl

theorem ofText_text_iff : ofText p.text = clamp p.number ↔ -2 ^ 63 < p.number := by
  rw [ofText_text_eq, clamp_eq]
  simp only [largest]
  omega

/-- A number in decimal digits, and a rest that does not go on with them. -/
def ofInt (n : Int) (rest : List Char) (hrest : ∀ c ∈ rest.head?, c.isDigit = false) : Parts where
  blanks := []
  sign := if n < 0 then .minus else .absent
  digits := n.natAbs.repr.toList
  rest := rest
  all_isBlank := rfl
  all_isDigit := all_isDigit_repr n.natAbs
  rest_ends := hrest
  rest_starts _ hdigits := absurd hdigits (by simp [Nat.toList_repr, Nat.toDigits_ne_nil])

variable {n : Int} {rest : List Char} {hrest : ∀ c ∈ rest.head?, c.isDigit = false}

theorem text_ofInt : (ofInt n rest hrest).text = Integer.text n ++ String.ofList rest := by
  rw [← String.toList_inj, toList_text, String.toList_append, String.toList_ofList]
  cases n with
  | ofNat n => rfl
  | negSucc n => simp [ofInt, Sign.text, Integer.text]

theorem number_ofInt : (ofInt n rest hrest).number = n := by
  have hdigits : Nat.ofDigitChars 10 n.natAbs.repr.toList 0 = n.natAbs := by
    rw [Nat.toList_repr, Nat.ofDigitChars_ten_toDigits]
  have hnumber : (ofInt n rest hrest).number = (if n < 0 then Sign.minus else .absent).apply n.natAbs :=
    congrArg _ hdigits
  rw [hnumber]
  by_cases hn : n < 0
  · rw [if_pos hn, Sign.apply]
    omega
  · rw [if_neg hn, Sign.apply]
    · omega
    · nofun

end Parts

/-- A text has one way to be taken apart into blanks, a sign, digits and a rest. It is read as the number that sign and
digits denote, clamped to 64 bits, but for the smallest number of the range, in whose place the next one stands; the
steps of reading it may be held one by one. So every other number of 64 bits is read from its decimal digits, whatever
follows them. -/
theorem ofText_clamped (s : String) : ∃ p : Parts, p.text = s ∧ (∀ q : Parts, q.text = s → q = p) ∧
    ofText s = p.sign.apply (p.digits.foldl heldDigit 0) ∧
      ofText s = max (-(largest : Int)) (clamp p.number) ∧
      (ofText s = clamp p.number ↔ -2 ^ 63 < p.number) ∧
      ∀ (n : Int64) (rest : List Char), (∀ c ∈ rest.head?, c.isDigit = false) →
        s = text n.toInt ++ String.ofList rest → (ofText s = n.toInt ↔ n ≠ Int64.minValue) := by
  obtain ⟨p, rfl⟩ := Parts.exists_text_eq s
  refine ⟨p, rfl, fun q => Parts.eq_of_text_eq, p.ofText_text, p.ofText_text_eq, p.ofText_text_iff,
    fun n rest hrest hs => ?_⟩
  have hle := n.le_toInt
  have hsmallest : n = Int64.minValue ↔ n.toInt = -2 ^ 63 := Int64.toInt_inj.symm
  have hread := (Parts.ofInt n.toInt rest hrest).ofText_text_iff
  rw [Parts.text_ofInt, Parts.number_ofInt, clamp_toInt] at hread
  rw [hs, hread, ne_eq, hsmallest]
  omega

/-- The two ends of the range, with more text behind them. -/
theorem ofText_clamped_of_ends :
    ofText "9223372036854775807.5" = Int64.maxValue.toInt ∧
      ofText "-9223372036854775807 " = (-Int64.maxValue).toInt ∧
      ofText "-9223372036854775808" ≠ Int64.minValue.toInt := by
  obtain ⟨_, -, -, -, -, -, hlargest⟩ := ofText_clamped "9223372036854775807.5"
  obtain ⟨_, -, -, -, -, -, hnegated⟩ := ofText_clamped "-9223372036854775807 "
  obtain ⟨_, -, -, -, -, -, hsmallest⟩ := ofText_clamped "-9223372036854775808"
  refine ⟨(hlargest Int64.maxValue ['.', '5'] (by simp) (by decide +kernel)).mpr (by decide),
    (hnegated (-Int64.maxValue) [' '] (by simp) (by decide +kernel)).mpr (by decide),
    mt (hsmallest Int64.minValue [] (by simp) (by decide +kernel)).mp (by decide)⟩

end SegmentQuery.Integer
