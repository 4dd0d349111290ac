import Mathlib.Order.MinMax
import SegmentQuery.Proofs.Value.Clamp

namespace SegmentQuery.Ticks

/-- A run of digits at the front of a text is read, if it is neither too short nor too long. -/
theorem digits?_append {low high : Nat} {run rest : List Char} (hrun : run.all Char.isDigit = true)
    (hrest : ∀ c ∈ rest.head?, Text.isDecimalDigit c = false) (hlow : low ≤ run.length) (hhigh : run.length ≤ high) :
    digits? low high (run ++ rest) = some (run, rest) := by
  have hdecimal : run.all Text.isDecimalDigit = true :=
    List.all_eq_true.mpr fun c hc => Text.isDecimalDigit_of_isDigit (List.all_eq_true.mp hrun c hc)
  simp only [digits?, Token.takeWhile_append hdecimal hrest, Token.dropWhile_append hdecimal hrest]
  rw [if_pos ⟨hlow, hhigh⟩]

/-- No blank is a decimal digit. -/
theorem isDecimalDigit_of_isBlank {c : Char} (h : Text.isBlank c = true) : Text.isDecimalDigit c = false := by
  have hapart : ∀ range ∈ Text.blankRanges, ∀ first ∈ Text.decimalZeros,
      range.2 < first ∨ first + 10 ≤ range.1 := by decide
  obtain ⟨⟨low, high⟩, hrange, hc⟩ := List.any_eq_true.mp h
  simp only [Bool.and_eq_true, decide_eq_true_eq] at hc
  rw [Bool.eq_false_iff]
  intro hdigit
  obtain ⟨first, hfirst, hd⟩ := List.any_eq_true.mp hdigit
  simp only [Bool.and_eq_true, decide_eq_true_eq] at hd
  rcases hapart _ hrange first hfirst with hbelow | habove
  · simp only at hbelow
    omega
  · simp only at habove
    omega

/-- A part made of ASCII digits is the number that they denote, or zero if that is too large. -/
theorem part_eq {digits : List Char} (h : digits.all Char.isDigit = true) :
    part digits = if Nat.ofDigitChars 10 digits 0 ≤ Integer.largest then Nat.ofDigitChars 10 digits 0 else 0 := by
  simp [part, h]

theorem ofDigitChars_lt {digits : List Char} (h : digits.all Char.isDigit = true) (n : Nat) :
    Nat.ofDigitChars 10 digits n < 10 ^ digits.length * (n + 1) := by
  induction digits generalizing n with
  | nil => simp
  | cons c digits ih =>
    rw [List.all_cons, Bool.and_eq_true] at h
    have hzero : '0'.toNat = 48 := rfl
    have hc := (Token.isDigit_iff.mp h.1).2
    rw [Nat.ofDigitChars_cons]
    calc
      Nat.ofDigitChars 10 digits (10 * n + (c.toNat - '0'.toNat))
      _ < 10 ^ digits.length * (10 * n + (c.toNat - '0'.toNat) + 1) := ih h.2 _
      _ ≤ 10 ^ digits.length * (10 * (n + 1)) := Nat.mul_le_mul_left _ (by omega)
      _ = 10 ^ (c :: digits).length * (n + 1) := by rw [List.length_cons, Nat.pow_succ, Nat.mul_assoc]

/-- A part of few digits is the number that they denote. -/
theorem part_of_length_le {digits : List Char} (h : digits.all Char.isDigit = true) (hlength : digits.length ≤ 3) :
    part digits = Nat.ofDigitChars 10 digits 0 := by
  have hlt := ofDigitChars_lt h 0
  have hpow : 10 ^ digits.length ≤ 10 ^ 3 := Nat.pow_le_pow_right (by decide) hlength
  have hlargest : 10 ^ 3 ≤ Integer.largest := by decide
  rw [part_eq h, if_pos (by omega)]

/-- A clock time as it may be written: the digits of its hours, as many as there are, of its minutes and of its seconds,
one or two each, and of a fraction of a second, up to three, with blanks around it. A time without digits of a fraction
has no point either. -/
structure WrittenTime where
  before : List Char
  hours : List Char
  minutes : List Char
  seconds : List Char
  fraction : List Char
  after : List Char
  before_blank : before.all Text.isBlank = true := by decide
  hours_digit : hours.all Char.isDigit = true := by decide
  minutes_digit : minutes.all Char.isDigit = true := by decide
  seconds_digit : seconds.all Char.isDigit = true := by decide
  fraction_digit : fraction.all Char.isDigit = true := by decide
  after_blank : after.all Text.isBlank = true := by decide
  length_hours : 1 ≤ hours.length := by decide
  length_minutes : 1 ≤ minutes.length ∧ minutes.length ≤ 2 := by decide
  length_seconds : 1 ≤ seconds.length ∧ seconds.length ≤ 2 := by decide
  length_fraction : fraction.length ≤ 3 := by decide

namespace WrittenTime

/-- A fraction with its point. -/
def pointed : List Char → List Char
  | [] => []
  | digits => '.' :: digits

def text (t : WrittenTime) : String :=
  String.ofList (t.before ++ (t.hours ++ ':' :: (t.minutes ++ ':' :: (t.seconds ++ (pointed t.fraction ++ t.after)))))

/-- The hours that are written, as large as they may be. -/
def hour (t : WrittenTime) : Nat := Nat.ofDigitChars 10 t.hours 0

def minute (t : WrittenTime) : Nat := Nat.ofDigitChars 10 t.minutes 0

def second (t : WrittenTime) : Nat := Nat.ofDigitChars 10 t.seconds 0

/-- The milliseconds of a decimal fraction of a second. -/
def millisecond (t : WrittenTime) : Nat := Nat.ofDigitChars 10 t.fraction 0 * 10 ^ (3 - t.fraction.length)

/-- The ticks up to a number of hours, and the minutes and seconds of a written time after them. -/
def ticksAfter (t : WrittenTime) (hour : Nat) : Nat :=
  ((hour * 3600 + t.minute * 60 + t.second) * 1000 + t.millisecond) * perMillisecond

/-- The exact ticks of a written time. -/
def ticks (t : WrittenTime) : Nat := t.ticksAfter t.hour

/-- The hours that count. -/
def countedHour (t : WrittenTime) : Nat := if t.hour ≤ Integer.largest then t.hour else 0

variable (t : WrittenTime)

/-- What follows the seconds does not go on with them. -/
theorem head?_pointed_append : ∀ c ∈ (pointed t.fraction ++ t.after).head?, Text.isDecimalDigit c = false := by
  intro c hc
  cases hfraction : t.fraction with
  | nil =>
    rw [hfraction, pointed, List.nil_append] at hc
    exact isDecimalDigit_of_isBlank (List.all_eq_true.mp t.after_blank c (List.mem_of_head? hc))
  | cons d digits =>
    rw [hfraction] at hc
    cases hc
    decide

/-- The fraction is read, if there is one. -/
theorem fraction?_pointed_append : fraction? (pointed t.fraction ++ t.after) = some (t.fraction, t.after) := by
  have hblank : ∀ c ∈ t.after.head?, Text.isBlank c = true := fun c hc =>
    List.all_eq_true.mp t.after_blank c (List.mem_of_head? hc)
  cases hfraction : t.fraction with
  | nil =>
    rw [pointed, List.nil_append, fraction?]
    intro rest hrest
    exact absurd (hblank '.' (by simp [hrest])) (by decide)
  | cons d digits =>
    have hlength := t.length_fraction
    rw [hfraction] at hlength
    exact digits?_append (hfraction ▸ t.fraction_digit) (fun c hc => isDecimalDigit_of_isBlank (hblank c hc))
      (by simp) hlength

theorem part_padFraction : part (padFraction t.fraction) = t.millisecond := by
  have hlength := t.length_fraction
  have hdigit : (padFraction t.fraction).all Char.isDigit = true := by
    rw [padFraction, List.all_append, t.fraction_digit, Bool.true_and, List.all_eq_true]
    intro c hc
    rw [List.eq_of_mem_replicate hc]
    rfl
  have hthree : (padFraction t.fraction).length ≤ 3 := by
    rw [padFraction, List.length_append, List.length_replicate]
    omega
  rw [part_of_length_le hdigit hthree, padFraction, Nat.ofDigitChars_append, Nat.ofDigitChars_replicate_zero,
    Nat.mul_comm]
  rfl

/-- A written time is read part by part. Hours that are too large count as none. -/
theorem read?_text :
    Clock.read? t.text.toList = some ⟨t.countedHour, t.minute, t.second, t.millisecond⟩ := by
  have hcolon (cs : List Char) : ∀ c ∈ (':' :: cs).head?, Text.isDecimalDigit c = false := by
    rintro _ ⟨⟩
    decide
  obtain ⟨d, digits, hhours⟩ := List.exists_cons_of_length_pos t.length_hours
  have hdigit : d.isDigit = true := List.all_eq_true.mp t.hours_digit d (by simp [hhours])
  have hstart (cs : List Char) : (t.before ++ (t.hours ++ cs)).dropWhile Text.isBlank = t.hours ++ cs := by
    refine Token.dropWhile_append t.before_blank fun c hc => ?_
    rw [hhours] at hc
    cases hc
    exact Integer.isBlank_of_isDigit hdigit
  have hreadHours (cs : List Char) : digits? 1 (t.hours ++ ':' :: cs).length (t.hours ++ ':' :: cs) =
      some (t.hours, ':' :: cs) := digits?_append t.hours_digit (hcolon cs) t.length_hours (by simp)
  have hreadMinutes (cs : List Char) : digits? 1 2 (t.minutes ++ ':' :: cs) = some (t.minutes, ':' :: cs) :=
    digits?_append t.minutes_digit (hcolon cs) t.length_minutes.1 t.length_minutes.2
  have hreadSeconds : digits? 1 2 (t.seconds ++ (pointed t.fraction ++ t.after)) =
      some (t.seconds, pointed t.fraction ++ t.after) :=
    digits?_append t.seconds_digit t.head?_pointed_append t.length_seconds.1 t.length_seconds.2
  have hminute : part t.minutes = t.minute := part_of_length_le t.minutes_digit (t.length_minutes.2.trans (by decide))
  have hsecond : part t.seconds = t.second := part_of_length_le t.seconds_digit (t.length_seconds.2.trans (by decide))
  have hhour : part t.hours = t.countedHour := part_eq t.hours_digit
  rw [Clock.read?, text, String.toList_ofList]
  simp only [hstart, hreadHours, hreadMinutes, hreadSeconds, t.fraction?_pointed_append, after?, if_true,
    Option.bind_eq_bind, Option.bind_some, t.after_blank]
  rw [hhour, hminute, hsecond, t.part_padFraction]

end WrittenTime

/-- The ticks of a clock time, held at the largest number after every step. Minutes and seconds have two digits at most,
so the seconds of the minutes need not be held. -/
def Clock.heldTicks (c : Clock) : Nat :=
  let seconds := Integer.held (Integer.held (Integer.held (c.hours * 3600) + c.minutes * 60) + c.seconds)
  Integer.held (Integer.held (Integer.held (seconds * 1000) + c.milliseconds) * perMillisecond)

/-- Holding every step and holding the end come to the same. -/
theorem Clock.heldTicks_eq (c : Clock) : c.heldTicks = ofClock c := by
  simp only [heldTicks, Integer.held_held_add, Integer.held_held_mul]
  rfl

namespace WrittenTime

variable (t : WrittenTime)

theorem ofTime_text : ofTime t.text = Integer.held (t.ticksAfter t.countedHour) := by
  rw [ofTime, t.read?_text, Option.elim_some]
  rfl

theorem ticksAfter_mono {m n : Nat} (h : m ≤ n) : t.ticksAfter m ≤ t.ticksAfter n := by
  simp only [ticksAfter, perMillisecond]
  omega

/-- A written time never has more ticks than the exact ones, held. -/
theorem ofTime_text_le : ofTime t.text ≤ Integer.held t.ticks := by
  have hhour : t.countedHour ≤ t.hour := by
    unfold countedHour
    split <;> omega
  rw [ofTime_text]
  exact min_le_min_left Integer.largest (t.ticksAfter_mono hhour)

theorem ofTime_text_of_le (h : t.hour ≤ Integer.largest) : ofTime t.text = Integer.held t.ticks := by
  rw [ofTime_text, countedHour, if_pos h, ticks]

/-- Without hours, a written time has less than the largest number of ticks. -/
theorem ticksAfter_zero_lt : t.ticksAfter 0 < Integer.largest := by
  have hminute := ofDigitChars_lt t.minutes_digit 0
  have hsecond := ofDigitChars_lt t.seconds_digit 0
  have hfraction := ofDigitChars_lt t.fraction_digit 0
  have hminutes : 10 ^ t.minutes.length ≤ 10 ^ 2 := Nat.pow_le_pow_right (by decide) t.length_minutes.2
  have hseconds : 10 ^ t.seconds.length ≤ 10 ^ 2 := Nat.pow_le_pow_right (by decide) t.length_seconds.2
  have hpow : 10 ^ t.fraction.length * 10 ^ (3 - t.fraction.length) = 10 ^ 3 := by
    rw [← Nat.pow_add, Nat.add_sub_cancel' t.length_fraction]
  have hmillisecond : t.millisecond < 10 ^ 3 := by
    rw [← hpow, millisecond]
    exact Nat.mul_lt_mul_of_pos_right (by omega) (Nat.pow_pos (by decide))
  rw [← minute] at hminute
  rw [← second] at hsecond
  rw [ticksAfter, Integer.largest, perMillisecond]
  omega

theorem ofTime_text_of_lt (h : Integer.largest < t.hour) : ofTime t.text = t.ticksAfter 0 := by
  have hlt := t.ticksAfter_zero_lt
  rw [ofTime_text, countedHour, if_neg (by omega), Integer.held, Nat.min_eq_right hlt.le]

/-- A written time has its exact ticks, held at the largest number, exactly if its hours are in range. -/
theorem ofTime_text_iff : ofTime t.text = Integer.held t.ticks ↔ t.hour ≤ Integer.largest := by
  refine ⟨fun heq => ?_, t.ofTime_text_of_le⟩
  by_contra hnot
  have hlt := t.ticksAfter_zero_lt
  have hbeyond : Integer.largest ≤ t.ticks := by
    simp only [ticks, ticksAfter, perMillisecond]
    omega
  rw [t.ofTime_text_of_lt (by omega), Integer.held, Nat.min_eq_left hbeyond] at heq
  omega

/-- A later position has at least as many ticks, if its hours are in range. -/
theorem ofTime_text_mono {t u : WrittenTime} (hu : u.hour ≤ Integer.largest) (h : t.ticks ≤ u.ticks) :
    ofTime t.text ≤ ofTime u.text := by
  rw [u.ofTime_text_of_le hu]
  exact t.ofTime_text_le.trans (min_le_min_left Integer.largest h)

end WrittenTime

/-- The ticks of a written time are its exact ones, held at the largest number, if its hours are in range, and those
after the full hours otherwise; they may be held after every step. So a later position never has fewer ticks, as long as
its hours are in range. -/
theorem ofTime_written (t : WrittenTime) :
    ofTime t.text = (if t.hour ≤ Integer.largest then min Integer.largest t.ticks else t.ticksAfter 0) ∧
      (ofTime t.text = min Integer.largest t.ticks ↔ t.hour ≤ Integer.largest) ∧
      (∃ c, Clock.read? t.text.toList = some c ∧ ofTime t.text = c.heldTicks) ∧
      ∀ u : WrittenTime, u.hour ≤ Integer.largest → t.ticks ≤ u.ticks → ofTime t.text ≤ ofTime u.text := by
  refine ⟨?_, t.ofTime_text_iff, ⟨_, t.read?_text, ?_⟩, fun u => WrittenTime.ofTime_text_mono⟩
  · by_cases hhour : t.hour ≤ Integer.largest
    · rw [if_pos hhour, t.ofTime_text_of_le hhour, Integer.held]
    · rw [if_neg hhour, t.ofTime_text_of_lt (by omega)]
  · rw [Clock.heldTicks_eq, ofTime, t.read?_text, Option.elim_some]

/-- The last hours that count are held at the largest number of ticks, and one hour more counts as none. -/
theorem ofTime_written_of_last_hour : ∃ t u v : WrittenTime,
    t.text = "125:7:59.4" ∧ u.text = " 9223372036854775807:0:00" ∧ v.text = "9223372036854775808:00:01" ∧
      ofTime t.text = 4504794000000 ∧ ofTime u.text = 9223372036854775807 ∧ ofTime v.text = 10000000 ∧
      u.hour ≤ Integer.largest ∧ t.ticks ≤ u.ticks ∧ ofTime t.text ≤ ofTime u.text := by
  refine ⟨{
      before := [], hours := ['1', '2', '5'], minutes := ['7'], seconds := ['5', '9'], fraction := ['4'], after := [] }, {
      before := [' '], hours := "9223372036854775807".toList, minutes := ['0'], seconds := ['0', '0'], fraction := [],
      after := [] }, {
      before := [], hours := "9223372036854775808".toList, minutes := ['0', '0'], seconds := ['0', '1'], fraction := [],
      after := [] }, by decide, by decide, by decide, ?_, ?_, ?_, by decide, by decide, ?_⟩
  · exact (ofTime_written _).1.trans (by decide)
  · exact (ofTime_written _).1.trans (by decide)
  · exact (ofTime_written _).1.trans (by decide)
  · exact (ofTime_written _).2.2.2 _ (by decide) (by decide)

end SegmentQuery.Ticks
