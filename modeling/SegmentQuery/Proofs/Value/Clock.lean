import SegmentQuery.Proofs.Value.WrittenTime

namespace SegmentQuery.Ticks

theorem all_isDigit_padded (width n : Nat) : (padded width n).all Char.isDigit = true := by
  rw [padded, List.all_append, Bool.and_eq_true]
  refine ⟨List.all_eq_true.mpr fun c hc => ?_, List.all_eq_true.mpr fun c hc => ?_⟩
  · rw [List.eq_of_mem_replicate hc]
    rfl
  · exact Nat.isDigit_of_mem_toDigits (by decide) (by decide) hc

theorem padded_ne_nil (width n : Nat) : padded width n ≠ [] := by
  simp [padded, Nat.toDigits_ne_nil]

/-- A small number is padded to the width. -/
theorem length_padded {width n : Nat} (hwidth : 0 < width) (h : n < 10 ^ width) : (padded width n).length = width := by
  have hlength : (Nat.toDigits 10 n).length ≤ width := (Nat.length_toDigits_le_iff (by decide) hwidth).mpr h
  rw [padded, List.length_append, List.length_replicate]
  omega

theorem ofDigitChars_padded (width n : Nat) : Nat.ofDigitChars 10 (padded width n) 0 = n := by
  rw [padded, Nat.ofDigitChars_append, Nat.ofDigitChars_replicate_zero, Nat.mul_zero, Nat.ofDigitChars_ten_toDigits]

theorem Clock.text_eq (c : Clock) : c.text = padded 2 c.hours ++ ':' :: (padded 2 c.minutes ++
    ':' :: (padded 2 c.seconds ++ '.' :: padded 3 c.milliseconds)) := by
  simp [Clock.text]

/-- A clock time with its parts in range is read as it is written. -/
theorem Clock.read?_text {c : Clock} (hhours : c.hours ≤ Integer.largest) (hminutes : c.minutes < 60)
    (hseconds : c.seconds < 60) (hmilliseconds : c.milliseconds < 1000) : read? c.text = some c := by
  have hminutesLength : (padded 2 c.minutes).length = 2 := length_padded (by decide) (by omega)
  have hsecondsLength : (padded 2 c.seconds).length = 2 := length_padded (by decide) (by omega)
  have hmillisecondsLength : (padded 3 c.milliseconds).length = 3 := length_padded (by decide) (by omega)
  obtain ⟨t, htext, hhour, hminute, hsecond, hmillisecond⟩ : ∃ t : WrittenTime, t.text.toList = c.text ∧
      t.countedHour = c.hours ∧ t.minute = c.minutes ∧ t.second = c.seconds ∧ t.millisecond = c.milliseconds := by
    refine ⟨{
      before := [], hours := padded 2 c.hours, minutes := padded 2 c.minutes, seconds := padded 2 c.seconds,
      fraction := padded 3 c.milliseconds, after := []
      hours_digit := all_isDigit_padded 2 c.hours
      minutes_digit := all_isDigit_padded 2 c.minutes
      seconds_digit := all_isDigit_padded 2 c.seconds
      fraction_digit := all_isDigit_padded 3 c.milliseconds
      length_hours := List.length_pos_iff.mpr (padded_ne_nil 2 c.hours)
      length_minutes := by omega
      length_seconds := by omega
      length_fraction := hmillisecondsLength.le }, ?_, ?_, ofDigitChars_padded 2 c.minutes,
      ofDigitChars_padded 2 c.seconds, ?_⟩
    · have hpointed : WrittenTime.pointed (padded 3 c.milliseconds) = '.' :: padded 3 c.milliseconds :=
        WrittenTime.pointed.eq_2 _ (padded_ne_nil 3 c.milliseconds)
      rw [c.text_eq, WrittenTime.text, String.toList_ofList, hpointed, List.append_nil]
      rfl
    · rw [WrittenTime.countedHour, WrittenTime.hour, ofDigitChars_padded, if_pos hhours]
    · rw [WrittenTime.millisecond, ofDigitChars_padded, hmillisecondsLength]
      exact Nat.mul_one c.milliseconds
  rw [← htext, t.read?_text, hhour, hminute, hsecond, hmillisecond]

theorem time_ne_empty (ticks : Int) : time ticks ≠ "" := by
  rw [time]
  split
  · decide
  · rw [ne_eq, ← String.toList_inj, String.toList_ofList, Clock.text_eq]
    simp [padded_ne_nil]

theorem ofClock_ofMilliseconds (ms : Nat) :
    ofClock (.ofMilliseconds ms) = min Integer.largest (ms * perMillisecond) := by
  have hparts : (ms / 1000 / 3600 * 3600 + ms / 1000 / 60 % 60 * 60 + ms / 1000 % 60) * 1000 + ms % 1000 = ms := by
    omega
  rw [ofClock, Clock.ofMilliseconds, hparts]

/-- The time that shows a number of ticks is read as the clock time that it was written for. -/
theorem read?_time {n : Nat} (hpos : 0 < n) (h : n ≤ Integer.largest) :
    Clock.read? (time n).toList = some (.ofMilliseconds (n / perMillisecond)) := by
  have hms : n / perMillisecond ≤ n := Nat.div_le_self n perMillisecond
  rw [time, if_neg (by omega), Int.toNat_natCast, String.toList_ofList]
  refine Clock.read?_text ?_ ?_ ?_ ?_ <;> simp only [Clock.ofMilliseconds] <;> omega

/-- The time that shows a number of ticks is read as that number, down to a whole millisecond. -/
theorem ofTime_time {n : Nat} (h : n ≤ Integer.largest) : ofTime (time n) = n / perMillisecond * perMillisecond := by
  have hlargest : n / perMillisecond * perMillisecond ≤ Integer.largest :=
    (Nat.div_mul_le_self n perMillisecond).trans h
  rcases Nat.eq_zero_or_pos n with rfl | hpos
  · decide
  · rw [ofTime, read?_time hpos h, Option.elim_some, ofClock_ofMilliseconds, Nat.min_eq_right hlargest]

/-- The ticks of a time are whole milliseconds, or the largest number. -/
theorem ofTime_mod_or (s : String) : ofTime s % perMillisecond = 0 ∨ ofTime s = Integer.largest := by
  rw [ofTime]
  cases Clock.read? s.toList with
  | none => exact .inl rfl
  | some c =>
    rw [Option.elim_some, ofClock]
    generalize ((c.hours * 3600 + c.minutes * 60 + c.seconds) * 1000 + c.milliseconds) = ms
    rcases Nat.le_total Integer.largest (ms * perMillisecond) with hle | hle
    · exact .inr (Nat.min_eq_left hle)
    · rw [Nat.min_eq_right hle]
      exact .inl (Nat.mul_mod_left ms perMillisecond)

/-- A time that shows the ticks of a time is read as those ticks, unless they are the largest number. -/
theorem ofTime_time_ofTime (s : String) : ofTime (time (ofTime s)) = ofTime s ↔ ofTime s ≠ Integer.largest := by
  have hlargest : Integer.largest % perMillisecond ≠ 0 := by decide
  have hread := ofTime_time (ofTime_le s)
  have hticks := ofTime_mod_or s
  have hdiv := Nat.div_add_mod' (ofTime s) perMillisecond
  constructor
  · intro heq hmax
    rw [heq, hmax] at hread
    rw [hmax] at hdiv
    omega
  · intro hne
    have hmod := hticks.resolve_right hne
    omega

/-- The time that shows the ticks of a time is shown again for its own ticks. -/
theorem time_ofTime_time_ofTime (s : String) : time (ofTime (time (ofTime s))) = time (ofTime s) := by
  by_cases hmax : ofTime s = Integer.largest
  · rw [hmax, ofTime_time (Nat.le_refl _)]
    decide
  · rw [(ofTime_time_ofTime s).mpr hmax]

/-- A number is no clock time. -/
theorem ofTime_repr (n : Nat) : ofTime n.repr = 0 := by
  obtain ⟨c, rest, hcs, hc⟩ := (Integer.isUnsigned_repr n).exists_cons
  have hread : digits? 1 (n.repr.toList ++ []).length (n.repr.toList ++ []) = some (n.repr.toList, []) :=
    digits?_append (Integer.all_isDigit_repr n) (by simp) (by simp [hcs]) (by simp)
  rw [List.append_nil] at hread
  have hstart : n.repr.toList.dropWhile Text.isBlank = n.repr.toList := by
    rw [hcs]
    exact List.dropWhile_cons_of_neg (by simp [Integer.isBlank_of_isDigit hc])
  have hnone : Clock.read? n.repr.toList = none := by
    simp only [Clock.read?, hstart, hread, after?, Option.bind_eq_bind, Option.bind_some, Option.bind_none]
  rw [ofTime, hnone, Option.elim_none]

end SegmentQuery.Ticks
