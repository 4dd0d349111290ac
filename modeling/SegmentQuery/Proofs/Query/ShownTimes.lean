import SegmentQuery.Proofs.Query.Literals
import SegmentQuery.Proofs.Query.Pieces
import SegmentQuery.Proofs.Query.Tidy
import SegmentQuery.Proofs.Value.SignedTicks

namespace SegmentQuery

namespace Ticks

/-- Some ticks, but less than a millisecond. -/
def UnderMillisecond (n : Int) : Prop := 0 < n ∧ n < perMillisecond

/-- Ticks under a millisecond are shown as zeros. -/
theorem time_of_underMillisecond {n : Int} (h : UnderMillisecond n) : time n = "00:00:00.000" := by
  obtain ⟨hpos, hlt⟩ := h
  have hzeros : String.ofList (Clock.ofMilliseconds 0).text = "00:00:00.000" := by decide
  have hnone : n.toNat / perMillisecond = 0 := Nat.div_eq_of_lt (by omega)
  rw [time, if_neg (by omega), hnone, hzeros]

/-- Zeros count as no ticks. -/
theorem time_ofTime_time_of_underMillisecond {n : Int} (h : UnderMillisecond n) : time (ofTime (time n)) = unset := by
  have hzero : ofTime "00:00:00.000" = 0 := by decide
  rw [time_of_underMillisecond h, hzero]
  rfl

/-- A whole number of milliseconds is read from the time that is shown, and the rest is not shown. -/
theorem time_ofTime_time {n : Int} (hn : n ≤ Integer.largest) (h : ¬ UnderMillisecond n) :
    time (ofTime (time n)) = time n := by
  by_cases hpos : 0 < n
  · obtain ⟨m, rfl⟩ := Int.eq_ofNat_of_zero_le hpos.le
    have hms : 0 < m / perMillisecond := by
      have hwhole : ¬ (m : Int) < perMillisecond := fun hlt => h ⟨hpos, hlt⟩
      exact Nat.div_pos (by omega) (by decide)
    have hticks : 0 < m / perMillisecond * perMillisecond := Nat.mul_pos hms (by decide)
    rw [ofTime_time (by omega), time, if_neg (by omega), Int.toNat_natCast, Nat.mul_div_cancel _ (by decide), time,
      if_neg (by omega), Int.toNat_natCast]
  -- The unset time counts as no ticks, and no ticks are shown as the unset time.
  · have hunset : time n = unset := if_pos (by omega)
    rw [hunset]
    decide

theorem time_ofTime_time_iff {n : Int} (hn : n ≤ Integer.largest) :
    time (ofTime (time n)) = time n ↔ ¬ UnderMillisecond n := by
  refine ⟨fun heq h => ?_, time_ofTime_time hn⟩
  rw [time_ofTime_time_of_underMillisecond h, time_of_underMillisecond h] at heq
  exact absurd heq (by decide)

end Ticks

/-- Outside of patterns, a condition shows the values of the literals of its test. -/
theorem Condition.value_mem_shownValues {test : Test} {l : Literal} (hl : l ∈ test.literals)
    (htest : ∀ negated pattern, test ≠ .like negated pattern) (id : UInt64) (field : String) :
    l.value (Schema.typeOf field) ∈ (ofTest id field test).shownValues := by
  cases test with
  | isNull negated => cases hl
  | oneOf negated first rest =>
    have hmem : l.value (Schema.typeOf field) ∈ distinct ((first :: rest).map (Literal.value (Schema.typeOf field))) :=
      mem_distinct.mpr (List.mem_map_of_mem hl)
    cases negated <;> exact hmem
  | like negated pattern => exact absurd rfl (htest negated pattern)
  | between low high =>
    have hshown : (ofTest id field (.between low high)).shownValues =
        [low, high].map (Literal.value (Schema.typeOf field)) := rfl
    rw [hshown]
    exact List.mem_map_of_mem hl
  | compare c value =>
    have hshown : (ofTest id field (.compare c value)).shownValues =
        [value].map (Literal.value (Schema.typeOf field)) := rfl
    rw [hshown]
    exact List.mem_map_of_mem hl

/-- The condition that a field is equal to a value. -/
def Condition.equalTo (id : UInt64) (field value : String) : Condition :=
  (plain id field (.compare .eq)).withValue value

namespace Query

/-- The query for all rows that pass a condition. -/
def asking (c : Condition) : Query := { everything with items := [.condition c] }

theorem read_lines {field : String} {test : Test} (hfield : Token.isName field = true)
    (htest : ∀ l ∈ test.literals, l.token.Lexable) (ids : IdSource) :
    read (test.lines field) ids = (.ok (asking (.ofTest ids.next field test)), ids.advance) := by
  simp only [read, Statement.scan_lines hfield htest,
    Statement.ofTokens_tokens (Statement.everyComparison_ofTest field test)]
  rfl

theorem text_asking {c : Condition} {test : Test} (h : c.test? = some test) : (asking c).text = test.lines c.field := by
  have hterm : c.term = .condition c.field test := by rw [Condition.term, h]
  rw [text_statement, ← Statement.text_ofTest, Statement.ofTest, ← hterm]
  rfl

/-- The text of a query of one condition is read as the query of the condition that its test makes. -/
theorem read_text_asking {c : Condition} {test : Test} (hfield : Token.isName c.field = true) (h : c.test? = some test)
    (ids : IdSource) :
    read (asking c).text ids = (.ok (asking (.ofTest ids.next c.field test)), ids.advance) := by
  rw [text_asking h, read_lines hfield (Condition.lexable_of_test? h)]

/-- A condition on a time is read with the time that is shown for the ticks of its own. -/
theorem read_text_equalTo {field : String} (hfield : Token.isName field = true) (htype : Schema.typeOf field = .ticks)
    (id : UInt64) (ticks : Int) (ids : IdSource) :
    read (asking (.equalTo id field (Ticks.time ticks))).text ids =
      (.ok (asking (.equalTo ids.next (Schema.canonical field) (Ticks.time (Ticks.ofTime (Ticks.time ticks))))),
        ids.advance) := by
  have htest : (Condition.equalTo id field (Ticks.time ticks)).test? =
      some (.compare .eq (Value.written (Schema.typeOf field) (.compare .eq) (Ticks.time ticks))) := rfl
  have hvalue : (Value.written (Schema.typeOf field) (.compare .eq) (Ticks.time ticks)).value (Schema.typeOf field) =
      Ticks.time (Ticks.ofTime (Ticks.time ticks)) := by
    rw [htype]
    calc
      (Value.written .ticks (.compare .eq) (Ticks.time ticks)).value .ticks =
          Value.reread .ticks (.compare .eq) (Ticks.time ticks) := by
        rw [Value.reread_eq]
        rfl
      _ = Ticks.time (Ticks.ofTime (Ticks.time ticks)) := Value.reread_of_ne (Ticks.time_ne_empty ticks)
  rw [read_text_asking hfield htest, ← hvalue]
  rfl

/-- Every condition that is read from a text is made by a field and a test that stand in the text. -/
theorem exists_of_mem_conditions_of_read {text : String} {ids ids' : IdSource} {q : Query}
    (h : read text ids = (.ok q, ids')) {c : Condition} (hc : c ∈ Filters.conditions q.items) :
    ∃ field test, Token.isName field = true ∧ c = .ofTest c.id field test ∧
      .identifier field :: test.tokens <:+: Token.scan text.toList := by
  obtain ⟨s, ⟨-, htokens⟩, rfl⟩ := exists_derives_of_read h
  obtain ⟨field, test, htest, hstands⟩ := Statement.exists_of_mem_resolve hc
  rw [htokens] at hstands
  exact ⟨field, test, Token.lexable_of_mem_scan (hstands.subset (List.mem_cons_self ..)), htest, hstands⟩

/-- The time that is shown for ticks, in a condition on a time that is written and read by itself: it stays, except for
less than a millisecond, which becomes no time at all. -/
theorem read_text_equalTo_time {field : String} (hfield : Token.isName field = true)
    (hcanonical : Schema.canonical field = field) (htype : Schema.typeOf field = .ticks) {n : Int}
    (hn : n ≤ Integer.largest) (id : UInt64) (ids : IdSource) :
    ∃ shown, read (asking (.equalTo id field (Ticks.time n))).text ids =
        (.ok (asking (.equalTo ids.next field shown)), ids.advance) ∧
      (shown = Ticks.time n ↔ ¬ Ticks.UnderMillisecond n) ∧ (Ticks.UnderMillisecond n → shown = Ticks.unset) := by
  have hread := read_text_equalTo hfield htype id n ids
  rw [hcanonical] at hread
  exact ⟨_, hread, Ticks.time_ofTime_time_iff hn, Ticks.time_ofTime_time_of_underMillisecond⟩

/-- The time that is shown for a number of ticks stays when it is read as ticks and shown again, except for less than a
millisecond, which is shown as zeros first and then as no time at all. So it is with every number on a time in a text
that is read, outside of patterns: its time is in the condition, and stays in a condition that asks for it, or becomes
no time. A text of one condition is read in any case. -/
theorem shown_time_read_again :
    (∀ n : Int64, Ticks.time (Ticks.ofTime (Ticks.time n.toInt)) = Ticks.time n.toInt ↔
        ¬ Ticks.UnderMillisecond n.toInt) ∧
      (∀ n : Int64, Ticks.UnderMillisecond n.toInt →
        Ticks.time n.toInt = "00:00:00.000" ∧ Ticks.time (Ticks.ofTime (Ticks.time n.toInt)) = Ticks.unset) ∧
      (∀ text ids q ids', read text ids = (.ok q, ids') → ∀ c ∈ Filters.conditions q.items, ∃ field test,
        c = .ofTest c.id field test ∧ .identifier field :: test.tokens <:+: Token.scan text.toList ∧
          (Schema.typeOf field = .ticks → (∀ negated pattern, test ≠ .like negated pattern) →
            ∀ digits, .number digits ∈ test.literals →
              Ticks.time (Integer.ofText digits) ∈ c.shownValues ∧ ∀ again : IdSource, ∃ shown,
                read (asking (.equalTo c.id c.field (Ticks.time (Integer.ofText digits)))).text again =
                    (.ok (asking (.equalTo again.next c.field shown)), again.advance) ∧
                  (shown = Ticks.time (Integer.ofText digits) ↔ ¬ Ticks.UnderMillisecond (Integer.ofText digits)) ∧
                  (Ticks.UnderMillisecond (Integer.ofText digits) → shown = Ticks.unset))) ∧
      (∀ field test ids, Token.isName field = true → (∀ l ∈ test.literals, l.token.Lexable) →
        read (test.lines field) ids = (.ok (asking (.ofTest ids.next field test)), ids.advance)) := by
  have hlargest (n : Int64) : n.toInt ≤ Integer.largest := by
    have hle := Ticks.toNat_toInt_le n
    omega
  refine ⟨fun n => Ticks.time_ofTime_time_iff (hlargest n), fun n h => ?_, fun text ids q ids' h c hc => ?_,
    fun field test ids hfield htest => read_lines hfield htest ids⟩
  · exact ⟨Ticks.time_of_underMillisecond h, Ticks.time_ofTime_time_of_underMillisecond h⟩
  · obtain ⟨field, test, hfield, hmade, hstands⟩ := exists_of_mem_conditions_of_read h hc
    refine ⟨field, test, hmade, hstands, fun htype htest digits hdigits => ?_⟩
    have hname : c.field = Schema.canonical field := by rw [hmade, Condition.field_ofTest]
    have hvalue : Ticks.time (Integer.ofText digits) = (Literal.number digits).value (Schema.typeOf field) := by
      rw [htype]
      rfl
    refine ⟨?_, fun again => ?_⟩
    · rw [hvalue, hmade]
      exact Condition.value_mem_shownValues hdigits htest c.id field
    · have hin := Integer.natAbs_ofText_le digits
      rw [hname]
      exact read_text_equalTo_time (Schema.isName_canonical hfield) (Schema.canonical_canonical field)
        ((Schema.typeOf_canonical field).trans htype) (by omega) c.id again

/-- A number with a fraction in a chain of conditions, shown down to its last whole millisecond. -/
theorem shown_time_read_again_of_fraction : ∃ q ids',
    read "SELECT * FROM MediaSegments WHERE HasIntro = 1 AND introstartticks > 37234567890.5" .initial =
        (.ok q, ids') ∧
      ∃ c ∈ Filters.conditions q.items, "01:02:03.456" ∈ c.shownValues ∧
        read (asking (.equalTo c.id "IntroStartTicks" "01:02:03.456")).text .initial =
          (.ok (asking (.equalTo 1 "IntroStartTicks" "01:02:03.456")), IdSource.initial.advance) := by
  obtain ⟨-, -, hreads, -⟩ := shown_time_read_again
  have hread : read "SELECT * FROM MediaSegments WHERE HasIntro = 1 AND introstartticks > 37234567890.5" .initial =
      (.ok { everything with items := [.condition ⟨1, "HasIntro", .compare .eq, "1", "", []⟩,
        .condition ⟨2, "IntroStartTicks", .compare .gt, "01:02:03.456", "", []⟩] }, ⟨3⟩) := by
    decide +kernel
  have htokens : Token.scan
      "SELECT * FROM MediaSegments WHERE HasIntro = 1 AND introstartticks > 37234567890.5".toList =
      [.keyword .SELECT, .star, .keyword .FROM, .identifier "MediaSegments", .keyword .WHERE, .identifier "HasIntro",
        .comparison .eq, .number "1", .keyword .AND, .identifier "introstartticks", .comparison .gt,
        .number "37234567890.5"] := by
    decide +kernel
  obtain ⟨field, test, hmade, hstands, hshown⟩ :=
    hreads _ _ _ _ hread ⟨2, "IntroStartTicks", .compare .gt, "01:02:03.456", "", []⟩ (by decide)
  -- Two tests stand in the text, and only one of them is made with this operator.
  have htest : field = "introstartticks" ∧ test = .compare .gt (.number "37234567890.5") := by
    rw [htokens] at hstands
    cases test with
    | compare c l =>
      have hop : Operator.compare .gt = .compare c := congrArg Condition.operator hmade
      cases hop
      cases l with
      | number digits => simpa [Test.tokens, Literal.token, List.infix_cons_iff] using hstands
      | text | word => simp [Test.tokens, Literal.token, List.infix_cons_iff] at hstands
    | oneOf negated => cases negated <;> simp [Test.tokens, Test.negation, List.infix_cons_iff] at hstands
    | like negated => cases negated <;> simp [Test.tokens, Test.negation, List.infix_cons_iff] at hstands
    | isNull | between => simp [Test.tokens, List.infix_cons_iff] at hstands
  obtain ⟨rfl, rfl⟩ := htest
  have hvalue : Ticks.time (Integer.ofText "37234567890.5") = "01:02:03.456" := by decide +kernel
  have hwhole : ¬ Ticks.UnderMillisecond (Integer.ofText "37234567890.5") := by
    rw [Ticks.UnderMillisecond]
    decide
  obtain ⟨hmem, hagain⟩ := hshown (by decide) (by simp) "37234567890.5" (List.mem_singleton_self _)
  obtain ⟨shown, htext, hstays, -⟩ := hagain .initial
  rw [hstays.mpr hwhole] at htext
  rw [hvalue] at hmem htext
  exact ⟨_, _, hread, _, by decide, hmem, htext⟩

/-- One tick is shown as zeros, and these as no time at all. -/
theorem shown_time_lost :
    Ticks.time (Ticks.ofTime (Ticks.time (1 : Int64).toInt)) ≠ Ticks.time (1 : Int64).toInt ∧
      ofText "SELECT * FROM MediaSegments\nWHERE IntroStartTicks = 1" =
        .ok (asking (.equalTo 1 "IntroStartTicks" "00:00:00.000")) ∧
      (asking (.equalTo 1 "IntroStartTicks" "00:00:00.000")).text =
        "SELECT * FROM MediaSegments\nWHERE IntroStartTicks = 0" ∧
      ofText "SELECT * FROM MediaSegments\nWHERE IntroStartTicks = 0" =
        .ok (asking (.equalTo 1 "IntroStartTicks" "--:--:--.---")) := by
  refine ⟨by decide, ?_, ?_, ?_⟩ <;> decide +kernel

end Query

end SegmentQuery
