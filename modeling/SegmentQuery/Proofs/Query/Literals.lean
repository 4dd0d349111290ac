import SegmentQuery.Proofs.Query.StatementText
import SegmentQuery.Proofs.Value.Clock

namespace SegmentQuery

/-- The numbers that are written for the fields of a type. -/
def FieldType.Counts : FieldType → Int → Prop
  | .integer, n => n.natAbs ≤ Integer.largest
  | .ticks, n => -2 ^ 63 ≤ n ∧ n < 2 ^ 63
  | _, _ => False

/-- The tests in the form in which they are written for the fields of a type: texts that are compared, listed without
repeats or looked for between wildcards, and numbers that are compared or bounds of a range. -/
inductive Test.Written (type : FieldType) : Test → Prop where
  | text (htype : type = .text ∨ type = .enumerable) (c : Comparison) (content : String) :
      Written type (.compare c (.text content))
  | texts (htype : type = .text ∨ type = .enumerable) (negated : Bool) {first : String} {rest : List String}
      (hnodup : (first :: rest).Nodup) : Written type (.oneOf negated (.text first) (rest.map .text))
  | pattern (htype : type = .text ∨ type = .enumerable) (negated : Bool) (piece : String) :
      Written type (.like negated (.text ("%" ++ piece ++ "%")))
  | number {n : Int} (hn : type.Counts n) (c : Comparison) : Written type (.compare c (.number (Integer.text n)))
  | range {low high : Int} (hlow : type.Counts low) (hhigh : type.Counts high) :
      Written type (.between (.number (Integer.text low)) (.number (Integer.text high)))

/-- A literal that stays: on a time, only whole milliseconds. -/
def Literal.Kept (type : FieldType) : Literal → Prop
  | .number digits => type = .ticks → ∃ ms : Nat, digits = (ms * Ticks.perMillisecond).repr
  | _ => True

/-- A test whose literals stay: no pattern for nothing, and no times but whole milliseconds. -/
def Test.Kept (type : FieldType) : Test → Prop
  | .like _ pattern => pattern ≠ .text "%%"
  | .between low high => low.Kept type ∧ high.Kept type
  | .compare _ value => value.Kept type
  | _ => True

/-- The literal that is written after this one has been read: ticks are cut down to whole milliseconds, and to zero if
they are negative. -/
def Literal.rewritten (type : FieldType) : Literal → Literal
  | .number digits =>
    if type = .ticks then
      .number ((Integer.ofText digits).toNat / Ticks.perMillisecond * Ticks.perMillisecond).repr
    else .number digits
  | l => l

/-- The test that is written after this one has been read. -/
def Test.rewritten (type : FieldType) : Test → Test
  | .like negated pattern => .like negated (if pattern = .text "%%" then .text "" else pattern)
  | .between low high => .between (low.rewritten type) (high.rewritten type)
  | .compare c value => .compare c (value.rewritten type)
  | test => test

/-- The ticks of the time that shows a number of ticks. -/
theorem Ticks.ofTime_time_eq {ticks : Int} (h : ticks.natAbs ≤ Integer.largest) :
    ofTime (time ticks) = ticks.toNat / perMillisecond * perMillisecond := by
  by_cases hpos : 0 ≤ ticks
  · obtain ⟨n, rfl⟩ := Int.eq_ofNat_of_zero_le hpos
    exact ofTime_time h
  · have htime : time ticks = unset := if_pos (by omega)
    have hzero : ticks.toNat = 0 := by omega
    rw [htime, hzero]
    decide

namespace Literal

variable {type : FieldType} {op : Operator} {n : Int}

/-- A number that has been read as the value of a condition is written again, down to whole milliseconds. -/
theorem written_value_number (hn : type.Counts n) :
    Value.written type op ((number (Integer.text n)).value type) = (number (Integer.text n)).rewritten type := by
  have hne := Integer.text_ne_empty n
  cases type with
  | integer => simp [value, Value.written, rewritten, hne, Integer.ofText_text hn]
  | ticks =>
    have hticks := Ticks.ofTime_time_eq (Integer.natAbs_ofText_le (Integer.text n))
    simp [value, Value.written, rewritten, Ticks.time_ne_empty, hticks]
  | text | enumerable | boolean => exact hn.elim

/-- In the range of its type a number stays exactly if it is no time or a whole number of milliseconds. -/
theorem rewritten_number_iff (hn : type.Counts n) :
    (number (Integer.text n)).rewritten type = number (Integer.text n) ↔ (number (Integer.text n)).Kept type := by
  by_cases htype : type = .ticks
  · subst htype
    have hrewritten : (number (Integer.text n)).rewritten .ticks =
        number ((Integer.ofText (Integer.text n)).toNat / Ticks.perMillisecond * Ticks.perMillisecond).repr := rfl
    rw [hrewritten, number.injEq, Kept]
    constructor
    · exact fun heq _ => ⟨_, heq.symm⟩
    · intro hkept
      obtain ⟨ms, hms⟩ := hkept rfl
      have heq : n = (ms * Ticks.perMillisecond : Nat) := Integer.text_inj.mp hms
      have hrange : ms * Ticks.perMillisecond ≤ Integer.largest := by
        have hlargest : Integer.largest = 2 ^ 63 - 1 := by decide
        have hlt := hn.2
        omega
      rw [heq, Integer.ofText_text (by rwa [Int.natAbs_natCast]), Int.toNat_natCast, Nat.mul_div_cancel _ (by decide)]
      rfl
  · simp [rewritten, Kept, htype]

end Literal

/-- A text that is looked for between wildcards is written as the same pattern again, unless there is no text. -/
theorem Value.written_pattern {type : FieldType} (htype : type = .text ∨ type = .enumerable) {op : Operator}
    (hop : op.isPattern = true) (piece : String) :
    written type op piece =
      if Literal.text ("%" ++ piece ++ "%") = .text "%%" then .text "" else .text ("%" ++ piece ++ "%") := by
  have hnothing : "%" ++ piece ++ "%" = "%%" ↔ piece = "" := by
    constructor
    · intro heq
      rw [← stripWildcards_wrap piece, heq]
      decide
    · rintro rfl
      decide
  by_cases hpiece : piece = ""
  · simp [written, hpiece]
  · rcases htype with rfl | rfl <;> simp [written, hpiece, hnothing, hop]

/-- Outside of patterns a text is written as it is. -/
theorem Value.written_text {type : FieldType} (htype : type = .text ∨ type = .enumerable) {op : Operator}
    (hop : op.isPattern = false) (content : String) : written type op content = .text content := by
  by_cases hcontent : content = ""
  · simp [written, hcontent]
  · rcases htype with rfl | rfl <;> simp [written, hcontent, hop]

/-- The condition that a written test makes is written as the test with its literals as they are written again. -/
theorem Condition.test?_ofTest {field : String} {test : Test} (h : test.Written (Schema.typeOf field)) (id : UInt64) :
    (ofTest id field test).test? = some (test.rewritten (Schema.typeOf field)) := by
  have htypeOf := Schema.typeOf_canonical field
  cases h with
  | text htype c content =>
    have hwritten := Value.written_text htype (rfl : (Operator.compare c).isPattern = false) content
    simp [ofTest, plain, withValue, test?, htypeOf, hwritten, Literal.value, Test.rewritten, Literal.rewritten]
  | @texts htype negated first rest hnodup =>
    have hvalues : distinct ((Literal.text first :: rest.map .text).map (Literal.value (Schema.typeOf field))) =
        first :: rest := by
      simpa [Literal.value, Function.comp_def] using distinct_of_nodup hnodup
    cases negated with
    | false =>
      have hwritten := Value.written_text htype (rfl : Operator.oneOf.isPattern = false)
      simp only [ofTest, plain, withValues, hvalues]
      simp [Operator.negatedIf, test?, htypeOf, hwritten, Test.rewritten]
    | true =>
      have hwritten := Value.written_text htype (rfl : Operator.notOneOf.isPattern = false)
      simp only [ofTest, plain, withValues, hvalues]
      simp [Operator.negatedIf, test?, htypeOf, hwritten, Test.rewritten]
  | pattern htype negated piece =>
    have hstrip := Value.stripWildcards_wrap piece
    cases negated with
    | false =>
      have hwritten := Value.written_pattern htype (rfl : Operator.like.isPattern = true) piece
      simp [ofTest, plain, withValue, Operator.negatedIf, test?, htypeOf, Literal.raw, hstrip, hwritten,
        Test.rewritten]
    | true =>
      have hwritten := Value.written_pattern htype (rfl : Operator.notLike.isPattern = true) piece
      simp [ofTest, plain, withValue, Operator.negatedIf, test?, htypeOf, Literal.raw, hstrip, hwritten,
        Test.rewritten]
  | number hn c =>
    simp [ofTest, plain, withValue, test?, htypeOf, Literal.written_value_number hn, Test.rewritten]
  | range hlow hhigh =>
    simp [ofTest, plain, withRange, test?, htypeOf, Literal.written_value_number hlow,
      Literal.written_value_number hhigh, Test.rewritten]

namespace Test

variable {type : FieldType} {test : Test}

/-- The literals of a written test are tokens of their own. -/
theorem Written.lexable (h : test.Written type) : ∀ l ∈ test.literals, l.token.Lexable := by
  cases h with
  | text | pattern => simp [literals, Literal.token, Token.Lexable]
  | texts => simp [literals, Literal.token, Token.Lexable]
  | number => simp [literals, Literal.token, Token.Lexable, Integer.isNumeral_text]
  | range => simp [literals, Literal.token, Token.Lexable, Integer.isNumeral_text]

/-- A written test is written again as it is exactly if its literals stay. -/
theorem Written.rewritten_eq_iff (h : test.Written type) : test.rewritten type = test ↔ test.Kept type := by
  cases h with
  | text => simp [rewritten, Literal.rewritten, Test.Kept, Literal.Kept]
  | texts => simp [rewritten, Test.Kept]
  | pattern htype negated piece =>
    rw [rewritten, Test.Kept, like.injEq]
    by_cases hnothing : Literal.text ("%" ++ piece ++ "%") = .text "%%"
    · simp [hnothing]
    · simp [hnothing]
  | number hn c => simp [rewritten, Test.Kept, Literal.rewritten_number_iff hn]
  | range hlow hhigh =>
    simp [rewritten, Test.Kept, Literal.rewritten_number_iff hlow, Literal.rewritten_number_iff hhigh]

end Test

/-- The text that asks for all columns where a field passes a test. -/
def Test.lines (test : Test) (field : String) : String :=
  "SELECT * FROM MediaSegments\nWHERE " ++ (field ++ " " ++ test.text)

/-- The statement that asks for all columns where a field passes a test. -/
def Statement.ofTest (field : String) (test : Test) : Statement :=
  ⟨.all, Schema.table, some (.conjunction (.term (.condition field test))), none, none⟩

namespace Statement

variable {field : String} {test other : Test}

theorem text_ofTest (field : String) (test : Test) : (ofTest field test).text = test.lines field := by
  have htext : (ofTest field test).text = "\n".intercalate
      ["SELECT " ++ "*" ++ " FROM " ++ Schema.table, "WHERE " ++ (field ++ " " ++ test.text)] := rfl
  have hstart : "SELECT " ++ "*" ++ " FROM " ++ Schema.table ++ "\n" ++ "WHERE " =
      "SELECT * FROM MediaSegments\nWHERE " := by decide
  rw [htext, String.intercalate_cons_cons, String.intercalate_singleton, ← String.append_assoc, hstart]
  rfl

/-- The text of a statement of one condition is scanned to its tokens. -/
theorem scan_lines (hfield : Token.isName field = true) (h : ∀ l ∈ test.literals, l.token.Lexable) :
    Token.scan (test.lines field).toList = (ofTest field test).tokens := by
  have hname : Token.Spells field [.identifier field] := Token.spells_display (t := .identifier field) hfield
  have htable : Token.Spells Schema.table [.identifier Schema.table] :=
    Token.spells_display (t := .identifier Schema.table) (by decide : Token.isName Schema.table = true)
  have hstar : Token.Spells "*" [.star] := Token.spells_display (t := .star) trivial
  have hselect : Token.Spells ("SELECT " ++ "*" ++ " FROM " ++ Schema.table)
      [.keyword .SELECT, .star, .keyword .FROM, .identifier Schema.table] :=
    ((Token.leads_keyword .SELECT).append_spells hstar).separate (Token.separates_keyword .FROM) htable
  have hwhere : Token.Spells ("WHERE " ++ (field ++ " " ++ test.text))
      (.keyword .WHERE :: .identifier field :: test.tokens) :=
    (Token.leads_keyword .WHERE).append_spells (hname.separate Token.separates_space (Test.spells_text h))
  have htokens : (ofTest field test).tokens = [.keyword .SELECT, .star, .keyword .FROM, .identifier Schema.table] ++
      .keyword .WHERE :: .identifier field :: test.tokens := by
    simp [tokens, ofTest, ColumnList.tokens, filterTokens, limitTokens, Disjunction.tokens, Conjunction.tokens,
      Term.tokens]
  rw [htokens, ← text_ofTest]
  exact (hselect.lines hwhere.inParts).scan_eq

theorem everyComparison_ofTest (field : String) (test : Test) :
    (ofTest field test).EveryComparison Comparison.Trivial := by
  rintro _ ⟨⟩
  trivial

/-- Different tests of a field have different texts. -/
theorem lines_inj (hfield : Token.isName field = true) (htest : ∀ l ∈ test.literals, l.token.Lexable)
    (hother : ∀ l ∈ other.literals, l.token.Lexable) : test.lines field = other.lines field ↔ test = other := by
  constructor
  · intro hlines
    have htokens : (ofTest field test).tokens = (ofTest field other).tokens := by
      rw [← scan_lines hfield htest, ← scan_lines hfield hother, hlines]
    cases eq_of_tokens_eq (everyComparison_ofTest field test) (everyComparison_ofTest field other) htokens
    rfl
  · rintro rfl
    rfl

/-- The query of a statement of one condition is written with the literals as they are written again. -/
theorem text_resolve_ofTest (hcanonical : Schema.canonical field = field)
    (hwritten : test.Written (Schema.typeOf field)) (ids : IdSource) :
    ((ofTest field test).resolve ids).1.text = (test.rewritten (Schema.typeOf field)).lines field := by
  have hresolve : ((ofTest field test).resolve ids).1 =
      { Query.everything with items := [.condition (.ofTest ids.next field test)] } := rfl
  have hfield : (Condition.ofTest ids.next field test).field = field :=
    (Condition.field_ofTest ids.next field test).trans hcanonical
  have hterm : (Condition.ofTest ids.next field test).term =
      .condition field (test.rewritten (Schema.typeOf field)) := by
    rw [Condition.term, Condition.test?_ofTest hwritten, hfield]
  rw [Query.text_statement, hresolve, ← text_ofTest, ofTest, ← hterm]
  rfl

end Statement

namespace Query

variable {field : String} {test : Test}

/-- A statement of one condition is read, and written again with its literals as they are shown. It stays as it is
exactly if it asks for no pattern of nothing, and for no times but whole milliseconds. -/
theorem text_of_read_test (hname : Token.isName field = true) (hcanonical : Schema.canonical field = field)
    (hwritten : test.Written (Schema.typeOf field)) (ids : IdSource) :
    ∃ q ids', read (test.lines field) ids = (.ok q, ids') ∧
      q.text = (test.rewritten (Schema.typeOf field)).lines field ∧
      (q.text = test.lines field ↔ test.Kept (Schema.typeOf field)) := by
  have hlexable := hwritten.lexable
  have hread : read (test.lines field) ids =
      (.ok ((Statement.ofTest field test).resolve ids).1, ((Statement.ofTest field test).resolve ids).2) := by
    simp only [read, Statement.scan_lines hname hlexable,
      Statement.ofTokens_tokens (Statement.everyComparison_ofTest field test)]
  have htext := Statement.text_resolve_ofTest hcanonical hwritten ids
  have hrewritten := Condition.lexable_of_test? (Condition.test?_ofTest hwritten ids.next)
  refine ⟨_, _, hread, htext, ?_⟩
  rw [htext, Statement.lines_inj hname hrewritten hlexable]
  exact hwritten.rewritten_eq_iff

/-- A range of times that is not set at its start and ends within a millisecond. -/
theorem text_of_read_test_of_times : ∃ q ids',
    read "SELECT * FROM MediaSegments\nWHERE IntroStartTicks BETWEEN -1 AND 37234567890" .initial = (.ok q, ids') ∧
      q.text = "SELECT * FROM MediaSegments\nWHERE IntroStartTicks BETWEEN 0 AND 37234560000" := by
  have htype : Schema.typeOf "IntroStartTicks" = .ticks := by decide
  have hwritten : Test.Written .ticks
      (.between (.number (Integer.text (-1))) (.number (Integer.text 37234567890))) :=
    .range (by simp [FieldType.Counts]) (by simp [FieldType.Counts])
  rw [← htype] at hwritten
  obtain ⟨q, ids', hread, htext, -⟩ := text_of_read_test (by decide) (by decide) hwritten .initial
  exact ⟨q, ids', hread, htext⟩

/-- Ticks within a millisecond, ticks before the start, and a pattern of nothing do not stay. -/
theorem text_of_read_test_of_losses :
    (ofText "SELECT * FROM MediaSegments\nWHERE IntroStartTicks > 12345").toOption.map text =
        some "SELECT * FROM MediaSegments\nWHERE IntroStartTicks > 10000" ∧
      (ofText "SELECT * FROM MediaSegments\nWHERE IntroStartTicks > -1").toOption.map text =
        some "SELECT * FROM MediaSegments\nWHERE IntroStartTicks > 0" ∧
      (ofText "SELECT * FROM MediaSegments\nWHERE ItemName LIKE '%%'").toOption.map text =
        some "SELECT * FROM MediaSegments\nWHERE ItemName LIKE ''" := by
  refine ⟨?_, ?_, ?_⟩ <;> decide +kernel

end Query

end SegmentQuery
