import SegmentQuery.Proofs.Query.Tidy
import SegmentQuery.Proofs.Value.Reread

namespace SegmentQuery

namespace Condition

/-- Outside of patterns, values that have been read back are read back as themselves. -/
private theorem reread_reread_of_isPattern {op : Operator} (hop : op.isPattern = false) (type : FieldType)
    (value : String) : Value.reread type op (Value.reread type op value) = Value.reread type op value := by
  refine Value.reread_reread_iff.mpr fun hpattern => ?_
  rw [hop] at hpattern
  cases hpattern

/-- A condition that has been read back is read back as it is, unless it is a pattern on a time, for anything but
nothing and `0`. -/
theorem reread_reread_iff {c : Condition} : c.reread.reread = c.reread ↔
    (c.operator.isPattern = true → Schema.typeOf c.field = .ticks → c.reread.value = "" ∨ c.reread.value = "0") := by
  obtain ⟨id, field, op, value, upper, values⟩ := c
  by_cases hop : op.isPattern = true
  · cases op with
    | like | notLike =>
      simp [reread, clearUnused, Operator.isNullCheck, Operator.isList, Operator.isPattern, Schema.canonical_canonical,
        Schema.typeOf_canonical, Value.reread_reread_iff]
    | _ => cases hop
  · have hvalue := reread_reread_of_isPattern (Bool.eq_false_iff.mpr hop) (Schema.typeOf field)
    have hlist : (distinct (values.map (Value.reread (Schema.typeOf field) op))).map
        (Value.reread (Schema.typeOf field) op) = distinct (values.map (Value.reread (Schema.typeOf field) op)) := by
      refine (List.map_congr_left fun v hv => ?_).trans (List.map_id _)
      obtain ⟨w, -, rfl⟩ := List.mem_map.mp (mem_distinct.mp hv)
      exact hvalue w
    refine iff_of_true ?_ fun hpattern => absurd hpattern hop
    cases op with
    | compare | between | isNull | isNotNull =>
      simp [reread, clearUnused, Operator.isNullCheck, Operator.isList, Schema.canonical_canonical,
        Schema.typeOf_canonical, hvalue]
    | oneOf | notOneOf =>
      simp [reread, clearUnused, Operator.isNullCheck, Operator.isList, Schema.canonical_canonical,
        Schema.typeOf_canonical, hlist, distinct_of_nodup (nodup_distinct _)]
    | like | notLike => exact absurd rfl hop

theorem id_reread (c : Condition) : c.reread.id = c.id := by
  obtain ⟨id, field, op, value, upper, values⟩ := c
  cases op <;> rfl

theorem field_reread (c : Condition) : c.reread.field = Schema.canonical c.field := by
  obtain ⟨id, field, op, value, upper, values⟩ := c
  cases op <;> rfl

theorem operator_reread (c : Condition) : c.reread.operator = c.operator := by
  obtain ⟨id, field, op, value, upper, values⟩ := c
  cases op <;> rfl

theorem anonymous_reread (c : Condition) : c.reread.anonymous = c.anonymous.reread := by
  obtain ⟨id, field, op, value, upper, values⟩ := c
  cases op <;> rfl

/-- A condition that has been read back but for its id has been read back from a condition with its id. -/
theorem exists_eq_reread {c d : Condition} (h : c.anonymous = d.reread.anonymous) :
    ∃ d' : Condition, c = d'.reread := by
  have hid : ({ d with id := c.id } : Condition).reread.id = c.id := id_reread _
  refine ⟨{ d with id := c.id }, eq_of_anonymous hid.symm ?_⟩
  rw [h, anonymous_reread, anonymous_reread]
  rfl

theorem anonymous_reread_iff {c : Condition} : c.reread.anonymous = c.anonymous ↔ c.reread = c :=
  ⟨eq_of_anonymous c.id_reread, congrArg anonymous⟩

end Condition

namespace Query

variable {q : Query}

/-- The conditions of a query that has been read come back one by one. -/
theorem Tidy.anonymousConditions_read (h : q.Tidy) (ids : IdSource) :
    Filters.anonymousConditions (q.statement.resolve ids).1.items =
      (Filters.conditions q.items).map fun c => c.reread.anonymous := by
  have hasks : ∀ c ∈ Filters.conditions q.items, c.asksNothing = false := fun c hc =>
    (h.conditions c hc).asksNothing_eq_false
  have hexcluded : q.statement.EveryComparison Comparison.Excluded := by
    refine everyComparison_statement fun c hc hnone => ?_
    rw [hasks c hc] at hnone
    cases hnone
  have hall : (Filters.conditions q.items).filter (fun c => !c.asksNothing) = Filters.conditions q.items :=
    List.filter_eq_self.mpr fun c hc => by rw [hasks c hc]; rfl
  rw [Statement.anonymousConditions_of_excluded hexcluded, conditions_statement, Condition.rereadAll, hall]

/-- What the text of a query is read as is read, and is read back with the same conditions, if no pattern on a time is
for anything but nothing and `0`; otherwise some condition changes. -/
theorem conditions_read_again (h : q.Named) (ids again : IdSource) : ∃ r r' ids' ids'',
    read q.text ids = (.ok r, ids') ∧ read r.text again = (.ok r', ids'') ∧
      (Filters.anonymousConditions r'.items = Filters.anonymousConditions r.items ↔
        ∀ c ∈ Filters.conditions r.items, c.operator.isPattern = true → Schema.typeOf c.field = .ticks →
          c.value = "" ∨ c.value = "0") := by
  have hread := read_text h ids
  have htidy := tidy_of_read hread
  refine ⟨_, _, _, _, hread, read_text htidy.named again, ?_⟩
  rw [htidy.anonymousConditions_read, Filters.anonymousConditions, List.map_inj_left]
  refine forall₂_congr fun c hc => ?_
  have hmem := (q.statement.anonymousConditions_sublist ids).mem (List.mem_map_of_mem hc)
  rw [conditions_statement] at hmem
  obtain ⟨d, -, hd⟩ := List.mem_map.mp hmem
  obtain ⟨d, rfl⟩ := Condition.exists_eq_reread hd.symm
  rw [Condition.anonymous_reread_iff, Condition.reread_reread_iff, Condition.operator_reread, Condition.field_reread,
    Schema.typeOf_canonical]

/-- A pattern on a time is written as a number of ticks, is read as that number, and is then written as `0`. -/
theorem conditions_read_again_of_pattern :
    let q : Query := { everything with items := [.condition ⟨1, "IntroStartTicks", .like, "01:02:03.456", "", []⟩] }
    ∃ r r' ids' ids'', read q.text .initial = (.ok r, ids') ∧ read r.text .initial = (.ok r', ids'') ∧
      Filters.conditions r.items = [⟨1, "IntroStartTicks", .like, "37234560000", "", []⟩] ∧
      Filters.anonymousConditions r'.items ≠ Filters.anonymousConditions r.items := by
  intro q
  have hnamed : q.Named := ⟨by decide, by decide, .inl rfl⟩
  have htext : q.text = "SELECT * FROM MediaSegments\nWHERE IntroStartTicks LIKE 37234560000" := by decide
  have hconditions : (ofText "SELECT * FROM MediaSegments\nWHERE IntroStartTicks LIKE 37234560000").toOption.map
      (fun r => Filters.conditions r.items) = some [⟨1, "IntroStartTicks", .like, "37234560000", "", []⟩] := by decide +kernel
  obtain ⟨r, r', ids', ids'', hread, hagain, hiff⟩ := conditions_read_again hnamed .initial .initial
  rw [← htext, ofText, hread] at hconditions
  have hitems := Option.some.inj hconditions
  refine ⟨r, r', ids', ids'', hread, hagain, hitems, fun heq => ?_⟩
  have hvalue := hiff.mp heq ⟨1, "IntroStartTicks", .like, "37234560000", "", []⟩ (by simp [hitems]) rfl rfl
  exact absurd hvalue (by decide)

end Query

end SegmentQuery
