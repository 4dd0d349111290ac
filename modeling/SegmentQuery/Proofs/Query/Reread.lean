import SegmentQuery.Proofs.Query.Statement
import SegmentQuery.Proofs.Statement.Conditions

namespace SegmentQuery

namespace Condition

/-- The condition that the text of a condition is read as. -/
def reread (c : Condition) : Condition :=
  let value := Value.reread (Schema.typeOf c.field) c.operator
  clearUnused { c with
    field := Schema.canonical c.field
    value := value c.value
    upper := value c.upper
    values := distinct (c.values.map value) }

/-- Outside of patterns a literal is read as the value that it has for its field type. -/
private theorem value_written {op : Operator} (hop : op.isPattern = false) (type : FieldType) :
    (fun value => (Value.written type op value).value type) = Value.reread type op := by
  funext value
  rw [Value.reread_eq, Literal.valueUnder, hop]
  simp

/-- In a pattern a literal is read without its wildcards. -/
private theorem stripWildcards_written {op : Operator} (hop : op.isPattern = true) (type : FieldType) :
    (fun value => Value.stripWildcards (Value.written type op value).raw) = Value.reread type op := by
  funext value
  rw [Value.reread_eq, Literal.valueUnder, hop]
  simp

private theorem map_value_written {op : Operator} (hop : op.isPattern = false) (type : FieldType)
    (values : List String) :
    (values.map (Value.written type op)).map (Literal.value type) = values.map (Value.reread type op) := by
  rw [List.map_map, ← value_written hop]
  rfl

/-- The test that a condition is written with makes the condition that is read back. -/
theorem ofTest_eq_reread {c : Condition} {test : Test} (h : c.test? = some test) :
    ofTest 0 c.field test = c.reread.anonymous := by
  obtain ⟨id, field, op, value, upper, values⟩ := c
  rw [reread]
  cases op with
  | compare k =>
    have hop : (Operator.compare k).isPattern = false := rfl
    cases h
    rw [← value_written hop]
    rfl
  | like =>
    have hop : Operator.like.isPattern = true := rfl
    cases h
    rw [← stripWildcards_written hop]
    rfl
  | notLike =>
    have hop : Operator.notLike.isPattern = true := rfl
    cases h
    rw [← stripWildcards_written hop]
    rfl
  | oneOf =>
    have hop : Operator.oneOf.isPattern = false := rfl
    cases values with
    | nil => cases h
    | cons first rest =>
      cases h
      rw [← map_value_written hop]
      rfl
  | notOneOf =>
    have hop : Operator.notOneOf.isPattern = false := rfl
    cases values with
    | nil => cases h
    | cons first rest =>
      cases h
      rw [← map_value_written hop]
      rfl
  | between =>
    have hop : Operator.between.isPattern = false := rfl
    cases h
    rw [← value_written hop]
    rfl
  | isNull | isNotNull =>
    cases h
    rfl

/-- The term of a condition holds always if the condition asks nothing, and else says what is read back. -/
theorem value_term {α : Type} [Truth α] (v : Condition → α) (c : Condition) :
    c.term.value v = if c.asksNothing then Truth.always else v c.reread.anonymous := by
  rw [term]
  cases htest : c.test? with
  | none =>
    rw [test?_eq_none.mp htest]
    rfl
  | some test =>
    rw [asksNothing_of_test? htest]
    exact congrArg v (ofTest_eq_reread htest)

/-- Conditions as they are read back, without those that ask nothing. -/
def rereadAll (cs : List Condition) : List Condition :=
  (cs.filter fun c => !c.asksNothing).map fun c => c.reread.anonymous

theorem rereadAll_append (cs ds : List Condition) : rereadAll (cs ++ ds) = rereadAll cs ++ rereadAll ds := by
  rw [rereadAll, List.filter_append, List.map_append]
  rfl

theorem conditions_term (c : Condition) : c.term.conditions = rereadAll [c] := by
  rw [term, rereadAll]
  cases htest : c.test? with
  | none =>
    have hasks := test?_eq_none.mp htest
    simp [hasks, Term.conditions]
  | some test =>
    have hasks := asksNothing_of_test? htest
    simp [hasks, Term.conditions, ofTest_eq_reread htest]

end Condition

namespace Connector

/-- Joined terms say what the terms say, joined. -/
theorem value_of_joinTerms? {α : Type} [Truth α] (v : Condition → α) {k : Connector} {ts : List Term} {d : Disjunction}
    (h : k.joinTerms? ts = some d) : d.value v = k.value (ts.map (Term.value v)) := by
  refine joinTerms?_induction (P := fun ts d => d.value v = k.value (ts.map (Term.value v))) (fun t => rfl) ?_ ?_ h
  · rintro rfl ts c t hts ih
    rw [List.map_append, List.map_singleton, value_snoc _ (by simpa using hts), ← ih]
    rfl
  · rintro rfl ts d t hts ih
    rw [List.map_append, List.map_singleton, value_snoc _ (by simpa using hts), ← ih]
    rfl

theorem conditions_of_joinTerms? {k : Connector} {ts : List Term} {d : Disjunction} (h : k.joinTerms? ts = some d) :
    d.conditions = ts.flatMap Term.conditions := by
  refine joinTerms?_induction (P := fun ts d => d.conditions = ts.flatMap Term.conditions) (fun t => ?_) ?_ ?_ h
  · simp [Disjunction.conditions, Conjunction.conditions]
  · intro _ ts c t _ ih
    rw [List.flatMap_append, List.flatMap_singleton, ← ih]
    rfl
  · intro _ ts d t _ ih
    rw [List.flatMap_append, List.flatMap_singleton, ← ih]
    rfl

end Connector

section

variable {α : Type} [Truth α]

mutual

/-- The value of a filter with its conditions as they are read back. A condition that asks nothing holds always. A group
has no value if there are no conditions in it. -/
def Filter.writtenValues (v : Condition → α) : Filter → List α
  | .condition c => [if c.asksNothing then Truth.always else v c.reread.anonymous]
  | .group _ k children =>
    if Filters.conditions children = [] then [] else [k.value (Filters.writtenValues v children)]

def Filters.writtenValues (v : Condition → α) : List Filter → List α
  | [] => []
  | f :: rest => f.writtenValues v ++ Filters.writtenValues v rest

end

mutual

/-- The term of a filter has the value of the filter. -/
theorem Filter.writtenValues_eq (v : Condition → α) : ∀ f : Filter,
    f.writtenValues v = (f.term?.map (Term.value v)).toList
  | .condition c => by
    rw [Filter.writtenValues, ← c.value_term v]
    rfl
  | .group id k children => by
    rw [Filter.writtenValues, Filters.writtenValues_eq v children, Filter.term?]
    cases hd : k.joinTerms? (Filters.terms children) with
    | none =>
      have hchildren := (Filters.terms_eq_nil children).mp (Connector.joinTerms?_eq_none.mp hd)
      rw [if_pos hchildren]
      rfl
    | some d =>
      have hchildren : Filters.conditions children ≠ [] := by
        intro hnil
        rw [Connector.joinTerms?_eq_none.mpr ((Filters.terms_eq_nil children).mpr hnil)] at hd
        cases hd
      rw [if_neg hchildren, ← Connector.value_of_joinTerms? v hd]
      rfl

theorem Filters.writtenValues_eq (v : Condition → α) : ∀ items : List Filter,
    Filters.writtenValues v items = (Filters.terms items).map (Term.value v)
  | [] => rfl
  | f :: rest => by
    rw [Filters.writtenValues, Filters.terms, List.map_append, Filter.writtenValues_eq v f,
      Filters.writtenValues_eq v rest]
    cases f.term? <;> rfl

end

end

mutual

/-- The terms of filters have the conditions of the filters, as they are read back. -/
theorem Filter.flatMap_conditions_term? : ∀ f : Filter,
    f.term?.toList.flatMap Term.conditions = Condition.rereadAll f.conditions
  | .condition c => by
    rw [Filter.term?, Option.toList_some, List.flatMap_singleton]
    exact c.conditions_term
  | .group id k children => by
    have hchildren := Filters.flatMap_conditions_terms children
    rw [Filter.term?, Filter.conditions, ← hchildren]
    cases hd : k.joinTerms? (Filters.terms children) with
    | none =>
      rw [Connector.joinTerms?_eq_none.mp hd]
      rfl
    | some d =>
      rw [← Connector.conditions_of_joinTerms? hd, Option.map_some, Option.toList_some, List.flatMap_singleton]
      rfl

theorem Filters.flatMap_conditions_terms : ∀ items : List Filter,
    (Filters.terms items).flatMap Term.conditions = Condition.rereadAll (Filters.conditions items)
  | [] => rfl
  | f :: rest => by
    rw [Filters.terms, List.flatMap_append, Filters.conditions, Condition.rereadAll_append,
      Filter.flatMap_conditions_term? f, Filters.flatMap_conditions_terms rest]

end

namespace Query

section

variable {α : Type} [Truth α]

/-- The value of the filters of a query with its conditions as they are read back. -/
def writtenValue (v : Condition → α) (q : Query) : α := q.connector.value (Filters.writtenValues v q.items)

/-- The statement of a query says what the query says. -/
theorem value_statement (v : Condition → α) (q : Query) : q.statement.value v = q.writtenValue v := by
  rw [writtenValue, Filters.writtenValues_eq, Statement.value, statement]
  cases hd : q.connector.joinTerms? (Filters.terms q.items) with
  | none =>
    rw [Connector.joinTerms?_eq_none.mp hd]
    rfl
  | some d => exact Connector.value_of_joinTerms? v hd

end

theorem conditions_statement (q : Query) :
    q.statement.conditions = Condition.rereadAll (Filters.conditions q.items) := by
  rw [← Filters.flatMap_conditions_terms, Statement.conditions, statement]
  cases hd : q.connector.joinTerms? (Filters.terms q.items) with
  | none =>
    rw [Connector.joinTerms?_eq_none.mp hd]
    rfl
  | some d => exact Connector.conditions_of_joinTerms? hd

/-- The text of a query is read, and what is read says what the query says, in two-valued and in three-valued logic. Its
conditions are among those of the query, in their order, and are all of them unless the query has conditions on empty
lists. -/
theorem value_read_text {q : Query} (h : q.Named) (ids : IdSource) :
    ∃ r ids', read q.text ids = (.ok r, ids') ∧
      (∀ v : Condition → Bool, r.value v = q.writtenValue v) ∧
      (∀ v : Condition → Ternary, r.value v = q.writtenValue v) ∧
      (Filters.anonymousConditions r.items).Sublist (Condition.rereadAll (Filters.conditions q.items)) ∧
      ((∀ c ∈ Filters.conditions q.items, c.asksNothing = false) →
        Filters.anonymousConditions r.items = Condition.rereadAll (Filters.conditions q.items)) := by
  refine ⟨_, _, read_text h ids, fun v => ?_, fun v => ?_, ?_, fun hasks => ?_⟩
  · rw [Statement.value_resolve, value_statement]
  · rw [Statement.value_resolve, value_statement]
  · rw [← conditions_statement]
    exact q.statement.anonymousConditions_sublist ids
  · rw [← conditions_statement]
    have hexcluded : q.statement.EveryComparison Comparison.Excluded := by
      refine everyComparison_statement fun c hc hnone => ?_
      rw [hasks c hc] at hnone
      cases hnone
    exact Statement.anonymousConditions_of_excluded hexcluded ids

/-- A condition on an empty list, a group of nothing and a group of one condition. -/
theorem value_read_text_of_empty_list : ∃ r ids',
    read (text ⟨[], .empty, .and, [.condition ⟨1, "ItemType", .oneOf, "", "", []⟩,
      .group 2 .or [.group 3 .and [], .condition ⟨4, "itemname", .compare .eq, "a", "b", []⟩]], "", .ascending, 0⟩)
        .initial = (.ok r, ids') ∧
      ∀ v : Condition → Bool, r.value v = v ⟨0, "ItemName", .compare .eq, "a", "", []⟩ := by
  have hnamed : Named ⟨[], .empty, .and, [.condition ⟨1, "ItemType", .oneOf, "", "", []⟩,
      .group 2 .or [.group 3 .and [], .condition ⟨4, "itemname", .compare .eq, "a", "b", []⟩]], "", .ascending, 0⟩ :=
    ⟨by decide, by decide, .inl rfl⟩
  have hreread : Condition.reread ⟨4, "itemname", .compare .eq, "a", "b", []⟩ =
      ⟨4, "ItemName", .compare .eq, "a", "", []⟩ := by decide +kernel
  obtain ⟨r, ids', hread, hvalue, -⟩ := value_read_text hnamed .initial
  refine ⟨r, ids', hread, fun v => (hvalue v).trans ?_⟩
  simp [writtenValue, Filters.writtenValues, Filter.writtenValues, Filters.conditions, Filter.conditions, hreread,
    Condition.asksNothing, Operator.isList, Connector.value, Connector.combine, Truth.always_and, Condition.anonymous]

end Query

end SegmentQuery
