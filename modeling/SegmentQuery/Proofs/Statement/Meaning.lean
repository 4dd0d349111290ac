import SegmentQuery.Proofs.Filter.Truth
import SegmentQuery.Proofs.Statement.Grammar

namespace SegmentQuery

variable {α : Type} [Truth α]

mutual

/-- The value of a term, where `v` says which conditions hold. -/
def Term.value (v : Condition → α) : Term → α
  | .condition field test => v (.ofTest 0 field test)
  | .literals .. => Truth.always
  | .parens inner => inner.value v

def Conjunction.value (v : Condition → α) : Conjunction → α
  | .term t => t.value v
  | .and c t => Truth.and (c.value v) (t.value v)

def Disjunction.value (v : Condition → α) : Disjunction → α
  | .conjunction c => c.value v
  | .or d c => Truth.or (d.value v) (c.value v)

end

/-- The value of the `WHERE` of a statement. A statement without one holds always. -/
def Statement.value (v : Condition → α) (s : Statement) : α := s.filter.elim Truth.always (Disjunction.value v)

/-- The value of joined filters. -/
def Joined.value (v : Condition → α) (j : Joined) : α := j.connector.value (Filters.values v j.items)

/-- The value of a conjunction with given filters. -/
def Filters.allOf (v : Condition → α) (fs : List Filter) : α := Connector.and.value (values v fs)

theorem Filters.values_ofAlternatives (v : Condition → α) (parts : List (List Filter)) (ids : IdSource) :
    values v (ofAlternatives parts ids).1 = parts.map (allOf v) := by
  fun_induction ofAlternatives parts ids with
  | case1 => rfl
  | case2 f rest ids items after hrest ih =>
    rw [hrest] at ih
    rw [values, ih]
    rfl
  | case3 fs rest ids hfs items after hrest ih =>
    rw [hrest] at ih
    rw [values, ih]
    rfl

/-- Joined conjunctions hold if one of them does. -/
theorem Joined.value_ofConjunctions (v : Condition → α) {parts : List (List Filter)} (hparts : parts ≠ [])
    (ids : IdSource) :
    (ofConjunctions parts ids).1.value v = Connector.or.value (parts.map (Filters.allOf v)) := by
  by_cases hempty : [] ∈ parts
  · have halways : Truth.always ∈ parts.map (Filters.allOf v) := List.mem_map.mpr ⟨[], hempty, rfl⟩
    rw [ofConjunctions_of_nil_mem hempty, Connector.value_or_of_mem halways]
    rfl
  · match parts, hparts with
    | [fs], _ =>
      have hfs : fs ≠ [] := fun h => hempty (by simp [h])
      rw [ofConjunctions_singleton hfs]
      rfl
    | first :: second :: rest, _ =>
      rw [ofConjunctions_of_two_le (by simp) hempty, value, Filters.values_ofAlternatives]

/-- The group of an expression in parentheses says what the expression says. -/
theorem Joined.allOf_toGroup (v : Condition → α) (j : Joined) (ids : IdSource) :
    Filters.allOf v (j.toGroup ids).1 = j.value v := by
  by_cases hitems : j.items = []
  · simp [toGroup, hitems, value, Filters.allOf, Filters.values, Connector.value]
  · simp [toGroup, hitems, value, Filters.allOf, Filters.values, Filter.value, Connector.value]

/-- The filters of a disjunction say what it says, if those of its conjunctions do. -/
private theorem Disjunction.value_join_of_conjunctions (v : Condition → α) {d : Disjunction} {ids : IdSource}
    (h : Connector.or.value ((d.conjunctions ids).1.map (Filters.allOf v)) = d.value v) :
    (d.join ids).1.value v = d.value v :=
  (Joined.value_ofConjunctions v (d.conjunctions_ne_nil ids) _).trans h

mutual

theorem Term.allOf_filters (v : Condition → α) : ∀ (t : Term) (ids : IdSource),
    Filters.allOf v (t.filters ids).1 = t.value v
  | .condition field test, ids => congrArg v (Condition.anonymous_ofTest ids.next field test)
  | .literals .., _ => rfl
  | .parens inner, ids =>
    (Joined.allOf_toGroup v (inner.join ids).1 (inner.join ids).2).trans
      (Disjunction.value_join_of_conjunctions v (Disjunction.value_conjunctions v inner ids))

theorem Conjunction.allOf_filters (v : Condition → α) : ∀ (c : Conjunction) (ids : IdSource),
    Filters.allOf v (c.filters ids).1 = c.value v
  | .term t, ids => Term.allOf_filters v t ids
  | .and c t, ids => by
    rw [Conjunction.filters_and, Filters.allOf, Filters.values_append, Connector.value_and_append, Conjunction.value,
      ← Conjunction.allOf_filters v c ids, ← Term.allOf_filters v t (c.filters ids).2]
    rfl

theorem Disjunction.value_conjunctions (v : Condition → α) : ∀ (d : Disjunction) (ids : IdSource),
    Connector.or.value ((d.conjunctions ids).1.map (Filters.allOf v)) = d.value v
  | .conjunction c, ids => Conjunction.allOf_filters v c ids
  | .or d c, ids => by
    have hne : (d.conjunctions ids).1.map (Filters.allOf v) ≠ [] := by
      simpa using d.conjunctions_ne_nil ids
    rw [Disjunction.conjunctions_or, List.map_append, List.map_singleton, Connector.value_snoc _ hne, Disjunction.value,
      Disjunction.value_conjunctions v d ids, Conjunction.allOf_filters v c]
    rfl

end

/-- The filters of a disjunction say what it says. -/
theorem Disjunction.value_join (v : Condition → α) (d : Disjunction) (ids : IdSource) :
    (d.join ids).1.value v = d.value v :=
  Disjunction.value_join_of_conjunctions v (Disjunction.value_conjunctions v d ids)

/-- The filters of a statement say what its `WHERE` says. -/
theorem Statement.value_resolve (v : Condition → α) (s : Statement) (ids : IdSource) :
    (s.resolve ids).1.value v = s.value v := by
  have hquery : (s.resolve ids).1.value v = (s.join ids).1.value v := rfl
  rw [hquery, join, value]
  cases s.filter with
  | none => rfl
  | some d => exact d.value_join v ids

/-- The filters of a query that was read say what the `WHERE` of its text says, in two-valued and in three-valued
logic. The text determines what that is, since only one statement derives it. -/
theorem Query.value_of_read {text : String} {ids ids' : IdSource} {q : Query} (h : read text ids = (.ok q, ids')) :
    ∃ s : Statement, s.Derives text ∧ (∀ s' : Statement, s'.Derives text → s' = s) ∧
      (∀ v : Condition → Bool, q.value v = s.value v) ∧ ∀ v : Condition → Ternary, q.value v = s.value v := by
  obtain ⟨s, hs, rfl⟩ := exists_derives_of_read h
  exact ⟨s, hs, fun s' hs' => hs.unique hs', fun v => s.value_resolve v ids, fun v => s.value_resolve v ids⟩

/-- A tautology leaves nothing of a disjunction. -/
theorem Query.value_of_read_of_tautology : ∃ s : Statement,
    s.Derives "SELECT * FROM MediaSegments WHERE (HasIntro IS NULL OR (1=1 AND 2='2')) AND HasIntro = 1" ∧
      ∀ v : Condition → Ternary, s.value v = v ⟨0, "HasIntro", .compare .eq, "1", "", []⟩ := by
  obtain ⟨s, hs, -, -, hvalue⟩ := value_of_read
    (show read "SELECT * FROM MediaSegments WHERE (HasIntro IS NULL OR (1=1 AND 2='2')) AND HasIntro = 1" .initial =
        (.ok { everything with items := [.condition ⟨2, "HasIntro", .compare .eq, "1", "", []⟩] }, ⟨3⟩)
      by decide +kernel)
  exact ⟨s, hs, fun v => (hvalue v).symm⟩

end SegmentQuery
