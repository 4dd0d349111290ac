import SegmentQuery.Proofs.Query.Statement

namespace SegmentQuery

mutual

def Term.text : Term → String
  | .condition field test => field ++ " " ++ test.text
  | .literals left c right => left ++ c.text ++ right.token.display
  | .parens inner => "(" ++ inner.text ++ ")"

def Conjunction.text : Conjunction → String
  | .term t => t.text
  | .and c t => c.text ++ " AND " ++ t.text

def Disjunction.text : Disjunction → String
  | .conjunction c => c.text
  | .or d c => d.text ++ " OR " ++ c.text

end

def ColumnList.text : ColumnList → String
  | all => "*"
  | listed first rest => ", ".intercalate (first :: rest)

def RowOrder.text (o : RowOrder) : String := o.field ++ o.direction.elim "" fun d => " " ++ d.text

/-- The text of a statement, one clause a line. -/
def Statement.text (s : Statement) : String :=
  "\n".intercalate (["SELECT " ++ s.columns.text ++ " FROM " ++ s.table] ++
    (s.filter.map fun d => "WHERE " ++ d.text).toList ++ (s.order.map fun o => "ORDER BY " ++ o.text).toList ++
    (s.limit.map fun digits => "LIMIT " ++ digits).toList)

theorem Condition.text_term (c : Condition) : c.text = c.term.text := by
  rw [term]
  cases htest : c.test? with
  | none =>
    rw [text_of_test?_eq_none htest]
    rfl
  | some test => exact text_of_test? htest

theorem Conjunction.text_foldl (ts : List Term) (c : Conjunction) :
    (ts.foldl .and c).text = " AND ".intercalate (c.text :: ts.map Term.text) := by
  induction ts generalizing c with
  | nil => simp
  | cons t ts ih =>
    rw [List.foldl_cons, ih]
    rfl

theorem Disjunction.text_foldl (ts : List Term) (d : Disjunction) :
    (ts.foldl (fun d t => .or d (.term t)) d).text = " OR ".intercalate (d.text :: ts.map Term.text) := by
  induction ts generalizing d with
  | nil => simp
  | cons t ts ih =>
    rw [List.foldl_cons, ih]
    rfl

/-- Joined texts are the text of joined terms. -/
theorem Connector.join?_text (k : Connector) (ts : List Term) :
    k.join? (ts.map Term.text) = (k.joinTerms? ts).map Disjunction.text := by
  cases ts with
  | nil => cases k <;> rfl
  | cons first rest =>
    cases k with
    | and => exact congrArg some (Conjunction.text_foldl rest (.term first)).symm
    | or => exact congrArg some (Disjunction.text_foldl rest (.conjunction (.term first))).symm

mutual

theorem Filter.text?_term? : ∀ f : Filter, f.text? = f.term?.map Term.text
  | .condition c => congrArg some c.text_term
  | .group id k children => by
    rw [Filter.text?, Filters.texts_terms children, k.join?_text, Filter.term?]
    cases k.joinTerms? (Filters.terms children) <;> rfl

theorem Filters.texts_terms : ∀ items : List Filter, Filters.texts items = (Filters.terms items).map Term.text
  | [] => rfl
  | f :: rest => by
    rw [Filters.texts, Filters.terms, List.map_append, Filter.text?_term? f, Filters.texts_terms rest]
    cases f.term? <;> rfl

end

namespace Query

theorem columnText_columnList (q : Query) : q.columnText = q.columnList.text := by
  unfold columnText columnList
  by_cases hall : q.showsAll = true
  · rw [if_pos hall, if_pos hall]
    rfl
  · obtain ⟨first, rest, hcolumns⟩ := exists_cons_of_showsAll (Bool.eq_false_iff.mpr hall)
    rw [if_neg hall, if_neg hall, hcolumns]
    rfl

/-- The text of a query is the text of its statement. -/
theorem text_statement (q : Query) : q.text = q.statement.text := by
  have hfilter : q.filterText?.map ("WHERE " ++ ·) = q.statement.filter.map fun d => "WHERE " ++ d.text := by
    rw [filterText?, Filters.texts_terms, Connector.join?_text, Option.map_map]
    rfl
  have horder : (if q.sortField = "" then [] else ["ORDER BY " ++ q.sortField ++ " " ++ q.direction.text]) =
      (q.statement.order.map fun o => "ORDER BY " ++ o.text).toList := by
    rw [statement, rowOrder]
    by_cases hsort : q.sortField = ""
    · rw [if_pos hsort, if_pos hsort]
      rfl
    · rw [if_neg hsort, if_neg hsort]
      simp [RowOrder.text, String.append_assoc]
  have hlimit : (if q.limit = 0 then [] else ["LIMIT " ++ q.limit.toNat.repr]) =
      (q.statement.limit.map fun digits => "LIMIT " ++ digits).toList := by
    rw [statement]
    by_cases hzero : q.limit = 0
    · rw [if_pos hzero, if_pos hzero]
      rfl
    · rw [if_neg hzero, if_neg hzero]
      rfl
  rw [text, clauses, columnText_columnList, hfilter, horder, hlimit]
  rfl

/-- Queries have the same text exactly if they are written as the same statement. -/
theorem text_eq_text_iff {q r : Query} (hq : q.Named) (hr : r.Named) :
    q.text = r.text ↔ q.statement = r.statement := by
  constructor
  · intro htext
    have htokens : q.statement.tokens = r.statement.tokens := by
      rw [← (spells_text hq).scan_eq, ← (spells_text hr).scan_eq, htext]
    have htrivial (q : Query) : q.statement.EveryComparison Comparison.Trivial :=
      everyComparison_statement fun _ _ _ => ⟨rfl, rfl⟩
    exact Statement.eq_of_tokens_eq (htrivial q) (htrivial r) htokens
  · intro hstatement
    rw [text_statement, text_statement, hstatement]

end Query

end SegmentQuery
