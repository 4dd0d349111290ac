import SegmentQuery.IdSource
import SegmentQuery.Query.Basic
import SegmentQuery.Statement.Draft
import SegmentQuery.Token.Scan
import SegmentQuery.Value

namespace SegmentQuery

/-- The value that a literal gives to a condition on a field of the given type. -/
def Literal.value (type : FieldType) : Literal → String
  | .number digits => if type = .ticks then Ticks.time (Integer.ofText digits) else digits
  | .text content => content
  | .word name =>
    if type = .boolean ∧ Text.sameLetters "TRUE" name then "1"
    else if type = .boolean ∧ Text.sameLetters "FALSE" name then "0"
    else name

/-- The operator of a test, and of the same test after `NOT`. -/
def Operator.negatedIf (negated : Bool) (op opposite : Operator) : Operator := if negated then opposite else op

/-- The condition that a test makes of a field. -/
def Condition.ofTest (id : UInt64) (field : String) (test : Test) : Condition :=
  let type := Schema.typeOf field
  let plain := Condition.plain id (Schema.canonical field)
  match test with
  | .isNull negated => plain (.negatedIf negated .isNull .isNotNull)
  | .oneOf negated first rest =>
    (plain (.negatedIf negated .oneOf .notOneOf)).withValues ((first :: rest).map (Literal.value type))
  | .like negated pattern =>
    (plain (.negatedIf negated .like .notLike)).withValue (Value.stripWildcards pattern.raw)
  | .between low high => (plain .between).withRange (low.value type) (high.value type)
  | .compare c value => (plain (.compare c)).withValue (value.value type)

/-- The alternatives of a disjunction, each as one filter. -/
def Filters.ofAlternatives : List (List Filter) → IdSource → List Filter × IdSource
  | [], ids => ([], ids)
  | [f] :: rest, ids =>
    let (items, ids) := ofAlternatives rest ids
    (f :: items, ids)
  | fs :: rest, ids =>
    let (items, after) := ofAlternatives rest ids.advance
    (.group ids.next .and fs :: items, after)

/-- A list of filters and the connector between them. -/
structure Joined where
  connector : Connector
  items : List Filter
  deriving Repr

/-- Joins the conjunctions of a disjunction, each given by its filters. One without filters always holds, and so does the
disjunction. -/
def Joined.ofConjunctions (conjunctions : List (List Filter)) (ids : IdSource) : Joined × IdSource :=
  if conjunctions.any List.isEmpty then (⟨.and, []⟩, ids)
  else match conjunctions with
    | [fs] => (⟨.and, fs⟩, ids)
    | conjunctions =>
      let (items, ids) := Filters.ofAlternatives conjunctions ids
      (⟨.or, items⟩, ids)

/-- The group of an expression in parentheses; nothing if it has no filters. -/
def Joined.toGroup (j : Joined) (ids : IdSource) : List Filter × IdSource :=
  if j.items.isEmpty then ([], ids) else ([.group ids.next j.connector j.items], ids.advance)

mutual

/-- The filter of a term, if it has one. Ids are handed out in the order in which filters are complete. -/
def Term.filters : Term → IdSource → List Filter × IdSource
  | .condition field test, ids => ([.condition (Condition.ofTest ids.next field test)], ids.advance)
  | .literals .., ids => ([], ids)
  | .parens inner, ids =>
    let (conjunctions, ids) := inner.conjunctions ids
    let (joined, ids) := Joined.ofConjunctions conjunctions ids
    joined.toGroup ids

/-- The filters of the terms of a conjunction. -/
def Conjunction.filters : Conjunction → IdSource → List Filter × IdSource
  | .term t, ids => t.filters ids
  | .and c t, ids =>
    let (before, ids) := c.filters ids
    let (last, ids) := t.filters ids
    (before ++ last, ids)

/-- The filters of each conjunction of a disjunction. -/
def Disjunction.conjunctions : Disjunction → IdSource → List (List Filter) × IdSource
  | .conjunction c, ids =>
    let (only, ids) := c.filters ids
    ([only], ids)
  | .or d c, ids =>
    let (before, ids) := d.conjunctions ids
    let (last, ids) := c.filters ids
    (before ++ [last], ids)

end

/-- The filters of a disjunction and the connector between them. -/
def Disjunction.join (d : Disjunction) (ids : IdSource) : Joined × IdSource :=
  let (conjunctions, ids) := d.conjunctions ids
  Joined.ofConjunctions conjunctions ids

namespace ColumnList

/-- The listed columns in the spelling of the table, each at its first place. -/
def names : ColumnList → List String
  | all => []
  | listed first rest => distinct ((first :: rest).map Schema.canonical)

/-- The order of columns: the listed ones, and then the others in their default order. -/
def order (cs : ColumnList) : List String := cs.names ++ Schema.columns.filter fun name => !cs.names.contains name

end ColumnList

/-- The row limit that a number asks for. -/
def Query.limitOf (digits : String) : UInt64 := UInt64.ofNat (Integer.ofText digits).toNat

namespace Statement

/-- The filters of a statement; none if it has no `WHERE`. -/
def join (s : Statement) (ids : IdSource) : Joined × IdSource :=
  match s.filter with
  | none => (⟨.and, []⟩, ids)
  | some d => d.join ids

/-- The query of a statement. The name of the table does not count. -/
def resolve (s : Statement) (ids : IdSource) : Query × IdSource :=
  let (joined, ids) := s.join ids
  ({ columnOrder := s.columns.order
     selected := .ofList s.columns.names
     connector := joined.connector
     items := joined.items
     sortField := (s.order.map fun o => Schema.canonical o.field).getD ""
     direction := (s.order.bind (·.direction)).getD .ascending
     limit := (s.limit.map Query.limitOf).getD 0 }, ids)

end Statement

/-- The source of ids behind those that a disjunction in part has used up. -/
def DisjunctionDraft.useIds : DisjunctionDraft → IdSource → IdSource
  | .start, ids => ids
  | .and d, ids | .or d, ids => (d.conjunctions ids).2

/-- The source of ids behind those that a filter in part has used up. -/
def FilterDraft.useIds : FilterDraft → IdSource → IdSource
  | .inTerm outer current _, ids => (current :: outer).foldr DisjunctionDraft.useIds ids
  | .afterTerm outer d, ids => (d.join (outer.foldr DisjunctionDraft.useIds ids)).2

/-- The source of ids behind those that a statement in part has used up. -/
def Statement.Draft.useIds : Draft → IdSource → IdSource
  | .filter _ f, ids => f.useIds ids
  | .order s, ids | .orderField s, ids | .afterField s _, ids | .afterOrder s, ids | .limit s, ids
  | .complete s, ids => (s.join ids).2
  | _, ids => ids

namespace Query

/-- Reads a query, with new ids for its filters. The ids that a refused text has used up are not handed out again. -/
def read (text : String) (ids : IdSource) : Except ParseError Query × IdSource :=
  match Statement.ofTokens (Token.scan text.toList) with
  | .ok s => (.ok (s.resolve ids).1, (s.resolve ids).2)
  | .error f => (.error f.error, f.draft.useIds ids)

/-- Reads a query, with ids from 1 on. -/
def ofText (text : String) : Except ParseError Query := (read text .initial).1

end Query

end SegmentQuery
