import SegmentQuery.Query.Basic
import SegmentQuery.Value

namespace SegmentQuery

namespace Query

/-- All columns are shown, in their default order. -/
def showsAll (q : Query) : Bool :=
  q.selected.names.isEmpty || (Schema.columns.all q.selected.contains && q.columnOrder == Schema.columns)

/-- The selected columns: those that have a place in the order, and then the others. -/
def selectedInOrder (q : Query) : List String :=
  let ordered := q.columnOrder.filter q.selected.contains
  ordered ++ q.selected.names.filter fun name => !ordered.contains name

/-- The columns with the id field in front, if a time is shown without it. -/
def withIdField (columns : List String) : List String :=
  if columns.any (fun name => Schema.typeOf name = .ticks) && !columns.contains Schema.idField then
    Schema.idField :: columns
  else columns

/-- The column list of a query, as it is written. -/
def columnText (q : Query) : String :=
  if q.showsAll then "*" else ", ".intercalate (withIdField q.selectedInOrder)

end Query

/-- What is written for a condition that holds for every row. -/
def Condition.always : String := "1=1"

/-- The text of a condition. -/
def Condition.text (c : Condition) : String :=
  let literal := Value.literal (Schema.typeOf c.field) c.operator
  match c.operator with
  | .isNull | .isNotNull => c.field ++ " " ++ c.operator.text
  | .oneOf | .notOneOf =>
    if c.values.isEmpty then Condition.always
    else c.field ++ " " ++ c.operator.text ++ " (" ++ ", ".intercalate (c.values.map literal) ++ ")"
  | .between => c.field ++ " BETWEEN " ++ literal c.value ++ " AND " ++ literal c.upper
  | op => c.field ++ " " ++ op.text ++ " " ++ literal c.value

/-- Texts joined by a connector; `none` if there are none. -/
def Connector.join? (k : Connector) (parts : List String) : Option String :=
  if parts.isEmpty then none else some ((" " ++ k.text ++ " ").intercalate parts)

mutual

/-- The text of a filter; `none` if it has no conditions. -/
def Filter.text? : Filter → Option String
  | .condition c => some c.text
  | .group _ k children => (k.join? (Filters.texts children)).map fun inner => "(" ++ inner ++ ")"

/-- The texts of those filters of a list that have one. -/
def Filters.texts : List Filter → List String
  | [] => []
  | f :: rest => f.text?.toList ++ Filters.texts rest

end

namespace Query

/-- The text of the filter of a query; `none` if it has no conditions. -/
def filterText? (q : Query) : Option String := q.connector.join? (Filters.texts q.items)

/-- The clauses of a query. -/
def clauses (q : Query) : List String :=
  ["SELECT " ++ q.columnText ++ " FROM " ++ Schema.table] ++
    (q.filterText?.map ("WHERE " ++ ·)).toList ++
    (if q.sortField = "" then [] else ["ORDER BY " ++ q.sortField ++ " " ++ q.direction.text]) ++
    (if q.limit = 0 then [] else ["LIMIT " ++ q.limit.toNat.repr])

/-- The canonical text of a query. -/
def text (q : Query) : String := "\n".intercalate q.clauses

end Query

end SegmentQuery
