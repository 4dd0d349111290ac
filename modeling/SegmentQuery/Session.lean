import SegmentQuery.Filter.Tree
import SegmentQuery.Query.Text
import SegmentQuery.Statement.Resolve

namespace SegmentQuery

structure Session where
  ids : IdSource
  query : Query
  deriving Repr

namespace Session

/-- A session on the query for everything. -/
def new : Session := ⟨.initial, .everything⟩

/-- A session on a query from elsewhere. Its ids stay, and new ones come after the largest; if that is too large, all
filters get new ids from 1 on. -/
def ofQuery (q : Query) : Session :=
  match IdSource.startingAfter? (Filters.maxId q.items) with
  | some ids => ⟨ids, q⟩
  | none =>
    let (items, ids) := Filters.renumber q.items .initial
    ⟨ids, { q with items }⟩

/-- A new condition on a field, with the first operator that suits it. -/
def newCondition (s : Session) (field : String) : Condition × Session :=
  (.plain s.ids.next (Schema.canonical field) (Schema.typeOf field).defaultOperator, { s with ids := s.ids.advance })

/-- A new empty group. -/
def newGroup (s : Session) (k : Connector) : Filter × Session :=
  (.group s.ids.next k [], { s with ids := s.ids.advance })

/-- Reads a text in place of the query. The query stays if the text is refused. -/
def importText (s : Session) (text : String) : Except ParseError Unit × Session :=
  match Query.read text s.ids with
  | (.ok query, ids) => (.ok (), ⟨ids, query⟩)
  | (.error e, ids) => (.error e, { s with ids })

/-- The text of the query. -/
def exportText (s : Session) : String := s.query.text

/-- The session with other filters in its query. -/
def withItems (s : Session) (items : List Filter) : Session := { s with query := { s.query with items } }

/-- A condition under a new operator, without the values that the operator does not use. A group stays as it is. -/
def changeOperator (op : Operator) : Filter → Filter
  | .condition c => .condition { c with operator := op }.clearUnused
  | .group id k children => .group id k children

/-- Changes the operator of the condition with an id; `none` if the first filter with that id is no condition. -/
def setOperator? (s : Session) (id : UInt64) (op : Operator) : Option Session :=
  match Filters.find? id s.query.items with
  | some (.condition _) => (Filters.update? id (changeOperator op) s.query.items).map s.withItems
  | _ => none

/-- Takes the filter with an id out of the query. -/
def remove? (s : Session) (id : UInt64) : Option (Filter × Session) :=
  (Filters.detach? id s.query.items).map fun (taken, items) => (taken, s.withItems items)

/-- Adds a filter at the end of the query, or of the group with an id. -/
def attach? (s : Session) (f : Filter) (parent : Option UInt64) : Option Session :=
  (Filters.attach? f parent s.query.items).map s.withItems

end Session

end SegmentQuery
