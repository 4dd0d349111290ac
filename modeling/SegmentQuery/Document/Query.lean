import SegmentQuery.Document.Filter
import SegmentQuery.Json.Layout
import SegmentQuery.Json.Value
import SegmentQuery.Query.Basic

namespace SegmentQuery

namespace Document

/-- The members of a query. -/
inductive Key where
  | columnOrder | selected | connector | items | sortField | direction | limit
  deriving Repr, DecidableEq

namespace Key

def text : Key → String
  | columnOrder => "column_order"
  | selected => "selected_columns"
  | connector => "root_connector"
  | items => "items"
  | sortField => "order_by_field"
  | direction => "order_by_dir"
  | limit => "limit"

/-- The keys in the order in which members are written. -/
def all : List Key := [columnOrder, selected, connector, items, sortField, direction, limit]

/-- The key with this exact text. -/
def ofText? (s : String) : Option Key := all.find? fun key => key.text == s

theorem ofText?_text (key : Key) : ofText? key.text = some key := by
  cases key <;> rfl

/-- The value of a member of a query. -/
def valueIn (q : Query) : Key → Json
  | columnOrder => .ofTexts q.columnOrder
  | selected => .ofTexts q.selected.names
  | connector => .string q.connector.text
  | items => .array (Filters.toJson q.items)
  | sortField => .string q.sortField
  | direction => .string q.direction.text
  | limit => .natural q.limit

end Key

/-- The most arrays and objects that may be open at once. -/
def depthLimit : Nat := 127

/-- The most that may be open inside a filter of a query: the query, its list of items and the filter itself are. -/
def filterDepth : Nat := depthLimit - 3

open Json Json.Reader

/-- Reads a further member of a filter: its kind, or any other value. -/
def filterMember (read : Option Filter.Kind × List (String × Json)) (key : String) :
    Reader (Option Filter.Kind × List (String × Json)) :=
  match key, read with
  | "type", (none, members) => (afterColon (name Filter.Kind.ofText?)).map fun kind => (some kind, members)
  | "type", (some _, _) => fail .unfit
  | key, (kind, members) => (afterColon (anything .kept filterDepth)).map fun v => (kind, (key, v) :: members)

/-- Reads a further item of a filter in an array: its kind first, and then any values. -/
def filterItem : Option Filter.Kind × List Json → Reader (Option Filter.Kind × List Json)
  | (none, items) => (name Filter.Kind.ofText?).map fun kind => (some kind, items)
  | (some kind, items) => (anything .kept filterDepth).map fun v => (some kind, v :: items)

/-- Reads a filter. -/
def filter : Reader Filter :=
  byNext fun c =>
    if c = '{' then
      (object .kept filterMember (none, [])).fit fun (kind, members) =>
        kind.bind fun kind => Filter.ofMembers? kind members.reverse
    else if c = '[' then
      (enclosed '[' ']' filterItem (none, [])).fit fun (kind, items) =>
        kind.bind fun kind => Filter.ofItems? kind items.reverse
    else misfit

/-- Reads the value of a member of a query. -/
def Key.value (q : Query) : Key → Reader Query
  | columnOrder => (list Reader.text).map fun names => { q with columnOrder := names }
  | selected => (list Reader.text).map fun names => { q with selected := .ofList names }
  | connector => (choice Connector.ofText?).map fun connector => { q with connector }
  | items => (list filter).map fun items => { q with items }
  | sortField => Reader.text.map fun sortField => { q with sortField }
  | direction => (choice Direction.ofText?).map fun direction => { q with direction }
  | limit => Reader.natural.map fun limit => { q with limit }

/-- Reads a further member of a query, given the keys before it. -/
def queryMember (read : List Key × Query) (key : String) : Reader (List Key × Query) :=
  match Key.ofText? key with
  | none => (afterColon skip).map fun _ => read
  | some key =>
    if key ∈ read.1 then fail .unfit
    else (afterColon (key.value read.2)).map fun q => (key :: read.1, q)

/-- Reads a query. -/
def query : Reader Query :=
  byNext fun c =>
    if c = '{' then (object .kept queryMember ([], .everything)).map (·.2)
    else if c = '[' then tuple (Key.all.map fun key q => key.value q) .everything
    else misfit

end Document

namespace Query

/-- The JSON value of a query. -/
def toJson (q : Query) : Json := .object (Document.Key.all.map fun key => (key.text, key.valueIn q))

/-- The document of a query. -/
def document (layout : Json.Layout) (q : Query) : String := q.toJson.text layout

/-- Reads a document. -/
def ofDocument (text : String) : Except Json.Failure Query := Document.query.whole text

end Query

def Field.toJson (f : Field) : Json :=
  .object [("name", .string f.name), ("label", .string f.label), ("type", .string f.type.name)]

namespace Schema

/-- The document of the fields. -/
def document (layout : Json.Layout) : String := (Json.array (fields.map Field.toJson)).text layout

end Schema

end SegmentQuery
