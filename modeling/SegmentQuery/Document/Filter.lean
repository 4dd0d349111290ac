import SegmentQuery.Filter.Basic
import SegmentQuery.Json.Basic

namespace SegmentQuery

/-- The kinds of filters. -/
inductive Filter.Kind where
  | condition
  | group
  deriving Repr, DecidableEq

namespace Filter.Kind

def text : Kind → String
  | condition => "condition"
  | group => "group"

/-- The kind with this exact name. -/
def ofText? (s : String) : Option Kind := [condition, group].find? fun k => k.text == s

/-- The kind that a value names, by its name or its place in the list of kinds. -/
def ofJson? : Json → Option Kind
  | .string s => ofText? s
  | .natural n => if n = 0 then some condition else if n = 1 then some group else none
  | _ => none

theorem ofText?_text (k : Kind) : ofText? k.text = some k := by
  cases k <;> rfl

end Filter.Kind

namespace Json

/-- A JSON string for each text. -/
def ofTexts (texts : List String) : Json := array (texts.map string)

/-- The values of a key. -/
def valuesOf (key : String) (members : List (String × Json)) : List Json :=
  (members.filter fun m => m.1 == key).map (·.2)

/-- The value of a key that may be missing, but not repeated. -/
def optional (key : String) (members : List (String × Json)) : Option (Option Json) :=
  match valuesOf key members with
  | [] => some none
  | [value] => some (some value)
  | _ => none

/-- The value of a key that stands once. -/
def required (key : String) (members : List (String × Json)) : Option Json := (optional key members).join

/-- What a value names: a string, or an object with one key and no value for it. -/
def named? {α : Type} (ofText? : String → Option α) : Json → Option α
  | string s => ofText? s
  | object [(s, null)] => ofText? s
  | object [(s, object [])] => ofText? s
  | _ => none

/-- What a value that may be missing stands for. -/
def orDefault {α : Type} (default : α) (read : Json → Option α) : Option Json → Option α
  | none => some default
  | some value => read value

end Json

namespace Condition

def members (c : Condition) : List (String × Json) :=
  [("id", .natural c.id), ("field", .string c.field), ("operator", .string c.operator.text),
    ("value", .string c.value), ("value2", .string c.upper), ("values", .ofTexts c.values)]

/-- The condition that the values of its members describe. -/
def ofValues? (id field operator : Json) (value upper values : Option Json) : Option Condition := do
  return {
    id := ← id.natural?
    field := ← field.text?
    operator := ← operator.named? Operator.ofText?
    value := ← Json.orDefault "" Json.text? value
    upper := ← Json.orDefault "" Json.text? upper
    values := ← Json.orDefault [] Json.texts? values }

/-- The condition of an object. -/
def ofMembers? (members : List (String × Json)) : Option Condition := do
  ofValues? (← Json.required "id" members) (← Json.required "field" members) (← Json.required "operator" members)
    (← Json.optional "value" members) (← Json.optional "value2" members) (← Json.optional "values" members)

/-- The condition of an array. -/
def ofItems? : List Json → Option Condition
  | id :: field :: operator :: others =>
    if others.length ≤ 3 then ofValues? id field operator others[0]? others[1]? others[2]? else none
  | _ => none

end Condition

mutual

/-- The JSON value of a filter. -/
def Filter.toJson : Filter → Json
  | .condition c => .object (("type", .string Filter.Kind.condition.text) :: c.members)
  | .group id k children =>
    .object [("type", .string Filter.Kind.group.text), ("id", .natural id), ("connector", .string k.text),
      ("children", .array (Filters.toJson children))]

def Filters.toJson : List Filter → List Json
  | [] => []
  | f :: rest => f.toJson :: Filters.toJson rest

end

namespace Filter

/-- The group that the values of its members describe. -/
def groupOf? (id connector : Json) (children : List Filter) : Option Filter := do
  return .group (← id.natural?) (← connector.named? Connector.ofText?) children

/-- The only one of the readings of a member that may be missing. -/
def onlyReading : List (Option (List Filter)) → Option (List Filter)
  | [] => some []
  | [reading] => reading
  | _ => none

/-- The filter of an object of a kind, given the readings of its children. -/
def ofReadings? (kind : Kind) (members : List (String × Json)) (children : List (Option (List Filter))) :
    Option Filter :=
  match kind with
  | .condition => (Condition.ofMembers? members).map .condition
  | .group => do groupOf? (← Json.required "id" members) (← Json.required "connector" members) (← onlyReading children)

end Filter

mutual

/-- The filter of a JSON value. -/
def Filter.ofJson? : Json → Option Filter
  | .object members => do
    let kind ← (Json.required "type" members).bind Filter.Kind.ofJson?
    Filter.ofReadings? kind members (Filters.childReadings members)
  | .array (kind :: items) => (Filter.Kind.ofJson? kind).bind fun kind => Filter.ofItems? kind items
  | _ => none

/-- The filter of an array of a kind. -/
def Filter.ofItems? (kind : Filter.Kind) : List Json → Option Filter
  | [id, connector, children] =>
    match kind with
    | .condition => (Condition.ofItems? [id, connector, children]).map .condition
    | .group => do Filter.groupOf? id connector (← Filters.ofJson? children)
  | [id, connector] =>
    match kind with
    | .condition => none
    | .group => Filter.groupOf? id connector []
  | items =>
    match kind with
    | .condition => (Condition.ofItems? items).map .condition
    | .group => none

/-- The filters of an array of filters. -/
def Filters.ofJson? : Json → Option (List Filter)
  | .array items => Filters.ofItems? items
  | _ => none

def Filters.ofItems? : List Json → Option (List Filter)
  | [] => some []
  | item :: rest => do return (← Filter.ofJson? item) :: (← Filters.ofItems? rest)

/-- The readings of the members that hold the children of a group. -/
def Filters.childReadings : List (String × Json) → List (Option (List Filter))
  | [] => []
  | (key, value) :: rest =>
    if key = "children" then Filters.ofJson? value :: Filters.childReadings rest else Filters.childReadings rest

end

namespace Filter

/-- The filter of an object of a kind. -/
def ofMembers? (kind : Kind) (members : List (String × Json)) : Option Filter :=
  ofReadings? kind members (Filters.childReadings members)

end Filter

end SegmentQuery
