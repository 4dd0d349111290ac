import SegmentQuery.Operator
import SegmentQuery.Text

namespace SegmentQuery

/-- What the values of a field are. -/
inductive FieldType where
  /-- Free text. -/
  | text
  /-- Whole numbers. -/
  | integer
  /-- Positions in a medium, in ticks of 100 ns. -/
  | ticks
  /-- `1` or `0`. -/
  | boolean
  /-- Text from a known set of values. -/
  | enumerable
  deriving Repr, DecidableEq

namespace FieldType

def name : FieldType → String
  | .text => "text"
  | .integer => "integer"
  | .ticks => "ticks"
  | .boolean => "boolean"
  | .enumerable => "enumerable"

/-- The operators that suit a type, in the order in which a picker lists them. -/
def operators : FieldType → List Operator
  | .text => [.compare .eq, .compare .ne, .like, .notLike, .isNull, .isNotNull]
  | .enumerable => [.compare .eq, .compare .ne, .oneOf, .notOneOf, .like, .notLike, .isNull, .isNotNull]
  | .integer | .ticks =>
    [.compare .eq, .compare .ne, .compare .lt, .compare .gt, .compare .le, .compare .ge, .between, .isNull,
      .isNotNull]
  | .boolean => [.compare .eq]

theorem operators_ne_nil (t : FieldType) : t.operators ≠ [] := by
  cases t <;> simp [operators]

/-- The operator that a new condition starts with: the first one that suits the type. -/
def defaultOperator (t : FieldType) : Operator := t.operators.head t.operators_ne_nil

def allows (t : FieldType) (op : Operator) : Bool := t.operators.contains op

end FieldType

/-- A column of the table. -/
structure Field where
  name : String
  label : String
  type : FieldType
  deriving Repr, DecidableEq

namespace Schema

/-- The name of the table. -/
def table : String := "MediaSegments"

/-- The column that identifies a row. -/
def idField : String := "ItemId"

/-- The columns of the table, in their default order. -/
def fields : List Field :=
  [⟨"ItemId", "Item ID", .text⟩,
   ⟨"ItemName", "Item Name", .text⟩,
   ⟨"SeriesName", "Series", .enumerable⟩,
   ⟨"SeasonNumber", "Season", .integer⟩,
   ⟨"EpisodeNumber", "Episode", .integer⟩,
   ⟨"ItemType", "Item Type", .enumerable⟩,
   ⟨"IntroStartTicks", "Intro Start", .ticks⟩,
   ⟨"IntroEndTicks", "Intro End", .ticks⟩,
   ⟨"CreditsStartTicks", "Credits Start", .ticks⟩,
   ⟨"CreditsEndTicks", "Credits End", .ticks⟩,
   ⟨"HasIntro", "Has Intro", .boolean⟩,
   ⟨"HasCredits", "Has Credits", .boolean⟩]

def columns : List String := fields.map (·.name)

def find? (name : String) : Option Field := fields.find? fun f => Text.sameLetters f.name name

/-- The type of a field; an unknown field is text. -/
def typeOf (name : String) : FieldType := (find? name).elim .text (·.type)

/-- The spelling of a name in the table; an unknown name is kept as it is. -/
def canonical (name : String) : String := (find? name).elim name (·.name)

/-- The spelling of the table names the same field. -/
theorem find?_canonical (name : String) : find? (canonical name) = find? name := by
  have hfields : ∀ f ∈ fields, find? f.name = some f := by decide
  rw [canonical]
  cases hname : find? name with
  | none => exact hname
  | some f => exact hfields f (List.mem_of_find?_eq_some hname)

theorem typeOf_canonical (name : String) : typeOf (canonical name) = typeOf name := by
  rw [typeOf, find?_canonical, typeOf]

theorem canonical_canonical (name : String) : canonical (canonical name) = canonical name := by
  cases hname : find? name with
  | none =>
    have hself : canonical name = name := by rw [canonical, hname, Option.elim_none]
    rw [hself, hself]
  | some f =>
    rw [canonical, find?_canonical, hname, Option.elim_some, canonical, hname, Option.elim_some]

end Schema

end SegmentQuery
