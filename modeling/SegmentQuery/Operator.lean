namespace SegmentQuery

/-- The six comparison signs. -/
inductive Comparison where
  | eq | ne | lt | gt | le | ge
  deriving Repr, DecidableEq

def Comparison.text : Comparison → String
  | .eq => "="
  | .ne => "!="
  | .lt => "<"
  | .gt => ">"
  | .le => "<="
  | .ge => ">="

/-- What a condition asks of its field. -/
inductive Operator where
  | compare (c : Comparison)
  | like
  | notLike
  | oneOf
  | notOneOf
  | between
  | isNull
  | isNotNull
  deriving Repr, DecidableEq

namespace Operator

def text : Operator → String
  | .compare c => c.text
  | .like => "LIKE"
  | .notLike => "NOT LIKE"
  | .oneOf => "IN"
  | .notOneOf => "NOT IN"
  | .between => "BETWEEN"
  | .isNull => "IS NULL"
  | .isNotNull => "IS NOT NULL"

def all : List Operator :=
  [.compare .eq, .compare .ne, .compare .lt, .compare .gt, .compare .le, .compare .ge, .like, .notLike, .oneOf,
    .notOneOf, .between, .isNull, .isNotNull]

/-- The operator with this exact spelling. -/
def ofText? (s : String) : Option Operator := all.find? fun op => op.text == s

/-- Asks only whether there is a value at all. -/
def isNullCheck : Operator → Bool
  | .isNull | .isNotNull => true
  | _ => false

/-- Compares with a list of values. -/
def isList : Operator → Bool
  | .oneOf | .notOneOf => true
  | _ => false

/-- Looks for a piece of text. -/
def isPattern : Operator → Bool
  | .like | .notLike => true
  | _ => false

theorem ofText?_text (op : Operator) : ofText? op.text = some op := by
  rcases op with c | _
  · cases c <;> rfl
  all_goals rfl

end Operator

/-- How the members of a list of filters are joined. -/
inductive Connector where
  | and
  | or
  deriving Repr, DecidableEq

namespace Connector

def text : Connector → String
  | .and => "AND"
  | .or => "OR"

/-- The connector with this exact spelling. -/
def ofText? (s : String) : Option Connector := [Connector.and, .or].find? fun c => c.text == s

theorem ofText?_text (c : Connector) : ofText? c.text = some c := by
  cases c <;> rfl

end Connector

/-- The direction of an order. -/
inductive Direction where
  | ascending
  | descending
  deriving Repr, DecidableEq

namespace Direction

def text : Direction → String
  | .ascending => "ASC"
  | .descending => "DESC"

/-- The direction with this exact spelling. -/
def ofText? (s : String) : Option Direction := [Direction.ascending, .descending].find? fun d => d.text == s

theorem ofText?_text (d : Direction) : ofText? d.text = some d := by
  cases d <;> rfl

end Direction

end SegmentQuery
