import SegmentQuery.Distinct
import SegmentQuery.Operator

namespace SegmentQuery

/-- What a condition asks of one field. Values are in the form in which a user types them. Which of them count depends
on the operator: null checks use none, `BETWEEN` uses `value` and `upper`, `IN` and `NOT IN` use `values`, and every
other operator uses `value`. -/
structure Condition where
  id : UInt64
  field : String
  operator : Operator
  value : String
  upper : String
  values : List String
  deriving Repr, DecidableEq

namespace Condition

/-- A condition without values. -/
def plain (id : UInt64) (field : String) (op : Operator) : Condition := ⟨id, field, op, "", "", []⟩

def withValue (c : Condition) (value : String) : Condition := { c with value }

def withRange (c : Condition) (low high : String) : Condition := { c with value := low, upper := high }

/-- The condition with one more listed value, unless it is listed already. -/
def addValue? (c : Condition) (value : String) : Option Condition :=
  if value ∈ c.values then none else some { c with values := c.values ++ [value] }

/-- The condition with a new list of values. A repeated value stands once, at its first place. -/
def withValues (c : Condition) (values : List String) : Condition := { c with values := distinct values }

/-- The condition without the values that its operator does not use. -/
def clearUnused (c : Condition) : Condition :=
  if c.operator.isNullCheck then { c with value := "", upper := "", values := [] }
  else
    { c with
      value := if c.operator.isList then "" else c.value
      upper := if c.operator = .between then c.upper else ""
      values := if c.operator.isList then c.values else [] }

end Condition

/-- A filter: a condition, or a group of filters. -/
inductive Filter where
  | condition (c : Condition)
  | group (id : UInt64) (connector : Connector) (children : List Filter)
  deriving Repr

mutual

/-- Equality of filters, decided together with that of lists of them. -/
def Filter.decEq : (f g : Filter) → Decidable (f = g)
  | .condition c, .condition c' => decidable_of_iff (c = c') (by rw [Filter.condition.injEq])
  | .group id connector fs, .group id' connector' gs =>
    have := Filters.decEq fs gs
    decidable_of_iff (id = id' ∧ connector = connector' ∧ fs = gs) (by rw [Filter.group.injEq])
  | .condition _, .group .. => isFalse nofun
  | .group .., .condition _ => isFalse nofun

def Filters.decEq : (fs gs : List Filter) → Decidable (fs = gs)
  | [], [] => isTrue rfl
  | f :: fs, g :: gs =>
    have := Filter.decEq f g
    have := Filters.decEq fs gs
    decidable_of_iff (f = g ∧ fs = gs) (by rw [List.cons.injEq])
  | [], _ :: _ => isFalse nofun
  | _ :: _, [] => isFalse nofun

end

instance : DecidableEq Filter := Filter.decEq

namespace Filter

def id : Filter → UInt64
  | condition c => c.id
  | group id _ _ => id

end Filter

end SegmentQuery
