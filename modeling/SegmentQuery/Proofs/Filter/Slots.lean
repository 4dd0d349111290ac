import SegmentQuery.Proofs.Filter.Anonymous

namespace SegmentQuery

/-- A place for values in a condition. -/
inductive Slot where
  | value
  | upper
  | values
  deriving Repr, DecidableEq

/-- The slots that an operator uses. -/
def Operator.slots : Operator → List Slot
  | compare _ | like | notLike => [.value]
  | between => [.value, .upper]
  | oneOf | notOneOf => [.values]
  | isNull | isNotNull => []

theorem Operator.values_mem_slots {op : Operator} : .values ∈ op.slots ↔ op.isList = true := by
  cases op <;> simp [slots, isList]

namespace Condition

/-- A condition without values in slots that its operator does not use, and without repeats in its list. -/
structure Disciplined (c : Condition) : Prop where
  value : .value ∉ c.operator.slots → c.value = ""
  upper : .upper ∉ c.operator.slots → c.upper = ""
  values : .values ∉ c.operator.slots → c.values = []
  nodup : c.values.Nodup

/-- The condition under another operator, with what it holds in the slots that this operator uses. -/
def reassigned (op : Operator) (c : Condition) : Condition :=
  { c with
    operator := op
    value := if .value ∈ op.slots then c.value else ""
    upper := if .upper ∈ op.slots then c.upper else ""
    values := if .values ∈ op.slots then c.values else [] }

theorem clearUnused_eq_reassigned (c : Condition) : c.clearUnused = c.reassigned c.operator := by
  obtain ⟨id, field, op, value, upper, values⟩ := c
  cases op <;> rfl

/-- The conditions under a new operator are disciplined, whatever is left over in their other slots. -/
theorem disciplined_reassigned {c : Condition} (h : c.values.Nodup) (op : Operator) :
    (c.reassigned op).Disciplined where
  value h := if_neg h
  upper h := if_neg h
  values h := if_neg h
  nodup := by
    have hvalues : (c.reassigned op).values = if .values ∈ op.slots then c.values else [] := rfl
    rw [hvalues]
    split
    · exact h
    · exact .nil

/-- A condition is disciplined exactly if clearing it changes nothing and its list has no repeats. -/
theorem disciplined_iff {c : Condition} : c.Disciplined ↔ c.clearUnused = c ∧ c.values.Nodup := by
  rw [clearUnused_eq_reassigned]
  constructor
  · intro h
    have hvalue : (if .value ∈ c.operator.slots then c.value else "") = c.value :=
      ite_eq_left_iff.mpr fun hunused => (h.value hunused).symm
    have hupper : (if .upper ∈ c.operator.slots then c.upper else "") = c.upper :=
      ite_eq_left_iff.mpr fun hunused => (h.upper hunused).symm
    have hvalues : (if .values ∈ c.operator.slots then c.values else []) = c.values :=
      ite_eq_left_iff.mpr fun hunused => (h.values hunused).symm
    rw [reassigned, hvalue, hupper, hvalues]
    exact ⟨rfl, h.nodup⟩
  · rintro ⟨hclear, hnodup⟩
    rw [← hclear]
    exact disciplined_reassigned hnodup c.operator

theorem disciplined_plain (id : UInt64) (field : String) (op : Operator) : (plain id field op).Disciplined where
  value _ := rfl
  upper _ := rfl
  values _ := rfl
  nodup := .nil

/-- Discipline does not depend on ids. -/
theorem disciplined_anonymous {c : Condition} : c.anonymous.Disciplined ↔ c.Disciplined :=
  ⟨fun ⟨value, upper, values, nodup⟩ => ⟨value, upper, values, nodup⟩,
    fun ⟨value, upper, values, nodup⟩ => ⟨value, upper, values, nodup⟩⟩

/-- A value may be added to a list, but to no list that the operator does not use. -/
theorem Disciplined.addValue? {c more : Condition} (h : c.Disciplined) (hlist : .values ∈ c.operator.slots)
    {value : String} (hmore : c.addValue? value = some more) : more.Disciplined := by
  rw [Condition.addValue?] at hmore
  split at hmore
  · cases hmore
  · next hnew =>
    cases hmore
    have hnodup := nodup_addDistinct value h.nodup
    rw [addDistinct, if_neg hnew] at hnodup
    exact ⟨h.value, h.upper, (absurd hlist ·), hnodup⟩

theorem reassigned_reassigned (op : Operator) (c : Condition) :
    (c.reassigned op).reassigned op = c.reassigned op := by
  simp only [reassigned]
  split <;> split <;> split <;> rfl

end Condition

end SegmentQuery
