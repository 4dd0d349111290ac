import SegmentQuery.Proofs.Query.FilterText
import SegmentQuery.Proofs.Session.Edits

namespace SegmentQuery.Session

theorem changeOperator_condition (op : Operator) (c : Condition) :
    changeOperator op (.condition c) = .condition (c.reassigned op) := by
  rw [changeOperator, Condition.clearUnused_eq_reassigned]
  rfl

/-- The operator is changed exactly if the first filter with the id is a condition. -/
theorem isSome_setOperator?_iff (s : Session) (id : UInt64) (op : Operator) :
    (s.setOperator? id op).isSome = true ↔ ∃ c, Filters.find? id s.query.items = some (.condition c) := by
  cases hfound : Filters.find? id s.query.items with
  | none =>
    rw [setOperator?, hfound]
    simp
  | some f =>
    obtain ⟨p, hp⟩ := Filters.exists_firstAt hfound
    cases f with
    | condition c =>
      rw [setOperator?_of_firstAt hp]
      exact iff_of_true rfl ⟨c, rfl⟩
    | group gid k children =>
      rw [setOperator?, hfound]
      simp

/-- The text is the one that the operator alone would give. -/
theorem exportText_reassigned (s : Session) (p : Place) (op : Operator) (c : Condition) :
    (s.withItems (p.fill [.condition (c.reassigned op)])).exportText =
      (s.withItems (p.fill [.condition { c with operator := op }])).exportText := by
  have htext : (Filter.condition (c.reassigned op)).text? = (Filter.condition { c with operator := op }).text? :=
    congrArg some (c.text_reassigned op)
  exact Query.text_withItems (p.texts_fill_congr htext)

/-- A condition that is under the operator already stays as it is. -/
theorem setOperator?_reassigned {s : Session} {id : UInt64} {p : Place} {c : Condition}
    (h : Filters.FirstAt id s.query.items p (.condition c)) (op : Operator) :
    (s.withItems (p.fill [.condition (c.reassigned op)])).setOperator? id op =
      some (s.withItems (p.fill [.condition (c.reassigned op)])) := by
  have hafter : Filters.FirstAt id (p.fill [.condition (c.reassigned op)]) p (.condition (c.reassigned op)) :=
    h.refill h.id_eq
  have hset := setOperator?_of_firstAt (s := s.withItems (p.fill [.condition (c.reassigned op)])) hafter op
  rw [changeOperator_condition, Condition.reassigned_reassigned] at hset
  exact hset

/-- Changing the operator of a condition works exactly if the first filter with the id in document order is a condition,
and changes nothing otherwise. It exchanges that condition, and nothing around it, for the one under the new operator,
which holds nothing in slots that the operator does not use. The session then exports what it would export if only the
operator had been assigned, and the same change does nothing more. -/
theorem setOperator?_changes_condition (s : Session) (id : UInt64) (op : Operator) :
    let first := (Filters.heads s.query.items).find? fun h => h.id = id
    ((s.setOperator? id op).isSome = true ↔ ∃ c, first = some (.condition c)) ∧
      (s.setOperator? id op = none → s.edit (.setOperator id op) = s) ∧
      ∀ c, first = some (.condition c) → ∃ p after, Filters.FirstAt id s.query.items p (.condition c) ∧
        s.setOperator? id op = some after ∧ after = s.withItems (p.fill [.condition (c.reassigned op)]) ∧
        after.exportText = (s.withItems (p.fill [.condition { c with operator := op }])).exportText ∧
        after.setOperator? id op = some after := by
  intro first
  have hfirst (c : Condition) :
      first = some (.condition c) ↔ Filters.find? id s.query.items = some (.condition c) :=
    Filters.find?_heads_eq_condition_iff
  refine ⟨?_, fun hnone => ?_, fun c hc => ?_⟩
  · simp only [hfirst]
    exact isSome_setOperator?_iff s id op
  · rw [edit, hnone]
    rfl
  · obtain ⟨p, hp⟩ := Filters.exists_firstAt ((hfirst c).mp hc)
    have hset := setOperator?_of_firstAt hp op
    rw [changeOperator_condition] at hset
    exact ⟨p, _, hp, hset, rfl, exportText_reassigned s p op c, setOperator?_reassigned hp op⟩

/-- The id stands at two places. The first of them is a range inside a group, with a list that is left over; it keeps
the list under `IN`, and loses its bounds. -/
theorem setOperator?_changes_condition_of_repeated :
    let range : Condition := ⟨2, "SeriesName", .between, "Lost", "Pilot", ["Lost"]⟩
    let other : Filter := .condition (.plain 2 "ItemName" .isNull)
    let s : Session := ⟨⟨3⟩, { Query.everything with items := [.group 1 .and [.condition range], other] }⟩
    (s.setOperator? 2 .oneOf).isSome = true ∧ ∃ after, s.setOperator? 2 .oneOf = some after ∧
      after.query.items = [.group 1 .and [.condition ⟨2, "SeriesName", .oneOf, "", "", ["Lost"]⟩], other] ∧
      after.setOperator? 2 .oneOf = some after := by
  intro range other s
  have hfirst : ((Filters.heads s.query.items).find? fun h => h.id = 2) = some (.condition range) := rfl
  obtain ⟨hset, -, hchange⟩ := setOperator?_changes_condition s 2 .oneOf
  obtain ⟨p, after, -, hafter, -, -, hagain⟩ := hchange range hfirst
  have hitems : (s.setOperator? 2 .oneOf).map (fun after => after.query.items) =
      some [.group 1 .and [.condition ⟨2, "SeriesName", .oneOf, "", "", ["Lost"]⟩], other] := rfl
  rw [hafter] at hitems
  exact ⟨hset.mpr ⟨range, hfirst⟩, after, hafter, Option.some.inj hitems, hagain⟩

end SegmentQuery.Session
