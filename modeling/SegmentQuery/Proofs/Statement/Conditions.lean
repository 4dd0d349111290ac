import SegmentQuery.Proofs.Filter.Place
import SegmentQuery.Proofs.Statement.Flattening
import SegmentQuery.Proofs.Statement.Progress

namespace SegmentQuery

mutual

/-- The conditions of a term, from left to right. -/
def Term.conditions : Term → List Condition
  | .condition field test => [.ofTest 0 field test]
  | .literals .. => []
  | .parens inner => inner.conditions

def Conjunction.conditions : Conjunction → List Condition
  | .term t => t.conditions
  | .and c t => c.conditions ++ t.conditions

def Disjunction.conditions : Disjunction → List Condition
  | .conjunction c => c.conditions
  | .or d c => d.conditions ++ c.conditions

end

/-- No comparison of literals is of this kind. -/
def Comparison.Excluded (_ : String) (_ : Comparison) (_ : Literal) : Prop := False

open Comparison (Excluded)

namespace Filters

/-- The conditions of filters without their ids. -/
def anonymousConditions (items : List Filter) : List Condition := (conditions items).map Condition.anonymous

theorem anonymousConditions_append (items more : List Filter) :
    anonymousConditions (items ++ more) = anonymousConditions items ++ anonymousConditions more := by
  rw [anonymousConditions, conditions_append, List.map_append]
  rfl

theorem anonymousConditions_group (id : UInt64) (k : Connector) (children : List Filter) :
    anonymousConditions [.group id k children] = anonymousConditions children := by
  simp [anonymousConditions, conditions, Filter.conditions]

theorem conditions_ofAlternatives (parts : List (List Filter)) (ids : IdSource) :
    conditions (ofAlternatives parts ids).1 = conditions parts.flatten := by
  fun_induction ofAlternatives parts ids with
  | case1 => rfl
  | case2 f rest ids items after hrest ih =>
    rw [hrest] at ih
    rw [List.flatten_cons, List.singleton_append, conditions, conditions, ih]
  | case3 fs rest ids hfs items after hrest ih =>
    rw [hrest] at ih
    rw [List.flatten_cons, conditions_append, conditions, Filter.conditions, ih]

theorem anonymousConditions_flatten (parts : List (List Filter)) :
    anonymousConditions parts.flatten = parts.flatMap anonymousConditions := by
  induction parts with
  | nil => rfl
  | cons fs rest ih => rw [List.flatten_cons, anonymousConditions_append, ih, List.flatMap_cons]

theorem anonymousConditions_ofAlternatives (parts : List (List Filter)) (ids : IdSource) :
    anonymousConditions (ofAlternatives parts ids).1 = parts.flatMap anonymousConditions := by
  rw [anonymousConditions, conditions_ofAlternatives, ← anonymousConditions_flatten, anonymousConditions]

end Filters

namespace Joined

theorem anonymousConditions_ofConjunctions {parts : List (List Filter)} (hparts : parts ≠ []) (hempty : [] ∉ parts)
    (ids : IdSource) :
    Filters.anonymousConditions (ofConjunctions parts ids).1.items = parts.flatMap Filters.anonymousConditions := by
  match parts, hparts with
  | [fs], _ =>
    have hfs : fs ≠ [] := fun h => hempty (by simp [h])
    simp [ofConjunctions_singleton hfs]
  | first :: second :: rest, _ =>
    rw [ofConjunctions_of_two_le (by simp) hempty, Filters.anonymousConditions_ofAlternatives]

theorem items_ofConjunctions_ne_nil {parts : List (List Filter)} (hparts : parts ≠ []) (hempty : [] ∉ parts)
    (ids : IdSource) : (ofConjunctions parts ids).1.items ≠ [] := by
  match parts, hparts with
  | [fs], _ =>
    have hfs : fs ≠ [] := fun h => hempty (by simp [h])
    rwa [ofConjunctions_singleton hfs]
  | first :: second :: rest, _ =>
    rw [ofConjunctions_of_two_le (by simp) hempty, ne_eq, ← Filters.anonymous_eq_nil, Filters.anonymous_ofAlternatives]
    simp

/-- Joining conjunctions keeps their conditions in order, or drops them all. -/
theorem anonymousConditions_ofConjunctions_sublist {parts : List (List Filter)} (hparts : parts ≠ []) (ids : IdSource) :
    (Filters.anonymousConditions (ofConjunctions parts ids).1.items).Sublist
      (parts.flatMap Filters.anonymousConditions) := by
  by_cases hempty : [] ∈ parts
  · rw [ofConjunctions_of_nil_mem hempty]
    exact List.nil_sublist _
  · rw [anonymousConditions_ofConjunctions hparts hempty]

theorem anonymousConditions_toGroup (j : Joined) (ids : IdSource) :
    Filters.anonymousConditions (j.toGroup ids).1 = Filters.anonymousConditions j.items := by
  by_cases hitems : j.items = []
  · simp [toGroup, hitems]
  · simp [toGroup, hitems, Filters.anonymousConditions_group]

end Joined

/-- Joining a disjunction keeps its conditions in order, if its conjunctions do, or drops them all. -/
private theorem Disjunction.anonymousConditions_join_sublist_of_conjunctions {d : Disjunction} {ids : IdSource}
    (h : ((d.conjunctions ids).1.flatMap Filters.anonymousConditions).Sublist d.conditions) :
    (Filters.anonymousConditions (d.join ids).1.items).Sublist d.conditions :=
  (Joined.anonymousConditions_ofConjunctions_sublist (d.conjunctions_ne_nil ids) (d.conjunctions ids).2).trans h

/-- Joining a disjunction keeps its conditions, if its conjunctions do and each of them gives filters. -/
private theorem Disjunction.anonymousConditions_join_of_conjunctions {d : Disjunction} {ids : IdSource}
    (h : [] ∉ (d.conjunctions ids).1 ∧ (d.conjunctions ids).1.flatMap Filters.anonymousConditions = d.conditions) :
    (d.join ids).1.items ≠ [] ∧ Filters.anonymousConditions (d.join ids).1.items = d.conditions := by
  obtain ⟨hempty, hconditions⟩ := h
  have hparts := d.conjunctions_ne_nil ids
  refine ⟨Joined.items_ofConjunctions_ne_nil hparts hempty (d.conjunctions ids).2, ?_⟩
  exact (Joined.anonymousConditions_ofConjunctions hparts hempty (d.conjunctions ids).2).trans hconditions

theorem Term.anonymousConditions_condition (field : String) (test : Test) (ids : IdSource) :
    Filters.anonymousConditions (filters (.condition field test) ids).1 = [.ofTest 0 field test] := by
  rw [← Condition.anonymous_ofTest ids.next]
  rfl

mutual

theorem Term.anonymousConditions_sublist : ∀ (t : Term) (ids : IdSource),
    (Filters.anonymousConditions (t.filters ids).1).Sublist t.conditions
  | .condition field test, ids => by
    rw [Term.anonymousConditions_condition]
    exact List.Sublist.refl _
  | .literals .., _ => List.nil_sublist _
  | .parens inner, ids => by
    rw [Term.filters_parens, Joined.anonymousConditions_toGroup]
    exact Disjunction.anonymousConditions_join_sublist_of_conjunctions
      (Disjunction.anonymousConditions_sublist inner ids)

theorem Conjunction.anonymousConditions_sublist : ∀ (c : Conjunction) (ids : IdSource),
    (Filters.anonymousConditions (c.filters ids).1).Sublist c.conditions
  | .term t, ids => Term.anonymousConditions_sublist t ids
  | .and c t, ids => by
    rw [Conjunction.filters_and, Filters.anonymousConditions_append]
    exact (Conjunction.anonymousConditions_sublist c ids).append (Term.anonymousConditions_sublist t _)

theorem Disjunction.anonymousConditions_sublist : ∀ (d : Disjunction) (ids : IdSource),
    ((d.conjunctions ids).1.flatMap Filters.anonymousConditions).Sublist d.conditions
  | .conjunction c, ids => by
    simpa [Disjunction.conjunctions, Disjunction.conditions] using Conjunction.anonymousConditions_sublist c ids
  | .or d c, ids => by
    have hlast := Conjunction.anonymousConditions_sublist c (d.conjunctions ids).2
    have hall := (Disjunction.anonymousConditions_sublist d ids).append hlast
    simpa [Disjunction.conjunctions, Disjunction.conditions] using hall

end

mutual

/-- A term without comparisons of literals gives a filter, and keeps its conditions. -/
theorem Term.anonymousConditions_of_excluded : ∀ (t : Term) (ids : IdSource), t.EveryComparison Excluded →
    (t.filters ids).1 ≠ [] ∧ Filters.anonymousConditions (t.filters ids).1 = t.conditions
  | .condition field test, ids, _ => by
    exact ⟨List.cons_ne_nil _ _, Term.anonymousConditions_condition field test ids⟩
  | .parens inner, ids, hnone => by
    obtain ⟨hitems, hconditions⟩ := Disjunction.anonymousConditions_join_of_conjunctions
      (Disjunction.anonymousConditions_of_excluded inner ids hnone)
    refine ⟨by simp [Term.filters_parens, Joined.toGroup, hitems], ?_⟩
    rw [Term.filters_parens, Joined.anonymousConditions_toGroup]
    exact hconditions

theorem Conjunction.anonymousConditions_of_excluded : ∀ (c : Conjunction) (ids : IdSource), c.EveryComparison Excluded →
    (c.filters ids).1 ≠ [] ∧ Filters.anonymousConditions (c.filters ids).1 = c.conditions
  | .term t, ids, hnone => Term.anonymousConditions_of_excluded t ids hnone
  | .and c t, ids, hnone => by
    obtain ⟨hne, hbefore⟩ := Conjunction.anonymousConditions_of_excluded c ids hnone.1
    obtain ⟨-, hlast⟩ := Term.anonymousConditions_of_excluded t (c.filters ids).2 hnone.2
    rw [Conjunction.filters_and, Filters.anonymousConditions_append, hbefore, hlast]
    exact ⟨by simp [hne], rfl⟩

theorem Disjunction.anonymousConditions_of_excluded : ∀ (d : Disjunction) (ids : IdSource), d.EveryComparison Excluded →
    [] ∉ (d.conjunctions ids).1 ∧ (d.conjunctions ids).1.flatMap Filters.anonymousConditions = d.conditions
  | .conjunction c, ids, hnone => by
    obtain ⟨hne, hc⟩ := Conjunction.anonymousConditions_of_excluded c ids hnone
    refine ⟨by simpa [Disjunction.conjunctions] using hne.symm, ?_⟩
    simpa [Disjunction.conjunctions, Disjunction.conditions] using hc
  | .or d c, ids, hnone => by
    obtain ⟨hempty, hd⟩ := Disjunction.anonymousConditions_of_excluded d ids hnone.1
    obtain ⟨hne, hc⟩ := Conjunction.anonymousConditions_of_excluded c (d.conjunctions ids).2 hnone.2
    refine ⟨by simpa [Disjunction.conjunctions, hempty] using hne.symm, ?_⟩
    simp [Disjunction.conjunctions, Disjunction.conditions, hd, hc]

end

namespace Statement

/-- The conditions of the `WHERE` of a statement, from left to right. -/
def conditions (s : Statement) : List Condition := s.filter.elim [] Disjunction.conditions

/-- Resolving a statement keeps the order of its conditions and makes up none. -/
theorem anonymousConditions_sublist (s : Statement) (ids : IdSource) :
    (Filters.anonymousConditions (s.resolve ids).1.items).Sublist s.conditions := by
  have hitems : (s.resolve ids).1.items = (s.join ids).1.items := rfl
  rw [hitems, join, conditions]
  cases s.filter with
  | none => exact List.nil_sublist _
  | some d =>
    exact Disjunction.anonymousConditions_join_sublist_of_conjunctions (d.anonymousConditions_sublist ids)

/-- Without comparisons of literals no condition is dropped. -/
theorem anonymousConditions_of_excluded {s : Statement} (hnone : s.EveryComparison Excluded) (ids : IdSource) :
    Filters.anonymousConditions (s.resolve ids).1.items = s.conditions := by
  have hitems : (s.resolve ids).1.items = (s.join ids).1.items := rfl
  rw [hitems, join, conditions]
  cases hfilter : s.filter with
  | none => rfl
  | some d =>
    have hd := d.anonymousConditions_of_excluded ids (hnone d hfilter)
    exact (Disjunction.anonymousConditions_join_of_conjunctions hd).2

end Statement

end SegmentQuery
