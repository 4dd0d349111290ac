import SegmentQuery.Proofs.Ids.Order
import SegmentQuery.Proofs.Statement.Conditions

namespace SegmentQuery

open IdSource (Handed last ne_last_of_le)

/-- Alternatives have the ids of their filters, and new ids for the groups that are made of them. -/
theorem Filters.ids_perm_ofAlternatives (parts : List (List Filter)) (ids : IdSource) :
    ∃ new, (Filters.ids (ofAlternatives parts ids).1).Perm (Filters.ids parts.flatten ++ new) ∧
      Handed ids (ofAlternatives parts ids).2 new := by
  fun_induction ofAlternatives parts ids with
  | case1 ids => exact ⟨[], .refl _, .nil (UInt64.le_refl _)⟩
  | case2 f rest ids items after hrest ih =>
    obtain ⟨new, hperm, hnew⟩ := ih
    rw [hrest] at hperm hnew
    refine ⟨new, ?_, hnew⟩
    rw [List.flatten_cons, List.singleton_append, Filters.ids, Filters.ids, List.append_assoc]
    exact hperm.append_left f.ids
  | case3 fs rest ids hfs items after hrest ih =>
    obtain ⟨new, hperm, hnew⟩ := ih
    rw [hrest] at hperm hnew
    refine ⟨ids.next :: new, ?_, (Handed.draw ids).append hnew⟩
    have hmembers : (Filters.ids fs ++ Filters.ids items).Perm (Filters.ids fs ++ Filters.ids rest.flatten ++ new) := by
      rw [List.append_assoc]
      exact hperm.append_left (Filters.ids fs)
    rw [List.flatten_cons, Filters.ids_append, Filters.ids, Filter.ids]
    exact (hmembers.cons ids.next).trans List.perm_middle.symm

/-- The groups that are made of alternatives get their ids when all alternatives are complete. -/
theorem Filters.groupsLast_ofAlternatives {parts : List (List Filter)} {ids : IdSource}
    (hparts : GroupsLast parts.flatten) (hbefore : ∀ id ∈ Filters.ids parts.flatten, id < ids.next) :
    GroupsLast (ofAlternatives parts ids).1 := by
  fun_induction ofAlternatives parts ids with
  | case1 => exact trivial
  | case2 f rest ids items after hrest ih =>
    rw [hrest] at ih
    rw [List.flatten_cons, groupsLast_append] at hparts
    rw [List.flatten_cons, ids_append, List.forall_mem_append] at hbefore
    exact ⟨hparts.1.1, ih hparts.2 hbefore.2⟩
  | case3 fs rest ids hfs items after hrest ih =>
    rw [hrest] at ih
    rw [List.flatten_cons, groupsLast_append] at hparts
    rw [List.flatten_cons, ids_append, List.forall_mem_append] at hbefore
    -- The filters of the other alternatives come before the id of this group, and so before the ids after it.
    refine ⟨⟨hbefore.1, hparts.1⟩, ih hparts.2 fun id hid => ?_⟩
    exact UInt64.lt_of_lt_of_le (hbefore.2 id hid) ids.next_le_advance

theorem Filters.handedInOrder_ofAlternatives {before ids : IdSource} {parts : List (List Filter)}
    (h : HandedInOrder before ids parts.flatten) :
    HandedInOrder before (ofAlternatives parts ids).2 (ofAlternatives parts ids).1 := by
  obtain ⟨new, hperm, hnew⟩ := ids_perm_ofAlternatives parts ids
  refine ⟨(h.handed.append hnew).perm hperm.symm, fun hlast => ?_, fun hlast => ?_⟩
  · rw [conditions_ofAlternatives]
    exact h.conditions (ne_last_of_le hnew.le hlast)
  · have hbefore := ne_last_of_le hnew.le hlast
    exact groupsLast_ofAlternatives (h.groups hbefore) fun id hid => (h.handed.bounds hbefore id hid).2

open Filters (HandedInOrder)

namespace Joined

variable {before ids : IdSource}

/-- Joining conjunctions keeps their filters or drops them all, and adds groups. -/
theorem handedInOrder_ofConjunctions {parts : List (List Filter)} (hparts : parts ≠ [])
    (h : HandedInOrder before ids parts.flatten) :
    HandedInOrder before (ofConjunctions parts ids).2 (ofConjunctions parts ids).1.items := by
  by_cases hempty : [] ∈ parts
  · rw [ofConjunctions_of_nil_mem hempty]
    exact .nil h.handed.le
  · match parts, hparts with
    | [fs], _ =>
      have hfs : fs ≠ [] := fun hnil => hempty (by simp [hnil])
      rw [ofConjunctions_singleton hfs]
      simpa using h
    | first :: second :: rest, _ =>
      rw [ofConjunctions_of_two_le (by simp) hempty]
      exact Filters.handedInOrder_ofAlternatives h

theorem handedInOrder_toGroup {j : Joined} (h : HandedInOrder before ids j.items) :
    HandedInOrder before (j.toGroup ids).2 (j.toGroup ids).1 := by
  by_cases hitems : j.items = []
  · rw [toGroup, if_pos (by simp [hitems])]
    exact .nil h.handed.le
  · rw [toGroup, if_neg (by simp [hitems])]
    exact h.group j.connector

end Joined

/-- The ids of a disjunction are handed out in order while it is read, if those of its conjunctions are. -/
private theorem Disjunction.handedInOrder_join_of_conjunctions {d : Disjunction} {ids : IdSource}
    (h : HandedInOrder ids (d.conjunctions ids).2 (d.conjunctions ids).1.flatten) :
    HandedInOrder ids (d.join ids).2 (d.join ids).1.items :=
  Joined.handedInOrder_ofConjunctions (d.conjunctions_ne_nil ids) h

mutual

theorem Term.handedInOrder_filters : ∀ (t : Term) (ids : IdSource),
    HandedInOrder ids (t.filters ids).2 (t.filters ids).1
  | .condition field test, ids => .condition ids (Condition.id_ofTest ids.next field test)
  | .literals .., _ => .nil (UInt64.le_refl _)
  | .parens inner, ids =>
    Joined.handedInOrder_toGroup
      (Disjunction.handedInOrder_join_of_conjunctions (Disjunction.handedInOrder_conjunctions inner ids))

theorem Conjunction.handedInOrder_filters : ∀ (c : Conjunction) (ids : IdSource),
    HandedInOrder ids (c.filters ids).2 (c.filters ids).1
  | .term t, ids => Term.handedInOrder_filters t ids
  | .and c t, ids => by
    rw [Conjunction.filters_and]
    exact (Conjunction.handedInOrder_filters c ids).append (Term.handedInOrder_filters t (c.filters ids).2)

theorem Disjunction.handedInOrder_conjunctions : ∀ (d : Disjunction) (ids : IdSource),
    HandedInOrder ids (d.conjunctions ids).2 (d.conjunctions ids).1.flatten
  | .conjunction c, ids => by
    have hc := Conjunction.handedInOrder_filters c ids
    simpa [Disjunction.conjunctions] using hc
  | .or d c, ids => by
    -- No conjunction is a group yet: their groups get ids when the whole disjunction is joined.
    have hlast := Conjunction.handedInOrder_filters c (d.conjunctions ids).2
    rw [Disjunction.conjunctions_or, List.flatten_append, List.flatten_singleton]
    exact (Disjunction.handedInOrder_conjunctions d ids).append hlast

end

/-- Resolving a statement hands out the ids of all its filters, in order. -/
theorem Statement.handedInOrder_resolve (s : Statement) (ids : IdSource) :
    HandedInOrder ids (s.resolve ids).2 (s.resolve ids).1.items := by
  have hresolve : HandedInOrder ids (s.join ids).2 (s.join ids).1.items := by
    rw [join]
    cases s.filter with
    | none => exact .nil (UInt64.le_refl _)
    | some d =>
      exact Disjunction.handedInOrder_join_of_conjunctions (Disjunction.handedInOrder_conjunctions d ids)
  exact hresolve

theorem DisjunctionDraft.next_le_useIds (d : DisjunctionDraft) (ids : IdSource) : ids.next ≤ (d.useIds ids).next := by
  cases d with
  | start => exact UInt64.le_refl _
  | and d | or d => exact (d.handedInOrder_conjunctions ids).handed.le

theorem DisjunctionDraft.next_le_foldr_useIds (ds : List DisjunctionDraft) (ids : IdSource) :
    ids.next ≤ (ds.foldr useIds ids).next := by
  induction ds with
  | nil => exact UInt64.le_refl _
  | cons d ds ih => exact UInt64.le_trans ih (d.next_le_useIds _)

theorem Statement.Draft.next_le_useIds (d : Draft) (ids : IdSource) : ids.next ≤ (d.useIds ids).next := by
  cases d with
  | filter s f =>
    cases f with
    | inTerm outer current term => exact DisjunctionDraft.next_le_foldr_useIds (current :: outer) ids
    | afterTerm outer d =>
      exact UInt64.le_trans (DisjunctionDraft.next_le_foldr_useIds outer ids)
        (Disjunction.handedInOrder_join_of_conjunctions (d.handedInOrder_conjunctions _)).handed.le
  | order s | orderField s | afterField s _ | afterOrder s | limit s | complete s =>
    exact (s.handedInOrder_resolve ids).handed.le
  | start | columns | column | afterColumns | table | afterTable => exact UInt64.le_refl _

namespace Query

/-- Reading hands out the ids of all filters that it gives, in order, and takes none back. -/
theorem handedInOrder_read (text : String) (ids : IdSource) :
    ids.next ≤ (read text ids).2.next ∧
      ∀ q, (read text ids).1 = .ok q → HandedInOrder ids (read text ids).2 q.items := by
  rw [read]
  cases Statement.ofTokens (Token.scan text.toList) with
  | ok s =>
    have hresolve := s.handedInOrder_resolve ids
    refine ⟨hresolve.handed.le, ?_⟩
    rintro q ⟨⟩
    exact hresolve
  | error f =>
    refine ⟨f.draft.next_le_useIds ids, ?_⟩
    rintro q ⟨⟩

end Query

end SegmentQuery
