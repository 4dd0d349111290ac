import SegmentQuery.Proofs.Filter.Place

namespace SegmentQuery

open IdSource (Handed last ne_last_of_le)

mutual

/-- Every group has a larger id than all filters inside it. -/
def Filter.GroupsLast : Filter → Prop
  | .condition _ => True
  | .group gid _ children => (∀ id ∈ Filters.ids children, id < gid) ∧ Filters.GroupsLast children

def Filters.GroupsLast : List Filter → Prop
  | [] => True
  | f :: rest => f.GroupsLast ∧ Filters.GroupsLast rest

end

theorem Filters.groupsLast_append {items more : List Filter} :
    GroupsLast (items ++ more) ↔ GroupsLast items ∧ GroupsLast more := by
  induction items with
  | nil => simp [GroupsLast]
  | cons f rest ih => rw [List.cons_append, GroupsLast, GroupsLast, ih, and_assoc]

/-- From the state `before` to the state `after` a source can have handed out the ids of filters, to each one when it
was complete: as long as the source has not reached the last id, conditions are in order and groups come last. -/
structure Filters.HandedInOrder (before after : IdSource) (items : List Filter) : Prop where
  handed : Handed before after (Filters.ids items)
  conditions : after.next ≠ last → ((Filters.conditions items).map Condition.id).Pairwise (· < ·)
  groups : after.next ≠ last → Filters.GroupsLast items

namespace Filters.HandedInOrder

variable {a b c : IdSource} {items more : List Filter}

theorem nil (h : a.next ≤ b.next) : HandedInOrder a b [] where
  handed := .nil h
  conditions _ := .nil
  groups _ := trivial

theorem condition (ids : IdSource) {c : Condition} (h : c.id = ids.next) :
    HandedInOrder ids ids.advance [.condition c] where
  handed := by
    rw [ids_singleton, Filter.ids, h]
    exact .draw ids
  conditions _ := List.pairwise_singleton ..
  groups _ := ⟨trivial, trivial⟩

/-- What is complete later has larger ids. -/
theorem append (h : HandedInOrder a b items) (h' : HandedInOrder b c more) : HandedInOrder a c (items ++ more) where
  handed := by
    rw [ids_append]
    exact h.handed.append h'.handed
  conditions hlast := by
    have hmiddle := ne_last_of_le h'.handed.le hlast
    rw [conditions_append, List.map_append]
    refine List.pairwise_append.mpr ⟨h.conditions hmiddle, h'.conditions hlast, fun id hid later hlater => ?_⟩
    have hlt := (h.handed.bounds hmiddle id ((map_id_conditions_sublist items).mem hid)).2
    have hle := (h'.handed.bounds hlast later ((map_id_conditions_sublist more).mem hlater)).1
    exact UInt64.lt_of_lt_of_le hlt hle
  groups hlast := groupsLast_append.mpr ⟨h.groups (ne_last_of_le h'.handed.le hlast), h'.groups hlast⟩

/-- A group is complete after the filters inside it. -/
theorem group (h : HandedInOrder a b items) (k : Connector) : HandedInOrder a b.advance [.group b.next k items] where
  handed := by
    rw [ids_singleton, Filter.ids]
    exact (h.handed.append (.draw b)).perm List.perm_append_comm
  conditions hlast := by
    rw [Filters.conditions, Filter.conditions, Filters.conditions, List.append_nil]
    exact h.conditions (ne_last_of_le b.next_le_advance hlast)
  groups hlast := by
    have hbefore := ne_last_of_le b.next_le_advance hlast
    exact ⟨⟨fun id hid => (h.handed.bounds hbefore id hid).2, h.groups hbefore⟩, trivial⟩

end Filters.HandedInOrder

end SegmentQuery
