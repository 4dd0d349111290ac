import SegmentQuery.Filter.Tree
import SegmentQuery.Proofs.Ids.Source

namespace SegmentQuery

mutual

/-- The ids in a filter, in document order. -/
def Filter.ids : Filter → List UInt64
  | .condition c => [c.id]
  | .group id _ children => id :: Filters.ids children

/-- The ids in a list of filters, in document order. -/
def Filters.ids : List Filter → List UInt64
  | [] => []
  | f :: rest => f.ids ++ Filters.ids rest

end

theorem Filters.ids_append (items more : List Filter) : ids (items ++ more) = ids items ++ ids more := by
  induction items with
  | nil => rfl
  | cons f rest ih => rw [List.cons_append, ids, ids, ih, List.append_assoc]

theorem Filters.ids_singleton (f : Filter) : ids [f] = f.ids := by
  rw [ids, ids, List.append_nil]

private theorem le_max_of_le {id a b : UInt64} (h : id ≤ a ∨ id ≤ b) : id ≤ max a b := by
  rw [UInt64.le_iff_toNat_le, UInt64.le_iff_toNat_le] at h
  rw [UInt64.le_iff_toNat_le, UInt64.toNat_max]
  omega

private theorem max_eq_or (a b : UInt64) : max a b = a ∨ max a b = b := by
  rw [← UInt64.toNat_inj, ← UInt64.toNat_inj, UInt64.toNat_max]
  omega

private theorem max_zero (a : UInt64) : max a 0 = a := by
  rw [← UInt64.toNat_inj, UInt64.toNat_max, UInt64.toNat_zero]
  omega

mutual

theorem Filter.le_maxId : ∀ {f : Filter} {id : UInt64}, id ∈ f.ids → id ≤ f.maxId
  | .condition c, id, hid => by
    rw [Filter.ids, List.mem_singleton] at hid
    subst hid
    exact UInt64.le_refl _
  | .group gid _ children, id, hid => by
    rw [Filter.maxId]
    rcases List.mem_cons.mp hid with rfl | hid
    · exact le_max_of_le (.inl (UInt64.le_refl _))
    · exact le_max_of_le (.inr (Filters.le_maxId hid))

theorem Filters.le_maxId : ∀ {items : List Filter} {id : UInt64}, id ∈ Filters.ids items → id ≤ Filters.maxId items
  | [], _, hid => by cases hid
  | f :: rest, id, hid => by
    rw [Filters.maxId]
    rcases List.mem_append.mp hid with hid | hid
    · exact le_max_of_le (.inl (Filter.le_maxId hid))
    · exact le_max_of_le (.inr (Filters.le_maxId hid))

end

mutual

theorem Filter.maxId_mem : ∀ f : Filter, f.maxId ∈ f.ids
  | .condition c => List.mem_singleton.mpr rfl
  | .group gid k children => by
    rw [Filter.maxId, Filter.ids, List.mem_cons]
    by_cases hchildren : children = []
    · left
      rw [hchildren, Filters.maxId, max_zero]
    · rcases max_eq_or gid (Filters.maxId children) with hmax | hmax
      · exact .inl hmax
      · rw [hmax]
        exact .inr (Filters.maxId_mem hchildren)

/-- The largest id is the id of a filter, if there is one. -/
theorem Filters.maxId_mem : ∀ {items : List Filter}, items ≠ [] → Filters.maxId items ∈ Filters.ids items
  | [], h => absurd rfl h
  | f :: rest, _ => by
    rw [Filters.maxId, Filters.ids, List.mem_append]
    by_cases hrest : rest = []
    · left
      rw [hrest, Filters.maxId, max_zero]
      exact Filter.maxId_mem f
    · rcases max_eq_or f.maxId (Filters.maxId rest) with hmax | hmax
      · rw [hmax]
        exact .inl (Filter.maxId_mem f)
      · rw [hmax]
        exact .inr (Filters.maxId_mem hrest)

end

mutual

theorem Filter.renumber_eq_upcoming : ∀ (f : Filter) (ids : IdSource),
    (f.renumber ids).1.ids = ids.upcoming f.ids.length ∧ (f.renumber ids).2 = IdSource.advance^[f.ids.length] ids
  | .condition _, _ => ⟨rfl, rfl⟩
  | .group _ _ children, ids => by
    obtain ⟨hids, hafter⟩ := Filters.renumber_eq_upcoming children ids.advance
    refine ⟨?_, hafter⟩
    rw [Filter.renumber, Filter.ids, Filter.ids, hids, List.length_cons, IdSource.upcoming_succ]

/-- Renumbering hands out one id after the other, in document order. -/
theorem Filters.renumber_eq_upcoming : ∀ (items : List Filter) (ids : IdSource),
    Filters.ids (Filters.renumber items ids).1 = ids.upcoming (Filters.ids items).length ∧
      (Filters.renumber items ids).2 = IdSource.advance^[(Filters.ids items).length] ids
  | [], _ => ⟨rfl, rfl⟩
  | f :: rest, ids => by
    obtain ⟨hf, hmiddle⟩ := Filter.renumber_eq_upcoming f ids
    obtain ⟨hrest, hafter⟩ := Filters.renumber_eq_upcoming rest (f.renumber ids).2
    constructor
    · rw [Filters.renumber, Filters.ids, Filters.ids, hf, hrest, hmiddle, List.length_append, IdSource.upcoming_add]
    · rw [Filters.renumber, Filters.ids, List.length_append, hafter, hmiddle, Nat.add_comm, Function.iterate_add_apply]

end

/-- Renumbering hands out all ids of the new list. -/
theorem Filters.handed_renumber (items : List Filter) (ids : IdSource) :
    IdSource.Handed ids (renumber items ids).2 (Filters.ids (renumber items ids).1) := by
  obtain ⟨hids, hafter⟩ := renumber_eq_upcoming items ids
  rw [hids, hafter]
  exact .upcoming ids _

end SegmentQuery
