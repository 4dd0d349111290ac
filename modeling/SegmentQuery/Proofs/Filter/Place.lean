import SegmentQuery.Proofs.Ids.Tree

namespace SegmentQuery

/-- What a filter is by itself, without the filters inside it. -/
inductive Head where
  | condition (c : Condition)
  | group (id : UInt64) (connector : Connector)
  deriving Repr, DecidableEq

namespace Head

def id : Head → UInt64
  | condition c => c.id
  | group id _ => id

def condition? : Head → Option Condition
  | condition c => some c
  | group .. => none

end Head

def Filter.head : Filter → Head
  | .condition c => .condition c
  | .group id k _ => .group id k

mutual

/-- The heads of a filter and of all filters inside it, in document order. -/
def Filter.heads : Filter → List Head
  | .condition c => [.condition c]
  | .group id k children => .group id k :: Filters.heads children

/-- The heads of a list of filters and of all filters inside them, in document order. -/
def Filters.heads : List Filter → List Head
  | [] => []
  | f :: rest => f.heads ++ Filters.heads rest

end

mutual

theorem Filter.map_id_heads : ∀ f : Filter, f.heads.map Head.id = f.ids
  | .condition _ => rfl
  | .group gid k children => by
    rw [Filter.heads, Filter.ids, List.map_cons, Filters.map_id_heads children]
    rfl

theorem Filters.map_id_heads : ∀ items : List Filter, (Filters.heads items).map Head.id = Filters.ids items
  | [] => rfl
  | f :: rest => by
    rw [Filters.heads, Filters.ids, List.map_append, Filter.map_id_heads f, Filters.map_id_heads rest]

end

mutual

theorem Filter.filterMap_condition_heads : ∀ f : Filter, f.heads.filterMap Head.condition? = f.conditions
  | .condition _ => rfl
  | .group gid k children => by
    rw [Filter.heads, Filter.conditions, List.filterMap_cons_none rfl, Filters.filterMap_condition_heads children]

theorem Filters.filterMap_condition_heads : ∀ items : List Filter,
    (Filters.heads items).filterMap Head.condition? = Filters.conditions items
  | [] => rfl
  | f :: rest => by
    rw [Filters.heads, Filters.conditions, List.filterMap_append, Filter.filterMap_condition_heads f,
      Filters.filterMap_condition_heads rest]

end

theorem Filter.id_head (f : Filter) : f.head.id = f.id := by
  cases f <;> rfl

/-- The head of a filter comes before the heads of those inside it. -/
theorem Filter.exists_heads_eq (f : Filter) : ∃ inside, f.heads = f.head :: inside := by
  cases f with
  | condition c => exact ⟨[], rfl⟩
  | group gid k children => exact ⟨Filters.heads children, rfl⟩

theorem Filter.id_mem_ids (f : Filter) : f.id ∈ f.ids := by
  cases f with
  | condition c => exact List.mem_singleton.mpr rfl
  | group gid k children => exact List.mem_cons_self

namespace Filters

theorem heads_append (items more : List Filter) : heads (items ++ more) = heads items ++ heads more := by
  induction items with
  | nil => rfl
  | cons f rest ih => rw [List.cons_append, heads, heads, ih, List.append_assoc]

theorem heads_singleton (f : Filter) : heads [f] = f.heads := by
  rw [heads, heads, List.append_nil]

theorem conditions_append (items more : List Filter) :
    conditions (items ++ more) = conditions items ++ conditions more := by
  simp only [← filterMap_condition_heads, heads_append, List.filterMap_append]

theorem map_id_conditions_sublist (items : List Filter) :
    ((conditions items).map Condition.id).Sublist (ids items) := by
  rw [← filterMap_condition_heads, ← map_id_heads]
  induction heads items with
  | nil => exact .slnil
  | cons h rest ih =>
    cases h with
    | condition c => exact ih.cons_cons c.id
    | group gid _ => exact ih.cons gid

theorem id_mem_ids {items : List Filter} {f : Filter} (h : f ∈ items) : f.id ∈ ids items := by
  obtain ⟨before, after, rfl⟩ := List.append_of_mem h
  rw [ids_append, ids, List.mem_append, List.mem_append]
  exact .inr (.inl f.id_mem_ids)

theorem id_ne_of_not_mem_ids {id : UInt64} {items : List Filter} (h : id ∉ ids items) : ∀ f ∈ items, f.id ≠ id := by
  rintro f hf rfl
  exact h (id_mem_ids hf)

end Filters

/-- A gap in a list of filters, behind some of them and before the others, or a gap inside one of its groups. -/
inductive Place where
  | between (before after : List Filter)
  | inside (before : List Filter) (id : UInt64) (connector : Connector) (place : Place) (after : List Filter)

namespace Place

/-- The list with some filters put into the gap. -/
def fill : Place → List Filter → List Filter
  | between before after, filling => before ++ filling ++ after
  | inside before id k place after, filling => before ++ .group id k (place.fill filling) :: after

/-- The heads that come before the gap in document order, those of the groups around it included. -/
def earlier : Place → List Head
  | between before _ => Filters.heads before
  | inside before id k place _ => Filters.heads before ++ .group id k :: place.earlier

/-- The heads that come after the gap in document order. -/
def later : Place → List Head
  | between _ after => Filters.heads after
  | inside _ _ _ place after => place.later ++ Filters.heads after

/-- The place in a longer list. -/
def around (front back : List Filter) : Place → Place
  | between before after => between (front ++ before) (after ++ back)
  | inside before id k place after => inside (front ++ before) id k place (after ++ back)

theorem fill_around (front back : List Filter) (p : Place) (filling : List Filter) :
    (p.around front back).fill filling = front ++ p.fill filling ++ back := by
  cases p <;> simp [around, fill]

theorem earlier_around (front back : List Filter) (p : Place) :
    (p.around front back).earlier = Filters.heads front ++ p.earlier := by
  cases p <;> simp [around, earlier, Filters.heads_append]

theorem heads_fill (p : Place) (filling : List Filter) :
    Filters.heads (p.fill filling) = p.earlier ++ Filters.heads filling ++ p.later := by
  induction p with
  | between before after => rw [fill, earlier, later, Filters.heads_append, Filters.heads_append]
  | inside before id k place after ih =>
    rw [fill, earlier, later, Filters.heads_append, Filters.heads, Filter.heads, ih]
    simp only [List.append_assoc, List.cons_append]

theorem ids_fill (p : Place) (filling : List Filter) :
    Filters.ids (p.fill filling) = p.earlier.map Head.id ++ Filters.ids filling ++ p.later.map Head.id := by
  simp only [← Filters.map_id_heads, heads_fill, List.map_append]

theorem conditions_fill (p : Place) (filling : List Filter) :
    Filters.conditions (p.fill filling) =
      p.earlier.filterMap Head.condition? ++ Filters.conditions filling ++ p.later.filterMap Head.condition? := by
  simp only [← Filters.filterMap_condition_heads, heads_fill, List.filterMap_append]

/-- A member of a list stands in a gap of what is left without it. -/
theorem exists_fill_eq_of_getElem? {items : List Filter} {n : Nat} {f : Filter} (h : items[n]? = some f) :
    ∃ p : Place, p.fill [f] = items ∧ p.fill [] = items.eraseIdx n := by
  obtain ⟨hn, rfl⟩ := List.getElem?_eq_some_iff.mp h
  refine ⟨.between (items.take n) (items.drop (n + 1)), ?_, ?_⟩
  · rw [fill, List.append_assoc, List.singleton_append, List.getElem_cons_drop, List.take_append_drop]
  · rw [fill, List.append_nil, List.eraseIdx_eq_take_drop_succ]

theorem mem_ids_fill (p : Place) (f : Filter) : f.id ∈ Filters.ids (p.fill [f]) := by
  rw [ids_fill, Filters.ids_singleton, List.append_assoc, List.mem_append, List.mem_append]
  exact .inr (.inl f.id_mem_ids)

theorem ids_fill_nil (p : Place) :
    Filters.ids (p.fill []) = p.earlier.map Head.id ++ p.later.map Head.id := by
  rw [ids_fill, Filters.ids, List.append_nil]

/-- Where ids are distinct, the ids of what fills a place are not found around it. -/
theorem not_mem_ids_fill_nil {p : Place} {filling : List Filter} {id : UInt64}
    (h : (Filters.ids (p.fill filling)).Nodup) (hid : id ∈ Filters.ids filling) : id ∉ Filters.ids (p.fill []) := by
  rw [ids_fill, List.append_assoc, List.nodup_append, List.nodup_append] at h
  obtain ⟨-, ⟨-, -, hlater⟩, hearlier⟩ := h
  rw [ids_fill_nil, List.mem_append, not_or]
  exact ⟨fun hmem => hearlier id hmem id (List.mem_append_left _ hid) rfl,
    fun hmem => hlater id hid id hmem rfl⟩

end Place

end SegmentQuery
