import SegmentQuery.Filter.Tree

namespace SegmentQuery

/-- The condition with the id 0. -/
def Condition.anonymous (c : Condition) : Condition := { c with id := 0 }

theorem Condition.eq_of_anonymous {c d : Condition} (hid : c.id = d.id) (h : c.anonymous = d.anonymous) : c = d := by
  have hc : c = { c.anonymous with id := c.id } := rfl
  rw [hc, h, hid]
  rfl

mutual

/-- The filter with the id 0 everywhere. -/
def Filter.anonymous : Filter → Filter
  | .condition c => .condition c.anonymous
  | .group _ k children => .group 0 k (Filters.anonymous children)

def Filters.anonymous : List Filter → List Filter
  | [] => []
  | f :: rest => f.anonymous :: Filters.anonymous rest

end

mutual

theorem Filter.conditions_anonymous : ∀ f : Filter, f.anonymous.conditions = f.conditions.map Condition.anonymous
  | .condition _ => rfl
  | .group _ _ children => by
    rw [Filter.anonymous, Filter.conditions, Filter.conditions, Filters.conditions_anonymous children]

theorem Filters.conditions_anonymous : ∀ items : List Filter,
    Filters.conditions (Filters.anonymous items) = (Filters.conditions items).map Condition.anonymous
  | [] => rfl
  | f :: rest => by
    rw [Filters.anonymous, Filters.conditions, Filters.conditions, List.map_append, Filter.conditions_anonymous f,
      Filters.conditions_anonymous rest]

end

namespace Filters

theorem anonymous_eq_map (items : List Filter) : anonymous items = items.map Filter.anonymous := by
  induction items with
  | nil => rfl
  | cons f rest ih => rw [anonymous, ih, List.map_cons]

theorem anonymous_append (items more : List Filter) :
    anonymous (items ++ more) = anonymous items ++ anonymous more := by
  simp only [anonymous_eq_map, List.map_append]

theorem length_anonymous (items : List Filter) : (anonymous items).length = items.length := by
  rw [anonymous_eq_map, List.length_map]

theorem anonymous_eq_nil {items : List Filter} : anonymous items = [] ↔ items = [] := by
  rw [anonymous_eq_map, List.map_eq_nil_iff]

end Filters

end SegmentQuery
