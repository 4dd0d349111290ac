import SegmentQuery.Proofs.Filter.Anonymous
import SegmentQuery.Query.Basic

namespace SegmentQuery

/-- Truth values with a conjunction and a disjunction. Nothing is asked of them but that chains need no parentheses, and
that `always` counts for nothing in a conjunction and for everything in a disjunction. -/
class Truth (α : Type) where
  always : α
  and : α → α → α
  or : α → α → α
  and_assoc : ∀ a b c, and (and a b) c = and a (and b c)
  or_assoc : ∀ a b c, or (or a b) c = or a (or b c)
  always_and : ∀ a, and always a = a
  and_always : ∀ a, and a always = a
  always_or : ∀ a, or always a = always
  or_always : ∀ a, or a always = always

instance : Truth Bool where
  always := true
  and := (· && ·)
  or := (· || ·)
  and_assoc := Bool.and_assoc
  or_assoc := Bool.or_assoc
  always_and := Bool.true_and
  and_always := Bool.and_true
  always_or := Bool.true_or
  or_always := Bool.or_true

/-- The truth values of comparisons with missing values. -/
inductive Ternary where
  | no
  | unknown
  | yes
  deriving Repr, DecidableEq

namespace Ternary

/-- False if one side is, and true if both are. -/
def and : Ternary → Ternary → Ternary
  | no, _ | _, no => no
  | unknown, _ | _, unknown => unknown
  | yes, yes => yes

/-- True if one side is, and false if both are. -/
def or : Ternary → Ternary → Ternary
  | yes, _ | _, yes => yes
  | unknown, _ | _, unknown => unknown
  | no, no => no

end Ternary

instance : Truth Ternary where
  always := .yes
  and := Ternary.and
  or := Ternary.or
  and_assoc a b c := by cases a <;> cases b <;> cases c <;> rfl
  or_assoc a b c := by cases a <;> cases b <;> cases c <;> rfl
  always_and a := by cases a <;> rfl
  and_always a := by cases a <;> rfl
  always_or a := by cases a <;> rfl
  or_always a := by cases a <;> rfl

variable {α : Type} [Truth α]

namespace Connector

/-- Two values joined by a connector. -/
def combine : Connector → α → α → α
  | .and => Truth.and
  | .or => Truth.or

/-- Values joined by a connector. No values at all hold always. -/
def value (k : Connector) : List α → α
  | [] => Truth.always
  | [x] => x
  | x :: y :: rest => k.combine x (k.value (y :: rest))

theorem value_cons_of_ne_nil (k : Connector) (x : α) {xs : List α} (h : xs ≠ []) :
    k.value (x :: xs) = k.combine x (k.value xs) := by
  obtain ⟨y, rest, rfl⟩ := List.exists_cons_of_ne_nil h
  rfl

theorem value_and_cons (x : α) (xs : List α) : and.value (x :: xs) = Truth.and x (and.value xs) := by
  cases xs with
  | nil => exact (Truth.and_always x).symm
  | cons y rest => rfl

theorem value_and_append (xs ys : List α) : and.value (xs ++ ys) = Truth.and (and.value xs) (and.value ys) := by
  induction xs with
  | nil => exact (Truth.always_and _).symm
  | cons x xs ih => rw [List.cons_append, value_and_cons, value_and_cons, ih, Truth.and_assoc]

theorem combine_assoc (k : Connector) (a b c : α) : k.combine (k.combine a b) c = k.combine a (k.combine b c) := by
  cases k
  · exact Truth.and_assoc a b c
  · exact Truth.or_assoc a b c

theorem value_snoc (k : Connector) {xs : List α} (h : xs ≠ []) (x : α) :
    k.value (xs ++ [x]) = k.combine (k.value xs) x := by
  induction xs with
  | nil => exact absurd rfl h
  | cons y xs ih =>
    by_cases hxs : xs = []
    · rw [hxs]
      rfl
    · rw [List.cons_append, value_cons_of_ne_nil _ _ (by simp), value_cons_of_ne_nil _ _ hxs, ih hxs, combine_assoc]

/-- One member that holds always makes a disjunction hold always. -/
theorem value_or_of_mem {xs : List α} (h : Truth.always ∈ xs) : or.value xs = Truth.always := by
  induction xs with
  | nil => rfl
  | cons x xs ih =>
    by_cases hxs : xs = []
    · subst hxs
      exact (List.mem_singleton.mp h).symm
    · rw [value_cons_of_ne_nil _ _ hxs]
      rcases List.mem_cons.mp h with rfl | h
      · exact Truth.always_or _
      · rw [ih h]
        exact Truth.or_always x

end Connector

mutual

/-- The value of a filter, where `v` says which conditions hold. -/
def Filter.value (v : Condition → α) : Filter → α
  | .condition c => v c.anonymous
  | .group _ k children => k.value (Filters.values v children)

def Filters.values (v : Condition → α) : List Filter → List α
  | [] => []
  | f :: rest => f.value v :: Filters.values v rest

end

theorem Filters.values_eq_map (v : Condition → α) (items : List Filter) :
    values v items = items.map (Filter.value v) := by
  induction items with
  | nil => rfl
  | cons f rest ih => rw [values, ih, List.map_cons]

theorem Filters.values_append (v : Condition → α) (items more : List Filter) :
    values v (items ++ more) = values v items ++ values v more := by
  simp only [values_eq_map, List.map_append]

/-- The value of the filters of a query. -/
def Query.value (v : Condition → α) (q : Query) : α := q.connector.value (Filters.values v q.items)

end SegmentQuery
