import SegmentQuery.Filter.Basic
import SegmentQuery.Schema

namespace SegmentQuery

/-- A set of names. -/
structure ColumnSet where
  names : List String
  sorted : names.Pairwise (· < ·)

namespace ColumnSet

instance : Repr ColumnSet := ⟨fun s n => reprPrec s.names n⟩

instance : DecidableEq ColumnSet := fun s t =>
  if h : s.names = t.names then .isTrue (by cases s; cases t; simp_all)
  else .isFalse fun heq => h (congrArg names heq)

theorem ext {s t : ColumnSet} (h : s.names = t.names) : s = t := by
  cases s; cases t; simp_all

def empty : ColumnSet := ⟨[], .nil⟩

def contains (s : ColumnSet) (name : String) : Bool := s.names.contains name

/-- Puts a name at its place in a list in order. -/
def insertName (name : String) : List String → List String
  | [] => [name]
  | n :: rest =>
    if name < n then name :: n :: rest
    else if name = n then n :: rest
    else n :: insertName name rest

theorem mem_insertName {x name : String} (l : List String) : x ∈ insertName name l ↔ x = name ∨ x ∈ l := by
  induction l with
  | nil => simp [insertName]
  | cons n rest ih =>
    simp only [insertName]
    split
    · simp
    · split
      · next h => subst h; simp
      · simp only [List.mem_cons, ih]
        constructor
        · rintro (h | h | h) <;> simp [h]
        · rintro (h | h | h) <;> simp [h]

theorem pairwise_insertName {name : String} {l : List String} (h : l.Pairwise (· < ·)) :
    (insertName name l).Pairwise (· < ·) := by
  induction l with
  | nil => simp [insertName]
  | cons n rest ih =>
    obtain ⟨hn, hrest⟩ := List.pairwise_cons.mp h
    simp only [insertName]
    split
    · next hlt =>
      refine List.pairwise_cons.mpr ⟨fun x hx => ?_, h⟩
      rcases List.mem_cons.mp hx with rfl | hx
      · exact hlt
      · exact String.lt_trans hlt (hn x hx)
    · next hlt =>
      split
      · exact h
      · next hne =>
        refine List.pairwise_cons.mpr ⟨fun x hx => ?_, ih hrest⟩
        rcases (mem_insertName rest).mp hx with rfl | hx
        · have hle : n ≤ x := String.not_lt.mp hlt
          exact String.not_le.mp fun hge => hne (String.le_antisymm hge hle)
        · exact hn x hx

def insert (s : ColumnSet) (name : String) : ColumnSet := ⟨insertName name s.names, pairwise_insertName s.sorted⟩

def ofList (names : List String) : ColumnSet := names.foldl insert empty

theorem contains_iff {s : ColumnSet} {name : String} : s.contains name = true ↔ name ∈ s.names := by
  simp [contains]

theorem contains_insert {s : ColumnSet} {x name : String} :
    (s.insert name).contains x = true ↔ x = name ∨ s.contains x = true := by
  simp only [contains_iff, insert, mem_insertName]

theorem contains_ofList {names : List String} {x : String} : (ofList names).contains x = true ↔ x ∈ names := by
  have h : ∀ s : ColumnSet, (names.foldl insert s).contains x = true ↔ x ∈ names ∨ s.contains x = true := by
    induction names with
    | nil => simp
    | cons n rest ih =>
      intro s
      simp only [List.foldl_cons, ih, contains_insert, List.mem_cons]
      constructor
      · rintro (h | h | h) <;> simp [h]
      · rintro ((h | h) | h) <;> simp [h]
  simpa [ofList, empty, contains] using h empty

theorem insertName_of_forall_lt {name : String} {l : List String} (h : ∀ x ∈ l, x < name) :
    insertName name l = l ++ [name] := by
  induction l with
  | nil => rfl
  | cons n rest ih =>
    obtain ⟨hn, hrest⟩ := List.forall_mem_cons.mp h
    have hne : name ≠ n := by
      rintro rfl
      exact String.lt_irrefl _ hn
    rw [insertName, if_neg (String.lt_asymm hn), if_neg hne, ih hrest, List.cons_append]

/-- The names of a set make the same set. -/
theorem ofList_names (s : ColumnSet) : ofList s.names = s := by
  have hinsert : ∀ (l : List String) (t : ColumnSet), (t.names ++ l).Pairwise (· < ·) →
      (l.foldl insert t).names = t.names ++ l := by
    intro l
    induction l with
    | nil => intro t _; simp
    | cons n rest ih =>
      intro t hsorted
      have hlt : ∀ x ∈ t.names, x < n := fun x hx =>
        (List.pairwise_append.mp hsorted).2.2 x hx n List.mem_cons_self
      have hnames : (t.insert n).names = t.names ++ [n] := insertName_of_forall_lt hlt
      rw [List.foldl_cons, ih, hnames, List.append_assoc, List.singleton_append]
      rwa [hnames, List.append_assoc, List.singleton_append]
  exact ext (hinsert s.names empty s.sorted)

end ColumnSet

structure Query where
  /-- The order in which columns are shown. -/
  columnOrder : List String
  /-- The columns to show; all of them if the set is empty. -/
  selected : ColumnSet
  /-- How the items are joined. -/
  connector : Connector
  items : List Filter
  /-- The field to sort by; empty if the rows are in no order. -/
  sortField : String
  direction : Direction
  /-- The number of rows at most; 0 for any number. -/
  limit : UInt64
  deriving Repr, DecidableEq

namespace Query

/-- The query for everything. -/
def everything : Query := ⟨Schema.columns, .empty, .and, [], "", .ascending, 0⟩

end Query

end SegmentQuery
