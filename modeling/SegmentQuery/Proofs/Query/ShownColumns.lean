import SegmentQuery.Proofs.Query.FixedPoint

namespace SegmentQuery

theorem ColumnSet.nodup_names (s : ColumnSet) : s.names.Nodup := by
  refine s.sorted.imp ?_
  rintro name _ hlt rfl
  exact String.lt_irrefl name hlt

namespace Query

variable {q : Query}

/-- First the selected columns that have a place in the order, and then those that have none. -/
theorem selectedInOrder_eq (q : Query) : q.selectedInOrder =
    q.columnOrder.filter q.selected.contains ++ q.selected.names.filter fun name => !q.columnOrder.contains name := by
  refine congrArg (q.columnOrder.filter q.selected.contains ++ ·) (List.filter_congr fun name hname => ?_)
  simp [ColumnSet.contains_iff, hname]

/-- A selected column is there as often as it is in the order, and once if it is not. -/
theorem count_selectedInOrder {name : String} (h : name ∈ q.selected.names) :
    q.selectedInOrder.count name = max 1 (q.columnOrder.count name) := by
  have hordered : (q.columnOrder.filter q.selected.contains).count name = q.columnOrder.count name :=
    List.count_filter (ColumnSet.contains_iff.mpr h)
  have hother : (q.selected.names.filter fun name => !q.columnOrder.contains name).count name =
      if name ∈ q.columnOrder then 0 else 1 := by
    split
    · next hplace => simp [List.count_eq_zero, hplace]
    · next hplace =>
      rw [List.count_filter (by simp [hplace])]
      exact List.count_eq_one_of_mem q.selected.nodup_names h
  rw [selectedInOrder_eq, List.count_append, hordered, hother]
  split
  · next hplace =>
    have hpositive : 0 < q.columnOrder.count name := List.count_pos_iff.mpr hplace
    omega
  · next hplace =>
    rw [List.count_eq_zero.mpr hplace]
    rfl

/-- In an order without repeats no column is there twice. -/
theorem nodup_selectedInOrder (h : q.columnOrder.Nodup) : q.selectedInOrder.Nodup := by
  rw [List.nodup_iff_count_le_one]
  intro name
  by_cases hname : name ∈ q.selectedInOrder
  · have hplaces := List.nodup_iff_count_le_one.mp h name
    rw [count_selectedInOrder (mem_selectedInOrder.mp hname)]
    omega
  · rw [List.count_eq_zero.mpr hname]
    exact Nat.zero_le 1

/-- A time is selected, but not the id of its row. -/
def LacksId (q : Query) : Prop :=
  Schema.idField ∉ q.selected.names ∧ ∃ time ∈ q.selected.names, Schema.typeOf time = .ticks

instance (q : Query) : Decidable q.LacksId := inferInstanceAs (Decidable (_ ∧ _))

/-- The id field, if it is missing. -/
def missingId (q : Query) : List String := if q.LacksId then [Schema.idField] else []

theorem count_missingId (q : Query) (name : String) :
    q.missingId.count name = if name = Schema.idField ∧ q.LacksId then 1 else 0 := by
  rw [missingId]
  by_cases h : q.LacksId
  · simp [h, List.count_singleton, eq_comm (a := name)]
  · simp [h]

/-- A missing id is listed in front of the selected columns. -/
theorem withIdField_selectedInOrder (q : Query) :
    withIdField q.selectedInOrder = q.missingId ++ q.selectedInOrder := by
  have hlacks : (q.selectedInOrder.any (fun name => Schema.typeOf name = .ticks) &&
      !q.selectedInOrder.contains Schema.idField) = true ↔ q.LacksId := by
    simp [LacksId, mem_selectedInOrder, and_comm]
  rw [withIdField, missingId]
  by_cases h : q.LacksId
  · rw [if_pos (hlacks.mpr h), if_pos h, List.singleton_append]
  · rw [if_neg (mt hlacks.mp h), if_neg h, List.nil_append]

/-- What a list of columns has to be, for a query that does not show all columns. -/
structure Lists (q : Query) (names : List String) : Prop where
  /-- Every selected column is listed, as often as it is in the order, and once if it is not. -/
  selected : ∀ name ∈ q.selected.names, names.count name = max 1 (q.columnOrder.count name)
  /-- No other column is listed but a missing id, and that once. -/
  other : ∀ name, name ∉ q.selected.names → names.count name = if name = Schema.idField ∧ q.LacksId then 1 else 0
  /-- A missing id comes first, then columns as in the order, and last those that have no place in it. -/
  parts : ∃ ordered others, names = q.missingId ++ (ordered ++ others) ∧ ordered.Sublist q.columnOrder ∧
    others.Sublist q.selected.names ∧ ∀ name ∈ others, name ∉ q.columnOrder

theorem lists_withIdField (q : Query) : q.Lists (withIdField q.selectedInOrder) where
  selected name hname := by
    have hid : ¬ (name = Schema.idField ∧ q.LacksId) := by
      rintro ⟨rfl, hlacks⟩
      exact hlacks.1 hname
    rw [withIdField_selectedInOrder, List.count_append, count_missingId, if_neg hid, Nat.zero_add,
      count_selectedInOrder hname]
  other name hname := by
    rw [withIdField_selectedInOrder, List.count_append, count_missingId,
      List.count_eq_zero.mpr (mt mem_selectedInOrder.mp hname), Nat.add_zero]
  parts := by
    refine ⟨q.columnOrder.filter q.selected.contains, q.selected.names.filter fun name => !q.columnOrder.contains name,
      ?_, List.filter_sublist, List.filter_sublist, ?_⟩
    · rw [withIdField_selectedInOrder, selectedInOrder_eq]
    · simp

/-- A query shows all columns if it selects none of them, or if it selects them all and its order is the default one. -/
theorem showsAll_iff : q.showsAll = true ↔
    q.selected.names = [] ∨ (∀ name ∈ Schema.columns, name ∈ q.selected.names) ∧ q.columnOrder = Schema.columns := by
  simp [showsAll, ColumnSet.contains_iff]

/-- A list of names has a comma in its text, unless it is a single name. -/
theorem intercalate_eq_star_iff {names : List String} : ", ".intercalate names = "*" ↔ names = ["*"] := by
  match names with
  | [] => simp
  | [name] => simp
  | first :: second :: rest =>
    refine iff_of_false (fun htext => ?_) (by simp)
    have hcomma : ',' ∈ (", ".intercalate (first :: second :: rest)).toList := by
      simp [String.intercalate_cons_cons]
    rw [htext] at hcomma
    exact absurd hcomma (by decide)

theorem withIdField_eq_star_iff :
    withIdField q.selectedInOrder = ["*"] ↔ q.selected.names = ["*"] ∧ q.columnOrder.count "*" ≤ 1 := by
  have hlists := lists_withIdField q
  have hid : "*" ≠ Schema.idField := by decide
  constructor
  · intro hstar
    rw [hstar] at hlists
    have hmem : "*" ∈ q.selected.names := by
      by_contra hnot
      simpa [hid] using hlists.other "*" hnot
    have hselected : ∀ name, name ∈ q.selected.names ↔ name ∈ ["*"] := fun name => by
      refine ⟨fun hname => ?_, fun hname => List.mem_singleton.mp hname ▸ hmem⟩
      have hcount := hlists.selected name hname
      exact List.count_pos_iff.mp (by omega)
    have hcount := hlists.selected "*" hmem
    rw [List.count_singleton_self] at hcount
    refine ⟨List.perm_singleton.mp ?_, by omega⟩
    exact (List.perm_ext_iff_of_nodup q.selected.nodup_names (List.nodup_singleton "*")).mpr hselected
  · rintro ⟨hselected, hcount⟩
    have hlacks : ¬ q.LacksId := by
      rintro ⟨-, time, htime, hticks⟩
      rw [hselected, List.mem_singleton] at htime
      rw [htime] at hticks
      exact absurd hticks (by decide)
    refine List.perm_singleton.mp (List.perm_iff_count.mpr fun name => ?_)
    by_cases hname : name = "*"
    · have hstar := hlists.selected "*" (by simp [hselected])
      rw [hname, hstar, List.count_singleton_self]
      omega
    · have hother := hlists.other name (by simp [hselected, hname])
      rw [hother, if_neg (fun h => hlacks h.2), List.count_eq_zero.mpr (by simpa using hname)]

/-- The columns that a query shows: those that its text lists, or all columns of the table. -/
def shownColumns (q : Query) : List String :=
  if q.showsAll then Schema.columns else withIdField q.selectedInOrder

theorem shownColumns_of_not_showsAll (h : ¬ q.showsAll = true) :
    q.shownColumns = withIdField q.selectedInOrder := if_neg h

theorem columnText_eq_star_iff : q.columnText = "*" ↔
    q.showsAll = true ∨ q.selected.names = ["*"] ∧ q.columnOrder.count "*" ≤ 1 := by
  rw [columnText]
  by_cases hall : q.showsAll = true
  · simp [hall]
  · rw [if_neg hall, intercalate_eq_star_iff, withIdField_eq_star_iff, or_iff_right hall]

/-- The column list of a query is `*` if nothing is selected, or everything in the default order. If not, it lists every
selected column in the order of the query, with a missing id in front, and nothing else; only a single column of that
name is then shown as `*`. -/
theorem columnText_lists (q : Query) :
    (q.showsAll = true ↔ q.selected.names = [] ∨
        (∀ name ∈ Schema.columns, name ∈ q.selected.names) ∧ q.columnOrder = Schema.columns) ∧
      (q.columnText = "*" ↔ q.showsAll = true ∨ q.selected.names = ["*"] ∧ q.columnOrder.count "*" ≤ 1) ∧
      (q.showsAll = true ∨ q.columnText = ", ".intercalate q.shownColumns ∧ q.Lists q.shownColumns) := by
  refine ⟨showsAll_iff, columnText_eq_star_iff, ?_⟩
  by_cases hall : q.showsAll = true
  · exact .inl hall
  · rw [shownColumns_of_not_showsAll hall]
    exact .inr ⟨if_neg hall, lists_withIdField q⟩

/-- A column that is twice in the order is listed twice. A selected name that the table does not have is not listed, if
all columns of the table are selected and in their default order. -/
theorem columnText_lists_of_repeat :
    columnText { everything with columnOrder := ["ItemName", "ItemName"], selected := .ofList ["ItemName"] } =
        "ItemName, ItemName" ∧
      (shownColumns { everything with columnOrder := ["ItemName", "ItemName"], selected := .ofList ["ItemName"] }).count
        "ItemName" = 2 ∧
      columnText { everything with selected := .ofList (Schema.columns ++ ["Extra"]) } = "*" ∧
      (ColumnSet.ofList (Schema.columns ++ ["Extra"])).contains "Extra" = true ∧ "Extra" ∉ Schema.columns := by
  have hmem {name : String} (h : name ∈ Schema.columns ++ ["Extra"]) :
      (ColumnSet.ofList (Schema.columns ++ ["Extra"])).contains name = true := ColumnSet.contains_ofList.mpr h
  generalize ColumnSet.ofList (Schema.columns ++ ["Extra"]) = selected at hmem ⊢
  have hall : showsAll { everything with selected } = true := by
    rw [showsAll_iff]
    exact .inr ⟨fun name hname => ColumnSet.contains_iff.mp (hmem (List.mem_append_left _ hname)), rfl⟩
  exact ⟨by decide, by decide, if_pos hall, hmem (by simp), by decide⟩

/-- A query that has been read shows the columns that its text lists, or all if it lists none. -/
theorem TidyColumns.shownColumns_eq {names : List String} (h : q.TidyColumns names) :
    q.shownColumns = if names = [] then Schema.columns else withIdField names := by
  have hcolumns : withIdField Schema.columns = Schema.columns := by decide
  rw [shownColumns, h.selectedInOrder_eq]
  by_cases hnone : names = []
  · rw [if_pos (h.showsAll_iff.mpr (.inl hnone)), if_pos hnone]
  · rw [if_neg hnone]
    split
    · next hall => rw [(h.showsAll_iff.mp hall).resolve_left hnone, hcolumns]
    · rfl

/-- From an order without repeats no column is listed twice. -/
theorem listedColumns_of_nodup (h : q.columnOrder.Nodup) :
    q.listedColumns = if q.showsAll then [] else withIdField q.selectedInOrder := by
  rw [listedColumns, distinct_of_nodup (nodup_withIdField (nodup_selectedInOrder h))]

/-- The text of a query is read as a query that shows the same columns, whatever their order is as long as it does not
repeat any; and if the text lists them, then just the listed ones are selected. -/
theorem shownColumns_read (h : q.Named) (hcanonical : ∀ name ∈ q.selected.names, Schema.canonical name = name)
    (horder : q.columnOrder.Nodup) (ids : IdSource) :
    ∃ r ids', read q.text ids = (.ok r, ids') ∧ r.shownColumns = q.shownColumns ∧
      (q.columnText ≠ "*" → ∀ name, r.selected.contains name = true ↔ name ∈ q.shownColumns) := by
  have hnames := (names_columnList hcanonical).trans (listedColumns_of_nodup horder)
  have hcolumns := h.tidyColumns_read ids
  refine ⟨_, _, read_text h ids, ?_, fun hlisted name => ?_⟩
  · rw [hcolumns.shownColumns_eq, hnames]
    by_cases hall : q.showsAll = true
    · rw [if_pos hall, if_pos rfl, shownColumns, if_pos hall]
    · obtain ⟨first, rest, hlist⟩ := exists_cons_of_showsAll (Bool.eq_false_iff.mpr hall)
      rw [if_neg hall, if_neg (by simp [hlist]), withIdField_withIdField, shownColumns_of_not_showsAll hall]
  · have hall : ¬ q.showsAll = true := fun hall => hlisted (columnText_eq_star_iff.mpr (.inl hall))
    rw [hcolumns.contains_selected_iff, hnames, if_neg hall, shownColumns_of_not_showsAll hall]

/-- All columns but the id field: the text lists all columns, since the id comes along with the times, and the query that
is read shows them as `*`. -/
theorem shownColumns_read_of_all_but_id : ∃ r ids',
    read (text { everything with columnOrder := Schema.columns.tail, selected := .ofList Schema.columns.tail })
        .initial = (.ok r, ids') ∧
      columnText { everything with columnOrder := Schema.columns.tail, selected := .ofList Schema.columns.tail } =
        ", ".intercalate Schema.columns ∧
      r.shownColumns = Schema.columns ∧ r.selected.contains "ItemId" = true := by
  have hnamed : Named { everything with columnOrder := Schema.columns.tail, selected := .ofList Schema.columns.tail } :=
    { columns := by decide
      fields := by decide
      sortField := .inl rfl }
  have htext : columnText { everything with
      columnOrder := Schema.columns.tail, selected := .ofList Schema.columns.tail } =
        ", ".intercalate Schema.columns := by decide
  have hshown : shownColumns { everything with
      columnOrder := Schema.columns.tail, selected := .ofList Schema.columns.tail } = Schema.columns := by decide
  obtain ⟨r, ids', hread, hcolumns, hselected⟩ := shownColumns_read hnamed (by decide) (by decide) .initial
  rw [hshown] at hcolumns hselected
  refine ⟨r, ids', hread, htext, hcolumns, (hselected ?_ _).mpr (by decide)⟩
  rw [htext]
  decide

end Query

end SegmentQuery
