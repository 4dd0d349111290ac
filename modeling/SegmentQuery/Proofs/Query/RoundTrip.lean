import SegmentQuery.Proofs.Query.ReadBack
import SegmentQuery.Proofs.Query.Tidy

namespace SegmentQuery

/-- A condition that is read back as it is: its field is spelled as in the table, it holds no values that its operator
does not use, a list has members and repeats none, and values are in the form that the type of the field shows. -/
structure Condition.Normal (c : Condition) : Prop where
  named : Token.isName c.field = true
  canonical : Schema.canonical c.field = c.field
  clear : c.clearUnused = c
  listed : c.operator.isList = true → c.values ≠ [] ∧ c.values.Nodup
  notTicks : c.operator.isPattern = true → Schema.typeOf c.field ≠ .ticks
  stable : ∀ value ∈ c.value :: c.upper :: c.values, Value.Stable (Schema.typeOf c.field) value

mutual

/-- Normal conditions, and no group of nothing. -/
def Filter.Normal : Filter → Prop
  | .condition c => c.Normal
  | .group _ _ children => children ≠ [] ∧ Filters.Normal children

def Filters.Normal : List Filter → Prop
  | [] => True
  | f :: rest => f.Normal ∧ Filters.Normal rest

end

/-- A query in the form in which its text is read. -/
structure Query.Normal (q : Query) : Prop where
  columns : ∀ name ∈ q.selected.names, Token.isName name = true ∧ Schema.canonical name = name
  items : Filters.Normal q.items
  sortField : q.sortField = "" ∨ Token.isName q.sortField = true ∧ Schema.canonical q.sortField = q.sortField
  limit : q.limit.toNat ≤ Integer.largest

mutual

/-- The filter that is read back, without ids. -/
def Filter.settled : Filter → Filter
  | .condition c => .condition c.anonymous
  | .group _ k children => .group 0 (k.settled children) (Filters.settled children)

def Filters.settled : List Filter → List Filter
  | [] => []
  | f :: rest => f.settled :: Filters.settled rest

end

/-- The columns that a query lists in its text, each at its first place. -/
def Query.listedColumns (q : Query) : List String :=
  if q.showsAll then [] else distinct (withIdField q.selectedInOrder)

namespace Condition

/-- A normal condition is as it is read, with a value in the form of its type. -/
theorem Normal.tidy {c : Condition} (h : c.Normal) : c.Tidy where
  named := h.named
  canonical := h.canonical
  clear := h.clear
  listed hlist := (h.listed hlist).1
  nodup := by
    by_cases hlist : c.operator.isList = true
    · exact (h.listed hlist).2
    · rw [(clearUnused_eq_iff.mp h.clear).2.2 (Bool.eq_false_iff.mpr hlist)]
      exact .nil

/-- A normal condition is read back as it is. -/
theorem Normal.reread_eq {c : Condition} (h : c.Normal) : c.reread = c := by
  have hvalue : ∀ value ∈ c.value :: c.upper :: c.values,
      Value.reread (Schema.typeOf c.field) c.operator value = value := fun value hmem =>
    Value.reread_of_stable (h.stable value hmem) h.notTicks
  have hvalues : c.values.map (Value.reread (Schema.typeOf c.field) c.operator) = c.values :=
    (List.map_congr_left fun value hmem => hvalue value (by simp [hmem])).trans (List.map_id c.values)
  rw [h.tidy.reread_eq, hvalue c.value (by simp), hvalue c.upper (by simp), hvalues, distinct_of_nodup h.tidy.nodup]

end Condition

mutual

theorem Filter.full_of_normal : ∀ f : Filter, f.Normal → f.Full
  | .condition _, h => (Condition.Normal.tidy h).asksNothing_eq_false
  | .group _ _ children, h => ⟨h.1, Filters.full_of_normal children h.2⟩

theorem Filters.full_of_normal : ∀ items : List Filter, Filters.Normal items → Filters.Full items
  | [], _ => trivial
  | f :: rest, h => ⟨Filter.full_of_normal f h.1, Filters.full_of_normal rest h.2⟩

end

mutual

/-- Of a normal filter nothing is lost but ids and connectors that join nothing. -/
theorem Filter.readBack_of_normal : ∀ f : Filter, f.Normal → f.readBack = f.settled
  | .condition c, h => by rw [Filter.readBack, Filter.settled, Condition.Normal.reread_eq h]
  | .group id k children, h => by
    rw [Filter.readBack, Filter.settled, Filters.readBack_of_normal children h.2]

theorem Filters.readBack_of_normal : ∀ items : List Filter, Filters.Normal items →
    Filters.readBack items = Filters.settled items
  | [], _ => rfl
  | f :: rest, h => by
    rw [Filters.readBack, Filters.settled, Filter.readBack_of_normal f h.1, Filters.readBack_of_normal rest h.2]

end

mutual

theorem Filter.isName_of_normal : ∀ f : Filter, f.Normal → ∀ c ∈ f.conditions, Token.isName c.field = true
  | .condition c, h, d, hd => by
    rw [Filter.conditions, List.mem_singleton] at hd
    subst hd
    exact Condition.Normal.named h
  | .group id k children, h, d, hd => Filters.isName_of_normal children h.2 d hd

theorem Filters.isName_of_normal : ∀ items : List Filter, Filters.Normal items →
    ∀ c ∈ Filters.conditions items, Token.isName c.field = true
  | [], _, d, hd => by cases hd
  | f :: rest, h, d, hd => by
    rcases List.mem_append.mp hd with hd | hd
    · exact Filter.isName_of_normal f h.1 d hd
    · exact Filters.isName_of_normal rest h.2 d hd

end

namespace Query

theorem Normal.named {q : Query} (h : q.Normal) : q.Named where
  columns name hname := (h.columns name hname).1
  fields := Filters.isName_of_normal q.items h.items
  sortField := h.sortField.imp_right And.left

/-- The statement of a normal query gives the filters that are read back. -/
theorem Normal.flattens_statement {q : Query} (h : q.Normal) :
    q.statement.Flattens (q.connector.settled q.items) (Filters.settled q.items) := by
  rw [← Filters.readBack_of_normal q.items h.items]
  exact flattens_readBack (Filters.full_of_normal q.items h.items)

theorem mem_withIdField {columns : List String} {name : String} : name ∈ withIdField columns ↔
    name ∈ columns ∨ name = Schema.idField ∧ ∃ time ∈ columns, Schema.typeOf time = .ticks := by
  unfold withIdField
  by_cases htimes : ∃ time ∈ columns, Schema.typeOf time = .ticks
  · have hany : columns.any (fun name => Schema.typeOf name = .ticks) = true := by simpa using htimes
    by_cases hid : Schema.idField ∈ columns
    · rw [if_neg (by simp [hid])]
      refine ⟨Or.inl, ?_⟩
      rintro (hname | ⟨rfl, -⟩)
      · exact hname
      · exact hid
    · rw [if_pos (by simp [hany, hid]), List.mem_cons, or_comm]
      simp [htimes]
  · have hany : columns.any (fun name => Schema.typeOf name = .ticks) = false := by simpa using htimes
    simp [hany, htimes]

/-- The columns of the statement of a query are those that it lists, if they are spelled as in the table. -/
theorem names_columnList {q : Query} (h : ∀ name ∈ q.selected.names, Schema.canonical name = name) :
    q.columnList.names = q.listedColumns := by
  have hcanonical : ∀ name ∈ withIdField q.selectedInOrder, Schema.canonical name = name := by
    intro name hname
    rcases mem_withIdField.mp hname with hname | ⟨rfl, -⟩
    · exact h name (mem_selectedInOrder.mp hname)
    · decide
  unfold columnList listedColumns
  by_cases hall : q.showsAll = true
  · rw [if_pos hall, if_pos hall]
    rfl
  · rw [if_neg hall, if_neg hall]
    obtain ⟨first, rest, hcolumns⟩ := exists_cons_of_showsAll (Bool.eq_false_iff.mpr hall)
    rw [hcolumns] at hcanonical ⊢
    rw [ColumnList.names, List.map_congr_left hcanonical, List.map_id']

theorem Normal.names_columnList {q : Query} (h : q.Normal) : q.columnList.names = q.listedColumns :=
  Query.names_columnList fun name hname => (h.columns name hname).2

theorem mem_listedColumns {q : Query} {name : String} : name ∈ q.listedColumns ↔
    q.showsAll = false ∧ (name ∈ q.selected.names ∨
      name = Schema.idField ∧ ∃ time ∈ q.selected.names, Schema.typeOf time = .ticks) := by
  rw [listedColumns]
  by_cases hall : q.showsAll = true
  · simp [hall]
  · rw [if_neg hall, mem_distinct, mem_withIdField]
    simp [hall, mem_selectedInOrder]

/-- The field to sort by is read back in the spelling of the table. -/
theorem sortField_statement {q : Query} (h : q.sortField = "" ∨ Schema.canonical q.sortField = q.sortField) :
    (q.statement.order.map fun o => Schema.canonical o.field).getD "" = q.sortField := by
  rw [statement, rowOrder]
  by_cases hnone : q.sortField = ""
  · rw [if_pos hnone, hnone]
    rfl
  · rw [if_neg hnone]
    exact h.resolve_left hnone

/-- The direction is read back along with the field to sort by. -/
theorem direction_statement {q : Query} :
    (q.statement.order.bind RowOrder.direction).getD .ascending =
      if q.sortField = "" then .ascending else q.direction := by
  rw [statement, rowOrder]
  by_cases hnone : q.sortField = ""
  · rw [if_pos hnone, if_pos hnone]
    rfl
  · rw [if_neg hnone, if_neg hnone]
    rfl

/-- A limit is read as it is written, held at the largest number. -/
theorem toNat_limitOf_repr (limit : UInt64) : (limitOf limit.toNat.repr).toNat = min limit.toNat Integer.largest := by
  have hrange : min Integer.largest limit.toNat < UInt64.size := Nat.lt_of_le_of_lt (Nat.min_le_left ..) (by decide)
  rw [limitOf, Integer.ofText_repr, Int.toNat_natCast, UInt64.toNat_ofNat_of_lt' hrange, Nat.min_comm]

theorem toNat_limit_statement {q : Query} :
    ((q.statement.limit.map limitOf).getD 0).toNat = min q.limit.toNat Integer.largest := by
  rw [statement]
  by_cases hzero : q.limit = 0
  · simp [hzero]
  · simp [hzero, toNat_limitOf_repr]

theorem limit_statement {q : Query} (h : q.limit.toNat ≤ Integer.largest) :
    (q.statement.limit.map limitOf).getD 0 = q.limit := by
  rw [← UInt64.toNat_inj, toNat_limit_statement, Nat.min_eq_left h]

/-- The text of a normal query is read back as the query: with the same filters one by one, the same order and limit,
and the listed columns. -/
theorem read_text_of_normal {q : Query} (h : q.Normal) (ids : IdSource) :
    ∃ r ids', read q.text ids = (.ok r, ids') ∧
      Filters.anonymous r.items = Filters.settled q.items ∧
      r.connector = q.connector.settled q.items ∧
      (∀ name, r.selected.contains name = true ↔ q.showsAll = false ∧ (name ∈ q.selected.names ∨
        name = Schema.idField ∧ ∃ time ∈ q.selected.names, Schema.typeOf time = .ticks)) ∧
      r.columnOrder =
        q.listedColumns ++ Schema.columns.filter (fun name => !q.listedColumns.contains name) ∧
      r.sortField = q.sortField ∧
      r.direction = (if q.sortField = "" then .ascending else q.direction) ∧
      r.limit = q.limit := by
  obtain ⟨hconnector, hitems⟩ := (q.statement.flattens_iff ids).mp h.flattens_statement
  have hnames := h.names_columnList
  refine ⟨_, _, read_text h.named ids, hitems.symm, hconnector.symm, fun name => ?_, ?_, ?_, ?_, ?_⟩
  · rw [← mem_listedColumns, ← hnames]
    exact ColumnSet.contains_ofList
  · rw [← hnames]
    rfl
  · exact sortField_statement (h.sortField.imp_right And.right)
  · exact direction_statement
  · exact limit_statement h.limit

/-- A group of one condition, a range of numbers and a list of texts. -/
theorem read_text_of_normal_range : ∃ r ids',
    read (text ⟨[], .ofList ["IntroEndTicks"], .or,
      [.group 1 .or [.condition ⟨2, "SeasonNumber", .between, "-1", "3", []⟩],
        .condition ⟨3, "ItemType", .oneOf, "", "", ["it's", "100%"]⟩], "ItemName", .descending, 10⟩) .initial =
        (.ok r, ids') ∧
      Filters.anonymous r.items = [.group 0 .and [.condition ⟨0, "SeasonNumber", .between, "-1", "3", []⟩],
        .condition ⟨0, "ItemType", .oneOf, "", "", ["it's", "100%"]⟩] ∧
      r.connector = .or ∧ r.selected.contains "ItemId" = true ∧ r.direction = .descending ∧ r.limit = 10 := by
  have hrange : Condition.Normal ⟨2, "SeasonNumber", .between, "-1", "3", []⟩ := {
    named := by decide
    canonical := by decide
    clear := rfl
    listed := by decide
    notTicks := by decide
    stable := by
      have hlow : "-1" = Integer.text (Integer.ofText "-1") := by decide
      have hhigh : "3" = Integer.text (Integer.ofText "3") := by decide
      simp only [List.forall_mem_cons]
      exact ⟨.inr hlow, .inr hhigh, by simp⟩ }
  have hlist : Condition.Normal ⟨3, "ItemType", .oneOf, "", "", ["it's", "100%"]⟩ := {
    named := by decide
    canonical := by decide
    clear := rfl
    listed := by decide
    notTicks := by decide
    stable := fun value _ => .inr trivial }
  have hnormal : Normal ⟨[], .ofList ["IntroEndTicks"], .or,
      [.group 1 .or [.condition ⟨2, "SeasonNumber", .between, "-1", "3", []⟩],
        .condition ⟨3, "ItemType", .oneOf, "", "", ["it's", "100%"]⟩], "ItemName", .descending, 10⟩ := {
    columns := by decide
    items := ⟨⟨by simp, hrange, trivial⟩, hlist, trivial⟩
    sortField := by decide
    limit := by decide }
  obtain ⟨r, ids', hread, hitems, hconnector, hcolumns, -, -, hdirection, hlimit⟩ :=
    read_text_of_normal hnormal .initial
  refine ⟨r, ids', hread, hitems, hconnector, (hcolumns _).mpr ?_, hdirection, hlimit⟩
  exact ⟨by decide, .inr ⟨rfl, "IntroEndTicks", by decide, by decide⟩⟩

end Query

end SegmentQuery
