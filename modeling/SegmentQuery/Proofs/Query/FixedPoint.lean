import Mathlib.Tactic.MkIffOfInductiveProp
import SegmentQuery.Command.Run
import SegmentQuery.Proofs.Query.Cycle
import SegmentQuery.Proofs.Query.RoundTrip
import SegmentQuery.Proofs.Query.StatementText

namespace SegmentQuery

/-- A condition whose literals are written again as they are: no time is the largest number of ticks, and no literal of
a list is there twice. -/
@[mk_iff]
structure Condition.Exact (c : Condition) : Prop where
  times : Schema.typeOf c.field = .ticks →
    ∀ value ∈ c.value :: c.upper :: c.values, Ticks.ofTime value ≠ Integer.largest
  distinct : (c.values.map (Value.literal (Schema.typeOf c.field) c.operator)).Nodup

namespace Condition

variable {c d : Condition}

theorem value_reread_of_isPattern (hop : c.operator.isPattern = true) :
    c.reread.value = Value.reread (Schema.typeOf c.field) c.operator c.value := by
  obtain ⟨id, field, op, value, upper, values⟩ := c
  cases op with
  | like | notLike => rfl
  | _ => cases hop

namespace Tidy

/-- Tidy conditions of one field under one operator are the same term exactly if they have the same literals. -/
theorem term_eq_term_iff (hc : c.Tidy) (hd : d.Tidy) (hfield : c.field = d.field) (hop : c.operator = d.operator) :
    c.term = d.term ↔
      let written := Value.written (Schema.typeOf c.field) c.operator
      written c.value = written d.value ∧ written c.upper = written d.upper ∧
        c.values.map written = d.values.map written := by
  obtain ⟨-, -, hclear, hlisted, -⟩ := hc
  obtain ⟨-, -, hclear', hlisted', -⟩ := hd
  rw [clearUnused_eq_iff] at hclear hclear'
  obtain ⟨id, field, op, value, upper, values⟩ := c
  obtain ⟨id', field', op', value', upper', values'⟩ := d
  simp only at hfield hop
  subst hfield hop
  cases op with
  | compare | like | notLike | between | isNull | isNotNull =>
    simp [Operator.isNullCheck, Operator.isList] at hclear hclear'
    simp [term, test?, hclear, hclear']
  | oneOf | notOneOf =>
    simp [Operator.isNullCheck, Operator.isList] at hclear hclear' hlisted hlisted'
    obtain ⟨first, rest, rfl⟩ := List.exists_cons_of_ne_nil hlisted
    obtain ⟨first', rest', rfl⟩ := List.exists_cons_of_ne_nil hlisted'
    simp [term, test?, hclear, hclear']

/-- A tidy pattern holds no values but its own. -/
theorem of_isPattern (h : c.Tidy) (hop : c.operator.isPattern = true) : c.upper = "" ∧ c.values = [] := by
  obtain ⟨-, hupper, hvalues⟩ := clearUnused_eq_iff.mp h.clear
  cases hc : c.operator with
  | like | notLike => simp_all [Operator.isList]
  | _ => simp [hc, Operator.isPattern] at hop

/-- A tidy condition is written again in the same way exactly if its literals are. A pattern on a time is left out,
unless it is for nothing or for a text that counts as no ticks. -/
theorem term_reread_iff (h : c.Tidy) (hpattern : c.operator.isPattern = true → Schema.typeOf c.field = .ticks →
    c.value = "" ∨ Ticks.ofTime c.value = 0) : c.reread.term = c.term ↔ c.Exact := by
  have hupper (hop : c.operator.isPattern = true) (_ : Schema.typeOf c.field = .ticks) :
      c.upper = "" ∨ Ticks.ofTime c.upper = 0 := .inl (h.of_isPattern hop).1
  have hvalues (value : String) (hvalue : value ∈ c.values) (hop : c.operator.isPattern = true) :
      Schema.typeOf c.field = .ticks → value = "" ∨ Ticks.ofTime value = 0 := by
    rw [(h.of_isPattern hop).2] at hvalue
    cases hvalue
  have hterm := term_eq_term_iff h.reread h (by rw [h.reread_eq]) (by rw [h.reread_eq])
  rw [hterm, h.reread_eq, exact_iff]
  simp only [Value.written_reread_iff hpattern, Value.written_reread_iff hupper, Value.map_written_reread_iff hvalues,
    List.forall_mem_cons, imp_and]
  constructor
  · rintro ⟨hvalue, hupper, hdistinct, hvalues⟩
    exact ⟨⟨hvalue, hupper, hvalues⟩, hdistinct⟩
  · rintro ⟨⟨hvalue, hupper, hvalues⟩, hdistinct⟩
    exact ⟨hvalue, hupper, hdistinct, hvalues⟩

end Tidy

/-- A condition that has been read back is written again as it is. A pattern on a time is no exception, although its
value can change: by then it is for a number, and no number is a time. -/
theorem term_reread_reread (h : c.reread.Tidy) : c.reread.reread.term = c.reread.term := by
  by_cases hpattern : c.operator.isPattern = true ∧ Schema.typeOf c.field = .ticks
  · obtain ⟨hop, hticks⟩ := hpattern
    have hzero : Ticks.ofTime c.reread.value = 0 := by
      rw [value_reread_of_isPattern hop, hticks]
      exact Value.ofTime_reread_of_isPattern hop c.value
    obtain ⟨hupper, hvalues⟩ := h.of_isPattern (by rwa [operator_reread])
    refine (h.term_reread_iff fun _ _ => .inr hzero).mpr ⟨fun _ => ?_, ?_⟩
    · rw [hupper, hvalues, List.forall_mem_cons, List.forall_mem_singleton, hzero]
      decide
    · rw [hvalues]
      exact .nil
  · rw [reread_reread_iff.mpr fun hop hticks => absurd ⟨hop, hticks⟩ hpattern]

end Condition

mutual

/-- In a filter that has been read, every group has members and every condition asks for something. -/
theorem Filter.full_of_filled : ∀ f : Filter, f.Filled → (∀ c ∈ f.conditions, c.Tidy) → f.Full
  | .condition c, _, hc => (hc c (by simp [Filter.conditions])).asksNothing_eq_false
  | .group _ _ children, h, hc => ⟨h.1, Filters.full_of_filled children h.2.2 hc⟩

theorem Filters.full_of_filled : ∀ items : List Filter, Filters.Filled items →
    (∀ c ∈ Filters.conditions items, c.Tidy) → Filters.Full items
  | [], _, _ => trivial
  | f :: rest, h, hc => by
    obtain ⟨hfirst, hrest⟩ := List.forall_mem_append.mp hc
    exact ⟨Filter.full_of_filled f h.1 hfirst, Filters.full_of_filled rest h.2 hrest⟩

end

namespace ColumnList

/-- The list of these columns; all of them if there are none. -/
def ofNames : List String → ColumnList
  | [] => .all
  | first :: rest => .listed first rest

theorem ofNames_inj {names more : List String} : ofNames names = ofNames more ↔ names = more := by
  refine ⟨fun h => ?_, congrArg _⟩
  cases names <;> cases more <;> cases h <;> rfl

theorem names_ofNames {names : List String} (hcanonical : ∀ name ∈ names, Schema.canonical name = name)
    (hnodup : names.Nodup) : (ofNames names).names = names := by
  cases names with
  | nil => rfl
  | cons first rest =>
    rw [ofNames, ColumnList.names, List.map_congr_left hcanonical, List.map_id', distinct_of_nodup hnodup]

end ColumnList

namespace Query

theorem withIdField_of_mem {columns : List String} (h : Schema.idField ∈ columns) : withIdField columns = columns :=
  if_neg (by simp [h])

theorem withIdField_eq_or (columns : List String) :
    withIdField columns = columns ∨ withIdField columns = Schema.idField :: columns := by
  rw [withIdField]
  split
  · exact .inr rfl
  · exact .inl rfl

theorem withIdField_withIdField (columns : List String) : withIdField (withIdField columns) = withIdField columns := by
  rcases withIdField_eq_or columns with h | h
  · rw [h, h]
  · rw [h, withIdField_of_mem (List.mem_cons_self ..)]

theorem nodup_withIdField {columns : List String} (h : columns.Nodup) : (withIdField columns).Nodup := by
  by_cases hid : Schema.idField ∈ columns
  · rwa [withIdField_of_mem hid]
  · rcases withIdField_eq_or columns with heq | heq
    · rwa [heq]
    · rw [heq]
      exact List.nodup_cons.mpr ⟨hid, h⟩

/-- Besides all columns themselves, only those without the id field are shown as all columns. -/
theorem withIdField_eq_columns_iff {columns : List String} :
    withIdField columns = Schema.columns ↔ columns = Schema.columns ∨ columns = Schema.columns.tail := by
  constructor
  · intro h
    rcases withIdField_eq_or columns with heq | heq
    · exact .inl (heq.symm.trans h)
    · exact .inr (congrArg List.tail (heq.symm.trans h))
  · rintro (rfl | rfl) <;> decide

/-- The columns that are listed once these columns have been read: none stand for all. -/
def relisted (names : List String) : List String := if names = Schema.columns then [] else withIdField names

theorem relisted_ne_tail (names : List String) : relisted names ≠ Schema.columns.tail := by
  rw [relisted]
  by_cases hall : names = Schema.columns
  · rw [if_pos hall]
    decide
  · rw [if_neg hall]
    intro htail
    -- Those columns hold times but no id, so the id field would be added once more.
    have hagain := withIdField_withIdField names
    rw [htail] at hagain
    exact absurd hagain (by decide)

/-- Listed columns are listed again, unless they turn out to be all. -/
theorem relisted_relisted_iff {names : List String} :
    relisted (relisted names) = relisted names ↔ names ≠ Schema.columns.tail := by
  by_cases hall : names = Schema.columns
  · rw [hall]
    decide
  · have hnil : [] ≠ Schema.columns := by decide
    have hnames : relisted names = withIdField names := if_neg hall
    rw [hnames, relisted, withIdField_withIdField, ite_eq_right_iff, withIdField_eq_columns_iff]
    constructor
    · intro heq htail
      rw [htail] at heq
      exact absurd (heq (.inr rfl)) (by decide)
    · rintro htail (heq | heq)
      · exact absurd heq hall
      · exact absurd heq htail

/-- The column list of a query, by the names in it. -/
theorem columnList_eq_ofNames (q : Query) :
    q.columnList = .ofNames (if q.showsAll then [] else withIdField q.selectedInOrder) := by
  rw [columnList]
  split
  · rfl
  · cases withIdField q.selectedInOrder <;> rfl

namespace TidyColumns

variable {q : Query} {names : List String}

theorem contains_selected_iff (h : q.TidyColumns names) {name : String} :
    q.selected.contains name = true ↔ name ∈ names := by
  rw [h.selected, ColumnSet.contains_ofList]

theorem selectedInOrder_eq (h : q.TidyColumns names) : q.selectedInOrder = names := by
  have hlisted : names.filter q.selected.contains = names :=
    List.filter_eq_self.mpr fun name hname => h.contains_selected_iff.mpr hname
  have hothers : (Schema.columns.filter fun name => !names.contains name).filter q.selected.contains = [] := by
    rw [List.filter_eq_nil_iff]
    intro name hname hcontains
    simp [h.contains_selected_iff.mp hcontains] at hname
  have hselected : q.selected.names.filter (fun name => !names.contains name) = [] := by
    rw [List.filter_eq_nil_iff]
    intro name hname
    simp [h.contains_selected_iff.mp (ColumnSet.contains_iff.mpr hname)]
  simp only [selectedInOrder, h.order, List.filter_append, hlisted, hothers, List.append_nil, hselected]

/-- A query that has been read shows all columns if its text lists none or all. -/
theorem showsAll_iff (h : q.TidyColumns names) : q.showsAll = true ↔ names = [] ∨ names = Schema.columns := by
  have hnone : q.selected.names.isEmpty = true ↔ names = [] := by
    rw [List.isEmpty_iff, List.eq_nil_iff_forall_not_mem, List.eq_nil_iff_forall_not_mem]
    exact forall_congr' fun name => not_congr (ColumnSet.contains_iff.symm.trans h.contains_selected_iff)
  rw [showsAll, Bool.or_eq_true, hnone, Bool.and_eq_true, beq_iff_eq, List.all_eq_true, h.order]
  refine or_congr_right ⟨?_, ?_⟩
  · rintro ⟨hall, horder⟩
    have hothers : Schema.columns.filter (fun name => !names.contains name) = [] := by
      rw [List.filter_eq_nil_iff]
      intro name hname
      simp [h.contains_selected_iff.mp (hall name hname)]
    rwa [hothers, List.append_nil] at horder
  · rintro rfl
    refine ⟨fun name hname => h.contains_selected_iff.mpr hname, ?_⟩
    decide

theorem columnList_eq (h : q.TidyColumns names) : q.columnList = .ofNames (relisted names) := by
  rw [columnList_eq_ofNames, h.selectedInOrder_eq, relisted]
  by_cases hall : names = Schema.columns
  · rw [if_pos (h.showsAll_iff.mpr (.inr hall)), if_pos hall]
  · rw [if_neg hall]
    by_cases hnone : names = []
    · rw [if_pos (h.showsAll_iff.mpr (.inl hnone)), hnone]
      rfl
    · rw [if_neg]
      simp [h.showsAll_iff, hall, hnone]

theorem names_columnList (h : q.TidyColumns names) : q.columnList.names = relisted names := by
  rw [h.columnList_eq, relisted]
  by_cases hall : names = Schema.columns
  · rw [if_pos hall]
    rfl
  · rw [if_neg hall]
    refine ColumnList.names_ofNames (fun name hname => ?_) (nodup_withIdField h.nodup)
    rcases mem_withIdField.mp hname with hname | ⟨rfl, -⟩
    · exact (h.named name hname).2
    · decide

end TidyColumns

theorem statement_eq_statement_iff {q r : Query} (horder : q.rowOrder = r.rowOrder) (hlimit : q.limit = r.limit) :
    q.statement = r.statement ↔ q.columnList = r.columnList ∧ q.statement.filter = r.statement.filter := by
  simp only [statement, Statement.mk.injEq, horder, hlimit, and_true, true_and]

/-- The columns of the query that the text of a query is read as. -/
theorem Named.tidyColumns_read {q : Query} (h : q.Named) (ids : IdSource) :
    (q.statement.resolve ids).1.TidyColumns q.columnList.names := by
  refine Statement.tidyColumns_resolve (fun t ht => ?_) ids
  rw [← (spells_text h).scan_eq] at ht
  exact Token.lexable_of_mem_scan ht

namespace Tidy

variable {q : Query}

theorem columnList_read_iff (h : q.Tidy) (ids : IdSource) :
    (q.statement.resolve ids).1.columnList = q.columnList ↔ q.selectedInOrder ≠ Schema.columns.tail := by
  obtain ⟨names, hnames⟩ := h.columns
  rw [(h.named.tidyColumns_read ids).columnList_eq, hnames.names_columnList, hnames.columnList_eq, ColumnList.ofNames_inj,
    relisted_relisted_iff, hnames.selectedInOrder_eq]

/-- The filters that are read are written again in the same way exactly if their conditions are. -/
theorem filter_read_iff (h : q.Tidy) (ids : IdSource) :
    (q.statement.resolve ids).1.statement.filter = q.statement.filter ↔
      ∀ c ∈ Filters.conditions q.items, c.reread.term = c.term := by
  have hfull := Filters.full_of_filled q.items h.filled h.conditions
  obtain ⟨hconnector, hitems⟩ := (q.statement.flattens_iff ids).mp (flattens_readBack hfull)
  have hlength := Filters.length_terms_le (Filters.readBack q.items)
  rw [Filters.length_readBack] at hlength
  have hfilter : (q.statement.resolve ids).1.statement.filter =
      q.connector.joinTerms? (Filters.terms (Filters.readBack q.items)) := by
    rw [← Connector.joinTerms?_settled hlength, hconnector, hitems, Filters.terms_anonymous]
    rfl
  rw [hfilter, statement, Connector.joinTerms?_inj, Filters.terms_readBack_iff]

theorem rowOrder_read (h : q.Tidy) (ids : IdSource) : (q.statement.resolve ids).1.rowOrder = q.rowOrder := by
  have hsort : (q.statement.resolve ids).1.sortField = q.sortField :=
    sortField_statement (h.sortField.imp_right And.right)
  have hdirection : (q.statement.resolve ids).1.direction = if q.sortField = "" then .ascending else q.direction :=
    direction_statement
  rw [rowOrder, rowOrder, hsort, hdirection]
  by_cases hnone : q.sortField = ""
  · rw [if_pos hnone, if_pos hnone]
  · rw [if_neg hnone, if_neg hnone, if_neg hnone]

/-- What the text of a query that has been read is read as is written again as the same statement, unless the text lists
all columns in their default order or some condition is written in another way. -/
theorem statement_read_iff (h : q.Tidy) (ids : IdSource) : (q.statement.resolve ids).1.statement = q.statement ↔
    q.selectedInOrder ≠ Schema.columns.tail ∧ ∀ c ∈ Filters.conditions q.items, c.reread.term = c.term := by
  have hlimit : (q.statement.resolve ids).1.limit = q.limit := limit_statement h.limit
  rw [statement_eq_statement_iff (h.rowOrder_read ids) hlimit, h.columnList_read_iff ids, h.filter_read_iff ids]

/-- The conditions of what is read have been read back. -/
theorem exists_eq_reread_of_mem_read (h : q.Tidy) {ids : IdSource} {c : Condition}
    (hc : c ∈ Filters.conditions (q.statement.resolve ids).1.items) : ∃ d : Condition, c = d.reread := by
  have hmem : c.anonymous ∈ Filters.anonymousConditions (q.statement.resolve ids).1.items := List.mem_map_of_mem hc
  rw [h.anonymousConditions_read] at hmem
  obtain ⟨d, -, heq⟩ := List.mem_map.mp hmem
  exact Condition.exists_eq_reread heq.symm

/-- What is read again is written again as it is: its columns are already listed with the id field, and its conditions
have been read back once. -/
theorem statement_read_read (h : q.Tidy) (ids again : IdSource) :
    ((q.statement.resolve ids).1.statement.resolve again).1.statement = (q.statement.resolve ids).1.statement := by
  have htidy := tidy_of_read (read_text h.named ids)
  refine (htidy.statement_read_iff again).mpr ⟨?_, fun c hc => ?_⟩
  · obtain ⟨names, hnames⟩ := h.columns
    rw [(h.named.tidyColumns_read ids).selectedInOrder_eq, hnames.names_columnList]
    exact relisted_ne_tail names
  · obtain ⟨d, rfl⟩ := h.exists_eq_reread_of_mem_read hc
    exact Condition.term_reread_reread (htidy.conditions _ hc)

end Tidy

end Query

namespace Command

/-- The canonical text of a text is read, and the canonical text of its own canonical text is itself. It is itself at
once, unless it lists all columns in their default order or some condition is not exact. This last leaves patterns on
times out, if they are for a text that counts as some ticks: their values do not stay when they are read. -/
theorem canonical_again {text : String} {q : Query} (h : Query.ofText text = .ok q) :
    canonical text = .ok q.text ∧ ∃ r, Query.ofText q.text = .ok r ∧ canonical q.text = .ok r.text ∧
      canonical r.text = .ok r.text ∧
      ((∀ c ∈ Filters.conditions q.items, c.operator.isPattern = true → Schema.typeOf c.field = .ticks →
          c.value = "" ∨ Ticks.ofTime c.value = 0) →
        (r.text = q.text ↔
          q.selectedInOrder ≠ Schema.columns.tail ∧ ∀ c ∈ Filters.conditions q.items, c.Exact)) := by
  have htidy := Query.tidy_of_read (Prod.ext h rfl : Query.read text .initial = (.ok q, (Query.read text .initial).2))
  have hread : Query.ofText q.text = .ok (q.statement.resolve .initial).1 := by
    rw [Query.ofText, Query.read_text htidy.named]
  have hnamed := (Query.tidy_of_read (Query.read_text htidy.named .initial)).named
  refine ⟨canonical_of_ofText h, _, hread, canonical_of_ofText hread, ?_, fun hpattern => ?_⟩
  · have hagain : Query.ofText (q.statement.resolve .initial).1.text =
        .ok ((q.statement.resolve .initial).1.statement.resolve .initial).1 := by
      rw [Query.ofText, Query.read_text hnamed]
    rw [canonical_of_ofText hagain, Query.text_statement, Query.text_statement,
      htidy.statement_read_read .initial .initial]
  · rw [Query.text_eq_text_iff hnamed htidy.named, htidy.statement_read_iff .initial]
    refine and_congr_right' (forall₂_congr fun c hc => ?_)
    exact (htidy.conditions c hc).term_reread_iff (hpattern c hc)

/-- The id field is listed along with a time, a time is shown as its ticks, and a text that is no time as none; after
that nothing changes. -/
theorem canonical_again_of_time : ∃ q r,
    Query.ofText "select introstartticks from t where introendticks in ('01:02:03', 5) and introstartticks like 'x'" =
        .ok q ∧
      q.text = "SELECT ItemId, IntroStartTicks FROM MediaSegments\nWHERE IntroEndTicks IN (37230000000, 0) AND " ++
        "IntroStartTicks LIKE 0" ∧
      Query.ofText q.text = .ok r ∧ r.text = q.text ∧ canonical r.text = .ok r.text := by
  have hfacts : (Query.ofText
      "select introstartticks from t where introendticks in ('01:02:03', 5) and introstartticks like 'x'").toOption.map
      (fun q => (q.text, q.selectedInOrder, Filters.conditions q.items)) =
      some ("SELECT ItemId, IntroStartTicks FROM MediaSegments\nWHERE IntroEndTicks IN (37230000000, 0) AND " ++
          "IntroStartTicks LIKE 0", ["IntroStartTicks"],
        [⟨1, "IntroEndTicks", .oneOf, "", "", ["01:02:03", "00:00:00.000"]⟩,
          ⟨2, "IntroStartTicks", .like, "x", "", []⟩]) := by decide +kernel
  obtain ⟨q, hq, heq⟩ := Query.exists_of_toOption_map hfacts
  obtain ⟨htext, hcolumns, hconditions⟩ : q.text = _ ∧ q.selectedInOrder = _ ∧ Filters.conditions q.items = _ := by
    simpa only [Prod.mk.injEq] using heq
  obtain ⟨-, r, hr, -, hfixed, hagain⟩ := canonical_again hq
  have hpattern : ∀ c ∈ Filters.conditions q.items, c.operator.isPattern = true → Schema.typeOf c.field = .ticks →
      c.value = "" ∨ Ticks.ofTime c.value = 0 := by
    rw [hconditions]
    decide
  have hexact : ∀ c ∈ Filters.conditions q.items, c.Exact := by
    rw [hconditions, List.forall_mem_cons, List.forall_mem_singleton]
    exact ⟨⟨fun _ => by decide, by decide⟩, ⟨fun _ => by decide, by decide⟩⟩
  have hlisted : q.selectedInOrder ≠ Schema.columns.tail := by
    rw [hcolumns]
    decide
  exact ⟨q, r, hq, htext, hr, (hagain hpattern).mpr ⟨hlisted, hexact⟩, hfixed⟩

/-- A list with two spellings of one number shows the number twice, and from then on once. -/
theorem canonical_again_of_spellings : ∃ q r,
    Query.ofText "SELECT * FROM MediaSegments WHERE SeasonNumber IN (1, 01)" = .ok q ∧
      q.text = "SELECT * FROM MediaSegments\nWHERE SeasonNumber IN (1, 1)" ∧ Query.ofText q.text = .ok r ∧
      r.text = "SELECT * FROM MediaSegments\nWHERE SeasonNumber IN (1)" ∧ r.text ≠ q.text := by
  have hfirst : (Query.ofText "SELECT * FROM MediaSegments WHERE SeasonNumber IN (1, 01)").toOption.map Query.text =
      some "SELECT * FROM MediaSegments\nWHERE SeasonNumber IN (1, 1)" := by decide +kernel
  have hagain : (Query.ofText "SELECT * FROM MediaSegments\nWHERE SeasonNumber IN (1, 1)").toOption.map Query.text =
      some "SELECT * FROM MediaSegments\nWHERE SeasonNumber IN (1)" := by decide +kernel
  obtain ⟨q, hq, hqtext⟩ := Query.exists_of_toOption_map hfirst
  obtain ⟨r, hr, hrtext⟩ := Query.exists_of_toOption_map hagain
  rw [← hqtext] at hr
  refine ⟨q, r, hq, hqtext, hr, hrtext, ?_⟩
  rw [hqtext, hrtext]
  decide

end Command

end SegmentQuery
