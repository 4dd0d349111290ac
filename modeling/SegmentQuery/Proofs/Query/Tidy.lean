import Mathlib.Data.List.Nodup
import SegmentQuery.Proofs.Query.Reread

namespace SegmentQuery

/-- A condition that can have been read. -/
structure Condition.Tidy (c : Condition) : Prop where
  named : Token.isName c.field = true
  canonical : Schema.canonical c.field = c.field
  clear : c.clearUnused = c
  listed : c.operator.isList = true → c.values ≠ []
  nodup : c.values.Nodup

theorem Schema.isName_canonical {name : String} (h : Token.isName name = true) :
    Token.isName (canonical name) = true := by
  have hfields : ∀ f ∈ fields, Token.isName f.name = true := by decide
  rw [canonical]
  cases hname : find? name with
  | none => exact h
  | some f => exact hfields f (List.mem_of_find?_eq_some hname)

namespace Condition

/-- The condition that a test makes is tidy. -/
theorem tidy_ofTest {field : String} (h : Token.isName field = true) (id : UInt64) (test : Test) :
    (ofTest id field test).Tidy := by
  have hnamed := Schema.isName_canonical h
  have hcanonical := Schema.canonical_canonical field
  cases test with
  | isNull negated => cases negated <;> exact ⟨hnamed, hcanonical, rfl, nofun, .nil⟩
  | oneOf negated first rest =>
    have hne : distinct ((first :: rest).map (Literal.value (Schema.typeOf field))) ≠ [] :=
      List.ne_nil_of_mem (mem_distinct.mpr (List.mem_cons_self ..))
    cases negated <;> exact ⟨hnamed, hcanonical, rfl, fun _ => hne, nodup_distinct _⟩
  | like negated pattern => cases negated <;> exact ⟨hnamed, hcanonical, rfl, nofun, .nil⟩
  | between low high => exact ⟨hnamed, hcanonical, rfl, nofun, .nil⟩
  | compare c value => exact ⟨hnamed, hcanonical, rfl, nofun, .nil⟩

/-- A condition that is made by a test but for its id is made by the test. -/
theorem eq_ofTest_of_anonymous {c : Condition} {field : String} {test : Test} (h : c.anonymous = ofTest 0 field test) :
    c = ofTest c.id field test :=
  eq_of_anonymous (id_ofTest ..).symm (h.trans (anonymous_ofTest ..).symm)

theorem clearUnused_eq_iff {c : Condition} : c.clearUnused = c ↔
    (c.operator.isNullCheck = true ∨ c.operator.isList = true → c.value = "") ∧
      (c.operator ≠ .between → c.upper = "") ∧ (c.operator.isList = false → c.values = []) := by
  obtain ⟨id, field, op, value, upper, values⟩ := c
  cases op <;> simp [clearUnused, Operator.isNullCheck, Operator.isList, eq_comm]

namespace Tidy

variable {c : Condition}

theorem asksNothing_eq_false (h : c.Tidy) : c.asksNothing = false := by
  rw [asksNothing, Bool.and_eq_false_imp]
  intro hlist
  simpa using h.listed hlist

/-- Of a tidy condition only the values are read back in another form. -/
theorem reread_eq (h : c.Tidy) :
    c.reread =
      { c with
        value := Value.reread (Schema.typeOf c.field) c.operator c.value
        upper := Value.reread (Schema.typeOf c.field) c.operator c.upper
        values := distinct (c.values.map (Value.reread (Schema.typeOf c.field) c.operator)) } := by
  obtain ⟨hvalue, hupper, hvalues⟩ := clearUnused_eq_iff.mp h.clear
  rw [reread, h.canonical, clearUnused_eq_iff]
  refine ⟨fun hop => ?_, fun hop => ?_, fun hop => ?_⟩
  · rw [hvalue hop, Value.reread_empty]
  · rw [hupper hop, Value.reread_empty]
  · rw [hvalues hop]
    rfl

/-- What a tidy condition is read back as is tidy. -/
theorem reread (h : c.Tidy) : c.reread.Tidy := by
  obtain ⟨test, htest⟩ := exists_test? h.asksNothing_eq_false
  rw [eq_ofTest_of_anonymous (ofTest_eq_reread htest).symm]
  exact tidy_ofTest h.named _ test

end Tidy

end Condition

mutual

theorem Term.exists_of_mem_conditions : ∀ {t : Term} {c : Condition}, c ∈ t.conditions →
    ∃ field test, c = .ofTest 0 field test ∧ .identifier field :: test.tokens <:+: t.tokens
  | .condition field test, c, hc => by
    rw [Term.conditions, List.mem_singleton] at hc
    exact ⟨field, test, hc, List.infix_rfl⟩
  | .parens inner, c, hc => by
    obtain ⟨field, test, rfl, htokens⟩ := Disjunction.exists_of_mem_conditions hc
    exact ⟨field, test, rfl, htokens.trans ⟨[.leftParen], [.rightParen], rfl⟩⟩

theorem Conjunction.exists_of_mem_conditions : ∀ {d : Conjunction} {c : Condition}, c ∈ d.conditions →
    ∃ field test, c = .ofTest 0 field test ∧ .identifier field :: test.tokens <:+: d.tokens
  | .term t, c, hc => Term.exists_of_mem_conditions hc
  | .and d t, c, hc => by
    rcases List.mem_append.mp hc with hc | hc
    · obtain ⟨field, test, rfl, htokens⟩ := Conjunction.exists_of_mem_conditions hc
      exact ⟨field, test, rfl, htokens.trans (List.prefix_append ..).isInfix⟩
    · obtain ⟨field, test, rfl, htokens⟩ := Term.exists_of_mem_conditions hc
      exact ⟨field, test, rfl, htokens.trans (List.suffix_append_of_suffix (List.suffix_cons ..)).isInfix⟩

theorem Disjunction.exists_of_mem_conditions : ∀ {d : Disjunction} {c : Condition}, c ∈ d.conditions →
    ∃ field test, c = .ofTest 0 field test ∧ .identifier field :: test.tokens <:+: d.tokens
  | .conjunction d, c, hc => Conjunction.exists_of_mem_conditions hc
  | .or d t, c, hc => by
    rcases List.mem_append.mp hc with hc | hc
    · obtain ⟨field, test, rfl, htokens⟩ := Disjunction.exists_of_mem_conditions hc
      exact ⟨field, test, rfl, htokens.trans (List.prefix_append ..).isInfix⟩
    · obtain ⟨field, test, rfl, htokens⟩ := Conjunction.exists_of_mem_conditions hc
      exact ⟨field, test, rfl, htokens.trans (List.suffix_append_of_suffix (List.suffix_cons ..)).isInfix⟩

end

/-- Every condition of a statement is made by a field and a test that stand in the statement. -/
theorem Statement.exists_of_mem_conditions {s : Statement} {c : Condition} (hc : c ∈ s.conditions) :
    ∃ field test, c = .ofTest 0 field test ∧ .identifier field :: test.tokens <:+: s.tokens := by
  rw [conditions] at hc
  cases hfilter : s.filter with
  | none =>
    rw [hfilter] at hc
    cases hc
  | some d =>
    rw [hfilter] at hc
    obtain ⟨field, test, rfl, htokens⟩ := Disjunction.exists_of_mem_conditions hc
    refine ⟨field, test, rfl, htokens.trans ?_⟩
    rw [tokens, hfilter, List.append_assoc]
    exact ((List.suffix_cons ..).isInfix.trans (List.suffix_append ..).isInfix).trans (List.prefix_append ..).isInfix

/-- Every condition that is read is made by a field and a test that stand in the statement. -/
theorem Statement.exists_of_mem_resolve {s : Statement} {ids : IdSource} {c : Condition}
    (hc : c ∈ Filters.conditions (s.resolve ids).1.items) :
    ∃ field test, c = .ofTest c.id field test ∧ .identifier field :: test.tokens <:+: s.tokens := by
  have hmem := (s.anonymousConditions_sublist ids).mem (List.mem_map_of_mem hc)
  obtain ⟨field, test, htest, htokens⟩ := Statement.exists_of_mem_conditions hmem
  exact ⟨field, test, Condition.eq_ofTest_of_anonymous htest, htokens⟩

/-- The conditions of a statement are tidy. -/
theorem Statement.tidy_of_mem_resolve {s : Statement} (hlexable : ∀ t ∈ s.tokens, t.Lexable) {ids : IdSource}
    {c : Condition} (hc : c ∈ Filters.conditions (s.resolve ids).1.items) : c.Tidy := by
  obtain ⟨field, test, htest, htokens⟩ := Statement.exists_of_mem_resolve hc
  rw [htest]
  exact Condition.tidy_ofTest (hlexable _ (htokens.subset (List.mem_cons_self ..))) c.id test

mutual

/-- Every group has members, and at least two under `OR`. -/
def Filter.Filled : Filter → Prop
  | .condition _ => True
  | .group _ k children => children ≠ [] ∧ (k = .or → 2 ≤ children.length) ∧ Filters.Filled children

def Filters.Filled : List Filter → Prop
  | [] => True
  | f :: rest => f.Filled ∧ Filters.Filled rest

end

theorem Filters.filled_append {items more : List Filter} :
    Filters.Filled (items ++ more) ↔ Filters.Filled items ∧ Filters.Filled more := by
  induction items with
  | nil => simp [Filled]
  | cons f rest ih => rw [List.cons_append, Filled, Filled, ih, and_assoc]

/-- Filters that are joined: filled, and at least two under `OR`. -/
def Joined.Filled (j : Joined) : Prop := (j.connector = .or → 2 ≤ j.items.length) ∧ Filters.Filled j.items

theorem Filters.filled_ofAlternatives {parts : List (List Filter)} (hparts : ∀ fs ∈ parts, Filters.Filled fs)
    (hempty : [] ∉ parts) (ids : IdSource) :
    (ofAlternatives parts ids).1.length = parts.length ∧ Filters.Filled (ofAlternatives parts ids).1 := by
  fun_induction ofAlternatives parts ids with
  | case1 => exact ⟨rfl, trivial⟩
  | case2 f rest ids items after hrest ih =>
    rw [hrest] at ih
    obtain ⟨hf, hparts⟩ := List.forall_mem_cons.mp hparts
    obtain ⟨hlength, hitems⟩ := ih hparts (mt (List.mem_cons_of_mem _) hempty)
    exact ⟨congrArg (· + 1) hlength, hf.1, hitems⟩
  | case3 fs rest ids hfs items after hrest ih =>
    rw [hrest] at ih
    obtain ⟨hf, hparts⟩ := List.forall_mem_cons.mp hparts
    obtain ⟨hlength, hitems⟩ := ih hparts (mt (List.mem_cons_of_mem _) hempty)
    have hne : fs ≠ [] := fun h => hempty (by simp [h])
    exact ⟨congrArg (· + 1) hlength, ⟨hne, Connector.noConfusion, hf⟩, hitems⟩

namespace Joined

theorem filled_ofConjunctions {parts : List (List Filter)} (hne : parts ≠ [])
    (hparts : ∀ fs ∈ parts, Filters.Filled fs) (ids : IdSource) : (ofConjunctions parts ids).1.Filled := by
  by_cases hempty : [] ∈ parts
  · rw [ofConjunctions_of_nil_mem hempty]
    exact ⟨nofun, trivial⟩
  · match parts, hne with
    | [fs], _ =>
      have hfs : fs ≠ [] := fun h => hempty (by simp [h])
      rw [ofConjunctions_singleton hfs]
      exact ⟨nofun, hparts fs (by simp)⟩
    | first :: second :: rest, _ =>
      obtain ⟨hlength, hfilled⟩ := Filters.filled_ofAlternatives hparts hempty ids
      rw [ofConjunctions_of_two_le (by simp) hempty]
      exact ⟨fun _ => by rw [hlength]; simp, hfilled⟩

theorem filled_toGroup {j : Joined} (h : j.Filled) (ids : IdSource) : Filters.Filled (j.toGroup ids).1 := by
  rw [toGroup]
  by_cases hitems : j.items = []
  · simp [hitems, Filters.Filled]
  · simpa [hitems, Filters.Filled, Filter.Filled, h.2] using h.1

end Joined

mutual

theorem Term.filled_filters : ∀ (t : Term) (ids : IdSource), Filters.Filled (t.filters ids).1
  | .condition .., _ => ⟨trivial, trivial⟩
  | .literals .., _ => trivial
  | .parens inner, ids => by
    rw [Term.filters_parens]
    exact Joined.filled_toGroup (Joined.filled_ofConjunctions (inner.conjunctions_ne_nil ids)
      (Disjunction.filled_conjunctions inner ids) _) _

theorem Conjunction.filled_filters : ∀ (c : Conjunction) (ids : IdSource), Filters.Filled (c.filters ids).1
  | .term t, ids => Term.filled_filters t ids
  | .and c t, ids => by
    rw [Conjunction.filters_and]
    exact Filters.filled_append.mpr ⟨Conjunction.filled_filters c ids, Term.filled_filters t _⟩

theorem Disjunction.filled_conjunctions : ∀ (d : Disjunction) (ids : IdSource),
    ∀ fs ∈ (d.conjunctions ids).1, Filters.Filled fs
  | .conjunction c, ids, fs, hfs => by
    rw [List.mem_singleton.mp hfs]
    exact Conjunction.filled_filters c ids
  | .or d c, ids, fs, hfs => by
    rw [Disjunction.conjunctions_or] at hfs
    rcases List.mem_append.mp hfs with hfs | hfs
    · exact Disjunction.filled_conjunctions d ids fs hfs
    · rw [List.mem_singleton.mp hfs]
      exact Conjunction.filled_filters c _

end

theorem Statement.filled_join (s : Statement) (ids : IdSource) : (s.join ids).1.Filled := by
  rw [join]
  cases s.filter with
  | none => exact ⟨Connector.noConfusion, trivial⟩
  | some d => exact Joined.filled_ofConjunctions (d.conjunctions_ne_nil ids) (d.filled_conjunctions ids) _

/-- The columns of a query that has been read: the listed ones and then the others, each at its first place. -/
structure Query.TidyColumns (q : Query) (names : List String) : Prop where
  named : ∀ name ∈ names, Token.isName name = true ∧ Schema.canonical name = name
  nodup : names.Nodup
  selected : q.selected = .ofList names
  order : q.columnOrder = names ++ Schema.columns.filter fun name => !names.contains name

/-- A query that can have been read. -/
structure Query.Tidy (q : Query) : Prop where
  columns : ∃ names, q.TidyColumns names
  conditions : ∀ c ∈ Filters.conditions q.items, c.Tidy
  filled : Filters.Filled q.items
  connector : q.connector = .or → 2 ≤ q.items.length
  sortField : q.sortField = "" ∨ Token.isName q.sortField = true ∧ Schema.canonical q.sortField = q.sortField
  limit : q.limit.toNat ≤ Integer.largest

namespace Statement

variable {s : Statement}

theorem tidyColumns_resolve (hlexable : ∀ t ∈ s.tokens, t.Lexable) (ids : IdSource) :
    (s.resolve ids).1.TidyColumns s.columns.names where
  named name hname := by
    cases hcolumns : s.columns with
    | all =>
      rw [hcolumns] at hname
      cases hname
    | listed first rest =>
      rw [hcolumns, ColumnList.names, mem_distinct, List.mem_map] at hname
      obtain ⟨column, hcolumn, rfl⟩ := hname
      have htokens : .identifier column ∈ s.tokens := by
        rcases List.mem_cons.mp hcolumn with rfl | hcolumn <;> simp [tokens, ColumnList.tokens, *]
      exact ⟨Schema.isName_canonical (hlexable _ htokens), Schema.canonical_canonical column⟩
  nodup := by
    cases hcolumns : s.columns with
    | all => exact .nil
    | listed first rest => exact nodup_distinct _
  selected := rfl
  order := rfl

/-- What a statement resolves to is tidy, if its tokens can stand in a text. -/
theorem tidy_resolve (hlexable : ∀ t ∈ s.tokens, t.Lexable) (ids : IdSource) : (s.resolve ids).1.Tidy where
  columns := ⟨_, tidyColumns_resolve hlexable ids⟩
  conditions _ := tidy_of_mem_resolve hlexable
  filled := (s.filled_join ids).2
  connector := (s.filled_join ids).1
  sortField := by
    have hsort : (s.resolve ids).1.sortField = (s.order.map fun o => Schema.canonical o.field).getD "" := rfl
    rw [hsort]
    cases horder : s.order with
    | none => exact .inl rfl
    | some o =>
      have htokens : .identifier o.field ∈ s.tokens := by simp [tokens, horder, RowOrder.tokens]
      exact .inr ⟨Schema.isName_canonical (hlexable _ htokens), Schema.canonical_canonical o.field⟩
  limit := by
    have hlimit : (s.resolve ids).1.limit = (s.limit.map Query.limitOf).getD 0 := rfl
    rw [hlimit]
    cases s.limit with
    | none => exact Nat.zero_le _
    | some digits =>
      have hdigits := Integer.natAbs_ofText_le digits
      have hmod := Nat.mod_le (Integer.ofText digits).toNat (2 ^ 64)
      simp only [Option.map_some, Option.getD_some, Query.limitOf, UInt64.toNat_ofNat']
      omega

end Statement

namespace Query

/-- Every query that is read is tidy. -/
theorem tidy_of_read {text : String} {ids ids' : IdSource} {q : Query} (h : read text ids = (.ok q, ids')) :
    q.Tidy := by
  obtain ⟨s, ⟨-, htokens⟩, rfl⟩ := exists_derives_of_read h
  refine s.tidy_resolve (fun t ht => ?_) ids
  rw [htokens] at ht
  exact Token.lexable_of_mem_scan ht

theorem Tidy.named {q : Query} (h : q.Tidy) : q.Named where
  columns name hname := by
    obtain ⟨names, hcolumns⟩ := h.columns
    rw [hcolumns.selected, ← ColumnSet.contains_iff, ColumnSet.contains_ofList] at hname
    exact (hcolumns.named name hname).1
  fields c hc := (h.conditions c hc).named
  sortField := h.sortField.imp_right And.left

end Query

/-- A tidy condition holds exactly the values that its operator uses. -/
theorem Condition.Tidy.values_iff {c : Condition} (h : c.Tidy) :
    (c.operator.isNullCheck = true → c.value = "" ∧ c.upper = "" ∧ c.values = []) ∧
      (c.upper ≠ "" → c.operator = .between) ∧ (c.values ≠ [] ↔ c.operator.isList = true) ∧
      (c.operator.isList = true → c.value = "") := by
  obtain ⟨hvalue, hupper, hvalues⟩ := clearUnused_eq_iff.mp h.clear
  refine ⟨fun hnull => ?_, fun hne => ?_, ?_, fun hlist => hvalue (.inr hlist)⟩
  · have hop : c.operator ≠ .between ∧ c.operator.isList = false := by
      cases hc : c.operator <;> simp_all [Operator.isNullCheck, Operator.isList]
    exact ⟨hvalue (.inl hnull), hupper hop.1, hvalues hop.2⟩
  · by_contra hop
    exact hne (hupper hop)
  · constructor
    · intro hne
      by_contra hlist
      exact hne (hvalues (Bool.eq_false_iff.mpr hlist))
    · exact h.listed

namespace Query

variable {q : Query} {names : List String}

/-- The columns of a query that has been read are in an order without repeats, which has all columns of the table. -/
theorem TidyColumns.nodup_order (h : q.TidyColumns names) :
    q.columnOrder.Nodup ∧ ∀ name ∈ Schema.columns, name ∈ q.columnOrder := by
  have hcolumns : Schema.columns.Nodup := by decide
  rw [h.order]
  constructor
  · refine h.nodup.append (hcolumns.filter _) fun name hname hother => ?_
    have hnot := (List.mem_filter.mp hother).2
    simp [hname] at hnot
  · intro name hname
    by_cases hlisted : name ∈ names <;> simp [hlisted, hname]

/-- Whatever the text, a query that is read from it has groups with members and with alternatives that are at least two,
conditions on names of the table or other names that hold exactly the values that their operators use, an order of
columns that starts with the selected ones, and an order and a limit that can be written. -/
theorem invariants_of_read {text : String} {ids ids' : IdSource} (h : read text ids = (.ok q, ids')) :
    Filters.Filled q.items ∧ (q.connector = .or → 2 ≤ q.items.length) ∧
      (∀ c ∈ Filters.conditions q.items,
        (Schema.canonical c.field = c.field ∧ Token.isName c.field = true) ∧
        (c.operator.isNullCheck = true → c.value = "" ∧ c.upper = "" ∧ c.values = []) ∧
        (c.upper ≠ "" → c.operator = .between) ∧ (c.values ≠ [] ↔ c.operator.isList = true) ∧ c.values.Nodup ∧
        (c.operator.isList = true → c.value = "")) ∧
      q.columnOrder.Nodup ∧ (∀ name ∈ Schema.columns, name ∈ q.columnOrder) ∧
      (∃ names : List String, names.Nodup ∧ (∀ name, q.selected.contains name = true ↔ name ∈ names) ∧
        q.columnOrder = names ++ Schema.columns.filter fun name => !names.contains name) ∧
      (q.sortField = "" ∨ Token.isName q.sortField = true ∧ Schema.canonical q.sortField = q.sortField) ∧
      q.limit.toNat ≤ 2 ^ 63 - 1 := by
  have htidy := tidy_of_read h
  obtain ⟨names, hcolumns⟩ := htidy.columns
  obtain ⟨hnodup, hmem⟩ := hcolumns.nodup_order
  have hselected (name : String) : q.selected.contains name = true ↔ name ∈ names := by
    rw [hcolumns.selected, ColumnSet.contains_ofList]
  refine ⟨htidy.filled, htidy.connector, fun c hc => ?_, hnodup, hmem, ⟨names, hcolumns.nodup, hselected, hcolumns.order⟩,
    htidy.sortField, htidy.limit⟩
  have hcondition := htidy.conditions c hc
  obtain ⟨hnull, hupper, hvalues, hlist⟩ := hcondition.values_iff
  exact ⟨⟨hcondition.canonical, hcondition.named⟩, hnull, hupper, hvalues, hcondition.nodup, hlist⟩

/-- What holds of the query that a text is read as. -/
theorem exists_of_toOption_map {α : Type} {text : String} {f : Query → α} {a : α}
    (h : (ofText text).toOption.map f = some a) : ∃ q, ofText text = .ok q ∧ f q = a := by
  cases hread : ofText text with
  | error e =>
    rw [hread] at h
    cases h
  | ok q =>
    rw [hread] at h
    exact ⟨q, rfl, Option.some.inj h⟩

theorem exists_read_of_ofText {text : String} (h : ofText text = .ok q) :
    ∃ ids', read text .initial = (.ok q, ids') :=
  ⟨_, Prod.ext h rfl⟩

/-- A query with a column in two spellings, and with alternatives, one of them a list that repeats a value. -/
theorem invariants_of_read_list : ∃ q ids',
    read "SELECT itemname, ITEMNAME FROM t WHERE (HasIntro IS NULL AND a IN (1, 2, 1)) OR b LIKE 'c'" .initial =
        (.ok q, ids') ∧
      q.columnOrder.take 2 = ["ItemName", "ItemId"] ∧ q.columnOrder.Nodup ∧ q.connector = .or ∧ 2 ≤ q.items.length ∧
      ∀ c ∈ Filters.conditions q.items, c.values.Nodup ∧ (c.values ≠ [] ↔ c.operator.isList = true) := by
  have hparts : (ofText "SELECT itemname, ITEMNAME FROM t WHERE (HasIntro IS NULL AND a IN (1, 2, 1)) OR b LIKE 'c'"
      ).toOption.map (fun q => (q.columnOrder.take 2, q.connector)) = some (["ItemName", "ItemId"], .or) := by decide +kernel
  obtain ⟨q, hq, hparts⟩ := exists_of_toOption_map hparts
  obtain ⟨horder, hconnector⟩ := Prod.mk.inj hparts
  obtain ⟨ids', hread⟩ := exists_read_of_ofText hq
  obtain ⟨-, hlength, hconditions, hnodup, -⟩ := invariants_of_read hread
  refine ⟨q, ids', hread, horder, hnodup, hconnector, hlength hconnector, fun c hc => ?_⟩
  obtain ⟨-, -, -, hvalues, hvaluesNodup, -⟩ := hconditions c hc
  exact ⟨hvaluesNodup, hvalues⟩

end Query

end SegmentQuery
