import SegmentQuery.Proofs.Statement.Meaning
import SegmentQuery.Proofs.Statement.TestText
import SegmentQuery.Proofs.Value.Written
import SegmentQuery.Query.Text

namespace SegmentQuery

/-- The test that a condition makes. A condition on an empty list of values makes none. -/
def Condition.test? (c : Condition) : Option Test :=
  let written := Value.written (Schema.typeOf c.field) c.operator
  match c.operator with
  | .compare k => some (.compare k (written c.value))
  | .like => some (.like false (written c.value))
  | .notLike => some (.like true (written c.value))
  | .oneOf => c.values.head?.map fun first => .oneOf false (written first) (c.values.tail.map written)
  | .notOneOf => c.values.head?.map fun first => .oneOf true (written first) (c.values.tail.map written)
  | .between => some (.between (written c.value) (written c.upper))
  | .isNull => some (.isNull false)
  | .isNotNull => some (.isNull true)

/-- The term that a condition is written as. -/
def Condition.term (c : Condition) : Term :=
  match c.test? with
  | some test => .condition c.field test
  | none => .literals "1" .eq (.number "1")

/-- Asks for one of no values. -/
def Condition.asksNothing (c : Condition) : Bool := c.operator.isList && c.values.isEmpty

theorem Condition.test?_eq_none {c : Condition} : c.test? = none ↔ c.asksNothing = true := by
  obtain ⟨id, field, op, value, upper, values⟩ := c
  cases op <;> cases values <;> simp [test?, asksNothing, Operator.isList]

theorem Condition.exists_test? {c : Condition} (h : c.asksNothing = false) : ∃ test, c.test? = some test := by
  rw [← Option.ne_none_iff_exists', ne_eq, test?_eq_none, h]
  decide

theorem Condition.asksNothing_of_test? {c : Condition} {test : Test} (h : c.test? = some test) :
    c.asksNothing = false := by
  rw [Bool.eq_false_iff]
  intro hasks
  rw [test?_eq_none.mpr hasks] at h
  cases h

/-- A condition is written as its field and the test that it makes. -/
theorem Condition.text_of_test? {c : Condition} {test : Test} (h : c.test? = some test) :
    c.text = c.field ++ " " ++ test.text := by
  obtain ⟨id, field, op, value, upper, values⟩ := c
  have hlist (op : Operator) (values : List String) : values.map (Value.literal (Schema.typeOf field) op) =
      (values.map (Value.written (Schema.typeOf field) op)).map fun l => l.token.display := by
    rw [List.map_map]
    exact List.map_congr_left fun v _ => Value.literal_eq_display _ _ v
  cases op with
  | oneOf | notOneOf =>
    cases values with
    | nil => cases h
    | cons first rest =>
      cases h
      simp [text, hlist, Test.text, Operator.negatedIf, String.append_assoc]
  | isNull | isNotNull =>
    cases h
    rfl
  | like | notLike =>
    cases h
    simp [text, Value.literal_eq_display, Test.text, Operator.negatedIf, String.append_assoc]
  | compare =>
    cases h
    simp [text, Value.literal_eq_display, Test.text, Operator.text, String.append_assoc]
  | between =>
    have hword : " BETWEEN " = " " ++ "BETWEEN " := by decide
    cases h
    simp only [text, Value.literal_eq_display, Test.text, hword, String.append_assoc]

/-- A condition that makes no test is written as what always holds. -/
theorem Condition.text_of_test?_eq_none {c : Condition} (h : c.test? = none) : c.text = Condition.always := by
  obtain ⟨id, field, op, value, upper, values⟩ := c
  cases op with
  | oneOf | notOneOf =>
    cases values with
    | nil => rfl
    | cons => cases h
  | compare | like | notLike | between | isNull | isNotNull => cases h

/-- Terms joined by a connector; `none` if there are none. -/
def Connector.joinTerms? : Connector → List Term → Option Disjunction
  | _, [] => none
  | .and, first :: rest => some (.conjunction (rest.foldl .and (.term first)))
  | .or, first :: rest => some (rest.foldl (fun d t => .or d (.term t)) (.conjunction (.term first)))

namespace Connector

theorem joinTerms?_eq_none {k : Connector} {ts : List Term} : k.joinTerms? ts = none ↔ ts = [] := by
  cases k <;> cases ts <;> simp [joinTerms?]

section

variable {P : List Term → Disjunction → Prop}

private theorem induction_and
    (hand : ∀ ts c t, ts ≠ [] → P ts (.conjunction c) → P (ts ++ [t]) (.conjunction (.and c t)))
    (more ts : List Term) (c : Conjunction) (hts : ts ≠ []) (h : P ts (.conjunction c)) :
    P (ts ++ more) (.conjunction (more.foldl .and c)) := by
  induction more generalizing ts c with
  | nil => rwa [List.append_nil]
  | cons t more ih =>
    rw [List.append_cons]
    exact ih _ _ (by simp) (hand ts c t hts h)

private theorem induction_or (hor : ∀ ts d t, ts ≠ [] → P ts d → P (ts ++ [t]) (.or d (.term t)))
    (more ts : List Term) (d : Disjunction) (hts : ts ≠ []) (h : P ts d) :
    P (ts ++ more) (more.foldl (fun d t => .or d (.term t)) d) := by
  induction more generalizing ts d with
  | nil => rwa [List.append_nil]
  | cons t more ih =>
    rw [List.append_cons]
    exact ih _ _ (by simp) (hor ts d t hts h)

/-- What holds of a single term, and of joined terms together with one more, holds of all joined terms. -/
theorem joinTerms?_induction {k : Connector} (hsingle : ∀ t, P [t] (.conjunction (.term t)))
    (hand : k = .and → ∀ ts c t, ts ≠ [] → P ts (.conjunction c) → P (ts ++ [t]) (.conjunction (.and c t)))
    (hor : k = .or → ∀ ts d t, ts ≠ [] → P ts d → P (ts ++ [t]) (.or d (.term t)))
    {ts : List Term} {d : Disjunction} (h : k.joinTerms? ts = some d) : P ts d := by
  cases ts with
  | nil => cases k <;> cases h
  | cons first rest =>
    cases k with
    | and =>
      cases h
      exact induction_and (hand rfl) rest [first] (.term first) (by simp) (hsingle first)
    | or =>
      cases h
      exact induction_or (hor rfl) rest [first] (.conjunction (.term first)) (by simp) (hsingle first)

end

end Connector

mutual

/-- The term that a filter is written as; `none` if it has no conditions. -/
def Filter.term? : Filter → Option Term
  | .condition c => some c.term
  | .group _ k children => (k.joinTerms? (Filters.terms children)).map .parens

/-- The terms of those filters of a list that have one. -/
def Filters.terms : List Filter → List Term
  | [] => []
  | f :: rest => f.term?.toList ++ Filters.terms rest

end

mutual

theorem Filter.term?_eq_none : ∀ f : Filter, f.term? = none ↔ f.conditions = []
  | .condition c => by simp [Filter.term?, Filter.conditions]
  | .group id k children => by
    rw [Filter.term?, Option.map_eq_none_iff, Connector.joinTerms?_eq_none, Filter.conditions]
    exact Filters.terms_eq_nil children

theorem Filters.terms_eq_nil : ∀ items : List Filter, Filters.terms items = [] ↔ Filters.conditions items = []
  | [] => by simp [Filters.terms, Filters.conditions]
  | f :: rest => by
    rw [Filters.terms, Filters.conditions, List.append_eq_nil_iff, List.append_eq_nil_iff, Option.toList_eq_nil_iff]
    exact and_congr (Filter.term?_eq_none f) (Filters.terms_eq_nil rest)

end

/-- Filters without conditions are written as nothing. -/
theorem Filters.joinTerms?_eq_none {k : Connector} {items : List Filter} :
    k.joinTerms? (Filters.terms items) = none ↔ Filters.conditions items = [] :=
  Connector.joinTerms?_eq_none.trans (Filters.terms_eq_nil items)

namespace Query

/-- The columns that a query is written with. -/
def columnList (q : Query) : ColumnList :=
  if q.showsAll then .all
  else match withIdField q.selectedInOrder with
    | [] => .all
    | first :: rest => .listed first rest

/-- The order that a query is written with. -/
def rowOrder (q : Query) : Option RowOrder :=
  if q.sortField = "" then none else some ⟨q.sortField, some q.direction⟩

/-- The statement that a query is written as. -/
def statement (q : Query) : Statement where
  columns := q.columnList
  table := Schema.table
  filter := q.connector.joinTerms? (Filters.terms q.items)
  order := q.rowOrder
  limit := if q.limit = 0 then none else some q.limit.toNat.repr

/-- All names that the text of a query shows are names: those of the selected columns, of the fields of conditions, and
of the field to sort by, if there is one. -/
structure Named (q : Query) : Prop where
  columns : ∀ name ∈ q.selected.names, Token.isName name = true
  fields : ∀ c ∈ Filters.conditions q.items, Token.isName c.field = true
  sortField : q.sortField = "" ∨ Token.isName q.sortField = true

end Query

section

open Token

/-- A literal that the scanner takes apart into three tokens. -/
private theorem spells_always :
    Spells Condition.always [.number "1", .comparison .eq, .number "1"] := by
  intro rest hrest
  have hone : Lexable (.number "1") := .unsigned (Integer.isUnsigned_repr 1)
  have hfirst : scan ('1' :: '=' :: '1' :: rest) = .number "1" :: scan ('=' :: '1' :: rest) :=
    scan_display hone (by simp [EndsBefore])
  have hsign : scan ('=' :: '1' :: rest) = .comparison .eq :: scan ('1' :: rest) :=
    scan_display (t := .comparison .eq) trivial trivial
  have hlast : scan ('1' :: rest) = .number "1" :: scan rest := scan_display hone (endsBefore_of_isBreak _ hrest)
  rw [hsign, hlast] at hfirst
  exact hfirst

theorem Condition.lexable_of_test? {c : Condition} {test : Test} (h : c.test? = some test) :
    ∀ l ∈ test.literals, l.token.Lexable := by
  obtain ⟨id, field, op, value, upper, values⟩ := c
  cases op with
  | oneOf | notOneOf =>
    cases values with
    | nil => cases h
    | cons first rest =>
      cases h
      simp [Test.literals, Value.lexable_written]
  | compare | like | notLike | between | isNull | isNotNull =>
    cases h
    simp [Test.literals, Value.lexable_written]

/-- The text of a condition spells its term. -/
theorem Condition.spells_text {c : Condition} (hfield : isName c.field = true) : Spells c.text c.term.tokens := by
  rw [term]
  cases htest : c.test? with
  | none =>
    rw [text_of_test?_eq_none htest]
    exact spells_always
  | some test =>
    have hname : Spells c.field [.identifier c.field] := spells_display (t := .identifier c.field) hfield
    rw [text_of_test? htest]
    exact hname.separate separates_space (Test.spells_text (lexable_of_test? htest))

theorem Conjunction.tokens_foldl (c : Conjunction) (ts : List Term) :
    (ts.foldl .and c).tokens = c.tokens ++ ts.flatMap fun t => [.keyword .AND] ++ t.tokens := by
  induction ts generalizing c with
  | nil => simp
  | cons t ts ih => simp [ih, Conjunction.tokens]

theorem Disjunction.tokens_foldl (d : Disjunction) (ts : List Term) :
    (ts.foldl (fun d t => .or d (.term t)) d).tokens = d.tokens ++ ts.flatMap fun t => [.keyword .OR] ++ t.tokens := by
  induction ts generalizing d with
  | nil => simp
  | cons t ts ih => simp [ih, Disjunction.tokens, Conjunction.tokens]

/-- Joined texts spell joined terms. -/
theorem Connector.spells_join? (k : Connector) {parts : List String} {ts : List Term}
    (h : List.Forall₂ (fun text t => Spells text (Term.tokens t)) parts ts) :
    Option.Rel (fun text d => Spells text (Disjunction.tokens d)) (k.join? parts) (k.joinTerms? ts) := by
  cases h with
  | nil => cases k <;> exact .none
  | cons hfirst hrest =>
    cases k with
    | and =>
      refine .some ?_
      rw [Disjunction.tokens, Conjunction.tokens_foldl]
      exact Spells.intercalate (separates_keyword .AND) Term.tokens hfirst hrest
    | or =>
      refine .some ?_
      rw [Disjunction.tokens_foldl]
      exact Spells.intercalate (separates_keyword .OR) Term.tokens hfirst hrest

mutual

theorem Filter.spells_text? : ∀ f : Filter, (∀ c ∈ f.conditions, isName c.field = true) →
    Option.Rel (fun text t => Spells text (Term.tokens t)) f.text? f.term?
  | .condition c, hfields => .some (c.spells_text (hfields c (by simp [Filter.conditions])))
  | .group id k children, hfields => by
    have hinner := k.spells_join? (Filters.spells_texts children hfields)
    rw [Filter.text?, Filter.term?]
    generalize k.join? (Filters.texts children) = text at hinner ⊢
    generalize k.joinTerms? (Filters.terms children) = d at hinner ⊢
    cases hinner with
    | none => exact .none
    | some h => exact .some h.parens

theorem Filters.spells_texts : ∀ items : List Filter, (∀ c ∈ Filters.conditions items, isName c.field = true) →
    List.Forall₂ (fun text t => Spells text (Term.tokens t)) (Filters.texts items) (Filters.terms items)
  | [], _ => .nil
  | f :: rest, hfields => by
    have hfirst := Filter.spells_text? f fun c hc => hfields c (by simp [Filters.conditions, hc])
    have hrest := Filters.spells_texts rest fun c hc => hfields c (by simp [Filters.conditions, hc])
    rw [Filters.texts, Filters.terms]
    generalize f.text? = text at hfirst ⊢
    generalize f.term? = t at hfirst ⊢
    cases hfirst with
    | none => exact hrest
    | some h => exact .cons h hrest

end

namespace Query

theorem mem_selectedInOrder {q : Query} {name : String} : name ∈ q.selectedInOrder ↔ name ∈ q.selected.names := by
  simp only [selectedInOrder, List.mem_append, List.mem_filter, ColumnSet.contains_iff]
  constructor
  · rintro (⟨-, h⟩ | ⟨h, -⟩) <;> exact h
  · intro h
    by_cases hordered : name ∈ q.columnOrder
    · exact .inl ⟨hordered, h⟩
    · exact .inr ⟨h, by simp [hordered]⟩

/-- A query that does not show all columns shows some. -/
theorem exists_cons_of_showsAll {q : Query} (h : q.showsAll = false) :
    ∃ first rest, withIdField q.selectedInOrder = first :: rest := by
  have hselected : q.selected.names ≠ [] := by
    intro hnil
    simp [showsAll, hnil] at h
  obtain ⟨name, hname⟩ := List.exists_mem_of_ne_nil _ hselected
  have hne : q.selectedInOrder ≠ [] := List.ne_nil_of_mem (mem_selectedInOrder.mpr hname)
  apply List.exists_cons_of_ne_nil
  unfold withIdField
  split
  · simp
  · exact hne

/-- All columns that a query shows have names. -/
theorem isName_of_mem_withIdField {q : Query} (h : q.Named) {name : String}
    (hname : name ∈ withIdField q.selectedInOrder) : isName name = true := by
  unfold withIdField at hname
  split at hname
  · rcases List.mem_cons.mp hname with rfl | hname
    · decide
    · exact h.columns name (mem_selectedInOrder.mp hname)
  · exact h.columns name (mem_selectedInOrder.mp hname)

private theorem spells_columnText {q : Query} (h : q.Named) : Spells q.columnText q.columnList.tokens := by
  unfold columnText columnList
  by_cases hall : q.showsAll = true
  · rw [if_pos hall, if_pos hall]
    exact spells_display (t := .star) trivial
  · rw [if_neg hall, if_neg hall]
    obtain ⟨first, rest, hcolumns⟩ := exists_cons_of_showsAll (Bool.eq_false_iff.mpr hall)
    have hspells : ∀ name ∈ first :: rest, Spells name [.identifier name] := fun name hname =>
      spells_display (t := .identifier name) (isName_of_mem_withIdField h (hcolumns ▸ hname))
    rw [hcolumns]
    exact Spells.intercalate separates_comma (fun name => [.identifier name]) (hspells first (by simp))
      (List.forall₂_same.mpr fun name hname => hspells name (by simp [hname]))

private theorem spells_orderText {q : Query} (h : q.Named) :
    SpellInParts (if q.sortField = "" then [] else ["ORDER BY " ++ q.sortField ++ " " ++ q.direction.text])
      ((q.rowOrder.map RowOrder.tokens).getD []) := by
  unfold rowOrder
  by_cases hsort : q.sortField = ""
  · rw [if_pos hsort, if_pos hsort]
    exact .nil
  · rw [if_neg hsort, if_neg hsort]
    have hfield : Spells q.sortField [.identifier q.sortField] :=
      spells_display (t := .identifier q.sortField) (h.sortField.resolve_left hsort)
    have hdirection : Spells q.direction.text (RowOrder.directionTokens q.direction) := by
      cases q.direction
      · exact spells_display (t := .keyword .ASC) trivial
      · exact spells_display (t := .keyword .DESC) trivial
    have hhead := ((leads_keyword .ORDER).append (leads_keyword .BY)).append_spells hfield
    exact (hhead.separate separates_space hdirection).inParts

private theorem spells_filterText {q : Query} (h : q.Named) :
    SpellInParts (q.filterText?.map ("WHERE " ++ ·)).toList (Statement.filterTokens q.statement.filter) := by
  have hfilter := q.connector.spells_join? (Filters.spells_texts q.items h.fields)
  rw [filterText?, statement]
  generalize q.connector.join? (Filters.texts q.items) = text at hfilter ⊢
  generalize q.connector.joinTerms? (Filters.terms q.items) = d at hfilter ⊢
  cases hfilter with
  | none => exact .nil
  | some hfilter => exact ((leads_keyword .WHERE).append_spells hfilter).inParts

private theorem spells_limitText (limit : UInt64) :
    SpellInParts (if limit = 0 then [] else ["LIMIT " ++ limit.toNat.repr])
      (Statement.limitTokens (if limit = 0 then none else some limit.toNat.repr)) := by
  by_cases hzero : limit = 0
  · rw [if_pos hzero, if_pos hzero]
    exact .nil
  · rw [if_neg hzero, if_neg hzero]
    have hnumber : Spells limit.toNat.repr [.number limit.toNat.repr] :=
      spells_display (t := .number limit.toNat.repr) (.unsigned (Integer.isUnsigned_repr _))
    exact ((leads_keyword .LIMIT).append_spells hnumber).inParts

/-- The text of a query spells its statement. -/
theorem spells_text {q : Query} (h : q.Named) : Spells q.text q.statement.tokens := by
  have htable : Spells Schema.table [.identifier Schema.table] :=
    spells_display (t := .identifier Schema.table) (by decide : Token.isName Schema.table = true)
  have hselect : Spells ("SELECT " ++ q.columnText ++ " FROM " ++ Schema.table)
      (.keyword .SELECT :: q.columnList.tokens ++ [.keyword .FROM] ++ [.identifier Schema.table]) :=
    ((leads_keyword .SELECT).append_spells (spells_columnText h)).separate (separates_keyword .FROM) htable
  have hrest := ((spells_filterText h).append (spells_orderText h)).append (spells_limitText q.limit)
  have htext := hselect.lines hrest
  simpa [Statement.tokens, statement, clauses, text] using htext

end Query

end

section

variable {P : String → Comparison → Literal → Prop}

theorem Condition.everyComparison_term {c : Condition} (h : c.asksNothing = true → P "1" .eq (.number "1")) :
    c.term.EveryComparison P := by
  rw [term]
  cases htest : c.test? with
  | none => exact h (test?_eq_none.mp htest)
  | some test => trivial

theorem Connector.everyComparison_of_joinTerms? {k : Connector} {ts : List Term} {d : Disjunction}
    (hts : ∀ t ∈ ts, t.EveryComparison P) (h : k.joinTerms? ts = some d) : d.EveryComparison P := by
  refine joinTerms?_induction (P := fun ts d => (∀ t ∈ ts, t.EveryComparison P) → d.EveryComparison P)
    (fun t hts => hts t (by simp)) ?_ ?_ h hts
  · intro _ ts c t _ ih hts
    exact ⟨ih fun t' ht' => hts t' (by simp [ht']), hts t (by simp)⟩
  · intro _ ts d t _ ih hts
    exact ⟨ih fun t' ht' => hts t' (by simp [ht']), hts t (by simp)⟩

mutual

theorem Filter.everyComparison_of_term? : ∀ f : Filter,
    (∀ c ∈ f.conditions, c.asksNothing = true → P "1" .eq (.number "1")) → ∀ t ∈ f.term?, t.EveryComparison P
  | .condition c, hasks, t, ht => by
    cases ht
    exact Condition.everyComparison_term (hasks c (by simp [Filter.conditions]))
  | .group id k children, hasks, t, ht => by
    obtain ⟨d, hd, rfl⟩ := Option.map_eq_some_iff.mp ht
    exact Connector.everyComparison_of_joinTerms? (Filters.everyComparison_of_mem_terms children hasks) hd

theorem Filters.everyComparison_of_mem_terms : ∀ items : List Filter,
    (∀ c ∈ Filters.conditions items, c.asksNothing = true → P "1" .eq (.number "1")) →
      ∀ t ∈ Filters.terms items, t.EveryComparison P
  | [], _, t, ht => by cases ht
  | f :: rest, hasks, t, ht => by
    rcases List.mem_append.mp ht with ht | ht
    · exact Filter.everyComparison_of_term? f (fun c hc => hasks c (by simp [Filters.conditions, hc])) t
        (Option.mem_toList.mp ht)
    · exact Filters.everyComparison_of_mem_terms rest (fun c hc => hasks c (by simp [Filters.conditions, hc])) t ht

end

end

namespace Query

/-- Only for conditions that ask nothing, literals are compared in the statement of a query. -/
theorem everyComparison_statement {P : String → Comparison → Literal → Prop} {q : Query}
    (h : ∀ c ∈ Filters.conditions q.items, c.asksNothing = true → P "1" .eq (.number "1")) :
    q.statement.EveryComparison P := fun _ hd =>
  Connector.everyComparison_of_joinTerms? (Filters.everyComparison_of_mem_terms q.items h) hd

/-- The text of a query whose names can be written is read as its statement. -/
theorem read_text {q : Query} (h : q.Named) (ids : IdSource) :
    read q.text ids = (.ok (q.statement.resolve ids).1, (q.statement.resolve ids).2) := by
  have htokens := (spells_text h).scan_eq
  have htrivial : q.statement.EveryComparison Comparison.Trivial :=
    everyComparison_statement fun _ _ _ => ⟨rfl, rfl⟩
  simp only [read, htokens, Statement.ofTokens_tokens htrivial]

end Query

end SegmentQuery
