import Mathlib.Algebra.GroupWithZero.Nat
import SegmentQuery.Proofs.Query.Statement

namespace SegmentQuery

/-- A piece of a text that is one token: a token that stands there whatever the values are, or the literal of a value
for a field of the given type under the given operator. -/
inductive Piece where
  | fixed (t : Token)
  | value (type : FieldType) (op : Operator) (value : String)

namespace Piece

/-- The token of a piece. An empty value is an empty string. A value of text is the string itself, between wildcards in
a pattern; any other value is a number. -/
def token : Piece → Token
  | fixed t => t
  | value type op v => (Value.written type op v).token

/-- The value that a piece shows, with its type and its operator. -/
def values : Piece → List (FieldType × Operator × String)
  | fixed _ => []
  | value type op v => [(type, op, v)]

/-- The piece with an empty value, if it shows one. -/
def blank : Piece → Piece
  | fixed t => fixed t
  | value type op _ => value type op ""

/-- Lists of pieces with a token between each and the next. -/
def separated (sep : Token) (parts : List (List Piece)) : List Piece := [fixed sep].intercalate parts

end Piece

def Operator.tokens : Operator → List Token
  | .compare c => [.comparison c]
  | .like => [.keyword .LIKE]
  | .notLike => [.keyword .NOT, .keyword .LIKE]
  | .oneOf => [.keyword .IN]
  | .notOneOf => [.keyword .NOT, .keyword .IN]
  | .between => [.keyword .BETWEEN]
  | .isNull => [.keyword .IS, .keyword .NULL]
  | .isNotNull => [.keyword .IS, .keyword .NOT, .keyword .NULL]

def Connector.token : Connector → Token
  | .and => .keyword .AND
  | .or => .keyword .OR

def Direction.token : Direction → Token
  | .ascending => .keyword .ASC
  | .descending => .keyword .DESC

namespace Condition

/-- The values that the operator of a condition uses. -/
def shownValues (c : Condition) : List String :=
  match c.operator with
  | .isNull | .isNotNull => []
  | .oneOf | .notOneOf => c.values
  | .between => [c.value, c.upper]
  | _ => [c.value]

/-- The pieces of a condition. An empty list of values is a comparison of `1` with itself. -/
def pieces (c : Condition) : List Piece :=
  let value := Piece.value (Schema.typeOf c.field) c.operator
  let test := (.identifier c.field :: c.operator.tokens).map Piece.fixed
  match c.operator with
  | .isNull | .isNotNull => test
  | .oneOf | .notOneOf =>
    if c.values.isEmpty then [.fixed (.number "1"), .fixed (.comparison .eq), .fixed (.number "1")]
    else
      test ++ [.fixed .leftParen] ++ Piece.separated .comma (c.values.map fun v => [value v]) ++ [.fixed .rightParen]
  | .between => test ++ [value c.value, .fixed (.keyword .AND), value c.upper]
  | _ => test ++ [value c.value]

/-- Writes a list in parentheses. -/
def showsList (c : Condition) : Bool := c.operator.isList && !c.values.isEmpty

end Condition

mutual

/-- The pieces of a filter with conditions: a group stands between parentheses. -/
def Filter.pieces : Filter → List Piece
  | .condition c => c.pieces
  | .group _ k children =>
    [.fixed .leftParen] ++ Piece.separated k.token (Filters.parts children) ++ [.fixed .rightParen]

/-- The pieces of each filter that has conditions. -/
def Filters.parts : List Filter → List (List Piece)
  | [] => []
  | f :: rest => if f.conditions = [] then Filters.parts rest else f.pieces :: Filters.parts rest

end

mutual

/-- The number of groups with conditions. Inside a group without conditions there is none. -/
def Filter.groupCount : Filter → Nat
  | .condition _ => 0
  | .group _ _ children => if Filters.conditions children = [] then 0 else 1 + Filters.groupCount children

def Filters.groupCount : List Filter → Nat
  | [] => 0
  | f :: rest => f.groupCount + Filters.groupCount rest

end

namespace Query

/-- The tokens of the columns that a query shows. -/
def columnTokens (q : Query) : List Token :=
  if q.showsAll then [.star]
  else [Token.comma].intercalate ((withIdField q.selectedInOrder).map fun name => [.identifier name])

def selectTokens (q : Query) : List Token :=
  .keyword .SELECT :: q.columnTokens ++ [.keyword .FROM, .identifier Schema.table]

def filterPieces (q : Query) : List Piece :=
  if Filters.conditions q.items = [] then []
  else .fixed (.keyword .WHERE) :: Piece.separated q.connector.token (Filters.parts q.items)

def orderTokens (q : Query) : List Token :=
  if q.sortField = "" then [] else [.keyword .ORDER, .keyword .BY, .identifier q.sortField, q.direction.token]

def limitTokens (q : Query) : List Token :=
  if q.limit = 0 then [] else [.keyword .LIMIT, .number q.limit.toNat.repr]

/-- The pieces of a query, clause by clause. -/
def pieces (q : Query) : List Piece :=
  q.selectTokens.map .fixed ++ q.filterPieces ++ (q.orderTokens ++ q.limitTokens).map .fixed

end Query

theorem Filters.parts_of_conditions_eq_nil {items : List Filter} (h : conditions items = []) : parts items = [] := by
  induction items with
  | nil => rfl
  | cons f rest ih =>
    rw [conditions, List.append_eq_nil_iff] at h
    rw [parts, if_pos h.1, ih h.2]

private theorem intercalate_cons {α : Type} (sep first : List α) (rest : List (List α)) :
    sep.intercalate (first :: rest) = first ++ rest.flatMap fun part => sep ++ part := by
  induction rest generalizing first with
  | nil => simp
  | cons second rest ih => rw [List.intercalate_cons_cons, ih, List.flatMap_cons, List.append_assoc, List.append_assoc]

namespace Piece

variable {α : Type}

theorem map_separated (f : Piece → α) (sep : Token) (parts : List (List Piece)) :
    (separated sep parts).map f = [f (fixed sep)].intercalate (parts.map (List.map f)) := by
  cases parts with
  | nil => rfl
  | cons first rest => simp [separated, intercalate_cons, List.map_flatMap, List.flatMap_map]

/-- The separators do not count for a map to lists that drops them. -/
theorem flatMap_separated {f : Piece → List α} {sep : Token} (hsep : f (fixed sep) = []) (parts : List (List Piece)) :
    (separated sep parts).flatMap f = parts.flatMap (List.flatMap f) := by
  cases parts with
  | nil => rfl
  | cons first rest => simp [separated, intercalate_cons, List.flatMap_assoc, hsep]

theorem countP_separated {f : Piece → Bool} {sep : Token} (hsep : f (fixed sep) = false) (parts : List (List Piece)) :
    (separated sep parts).countP f = (parts.map (List.countP f)).sum := by
  cases parts with
  | nil => rfl
  | cons first rest => simp [separated, intercalate_cons, List.countP_flatMap, Function.comp_def, hsep]

end Piece

theorem Condition.tokens_term (c : Condition) : c.term.tokens = c.pieces.map Piece.token := by
  obtain ⟨id, field, op, value, upper, values⟩ := c
  have hlist (op : Operator) (first : String) (rest : List String) :
      (Value.written (Schema.typeOf field) op first).token ::
          Test.commaTokens (rest.map (Value.written (Schema.typeOf field) op)) =
        (Piece.separated .comma ((first :: rest).map fun v => [.value (Schema.typeOf field) op v])).map
          Piece.token := by
    simp [Piece.map_separated, intercalate_cons, Test.commaTokens, List.flatMap_map, Piece.token]
  cases op with
  | oneOf =>
    cases values with
    | nil => rfl
    | cons first rest =>
      simp only [pieces, List.isEmpty_cons, Bool.false_eq_true, if_false, List.map_append, ← hlist]
      rfl
  | notOneOf =>
    cases values with
    | nil => rfl
    | cons first rest =>
      simp only [pieces, List.isEmpty_cons, Bool.false_eq_true, if_false, List.map_append, ← hlist]
      rfl
  | _ => rfl

/-- Joined terms have the tokens of their pieces, with the connector between them. -/
theorem Connector.tokens_of_joinTerms? {k : Connector} {ts : List Term} {d : Disjunction} {parts : List (List Piece)}
    (h : k.joinTerms? ts = some d) (hparts : ts.map Term.tokens = parts.map (List.map Piece.token)) :
    d.tokens = (Piece.separated k.token parts).map Piece.token := by
  rw [Piece.map_separated, ← hparts]
  cases ts with
  | nil => cases k <;> cases h
  | cons first rest =>
    rw [List.map_cons, intercalate_cons, List.flatMap_map]
    cases k with
    | and =>
      cases h
      rw [Disjunction.tokens, Conjunction.tokens_foldl]
      rfl
    | or =>
      cases h
      rw [Disjunction.tokens_foldl]
      rfl

mutual

theorem Filter.tokens_term? : ∀ f : Filter,
    f.term?.toList.map Term.tokens = if f.conditions = [] then [] else [f.pieces.map Piece.token]
  | .condition c => by
    rw [if_neg (by simp [Filter.conditions])]
    exact congrArg List.singleton c.tokens_term
  | .group id k children => by
    rw [Filter.term?, Filter.conditions]
    cases hd : k.joinTerms? (Filters.terms children) with
    | none =>
      rw [if_pos (Filters.joinTerms?_eq_none.mp hd)]
      rfl
    | some d =>
      have hne : Filters.conditions children ≠ [] := fun hnil => by
        rw [Filters.joinTerms?_eq_none.mpr hnil] at hd
        cases hd
      rw [if_neg hne, Filter.pieces, List.map_append, List.map_append,
        ← Connector.tokens_of_joinTerms? hd (Filters.tokens_terms children)]
      rfl

theorem Filters.tokens_terms : ∀ items : List Filter,
    (Filters.terms items).map Term.tokens = (Filters.parts items).map (List.map Piece.token)
  | [] => rfl
  | f :: rest => by
    rw [Filters.terms, Filters.parts, List.map_append, Filter.tokens_term? f, Filters.tokens_terms rest]
    split <;> rfl

end

namespace Query

variable {q : Query}

theorem map_token_pieces (q : Query) : q.pieces.map Piece.token =
    q.selectTokens ++ q.filterPieces.map Piece.token ++ (q.orderTokens ++ q.limitTokens) := by
  have hfixed (ts : List Token) : (ts.map Piece.fixed).map Piece.token = ts := by simp [Function.comp_def, Piece.token]
  rw [pieces, List.map_append, List.map_append, hfixed, hfixed]

theorem tokens_columnList (q : Query) : q.columnList.tokens = q.columnTokens := by
  unfold columnList columnTokens
  by_cases hall : q.showsAll = true
  · rw [if_pos hall, if_pos hall]
    rfl
  · obtain ⟨first, rest, hcolumns⟩ := exists_cons_of_showsAll (Bool.eq_false_iff.mpr hall)
    rw [if_neg hall, if_neg hall, hcolumns, List.map_cons, intercalate_cons, List.flatMap_map]
    rfl

theorem filterTokens_statement (q : Query) :
    Statement.filterTokens q.statement.filter = q.filterPieces.map Piece.token := by
  rw [statement, filterPieces]
  cases hd : q.connector.joinTerms? (Filters.terms q.items) with
  | none =>
    rw [if_pos (Filters.joinTerms?_eq_none.mp hd)]
    rfl
  | some d =>
    have hne : Filters.conditions q.items ≠ [] := fun hnil => by
      rw [Filters.joinTerms?_eq_none.mpr hnil] at hd
      cases hd
    rw [if_neg hne, List.map_cons, ← Connector.tokens_of_joinTerms? hd (Filters.tokens_terms q.items)]
    rfl

theorem orderTokens_statement (q : Query) : (q.statement.order.map RowOrder.tokens).getD [] = q.orderTokens := by
  rw [statement, rowOrder, orderTokens]
  by_cases hsort : q.sortField = ""
  · rw [if_pos hsort, if_pos hsort]
    rfl
  · rw [if_neg hsort, if_neg hsort]
    cases hdirection : q.direction <;> rfl

theorem limitTokens_statement (q : Query) : Statement.limitTokens q.statement.limit = q.limitTokens := by
  rw [statement, limitTokens]
  by_cases hzero : q.limit = 0
  · rw [if_pos hzero, if_pos hzero]
    rfl
  · rw [if_neg hzero, if_neg hzero]
    rfl

/-- The statement of a query has the tokens of its pieces. -/
theorem tokens_statement (q : Query) : q.statement.tokens = q.pieces.map Piece.token := by
  have hselect : .keyword .SELECT :: q.statement.columns.tokens ++ [.keyword .FROM, .identifier q.statement.table] =
      q.selectTokens := by
    rw [selectTokens, ← tokens_columnList]
    rfl
  rw [Statement.tokens, filterTokens_statement, orderTokens_statement, limitTokens_statement, hselect, map_token_pieces,
    List.append_assoc _ _ q.limitTokens]

end Query

theorem Condition.values_pieces (c : Condition) :
    c.pieces.flatMap Piece.values = c.shownValues.map fun v => (Schema.typeOf c.field, c.operator, v) := by
  obtain ⟨id, field, op, value, upper, values⟩ := c
  have hlist (op : Operator) :
      (Piece.separated .comma (values.map fun v => [.value (Schema.typeOf field) op v])).flatMap Piece.values =
        values.map fun v => (Schema.typeOf field, op, v) := by
    rw [Piece.flatMap_separated rfl, List.flatMap_map, List.map_eq_flatMap]
    rfl
  cases op with
  | oneOf | notOneOf =>
    cases values with
    | nil => rfl
    | cons first rest =>
      simp only [pieces, List.isEmpty_cons, Bool.false_eq_true, if_false, List.flatMap_append, hlist]
      simp [Piece.values, Operator.tokens, shownValues]
  | _ => rfl

mutual

/-- The values of the pieces of a filter are those that its conditions show. -/
theorem Filter.values_pieces : ∀ f : Filter, f.pieces.flatMap Piece.values =
    f.conditions.flatMap fun c => c.shownValues.map fun v => (Schema.typeOf c.field, c.operator, v)
  | .condition c => by
    rw [Filter.pieces, c.values_pieces, Filter.conditions, List.flatMap_singleton]
  | .group id k children => by
    rw [Filter.pieces, List.flatMap_append, List.flatMap_append, Piece.flatMap_separated rfl,
      Filters.values_parts children]
    simp [Piece.values, Filter.conditions]

theorem Filters.values_parts : ∀ items : List Filter, (Filters.parts items).flatMap (List.flatMap Piece.values) =
    (Filters.conditions items).flatMap fun c => c.shownValues.map fun v => (Schema.typeOf c.field, c.operator, v)
  | [] => rfl
  | f :: rest => by
    rw [Filters.parts, Filters.conditions, List.flatMap_append, ← Filters.values_parts rest, ← Filter.values_pieces f]
    by_cases hf : f.conditions = []
    · rw [if_pos hf, Filter.values_pieces f, hf]
      rfl
    · rw [if_neg hf]
      rfl

end

namespace Condition

/-- The condition without its id and with empty values, as many as it has. -/
def blank (c : Condition) : Condition :=
  { c with id := 0, value := "", upper := "", values := c.values.map fun _ => "" }

theorem pieces_blank (c : Condition) : c.blank.pieces = c.pieces.map Piece.blank := by
  obtain ⟨id, field, op, value, upper, values⟩ := c
  cases op with
  | oneOf | notOneOf =>
    cases values with
    | nil => rfl
    | cons first rest =>
      simp only [pieces, blank, List.map_cons, List.isEmpty_cons, Bool.false_eq_true, if_false, List.map_append,
        Piece.map_separated, List.map_map]
      rfl
  | _ => rfl

end Condition

mutual

/-- The filter without ids and with empty values. -/
def Filter.blank : Filter → Filter
  | .condition c => .condition c.blank
  | .group _ k children => .group 0 k (Filters.blank children)

def Filters.blank : List Filter → List Filter
  | [] => []
  | f :: rest => f.blank :: Filters.blank rest

end

mutual

theorem Filter.conditions_blank : ∀ f : Filter, f.blank.conditions = f.conditions.map Condition.blank
  | .condition _ => rfl
  | .group _ _ children => Filters.conditions_blank children

theorem Filters.conditions_blank : ∀ items : List Filter,
    Filters.conditions (Filters.blank items) = (Filters.conditions items).map Condition.blank
  | [] => rfl
  | f :: rest => by
    rw [Filters.blank, Filters.conditions, Filters.conditions, List.map_append, Filter.conditions_blank f,
      Filters.conditions_blank rest]

end

mutual

theorem Filter.pieces_blank : ∀ f : Filter, f.blank.pieces = f.pieces.map Piece.blank
  | .condition c => c.pieces_blank
  | .group id k children => by
    rw [Filter.blank, Filter.pieces, Filters.parts_blank children, Filter.pieces, List.map_append, List.map_append,
      Piece.map_separated]
    rfl

theorem Filters.parts_blank : ∀ items : List Filter,
    Filters.parts (Filters.blank items) = (Filters.parts items).map (List.map Piece.blank)
  | [] => rfl
  | f :: rest => by
    rw [Filters.blank, Filters.parts, Filters.parts, Filter.conditions_blank, Filter.pieces_blank f,
      Filters.parts_blank rest]
    by_cases hf : f.conditions = []
    · rw [if_pos hf, if_pos (List.map_eq_nil_iff.mpr hf)]
    · rw [if_neg hf, if_neg (mt List.map_eq_nil_iff.mp hf), List.map_cons]

end

namespace Query

/-- The query without ids and with empty values: the shape of its filters, with their fields, their operators and the
lengths of their lists, and its other clauses. -/
def blank (q : Query) : Query := { q with items := Filters.blank q.items }

theorem pieces_blank (q : Query) : q.blank.pieces = q.pieces.map Piece.blank := by
  have hfixed (ts : List Token) : (ts.map Piece.fixed).map Piece.blank = ts.map Piece.fixed := by
    rw [List.map_map]
    rfl
  have hfilter : q.blank.filterPieces = q.filterPieces.map Piece.blank := by
    rw [filterPieces, filterPieces, blank, Filters.conditions_blank, Filters.parts_blank]
    by_cases hq : Filters.conditions q.items = []
    · rw [if_pos hq, if_pos (List.map_eq_nil_iff.mpr hq)]
      rfl
    · rw [if_neg hq, if_neg (mt List.map_eq_nil_iff.mp hq), List.map_cons, Piece.map_separated]
      rfl
  simp only [pieces, hfilter, List.map_append, hfixed]
  rfl

end Query

section

variable {paren : Token}

/-- A parenthesis is no literal and joins nothing. -/
private theorem token_ne_paren (hparen : paren = .leftParen ∨ paren = .rightParen) :
    (∀ l : Literal, l.token ≠ paren) ∧ ∀ k : Connector, k.token ≠ paren := by
  refine ⟨fun l => ?_, fun k => ?_⟩
  · rcases hparen with rfl | rfl <;> cases l <;> simp [Literal.token]
  · rcases hparen with rfl | rfl <;> cases k <;> simp [Connector.token]

theorem Condition.countP_pieces (hparen : paren = .leftParen ∨ paren = .rightParen) (c : Condition) :
    c.pieces.countP (fun p => p.token == paren) = if c.showsList then 1 else 0 := by
  obtain ⟨id, field, op, value, upper, values⟩ := c
  obtain ⟨hliteral, -⟩ := token_ne_paren hparen
  have hlist (op : Operator) :
      (Piece.separated .comma (values.map fun v => [.value (Schema.typeOf field) op v])).countP
        (fun p => p.token == paren) = 0 := by
    have hcomma : ((Piece.fixed .comma).token == paren) = false := by rcases hparen with rfl | rfl <;> rfl
    rw [Piece.countP_separated hcomma, List.map_map]
    simp [Function.comp_def, Piece.token, hliteral]
  cases op with
  | oneOf | notOneOf =>
    cases values with
    | nil => rcases hparen with rfl | rfl <;> rfl
    | cons first rest =>
      simp only [pieces, List.isEmpty_cons, Bool.false_eq_true, if_false, List.countP_append, hlist]
      rcases hparen with rfl | rfl <;> rfl
  | compare | like | notLike | between =>
    rcases hparen with rfl | rfl <;>
      simp [pieces, Operator.tokens, showsList, Operator.isList, Piece.token, hliteral]
  | isNull | isNotNull => rcases hparen with rfl | rfl <;> rfl

mutual

/-- The parentheses of a filter are those of its groups and of its lists. -/
theorem Filter.countP_pieces (hparen : paren = .leftParen ∨ paren = .rightParen) : ∀ f : Filter, f.conditions ≠ [] →
    f.pieces.countP (fun p => p.token == paren) = f.groupCount + f.conditions.countP Condition.showsList
  | .condition c, _ => by
    rw [Filter.pieces, Condition.countP_pieces hparen, Filter.groupCount, Filter.conditions, List.countP_singleton,
      Nat.zero_add]
  | .group id k children, hne => by
    have hsep : ((Piece.fixed k.token).token == paren) = false := by
      simpa [Piece.token] using (token_ne_paren hparen).2 k
    have hends : [Piece.fixed .leftParen].countP (fun p => p.token == paren) +
        [Piece.fixed .rightParen].countP (fun p => p.token == paren) = 1 := by
      rcases hparen with rfl | rfl <;> rfl
    rw [Filter.conditions] at hne ⊢
    rw [Filter.pieces, List.countP_append, List.countP_append, Piece.countP_separated hsep,
      Filters.sum_countP_parts hparen children, Filter.groupCount, if_neg hne]
    omega

theorem Filters.sum_countP_parts (hparen : paren = .leftParen ∨ paren = .rightParen) : ∀ items : List Filter,
    ((Filters.parts items).map (List.countP fun p => p.token == paren)).sum =
      Filters.groupCount items + (Filters.conditions items).countP Condition.showsList
  | [] => rfl
  | f :: rest => by
    rw [Filters.parts, Filters.groupCount, Filters.conditions, List.countP_append]
    by_cases hf : f.conditions = []
    · have hgroups : f.groupCount = 0 := by
        cases f with
        | condition => simp [Filter.conditions] at hf
        | group => exact if_pos hf
      rw [if_pos hf, Filters.sum_countP_parts hparen rest, hf, hgroups, List.countP_nil]
      omega
    · rw [if_neg hf, List.map_cons, List.sum_cons, Filters.sum_countP_parts hparen rest,
        Filter.countP_pieces hparen f hf]
      omega

end

end

namespace Query

/-- A column list is made of names and commas, or is a star. -/
theorem of_mem_columnTokens {q : Query} {t : Token} (ht : t ∈ q.columnTokens) :
    t = .star ∨ t = .comma ∨ ∃ name, t = .identifier name := by
  unfold columnTokens at ht
  split at ht
  · exact .inl (List.mem_singleton.mp ht)
  · cases hnames : withIdField q.selectedInOrder with
    | nil => simp [hnames] at ht
    | cons first rest =>
      rw [hnames, List.map_cons, intercalate_cons] at ht
      simp only [List.mem_append, List.mem_singleton, List.mem_flatMap, List.mem_map] at ht
      obtain rfl | ⟨_, ⟨name, -, rfl⟩, rfl | hname⟩ := ht
      · exact .inr (.inr ⟨first, rfl⟩)
      · exact .inr (.inl rfl)
      · exact .inr (.inr ⟨name, List.mem_singleton.mp hname⟩)

/-- Outside of the filter of a query there is no parenthesis and no `WHERE`. -/
theorem plain_of_mem {q : Query} {t : Token} (ht : t ∈ q.selectTokens ++ (q.orderTokens ++ q.limitTokens)) :
    t ≠ .leftParen ∧ t ≠ .rightParen ∧ t ≠ .keyword .WHERE := by
  rcases List.mem_append.mp ht with ht | ht
  · simp only [selectTokens, List.mem_append, List.mem_cons, List.not_mem_nil, or_false] at ht
    obtain (rfl | ht) | rfl | rfl := ht
    · decide
    · obtain rfl | rfl | ⟨name, rfl⟩ := of_mem_columnTokens ht <;> simp
    · decide
    · simp
  · rcases List.mem_append.mp ht with ht | ht
    · unfold orderTokens at ht
      split at ht
      · cases ht
      · simp only [List.mem_cons, List.not_mem_nil, or_false] at ht
        obtain rfl | rfl | rfl | rfl := ht
        · decide
        · decide
        · simp
        · cases q.direction <;> decide
    · unfold limitTokens at ht
      split at ht
      · cases ht
      · simp only [List.mem_cons, List.not_mem_nil, or_false] at ht
        obtain rfl | rfl := ht
        · decide
        · simp

end Query

/-- The same value, or another text for a text; neither is empty. -/
def Value.Alike (type : FieldType) (v v' : String) : Prop :=
  v = v' ∨ (type = .text ∨ type = .enumerable) ∧ v ≠ "" ∧ v' ≠ ""

/-- Two conditions that differ in nothing but texts that are not empty. -/
def Condition.Alike (c c' : Condition) : Prop :=
  c.blank = c'.blank ∧ List.Forall₂ (Value.Alike (Schema.typeOf c.field)) (c.value :: c.upper :: c.values)
    (c'.value :: c'.upper :: c'.values)

/-- Two queries that differ in nothing but texts that are not empty. -/
def Query.Alike (q q' : Query) : Prop :=
  q.blank = q'.blank ∧ List.Forall₂ Condition.Alike (Filters.conditions q.items) (Filters.conditions q'.items)

/-- The same token, or another string for a string. -/
def Token.Alike (t t' : Token) : Prop := t = t' ∨ ∃ s s', t = .string s ∧ t' = .string s'

theorem Value.Alike.token {type : FieldType} {v v' : String} (h : Value.Alike type v v') (op : Operator) :
    Token.Alike (Value.written type op v).token (Value.written type op v').token := by
  obtain rfl | ⟨rfl | rfl, hv, hv'⟩ := h
  · exact .inl rfl
  · rw [Value.written, Value.written, if_neg hv, if_neg hv']
    exact .inr ⟨_, _, rfl, rfl⟩
  · rw [Value.written, Value.written, if_neg hv, if_neg hv']
    exact .inr ⟨_, _, rfl, rfl⟩

/-- What two pieces show, under the same operator for fields of the same type. -/
def Piece.AlikeValues : FieldType × Operator × String → FieldType × Operator × String → Prop
  | (type, op, v), (type', op', v') => type = type' ∧ op = op' ∧ Value.Alike type v v'

theorem Condition.Alike.shownValues {c c' : Condition} (h : c.Alike c') :
    List.Forall₂ Piece.AlikeValues (c.shownValues.map fun v => (Schema.typeOf c.field, c.operator, v))
      (c'.shownValues.map fun v => (Schema.typeOf c'.field, c'.operator, v)) := by
  obtain ⟨hblank, hvalues⟩ := h
  have hfield : c.blank.field = c'.blank.field := congrArg Condition.field hblank
  have hop : c.blank.operator = c'.blank.operator := congrArg Condition.operator hblank
  rw [Condition.blank, Condition.blank] at hfield hop
  obtain ⟨hvalue, hvalues⟩ := List.forall₂_cons.mp hvalues
  obtain ⟨hupper, hvalues⟩ := List.forall₂_cons.mp hvalues
  have hshown : List.Forall₂ (Value.Alike (Schema.typeOf c.field)) c.shownValues c'.shownValues := by
    unfold Condition.shownValues
    rw [← hop]
    cases c.operator with
    | isNull | isNotNull => exact .nil
    | oneOf | notOneOf => exact hvalues
    | between => exact .cons hvalue (.cons hupper .nil)
    | compare | like | notLike => exact .cons hvalue .nil
  rw [List.forall₂_map_left_iff, List.forall₂_map_right_iff, ← hfield, ← hop]
  exact hshown.imp fun v v' hv => ⟨rfl, rfl, hv⟩

/-- Pieces that differ in their values have tokens that differ as the values do. -/
theorem Piece.forall₂_alike {ps ps' : List Piece} (hblank : ps.map blank = ps'.map blank)
    (hvalues : List.Forall₂ AlikeValues (ps.flatMap values) (ps'.flatMap values)) :
    List.Forall₂ Token.Alike (ps.map token) (ps'.map token) := by
  induction ps generalizing ps' with
  | nil =>
    rw [List.map_nil, eq_comm, List.map_eq_nil_iff] at hblank
    subst hblank
    exact .nil
  | cons p ps ih =>
    cases ps' with
    | nil => cases hblank
    | cons p' ps' =>
      obtain ⟨hfirst, hrest⟩ := List.cons.inj hblank
      cases p with
      | fixed t =>
        cases p' with
        | fixed => 
          cases hfirst
          exact .cons (.inl rfl) (ih hrest hvalues)
        | value => cases hfirst
      | value type op v =>
        cases p' with
        | fixed => cases hfirst
        | value type' op' v' =>
          cases hfirst
          obtain ⟨⟨-, -, hv⟩, hvalues⟩ := List.forall₂_cons.mp hvalues
          exact .cons (hv.token op) (ih hrest hvalues)

namespace Query

variable {q : Query}

theorem values_pieces (q : Query) : q.pieces.flatMap Piece.values =
    (Filters.conditions q.items).flatMap fun c =>
      c.shownValues.map fun v => (Schema.typeOf c.field, c.operator, v) := by
  have hfixed (ts : List Token) : (ts.map Piece.fixed).flatMap Piece.values = [] := by
    simp [List.flatMap_map, Piece.values]
  rw [pieces, List.flatMap_append, List.flatMap_append, hfixed, hfixed, filterPieces, List.nil_append, List.append_nil]
  by_cases hq : Filters.conditions q.items = []
  · rw [if_pos hq, hq]
    rfl
  · rw [if_neg hq, List.flatMap_cons, Piece.flatMap_separated rfl, Filters.values_parts]
    rfl

theorem count_paren (q : Query) {paren : Token} (hparen : paren = .leftParen ∨ paren = .rightParen) :
    (q.pieces.map Piece.token).count paren =
      Filters.groupCount q.items + (Filters.conditions q.items).countP Condition.showsList := by
  have hplain : (q.selectTokens ++ (q.orderTokens ++ q.limitTokens)).count paren = 0 := by
    refine List.count_eq_zero.mpr fun hmem => ?_
    obtain ⟨hleft, hright, -⟩ := plain_of_mem hmem
    exact hparen.elim hleft hright
  have hfilter : (q.filterPieces.map Piece.token).count paren =
      ((Filters.parts q.items).map (List.countP fun p => p.token == paren)).sum := by
    have hconnector : ((Piece.fixed q.connector.token).token == paren) = false := by
      simpa [Piece.token] using (token_ne_paren hparen).2 q.connector
    have hwhere : ((Piece.fixed (.keyword .WHERE)).token == paren) = false := by rcases hparen with rfl | rfl <;> rfl
    rw [List.count, List.countP_map, filterPieces]
    by_cases hq : Filters.conditions q.items = []
    · rw [if_pos hq, Filters.parts_of_conditions_eq_nil hq]
      rfl
    · rw [if_neg hq, List.countP_cons_of_neg (by simpa using hwhere)]
      exact Piece.countP_separated hconnector _
  rw [List.count_append] at hplain
  rw [map_token_pieces, List.count_append, List.count_append, hfilter, Filters.sum_countP_parts hparen]
  omega

theorem mem_where (q : Query) : .keyword .WHERE ∈ q.pieces.map Piece.token ↔ Filters.conditions q.items ≠ [] := by
  have hplain : .keyword .WHERE ∉ q.selectTokens ++ (q.orderTokens ++ q.limitTokens) := fun hmem =>
    (plain_of_mem hmem).2.2 rfl
  rw [List.mem_append, not_or] at hplain
  rw [map_token_pieces, filterPieces, List.mem_append, List.mem_append]
  by_cases hq : Filters.conditions q.items = []
  · simp [hq, hplain]
  · simp [hq, Piece.token]

theorem Alike.tokens {q' : Query} (h : q.Alike q') :
    List.Forall₂ Token.Alike (q.pieces.map Piece.token) (q'.pieces.map Piece.token) := by
  obtain ⟨hblank, hconditions⟩ := h
  have hpieces : q.pieces.map Piece.blank = q'.pieces.map Piece.blank := by
    rw [← pieces_blank, ← pieces_blank, hblank]
  refine Piece.forall₂_alike hpieces ?_
  rw [values_pieces, values_pieces]
  exact List.rel_flatMap hconditions fun _ _ hc => hc.shownValues

/-- The text of a query is scanned to the tokens of its pieces. Its pieces show the values that its conditions use, one
after the other, and but for those values they are the same for all queries of its shape. `WHERE` is there if there is
a condition, and the parentheses are those of the groups with conditions and of the lists that are not empty. Other
texts in the place of texts change the contents of strings, and nothing else. -/
theorem scan_text (h : q.Named) :
    let tokens := Token.scan q.text.toList
    tokens = q.pieces.map Piece.token ∧
      q.pieces.flatMap Piece.values = ((Filters.conditions q.items).flatMap fun c =>
        c.shownValues.map fun v => (Schema.typeOf c.field, c.operator, v)) ∧
      (∀ q' : Query, q'.blank = q.blank → q'.pieces.map Piece.blank = q.pieces.map Piece.blank) ∧
      (.keyword .WHERE ∈ tokens ↔ Filters.conditions q.items ≠ []) ∧
      (∀ paren : Token, paren = .leftParen ∨ paren = .rightParen → tokens.count paren =
        Filters.groupCount q.items + (Filters.conditions q.items).countP Condition.showsList) ∧
      ∀ q' : Query, q'.Named → q.Alike q' → List.Forall₂ Token.Alike tokens (Token.scan q'.text.toList) := by
  have hscan {r : Query} (hr : r.Named) : Token.scan r.text.toList = r.pieces.map Piece.token := by
    rw [(spells_text hr).scan_eq, tokens_statement]
  intro tokens
  rw [show tokens = q.pieces.map Piece.token from hscan h]
  refine ⟨rfl, q.values_pieces, fun q' hblank => ?_, q.mem_where, fun paren hparen => q.count_paren hparen,
    fun q' hq' halike => ?_⟩
  · rw [← pieces_blank, ← pieces_blank, hblank]
  · rw [hscan hq']
    exact halike.tokens

/-- Values with quotes, words of the language and signs, in a group beside an empty one. -/
theorem scan_text_of_quotes : Token.scan (text ⟨[], .empty, .and,
      [.group 1 .or [.condition ⟨2, "ItemName", .like, "' OR 1=1 -- ", "", []⟩, .group 3 .and [],
        .condition ⟨4, "ItemType", .oneOf, "", "", ["a'), ('b", ""]⟩],
      .condition ⟨5, "SeasonNumber", .between, "1 OR 2", "", []⟩], "", .ascending, 0⟩).toList =
    [.keyword .SELECT, .star, .keyword .FROM, .identifier "MediaSegments", .keyword .WHERE, .leftParen,
      .identifier "ItemName", .keyword .LIKE, .string "%' OR 1=1 -- %", .keyword .OR, .identifier "ItemType",
      .keyword .IN, .leftParen, .string "a'), ('b", .comma, .string "", .rightParen, .rightParen, .keyword .AND,
      .identifier "SeasonNumber", .keyword .BETWEEN, .number "1", .keyword .AND, .string ""] := by
  have hnamed : Named ⟨[], .empty, .and,
      [.group 1 .or [.condition ⟨2, "ItemName", .like, "' OR 1=1 -- ", "", []⟩, .group 3 .and [],
        .condition ⟨4, "ItemType", .oneOf, "", "", ["a'), ('b", ""]⟩],
      .condition ⟨5, "SeasonNumber", .between, "1 OR 2", "", []⟩], "", .ascending, 0⟩ :=
    ⟨by decide, by decide, .inl rfl⟩
  rw [(scan_text hnamed).1]
  decide

end Query

end SegmentQuery
