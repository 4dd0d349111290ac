import Mathlib.Data.List.Forall2
import SegmentQuery.Proofs.Statement.Progress
import SegmentQuery.Statement.Resolve

namespace SegmentQuery

/-- The same name, or the name of the same field of the schema in other letters. -/
def Schema.SameField (name other : String) : Prop :=
  other = name ∨ Text.sameLetters name other = true ∧ (find? name).isSome = true ∧ find? other = find? name

instance (name other : String) : Decidable (Schema.SameField name other) := inferInstanceAs (Decidable (_ ∨ _))

/-- The same word, or the same truth value in other letters. -/
def Literal.SameFlag (name other : String) : Prop :=
  other = name ∨
    Text.sameLetters name other = true ∧ (Text.sameLetters "TRUE" name = true ∨ Text.sameLetters "FALSE" name = true)

instance (name other : String) : Decidable (Literal.SameFlag name other) := inferInstanceAs (Decidable (_ ∨ _))

/-- What a token is in a statement. -/
inductive Role where
  /-- A token that stands for itself alone. -/
  | fixed (t : Token)
  /-- The name of a column, of the field of a condition or of the field to sort by. -/
  | field (name : String)
  | table (name : String)
  /-- A word that is compared with a boolean field. -/
  | flag (name : String)

namespace Role

def token : Role → Token
  | fixed t => t
  | field name | table name | flag name => .identifier name

/-- A token that may stand in the place of the one with this role. -/
def allows : Role → Token → Bool
  | fixed t, u => u = t
  | field name, .identifier other => Schema.SameField name other
  | table _, .identifier _ => true
  | flag name, .identifier other => Literal.SameFlag name other
  | _, _ => false

/-- Tokens that may stand in the places of those with these roles, each in its own place. -/
def Allow (rs : List Role) (ts : List Token) : Prop := List.Forall₂ (fun r t => r.allows t = true) rs ts

instance (rs : List Role) (ts : List Token) : Decidable (Allow rs ts) :=
  inferInstanceAs (Decidable (List.Forall₂ (fun r t => r.allows t = true) rs ts))

theorem allows_token (r : Role) : r.allows r.token = true := by
  cases r with
  | fixed => exact decide_eq_true rfl
  | field | flag => exact decide_eq_true (.inl rfl)
  | table => rfl

end Role

/-- The role of a literal that a field of the given type is compared with. -/
def Literal.role (type : FieldType) : Literal → Role
  | .word name => if type = .boolean then .flag name else .fixed (.identifier name)
  | l => .fixed l.token

/-- The roles of the tokens of a test on a field of the given type. A pattern stands for itself. -/
def Test.roles (type : FieldType) : Test → List Role
  | isNull negated => (isNull negated).tokens.map .fixed
  | oneOf negated first rest =>
    (negation negated ++ [Token.keyword .IN, .leftParen]).map .fixed ++ [first.role type] ++
      rest.flatMap (fun l => [.fixed .comma, l.role type]) ++ [.fixed .rightParen]
  | like negated pattern => (like negated pattern).tokens.map .fixed
  | between low high => [.fixed (.keyword .BETWEEN), low.role type, .fixed (.keyword .AND), high.role type]
  | compare c value => [.fixed (.comparison c), value.role type]

mutual

def Term.roles : Term → List Role
  | .condition field test => .field field :: test.roles (Schema.typeOf field)
  | .literals left c right => (Term.literals left c right).tokens.map .fixed
  | .parens inner => .fixed .leftParen :: inner.roles ++ [.fixed .rightParen]

def Conjunction.roles : Conjunction → List Role
  | .term t => t.roles
  | .and c t => c.roles ++ .fixed (.keyword .AND) :: t.roles

def Disjunction.roles : Disjunction → List Role
  | .conjunction c => c.roles
  | .or d c => d.roles ++ .fixed (.keyword .OR) :: c.roles

end

def ColumnList.roles : ColumnList → List Role
  | all => [.fixed .star]
  | listed first rest => .field first :: rest.flatMap fun name => [.fixed .comma, .field name]

def RowOrder.roles (o : RowOrder) : List Role :=
  [.fixed (.keyword .ORDER), .fixed (.keyword .BY), .field o.field] ++ (directionTokens o.direction).map .fixed

namespace Statement

def filterRoles : Option Disjunction → List Role
  | none => []
  | some d => .fixed (.keyword .WHERE) :: d.roles

/-- The roles of the tokens of a statement, in their order. -/
def roles (s : Statement) : List Role :=
  .fixed (.keyword .SELECT) :: s.columns.roles ++ [.fixed (.keyword .FROM), .table s.table] ++ filterRoles s.filter ++
    (s.order.map RowOrder.roles).getD [] ++ (limitTokens s.limit).map .fixed

end Statement

theorem Role.map_token_fixed (ts : List Token) : (ts.map Role.fixed).map Role.token = ts := by
  rw [List.map_map]
  exact List.map_id ts

theorem Literal.token_role (type : FieldType) (l : Literal) : (l.role type).token = l.token := by
  cases l with
  | number | text => rfl
  | word name =>
    rw [role]
    split <;> rfl

theorem Test.map_token_roles (type : FieldType) (test : Test) : (test.roles type).map Role.token = test.tokens := by
  cases test with
  | isNull | like => exact Role.map_token_fixed _
  | oneOf negated first rest =>
    have hrest : (rest.flatMap fun l => [Role.fixed .comma, l.role type]).map Role.token = commaTokens rest := by
      simp only [List.map_flatMap, List.map_cons, List.map_nil, Literal.token_role, commaTokens]
      rfl
    rw [roles, List.map_append, List.map_append, List.map_append, Role.map_token_fixed, hrest, List.map_singleton,
      Literal.token_role, List.append_assoc (negation negated)]
    rfl
  | between low high =>
    simp only [roles, List.map_cons, Literal.token_role, List.map_nil]
    rfl
  | compare c value =>
    simp only [roles, List.map_cons, Literal.token_role, List.map_nil]
    rfl

mutual

theorem Term.map_token_roles : ∀ t : Term, t.roles.map Role.token = t.tokens
  | .condition field test => congrArg (Token.identifier field :: ·) (test.map_token_roles _)
  | .literals .. => Role.map_token_fixed _
  | .parens inner => by
    rw [Term.roles, List.map_append, List.map_cons, Disjunction.map_token_roles inner]
    rfl

theorem Conjunction.map_token_roles : ∀ c : Conjunction, c.roles.map Role.token = c.tokens
  | .term t => Term.map_token_roles t
  | .and c t => by
    rw [Conjunction.roles, List.map_append, List.map_cons, Conjunction.map_token_roles c, Term.map_token_roles t]
    rfl

theorem Disjunction.map_token_roles : ∀ d : Disjunction, d.roles.map Role.token = d.tokens
  | .conjunction c => Conjunction.map_token_roles c
  | .or d c => by
    rw [Disjunction.roles, List.map_append, List.map_cons, Disjunction.map_token_roles d, Conjunction.map_token_roles c]
    rfl

end

theorem Statement.map_token_roles (s : Statement) : s.roles.map Role.token = s.tokens := by
  have hcolumns : s.columns.roles.map Role.token = s.columns.tokens := by
    cases s.columns <;> simp [ColumnList.roles, ColumnList.tokens, Role.token, List.map_flatMap]
  have hfilter : (filterRoles s.filter).map Role.token = filterTokens s.filter := by
    cases s.filter with
    | none => rfl
    | some d => exact congrArg (Token.keyword .WHERE :: ·) d.map_token_roles
  have horder : ((s.order.map RowOrder.roles).getD []).map Role.token = (s.order.map RowOrder.tokens).getD [] := by
    cases s.order with
    | none => rfl
    | some o => simp [RowOrder.roles, RowOrder.tokens, Role.token, Function.comp_def]
  simp only [roles, tokens, List.map_append, List.map_cons, hcolumns, hfilter, horder, Role.map_token_fixed]
  rfl

/-- A statement may be spelled as it is. -/
theorem Statement.allow_tokens (s : Statement) : Role.Allow s.roles s.tokens := by
  rw [Role.Allow, ← s.map_token_roles, List.forall₂_map_right_iff, List.forall₂_same]
  exact fun r _ => r.allows_token

theorem Schema.SameField.typeOf_eq {name other : String} (h : SameField name other) : typeOf other = typeOf name := by
  rcases h with rfl | ⟨-, -, hfind⟩
  · rfl
  · rw [typeOf, hfind, typeOf]

theorem Schema.SameField.canonical_eq {name other : String} (h : SameField name other) :
    canonical other = canonical name := by
  rcases h with rfl | ⟨-, hknown, hfind⟩
  · rfl
  · obtain ⟨f, hf⟩ := Option.isSome_iff_exists.mp hknown
    rw [canonical, canonical, hfind, hf, Option.elim_some, Option.elim_some]

theorem Literal.SameFlag.value_eq {name other : String} (h : SameFlag name other) :
    (word other).value .boolean = (word name).value .boolean := by
  rcases h with rfl | ⟨hletters, hflag⟩
  · rfl
  · have hsame (s : String) : Text.sameLetters s other = Text.sameLetters s name := by
      rw [Text.sameLetters, Text.sameLetters, Text.sameLetters_iff.mp hletters]
    rcases hflag with hflag | hflag <;> simp [value, hsame, hflag]

/-- What may stand in the place of a literal is a literal of the same value. -/
theorem Literal.exists_of_allows {type : FieldType} {l : Literal} {t : Token} (h : (l.role type).allows t = true) :
    ∃ l' : Literal, l'.token = t ∧ l'.value type = l.value type := by
  cases l with
  | number digits => exact ⟨.number digits, (of_decide_eq_true h).symm, rfl⟩
  | text content => exact ⟨.text content, (of_decide_eq_true h).symm, rfl⟩
  | word name =>
    rw [role] at h
    split at h
    · next hboolean =>
      subst hboolean
      cases t with
      | identifier other => exact ⟨.word other, rfl, Literal.SameFlag.value_eq (of_decide_eq_true h)⟩
      | _ => cases h
    · exact ⟨.word name, (of_decide_eq_true h).symm, rfl⟩

namespace Role

variable {rs more : List Role} {ts us : List Token}

theorem exists_append (h : Allow (rs ++ more) ts) :
    ∃ us vs, ts = us ++ vs ∧ Allow rs us ∧ Allow more vs := by
  have hfirst := List.forall₂_take rs.length h
  have hrest := List.forall₂_drop rs.length h
  rw [List.take_left] at hfirst
  rw [List.drop_left] at hrest
  exact ⟨_, _, (List.take_append_drop rs.length ts).symm, hfirst, hrest⟩

theorem exists_cons_fixed {t : Token} (h : Allow (fixed t :: more) ts) :
    ∃ vs, ts = t :: vs ∧ Allow more vs := by
  obtain ⟨u, vs, hu, hvs, rfl⟩ := List.forall₂_cons_left_iff.mp h
  exact ⟨vs, congrArg (· :: vs) (of_decide_eq_true hu), hvs⟩

theorem exists_cons_field {name : String} (h : Allow (field name :: more) ts) :
    ∃ other vs, ts = .identifier other :: vs ∧ Schema.SameField name other ∧ Allow more vs := by
  obtain ⟨u, vs, hu, hvs, rfl⟩ := List.forall₂_cons_left_iff.mp h
  cases u with
  | identifier other => exact ⟨other, vs, rfl, of_decide_eq_true hu, hvs⟩
  | _ => cases hu

theorem exists_table {name : String} (h : Allow [table name] ts) :
    ∃ other, ts = [.identifier other] := by
  obtain ⟨u, _, hu, hnil, rfl⟩ := List.forall₂_cons_left_iff.mp h
  rw [List.forall₂_nil_left_iff.mp hnil]
  cases u with
  | identifier other => exact ⟨other, rfl⟩
  | _ => cases hu

theorem eq_of_fixed (h : Allow (us.map fixed) ts) : ts = us := by
  induction us generalizing ts with
  | nil => exact List.forall₂_nil_left_iff.mp h
  | cons u us ih =>
    obtain ⟨vs, rfl, hvs⟩ := exists_cons_fixed h
    rw [ih hvs]

end Role

open Role (exists_append exists_cons_fixed exists_cons_field exists_table eq_of_fixed)

theorem Literal.exists_of_forall₂_role {type : FieldType} {l : Literal} {more : List Role} {ts : List Token}
    (h : Role.Allow (l.role type :: more) ts) : ∃ (l' : Literal) (vs : List Token),
      ts = l'.token :: vs ∧ l'.value type = l.value type ∧ Role.Allow more vs := by
  obtain ⟨u, vs, hu, hvs, rfl⟩ := List.forall₂_cons_left_iff.mp h
  obtain ⟨l', rfl, hvalue⟩ := exists_of_allows hu
  exact ⟨l', vs, rfl, hvalue, hvs⟩

/-- What may stand in the places of listed values are values that count the same. -/
theorem Test.exists_of_commas {type : FieldType} {rest : List Literal} {ts : List Token}
    (h : Role.Allow (rest.flatMap fun l => [.fixed .comma, l.role type]) ts) :
    ∃ rest' : List Literal, commaTokens rest' = ts ∧
      rest'.map (Literal.value type) = rest.map (Literal.value type) := by
  induction rest generalizing ts with
  | nil => exact ⟨[], (List.forall₂_nil_left_iff.mp h).symm, rfl⟩
  | cons l rest ih =>
    obtain ⟨us, rfl, hus⟩ := exists_cons_fixed h
    obtain ⟨l', vs, rfl, hvalue, hvs⟩ := Literal.exists_of_forall₂_role hus
    obtain ⟨rest', rfl, hrest⟩ := ih hvs
    exact ⟨l' :: rest', rfl, by rw [List.map_cons, List.map_cons, hvalue, hrest]⟩

/-- What may stand in the places of a test is a test that makes the same condition of a field of its type. -/
theorem Test.exists_of_allows {type : FieldType} {test : Test} {ts : List Token}
    (h : Role.Allow (test.roles type) ts) : ∃ test' : Test, test'.tokens = ts ∧
      ∀ id field, Schema.typeOf field = type → Condition.ofTest id field test' = .ofTest id field test := by
  cases test with
  | isNull | like => exact ⟨_, (eq_of_fixed h).symm, fun _ _ _ => rfl⟩
  | oneOf negated first rest =>
    obtain ⟨_, _, rfl, hlist, hclose⟩ := exists_append h
    obtain ⟨_, _, rfl, hopened, hothers⟩ := exists_append hlist
    obtain ⟨_, _, rfl, hopening, hfirst⟩ := exists_append hopened
    obtain ⟨first', _, rfl, hvalue, hnil⟩ := Literal.exists_of_forall₂_role hfirst
    obtain ⟨rest', rfl, hrest⟩ := exists_of_commas hothers
    obtain ⟨_, rfl, hend⟩ := exists_cons_fixed hclose
    refine ⟨.oneOf negated first' rest', ?_, fun id field htype => ?_⟩
    · rw [eq_of_fixed hopening, List.forall₂_nil_left_iff.mp hnil, List.forall₂_nil_left_iff.mp hend]
      simp [tokens]
    · subst htype
      simp only [Condition.ofTest, List.map_cons, hvalue, hrest]
  | between low high =>
    obtain ⟨_, rfl, hrange⟩ := exists_cons_fixed h
    obtain ⟨low', _, rfl, hlow, hand⟩ := Literal.exists_of_forall₂_role hrange
    obtain ⟨_, rfl, hend⟩ := exists_cons_fixed hand
    obtain ⟨high', _, rfl, hhigh, hnil⟩ := Literal.exists_of_forall₂_role hend
    refine ⟨.between low' high', by rw [List.forall₂_nil_left_iff.mp hnil, tokens], fun id field htype => ?_⟩
    subst htype
    simp only [Condition.ofTest, hlow, hhigh]
  | compare c value =>
    obtain ⟨_, rfl, hend⟩ := exists_cons_fixed h
    obtain ⟨value', _, rfl, hvalue, hnil⟩ := Literal.exists_of_forall₂_role hend
    refine ⟨.compare c value', by rw [List.forall₂_nil_left_iff.mp hnil, tokens], fun id field htype => ?_⟩
    subst htype
    simp only [Condition.ofTest, hvalue]

theorem Condition.ofTest_of_sameField {field other : String} (h : Schema.SameField field other) (id : UInt64)
    (test : Test) : ofTest id other test = ofTest id field test := by
  simp only [ofTest, h.typeOf_eq, h.canonical_eq]

/-- A term that gives the filters of another one, and compares literals only as that one does. -/
structure Term.ReadsAs (t' t : Term) : Prop where
  filters : ∀ ids, t'.filters ids = t.filters ids
  comparisons : ∀ {P}, t.EveryComparison P → t'.EveryComparison P

structure Conjunction.ReadsAs (c' c : Conjunction) : Prop where
  filters : ∀ ids, c'.filters ids = c.filters ids
  comparisons : ∀ {P}, c.EveryComparison P → c'.EveryComparison P

structure Disjunction.ReadsAs (d' d : Disjunction) : Prop where
  conjunctions : ∀ ids, d'.conjunctions ids = d.conjunctions ids
  comparisons : ∀ {P}, d.EveryComparison P → d'.EveryComparison P

mutual

/-- What may stand in the places of a term is a term that is read as it. -/
theorem Term.exists_of_allows : ∀ (t : Term) {ts : List Token}, Role.Allow t.roles ts →
    ∃ t' : Term, t'.tokens = ts ∧ t'.ReadsAs t
  | .condition field test, ts, h => by
    obtain ⟨other, _, rfl, hfield, htest⟩ := exists_cons_field h
    obtain ⟨test', rfl, hsame⟩ := Test.exists_of_allows htest
    refine ⟨.condition other test', rfl, fun ids => ?_, fun _ => trivial⟩
    rw [Term.filters, Term.filters, hsame _ _ hfield.typeOf_eq, Condition.ofTest_of_sameField hfield]
  | .literals left c right, ts, h => ⟨.literals left c right, (eq_of_fixed h).symm, fun _ => rfl, id⟩
  | .parens inner, ts, h => by
    obtain ⟨_, _, rfl, hopening, hclose⟩ := exists_append h
    obtain ⟨_, rfl, hinner⟩ := exists_cons_fixed hopening
    obtain ⟨_, rfl, hnil⟩ := exists_cons_fixed hclose
    obtain ⟨inner', rfl, hreads⟩ := Disjunction.exists_of_allows inner hinner
    refine ⟨.parens inner', ?_, fun ids => ?_, hreads.comparisons⟩
    · rw [Term.tokens, List.forall₂_nil_left_iff.mp hnil]
    · rw [Term.filters, Term.filters, hreads.conjunctions]

theorem Conjunction.exists_of_allows : ∀ (c : Conjunction) {ts : List Token}, Role.Allow c.roles ts →
    ∃ c' : Conjunction, c'.tokens = ts ∧ c'.ReadsAs c
  | .term t, ts, h => by
    obtain ⟨t', rfl, hreads⟩ := Term.exists_of_allows t h
    exact ⟨.term t', rfl, hreads.filters, hreads.comparisons⟩
  | .and c t, ts, h => by
    obtain ⟨_, _, rfl, hbefore, hand⟩ := exists_append h
    obtain ⟨_, rfl, hlast⟩ := exists_cons_fixed hand
    obtain ⟨c', rfl, hc⟩ := Conjunction.exists_of_allows c hbefore
    obtain ⟨t', rfl, ht⟩ := Term.exists_of_allows t hlast
    refine ⟨.and c' t', rfl, fun ids => ?_, fun hevery => ⟨hc.comparisons hevery.1, ht.comparisons hevery.2⟩⟩
    simp only [Conjunction.filters, hc.filters, ht.filters]

theorem Disjunction.exists_of_allows : ∀ (d : Disjunction) {ts : List Token}, Role.Allow d.roles ts →
    ∃ d' : Disjunction, d'.tokens = ts ∧ d'.ReadsAs d
  | .conjunction c, ts, h => by
    obtain ⟨c', rfl, hreads⟩ := Conjunction.exists_of_allows c h
    refine ⟨.conjunction c', rfl, fun ids => ?_, hreads.comparisons⟩
    simp only [Disjunction.conjunctions, hreads.filters]
  | .or d c, ts, h => by
    obtain ⟨_, _, rfl, hbefore, hor⟩ := exists_append h
    obtain ⟨_, rfl, hlast⟩ := exists_cons_fixed hor
    obtain ⟨d', rfl, hd⟩ := Disjunction.exists_of_allows d hbefore
    obtain ⟨c', rfl, hc⟩ := Conjunction.exists_of_allows c hlast
    refine ⟨.or d' c', rfl, fun ids => ?_, fun hevery => ⟨hd.comparisons hevery.1, hc.comparisons hevery.2⟩⟩
    simp only [Disjunction.conjunctions, hd.conjunctions, hc.filters]

end

namespace Statement

theorem exists_columns_of_allows {cs : ColumnList} {ts : List Token} (h : Role.Allow cs.roles ts) :
    ∃ cs' : ColumnList, cs'.tokens = ts ∧ cs'.names = cs.names := by
  cases cs with
  | all =>
    obtain ⟨_, rfl, hnil⟩ := exists_cons_fixed h
    exact ⟨.all, by rw [ColumnList.tokens, List.forall₂_nil_left_iff.mp hnil], rfl⟩
  | listed first rest =>
    have hothers {rest : List String} {ts : List Token}
        (h : Role.Allow (rest.flatMap fun name => [.fixed .comma, .field name]) ts) :
        ∃ rest' : List String, (rest'.flatMap fun name => [Token.comma, .identifier name]) = ts ∧
          rest'.map Schema.canonical = rest.map Schema.canonical := by
      induction rest generalizing ts with
      | nil => exact ⟨[], (List.forall₂_nil_left_iff.mp h).symm, rfl⟩
      | cons name rest ih =>
        obtain ⟨_, rfl, hnames⟩ := exists_cons_fixed h
        obtain ⟨other, _, rfl, hname, hrest⟩ := exists_cons_field hnames
        obtain ⟨rest', rfl, hsame⟩ := ih hrest
        exact ⟨other :: rest', rfl, by rw [List.map_cons, List.map_cons, hname.canonical_eq, hsame]⟩
    obtain ⟨other, _, rfl, hfirst, hrest⟩ := exists_cons_field h
    obtain ⟨rest', rfl, hsame⟩ := hothers hrest
    refine ⟨.listed other rest', rfl, ?_⟩
    rw [ColumnList.names, ColumnList.names, List.map_cons, List.map_cons, hfirst.canonical_eq, hsame]

theorem exists_filter_of_allows {clause : Option Disjunction} {ts : List Token}
    (h : Role.Allow (filterRoles clause) ts) : ∃ clause' : Option Disjunction,
      filterTokens clause' = ts ∧ Option.Rel Disjunction.ReadsAs clause' clause := by
  cases clause with
  | none => exact ⟨none, (List.forall₂_nil_left_iff.mp h).symm, .none⟩
  | some d =>
    obtain ⟨_, rfl, hd⟩ := exists_cons_fixed h
    obtain ⟨d', rfl, hreads⟩ := d.exists_of_allows hd
    exact ⟨some d', rfl, .some hreads⟩

theorem exists_order_of_allows {order : Option RowOrder} {ts : List Token}
    (h : Role.Allow ((order.map RowOrder.roles).getD []) ts) : ∃ order' : Option RowOrder,
      (order'.map RowOrder.tokens).getD [] = ts ∧
        (order'.map fun o => Schema.canonical o.field) = order.map (fun o => Schema.canonical o.field) ∧
        order'.bind (·.direction) = order.bind (·.direction) := by
  cases order with
  | none => exact ⟨none, (List.forall₂_nil_left_iff.mp h).symm, rfl, rfl⟩
  | some o =>
    obtain ⟨_, _, rfl, horder, hdirection⟩ := exists_append h
    obtain ⟨_, rfl, hby⟩ := exists_cons_fixed horder
    obtain ⟨_, rfl, hname⟩ := exists_cons_fixed hby
    obtain ⟨other, _, rfl, hfield, hnil⟩ := exists_cons_field hname
    refine ⟨some ⟨other, o.direction⟩, ?_, ?_, rfl⟩
    · rw [eq_of_fixed hdirection, List.forall₂_nil_left_iff.mp hnil]
      rfl
    · rw [Option.map_some, Option.map_some, hfield.canonical_eq]

/-- What may stand in the places of a statement is a statement that is resolved to the same query, and compares literals
only as that statement does. -/
theorem exists_of_allows {s : Statement} {ts : List Token} (h : Role.Allow s.roles ts) : ∃ s' : Statement,
    s'.tokens = ts ∧ (∀ ids, s'.resolve ids = s.resolve ids) ∧
      ∀ {P}, s.EveryComparison P → s'.EveryComparison P := by
  obtain ⟨columns, table, clause, order, limit⟩ := s
  obtain ⟨_, _, rfl, hordered, hlimit⟩ := exists_append h
  obtain ⟨_, _, rfl, hfiltered, horder⟩ := exists_append hordered
  obtain ⟨_, _, rfl, hhead, hfilter⟩ := exists_append hfiltered
  obtain ⟨_, _, rfl, hselect, hfrom⟩ := exists_append hhead
  obtain ⟨_, rfl, hcolumns⟩ := exists_cons_fixed hselect
  obtain ⟨columns', rfl, hnames⟩ := exists_columns_of_allows hcolumns
  obtain ⟨_, rfl, htable⟩ := exists_cons_fixed hfrom
  obtain ⟨table', rfl⟩ := exists_table htable
  obtain ⟨clause', rfl, hclause⟩ := exists_filter_of_allows hfilter
  obtain ⟨order', rfl, hsort, hdirection⟩ := exists_order_of_allows horder
  refine ⟨⟨columns', table', clause', order', limit⟩, ?_, fun ids => ?_, fun hevery => ?_⟩
  · rw [eq_of_fixed hlimit]
    simp [tokens]
  · have hjoin : join ⟨columns', table', clause', order', limit⟩ ids =
        join ⟨columns, table, clause, order, limit⟩ ids := by
      cases hclause with
      | none => rfl
      | some hreads => simp only [join, Disjunction.join, hreads.conjunctions]
    simp only [resolve, hjoin, ColumnList.order, hnames, hsort, hdirection]
  · cases hclause with
    | none => simp [EveryComparison]
    | some hreads =>
      intro d hd
      cases hd
      exact hreads.comparisons (hevery _ rfl)

end Statement

end SegmentQuery
