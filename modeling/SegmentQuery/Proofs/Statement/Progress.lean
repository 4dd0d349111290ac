import SegmentQuery.Statement.Draft

namespace SegmentQuery

namespace TestDraft

/-- The tokens of a test that has been read in part. -/
def tokens : TestDraft → List Token
  | start => []
  | is => [.keyword .IS]
  | isNot => [.keyword .IS, .keyword .NOT]
  | not => [.keyword .NOT]
  | oneOf negated => Test.negation negated ++ [.keyword .IN]
  | listValue negated values =>
    Test.negation negated ++ [.keyword .IN, .leftParen] ++ values.flatMap fun l => [l.token, .comma]
  | listEnd negated first rest =>
    Test.negation negated ++ [.keyword .IN, .leftParen, first.token] ++ Test.commaTokens rest
  | like negated => Test.negation negated ++ [.keyword .LIKE]
  | between => [.keyword .BETWEEN]
  | betweenAnd low => [.keyword .BETWEEN, low.token]
  | betweenHigh low => [.keyword .BETWEEN, low.token, .keyword .AND]
  | compare c => [.comparison c]

/-- Commas before the values and one at the end are commas behind them and one at the start. -/
private theorem comma_cons_flatMap (values : List Literal) :
    Token.comma :: values.flatMap (fun l => [l.token, .comma]) = Test.commaTokens values ++ [.comma] := by
  induction values with
  | nil => rfl
  | cons l values ih =>
    rw [List.flatMap_cons, List.cons_append, List.cons_append, List.nil_append, ih]
    simp [Test.commaTokens]

theorem tokens_listed (negated : Bool) (l : Literal) (values : List Literal) :
    (listed negated l values).tokens = (listValue negated values).tokens ++ [l.token] := by
  cases values with
  | nil => simp [listed, tokens, Test.commaTokens]
  | cons first rest =>
    simp only [listed, tokens, List.flatMap_cons, List.cons_append, List.nil_append, comma_cons_flatMap]
    simp [Test.commaTokens]

/-- A step of a test adds its token. -/
theorem tokens_of_step? {test : TestDraft} {t : Token} {next : TestDraft ⊕ Test} (h : test.step? t = some next) :
    next.elim tokens Test.tokens = test.tokens ++ [t] := by
  cases test with
  | start | is | isNot | not | oneOf | betweenAnd =>
    simp only [step?] at h
    split at h <;> cases h <;> simp [tokens, Test.tokens, Test.negation]
  | listEnd negated first rest =>
    simp only [step?] at h
    split at h <;> cases h
    · simp [tokens, comma_cons_flatMap]
    · simp [tokens, Test.tokens]
  | listValue negated values =>
    simp only [step?, Option.map_eq_some_iff, Literal.ofToken?_eq_some] at h
    obtain ⟨l, rfl, rfl⟩ := h
    exact tokens_listed negated l values
  | like | between | betweenHigh | compare =>
    simp only [step?, Option.map_eq_some_iff, Literal.ofToken?_eq_some] at h
    obtain ⟨l, rfl, rfl⟩ := h
    simp [tokens, Test.tokens]

end TestDraft

/-- The tokens of a term that has been read in part. -/
def TermDraft.tokens : TermDraft → List Token
  | start => []
  | literal left => [.number left]
  | literals left c => [.number left, .comparison c]
  | condition field test => .identifier field :: test.tokens

namespace DisjunctionDraft

/-- The tokens before the term that is missing. -/
def tokens : DisjunctionDraft → List Token
  | start => []
  | and d => d.tokens ++ [.keyword .AND]
  | or d => d.tokens ++ [.keyword .OR]

/-- The tokens up to the last open parenthesis. -/
def openTokens : List DisjunctionDraft → List Token
  | [] => []
  | d :: outer => openTokens outer ++ d.tokens ++ [.leftParen]

end DisjunctionDraft

theorem Disjunction.tokens_addTerm (t : Term) (d : Disjunction) :
    (d.addTerm t).tokens = d.tokens ++ .keyword .AND :: t.tokens := by
  cases d <;> simp [addTerm, Disjunction.tokens, Conjunction.tokens]

theorem DisjunctionDraft.tokens_fill (t : Term) (d : DisjunctionDraft) : (d.fill t).tokens = d.tokens ++ t.tokens := by
  cases d with
  | start => simp [fill, tokens, Disjunction.tokens, Conjunction.tokens]
  | and d => simp [fill, tokens, Disjunction.tokens_addTerm]
  | or d => simp [fill, tokens, Disjunction.tokens, Conjunction.tokens]

/-- The tokens of a filter that has been read in part. -/
def FilterDraft.tokens : FilterDraft → List Token
  | inTerm outer current term => DisjunctionDraft.openTokens outer ++ current.tokens ++ term.tokens
  | afterTerm outer d => DisjunctionDraft.openTokens outer ++ d.tokens

/-- The tokens of a statement that has been read in part. -/
def Statement.Draft.tokens : Draft → List Token
  | start => []
  | columns => [.keyword .SELECT]
  | column first rest => .keyword .SELECT :: (ColumnList.listed first rest).tokens ++ [.comma]
  | afterColumns cs => .keyword .SELECT :: cs.tokens
  | table cs => .keyword .SELECT :: cs.tokens ++ [.keyword .FROM]
  | afterTable s | afterOrder s | complete s => s.tokens
  | filter s f => s.tokens ++ .keyword .WHERE :: f.tokens
  | order s => s.tokens ++ [.keyword .ORDER]
  | orderField s => s.tokens ++ [.keyword .ORDER, .keyword .BY]
  | afterField s field => s.tokens ++ [.keyword .ORDER, .keyword .BY, .identifier field]
  | limit s => s.tokens ++ [.keyword .LIMIT]

mutual

/-- Every comparison of literals in a term is of a given kind. -/
def Term.EveryComparison (P : String → Comparison → Literal → Prop) : Term → Prop
  | .condition .. => True
  | .literals left c right => P left c right
  | .parens inner => inner.EveryComparison P

def Conjunction.EveryComparison (P : String → Comparison → Literal → Prop) : Conjunction → Prop
  | .term t => t.EveryComparison P
  | .and c t => c.EveryComparison P ∧ t.EveryComparison P

def Disjunction.EveryComparison (P : String → Comparison → Literal → Prop) : Disjunction → Prop
  | .conjunction c => c.EveryComparison P
  | .or d c => d.EveryComparison P ∧ c.EveryComparison P

end

/-- Every comparison of literals in a statement is of a given kind. -/
def Statement.EveryComparison (P : String → Comparison → Literal → Prop) (s : Statement) : Prop :=
  ∀ d ∈ s.filter, d.EveryComparison P

/-- The comparison says that a text equals itself. -/
def Comparison.Trivial (left : String) (c : Comparison) (right : Literal) : Prop := c = .eq ∧ left = right.raw

open Comparison (Trivial)

theorem Disjunction.everyComparison_addTerm {P : String → Comparison → Literal → Prop} {t : Term} {d : Disjunction}
    (ht : t.EveryComparison P) (hd : d.EveryComparison P) : (d.addTerm t).EveryComparison P := by
  cases d with
  | conjunction c => exact ⟨hd, ht⟩
  | or d c => exact ⟨hd.1, hd.2, ht⟩

namespace DisjunctionDraft

def EveryComparison (P : String → Comparison → Literal → Prop) : DisjunctionDraft → Prop
  | start => True
  | and d | or d => d.EveryComparison P

theorem everyComparison_fill {P : String → Comparison → Literal → Prop} {t : Term} {d : DisjunctionDraft}
    (ht : t.EveryComparison P) (hd : d.EveryComparison P) : (d.fill t).EveryComparison P := by
  cases d with
  | start => exact ht
  | and d => exact Disjunction.everyComparison_addTerm ht hd
  | or d => exact ⟨hd, ht⟩

end DisjunctionDraft

def FilterDraft.EveryComparison (P : String → Comparison → Literal → Prop) : FilterDraft → Prop
  | inTerm outer current _ => (∀ d ∈ outer, d.EveryComparison P) ∧ current.EveryComparison P
  | afterTerm outer d => (∀ d ∈ outer, d.EveryComparison P) ∧ d.EveryComparison P

namespace FilterDraft

/-- A step inside a term adds its token, and completes no comparison that could fail. -/
theorem termStep_spec {outer : List DisjunctionDraft} {current : DisjunctionDraft} {term : TermDraft} {t : Token}
    {next : FilterDraft} (htrivial : (inTerm outer current term).EveryComparison Trivial)
    (h : termStep outer current term t = .ok next) :
    next.EveryComparison Trivial ∧ next.tokens = (inTerm outer current term).tokens ++ [t] := by
  obtain ⟨houter, hcurrent⟩ := htrivial
  cases term with
  | start =>
    simp only [termStep] at h
    split at h <;> cases h
    · refine ⟨⟨?_, trivial⟩, by simp [tokens, TermDraft.tokens, DisjunctionDraft.openTokens, DisjunctionDraft.tokens]⟩
      rintro d (_ | ⟨_, hd⟩)
      · exact hcurrent
      · exact houter d hd
    · exact ⟨⟨houter, hcurrent⟩, by simp [tokens, TermDraft.tokens]⟩
    · exact ⟨⟨houter, hcurrent⟩, by simp [tokens, TermDraft.tokens, TestDraft.tokens]⟩
  | literal left =>
    simp only [termStep] at h
    split at h <;> cases h
    exact ⟨⟨houter, hcurrent⟩, by simp [tokens, TermDraft.tokens]⟩
  | literals left c =>
    simp only [termStep] at h
    split at h
    case h_2 => cases h
    case h_1 right hright =>
      rw [Literal.ofToken?_eq_some] at hright
      subst hright
      unfold literals at h
      split at h
      · next hequal =>
        cases h
        exact ⟨⟨houter, DisjunctionDraft.everyComparison_fill hequal hcurrent⟩,
          by simp [tokens, DisjunctionDraft.tokens_fill, TermDraft.tokens, Term.tokens]⟩
      · cases h
  | condition name test =>
    simp only [termStep] at h
    split at h
    · next test' hstep =>
      cases h
      have htokens := TestDraft.tokens_of_step? hstep
      exact ⟨⟨houter, hcurrent⟩, by simp_all [tokens, TermDraft.tokens]⟩
    · next test' hstep =>
      cases h
      have htokens := TestDraft.tokens_of_step? hstep
      refine ⟨⟨houter, DisjunctionDraft.everyComparison_fill trivial hcurrent⟩, ?_⟩
      simp_all [tokens, DisjunctionDraft.tokens_fill, TermDraft.tokens, Term.tokens]
    · cases h

end FilterDraft

namespace Statement

namespace Draft

/-- The clauses that a draft still has to read are empty in its statement, and no comparison in it could fail. -/
def Valid : Draft → Prop
  | afterTable s => s.filter = none ∧ s.order = none ∧ s.limit = none
  | filter s f => s.filter = none ∧ s.order = none ∧ s.limit = none ∧ f.EveryComparison Trivial
  | order s | orderField s | afterField s _ => s.order = none ∧ s.limit = none ∧ s.EveryComparison Trivial
  | afterOrder s | limit s => s.limit = none ∧ s.EveryComparison Trivial
  | complete s => s.EveryComparison Trivial
  | _ => True

private theorem orderStep_spec {s : Statement} {t : Token} {next : Draft}
    (hvalid : s.order = none ∧ s.limit = none ∧ s.EveryComparison Trivial) (h : orderStep s t = .ok next) :
    next.Valid ∧ next.tokens = s.tokens ++ [t] := by
  unfold orderStep at h
  split at h <;> cases h
  · exact ⟨hvalid, rfl⟩
  · exact ⟨hvalid.2, rfl⟩

private theorem limitStep_spec {s : Statement} {t : Token} {next : Draft}
    (hvalid : s.limit = none ∧ s.EveryComparison Trivial) (h : limitStep s t = .ok next) :
    next.Valid ∧ next.tokens = s.tokens ++ [t] := by
  unfold limitStep at h
  split at h <;> cases h
  exact ⟨hvalid, rfl⟩

theorem tokens_withFilter {s : Statement} (d : Disjunction) (hfilter : s.filter = none)
    (horder : s.order = none) (hlimit : s.limit = none) :
    Statement.tokens { s with filter := some d } = s.tokens ++ .keyword .WHERE :: d.tokens := by
  simp [Statement.tokens, filterTokens, hfilter, horder, hlimit, limitTokens]

theorem tokens_withOrder {s : Statement} (field : String) (direction : Option Direction)
    (horder : s.order = none) (hlimit : s.limit = none) :
    Statement.tokens { s with order := some ⟨field, direction⟩ } =
      (afterField s field).tokens ++ RowOrder.directionTokens direction := by
  simp [Statement.tokens, horder, hlimit, limitTokens, tokens, RowOrder.tokens]

private theorem filterStep_spec {s : Statement} {f : FilterDraft} {t : Token} {next : Draft}
    (hvalid : (filter s f).Valid) (h : filterStep s f t = .ok next) :
    next.Valid ∧ next.tokens = (filter s f).tokens ++ [t] := by
  obtain ⟨hfilter, horder, hlimit, htrivial⟩ := hvalid
  cases f with
  | inTerm outer current term =>
    simp only [filterStep] at h
    cases hstep : FilterDraft.termStep outer current term t with
    | error e =>
      rw [hstep] at h
      cases h
    | ok f =>
      rw [hstep] at h
      cases h
      obtain ⟨hnext, htokens⟩ := FilterDraft.termStep_spec htrivial hstep
      exact ⟨⟨hfilter, horder, hlimit, hnext⟩, by simp [tokens, htokens]⟩
  | afterTerm outer d =>
    obtain ⟨houter, hd⟩ := htrivial
    simp only [filterStep] at h
    split at h
    · cases h
      refine ⟨⟨hfilter, horder, hlimit, houter, hd⟩, ?_⟩
      simp [tokens, FilterDraft.tokens, DisjunctionDraft.tokens, TermDraft.tokens]
    · cases h
      refine ⟨⟨hfilter, horder, hlimit, houter, hd⟩, ?_⟩
      simp [tokens, FilterDraft.tokens, DisjunctionDraft.tokens, TermDraft.tokens]
    · cases h
      refine ⟨⟨hfilter, horder, hlimit, fun d hd => houter d (by simp [hd]), ?_⟩, ?_⟩
      · exact DisjunctionDraft.everyComparison_fill hd (houter _ (by simp))
      · simp [tokens, FilterDraft.tokens, DisjunctionDraft.openTokens, DisjunctionDraft.tokens_fill, Term.tokens]
    · cases h
    · have hnext : Statement.EveryComparison Trivial { s with filter := some d } := by
        rintro _ ⟨⟩
        exact hd
      have hspec := orderStep_spec (s := { s with filter := some d }) ⟨horder, hlimit, hnext⟩ h
      rw [tokens_withFilter d hfilter horder hlimit] at hspec
      simpa [tokens, FilterDraft.tokens, DisjunctionDraft.openTokens] using hspec

/-- A step adds the token that it takes, and keeps a draft valid. -/
theorem step_spec {d next : Draft} {t : Token} (hvalid : d.Valid) (h : d.step t = .ok next) :
    next.Valid ∧ next.tokens = d.tokens ++ [t] := by
  cases d with
  | start | columns | column | order | orderField =>
    simp only [step] at h
    split at h <;> cases h <;> exact ⟨hvalid, by simp [tokens, ColumnList.tokens]⟩
  | afterColumns cs =>
    simp only [step] at h
    split at h <;> cases h <;> exact ⟨hvalid, by simp [tokens]⟩
  | table cs =>
    simp only [step] at h
    split at h <;> cases h
    refine ⟨⟨rfl, rfl, rfl⟩, ?_⟩
    simp [tokens, Statement.tokens, base, filterTokens, limitTokens]
  | afterTable s =>
    simp only [step] at h
    split at h
    · cases h
      obtain ⟨hfilter, horder, hlimit⟩ := hvalid
      refine ⟨⟨hfilter, horder, hlimit, by simp, trivial⟩, ?_⟩
      simp [tokens, FilterDraft.tokens, FilterDraft.start, DisjunctionDraft.openTokens, DisjunctionDraft.tokens,
        TermDraft.tokens]
    · exact orderStep_spec ⟨hvalid.2.1, hvalid.2.2, by simp [EveryComparison, hvalid.1]⟩ h
  | filter s f => exact filterStep_spec hvalid h
  | afterField s field =>
    obtain ⟨horder, hlimit, htrivial⟩ := hvalid
    simp only [step] at h
    split at h
    · cases h
      exact ⟨⟨hlimit, htrivial⟩, tokens_withOrder field _ horder hlimit⟩
    · cases h
      exact ⟨⟨hlimit, htrivial⟩, tokens_withOrder field _ horder hlimit⟩
    · have hspec := limitStep_spec (s := { s with order := some ⟨field, none⟩ }) ⟨hlimit, htrivial⟩ h
      rw [tokens_withOrder field none horder hlimit] at hspec
      simpa [RowOrder.directionTokens] using hspec
  | afterOrder s => exact limitStep_spec hvalid h
  | limit s =>
    simp only [step] at h
    split at h <;> cases h
    exact ⟨hvalid.2, by simp [tokens, Statement.tokens, hvalid.1, limitTokens]⟩
  | complete s => cases h

/-- A statement that may end stands for the tokens of its draft. -/
theorem finish?_spec {d : Draft} {s : Statement} (hvalid : d.Valid) (h : d.finish? = some s) :
    s.EveryComparison Trivial ∧ s.tokens = d.tokens := by
  unfold finish? at h
  split at h <;> cases h
  · exact ⟨by simp [EveryComparison, hvalid.1], rfl⟩
  · exact ⟨hvalid.2, rfl⟩
  · exact ⟨hvalid, rfl⟩
  · next s d =>
    obtain ⟨hfilter, horder, hlimit, -, hd⟩ := hvalid
    refine ⟨?_, ?_⟩
    · rintro _ ⟨⟩
      exact hd
    · simp [tokens_withFilter d hfilter horder hlimit, tokens, FilterDraft.tokens, DisjunctionDraft.openTokens]
  · next s field =>
    obtain ⟨horder, hlimit, htrivial⟩ := hvalid
    refine ⟨htrivial, ?_⟩
    rw [tokens_withOrder field none horder hlimit]
    simp [RowOrder.directionTokens]

end Draft

end Statement

end SegmentQuery
