import SegmentQuery.Proofs.Statement.Progress

namespace SegmentQuery

/-- A test that has been read in part is the beginning of a whole one. -/
theorem TestDraft.exists_completion (test : TestDraft) : ∃ (full : Test) (rest : List Token),
    full.tokens = test.tokens ++ rest := by
  have hlist (negated : Bool) (first : Literal) (rest : List Literal) :
      Test.tokens (.oneOf negated first rest) = (listEnd negated first rest).tokens ++ [.rightParen] := rfl
  cases test with
  | start => exact ⟨.isNull false, _, rfl⟩
  | is => exact ⟨.isNull false, _, rfl⟩
  | isNot => exact ⟨.isNull true, _, rfl⟩
  | not => exact ⟨.like true (.text ""), _, rfl⟩
  | oneOf negated =>
    exact ⟨.oneOf negated (.text "") [], [.leftParen, .string "", .rightParen],
      by simp [Test.tokens, tokens, Test.commaTokens, Literal.token]⟩
  | listValue negated values =>
    have hlisted := tokens_listed negated (.text "") values
    cases values with
    | nil => exact ⟨.oneOf negated (.text "") [], _, by rw [hlist, ← listed, hlisted, List.append_assoc]⟩
    | cons first rest =>
      exact ⟨.oneOf negated first (rest ++ [.text ""]), _, by rw [hlist, ← listed, hlisted, List.append_assoc]⟩
  | listEnd negated first rest => exact ⟨.oneOf negated first rest, _, hlist ..⟩
  | like negated => exact ⟨.like negated (.text ""), [.string ""], by simp [Test.tokens, tokens, Literal.token]⟩
  | between => exact ⟨.between (.text "") (.text ""), _, rfl⟩
  | betweenAnd low => exact ⟨.between low (.text ""), _, rfl⟩
  | betweenHigh low => exact ⟨.between low (.text ""), _, rfl⟩
  | compare c => exact ⟨.compare c (.text ""), _, rfl⟩

theorem TermDraft.exists_completion (term : TermDraft) : ∃ (full : Term) (rest : List Token),
    full.tokens = term.tokens ++ rest := by
  cases term with
  | start => exact ⟨.literals "1" .eq (.number "1"), _, rfl⟩
  | literal left => exact ⟨.literals left .eq (.number left), _, rfl⟩
  | literals left c => exact ⟨.literals left c (.number left), _, rfl⟩
  | condition field test =>
    obtain ⟨full, rest, hfull⟩ := test.exists_completion
    exact ⟨.condition field full, rest, by rw [Term.tokens, hfull, tokens, List.cons_append]⟩

/-- The parentheses around a disjunction can be closed. -/
theorem DisjunctionDraft.exists_closed (outer : List DisjunctionDraft) (d : Disjunction) :
    ∃ (full : Disjunction) (rest : List Token), full.tokens = openTokens outer ++ d.tokens ++ rest := by
  induction outer generalizing d with
  | nil => exact ⟨d, [], by simp [openTokens]⟩
  | cons around outer ih =>
    obtain ⟨full, rest, hfull⟩ := ih (around.fill (.parens d))
    refine ⟨full, .rightParen :: rest, ?_⟩
    rw [hfull, tokens_fill, Term.tokens, openTokens]
    simp

theorem FilterDraft.exists_completion (f : FilterDraft) : ∃ (full : Disjunction) (rest : List Token),
    full.tokens = f.tokens ++ rest := by
  cases f with
  | afterTerm outer d => exact DisjunctionDraft.exists_closed outer d
  | inTerm outer current term =>
    obtain ⟨t, inside, ht⟩ := term.exists_completion
    obtain ⟨full, rest, hfull⟩ := DisjunctionDraft.exists_closed outer (current.fill t)
    refine ⟨full, inside ++ rest, ?_⟩
    rw [hfull, DisjunctionDraft.tokens_fill, ht, tokens]
    simp only [List.append_assoc]

namespace Statement

/-- Tokens that a statement begins with. -/
def Begins (ts : List Token) : Prop := ∃ s : Statement, ts <+: s.tokens

theorem begins_of_tokens_eq {ts : List Token} (s : Statement) (rest : List Token) (h : s.tokens = ts ++ rest) :
    Begins ts := ⟨s, rest, h.symm⟩

theorem Begins.of_append {ts : List Token} (rest : List Token) (h : Begins (ts ++ rest)) : Begins ts := by
  obtain ⟨s, hs⟩ := h
  exact ⟨s, (List.prefix_append ts rest).trans hs⟩

namespace Draft

/-- A statement whose filter has been read in part, and no clause behind it, is the beginning of a whole one, whatever
its comparisons are. -/
theorem begins_filter {s : Statement} (f : FilterDraft) (hfilter : s.filter = none) (horder : s.order = none)
    (hlimit : s.limit = none) : Begins (filter s f).tokens := by
  obtain ⟨full, rest, hfull⟩ := f.exists_completion
  refine begins_of_tokens_eq { s with filter := some full } rest ?_
  rw [tokens_withFilter full hfilter horder hlimit, hfull, tokens]
  simp

/-- What a draft holds is the beginning of a statement. -/
theorem begins_tokens {d : Draft} (hvalid : d.Valid) : Begins d.tokens := by
  have htable (cs : ColumnList) :
      (base cs "").tokens = .keyword .SELECT :: cs.tokens ++ [.keyword .FROM, .identifier ""] := by
    simp [Statement.tokens, base, filterTokens, limitTokens]
  have horder (s : Statement) (horder : s.order = none) (hlimit : s.limit = none) (field : String) :
      Begins (s.tokens ++ [.keyword .ORDER, .keyword .BY, .identifier field]) :=
    begins_of_tokens_eq _ _ (tokens_withOrder field none horder hlimit)
  cases d with
  | start => exact begins_of_tokens_eq _ _ (htable .all)
  | columns => exact begins_of_tokens_eq _ _ (htable .all)
  | column first rest =>
    refine begins_of_tokens_eq _ [.identifier "", .keyword .FROM, .identifier ""]
      ((htable (.listed first (rest ++ [""]))).trans ?_)
    simp [tokens, ColumnList.tokens]
  | afterColumns cs => exact begins_of_tokens_eq _ _ (htable cs)
  | table cs => exact begins_of_tokens_eq _ [.identifier ""] (by rw [htable cs]; simp [tokens])
  | afterTable s => exact ⟨s, List.prefix_refl _⟩
  | afterOrder s => exact ⟨s, List.prefix_refl _⟩
  | complete s => exact ⟨s, List.prefix_refl _⟩
  | filter s f => exact begins_filter f hvalid.1 hvalid.2.1 hvalid.2.2.1
  | order s =>
    have hordered := horder s hvalid.1 hvalid.2.1 ""
    exact Begins.of_append [.keyword .BY, .identifier ""] (by simpa [tokens] using hordered)
  | orderField s =>
    have hordered := horder s hvalid.1 hvalid.2.1 ""
    exact Begins.of_append [.identifier ""] (by simpa [tokens] using hordered)
  | afterField s field => exact horder s hvalid.1 hvalid.2.1 field
  | limit s =>
    refine begins_of_tokens_eq { s with limit := some "0" } [.number "0"] ?_
    simp [tokens, Statement.tokens, hvalid.1, limitTokens]

end Draft

end Statement

end SegmentQuery
