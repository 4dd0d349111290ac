import SegmentQuery.Proofs.Token.Spelling
import SegmentQuery.Statement.Resolve

namespace SegmentQuery

def Test.text : Test → String
  | isNull negated => (Operator.negatedIf negated .isNull .isNotNull).text
  | oneOf negated first rest =>
    (Operator.negatedIf negated .oneOf .notOneOf).text ++ " (" ++
      ", ".intercalate ((first :: rest).map fun l => l.token.display) ++ ")"
  | like negated pattern => (Operator.negatedIf negated .like .notLike).text ++ " " ++ pattern.token.display
  | between low high => "BETWEEN " ++ low.token.display ++ " AND " ++ high.token.display
  | compare c value => c.text ++ " " ++ value.token.display

/-- The literals that a test compares with. -/
def Test.literals : Test → List Literal
  | isNull _ => []
  | oneOf _ first rest => first :: rest
  | like _ pattern => [pattern]
  | between low high => [low, high]
  | compare _ value => [value]

open Token

/-- An operator that a test may negate is one reserved word, or two. -/
private theorem spells_negatedIf (negated : Bool) :
    Spells (Operator.negatedIf negated .isNull .isNotNull).text
        ([.keyword .IS] ++ Test.negation negated ++ [.keyword .NULL]) ∧
      Spells (Operator.negatedIf negated .oneOf .notOneOf).text (Test.negation negated ++ [.keyword .IN]) ∧
      Spells (Operator.negatedIf negated .like .notLike).text (Test.negation negated ++ [.keyword .LIKE]) := by
  have hword (k : Keyword) : Spells k.text [.keyword k] := spells_display (t := .keyword k) trivial
  cases negated with
  | false => exact ⟨(leads_keyword .IS).append_spells (hword .NULL), hword .IN, hword .LIKE⟩
  | true =>
    exact ⟨((leads_keyword .IS).append (leads_keyword .NOT)).append_spells (hword .NULL),
      (leads_keyword .NOT).append_spells (hword .IN), (leads_keyword .NOT).append_spells (hword .LIKE)⟩

/-- The text of a test spells the test. -/
theorem Test.spells_text {test : Test} (h : ∀ l ∈ test.literals, l.token.Lexable) : Spells test.text test.tokens := by
  have hliteral : ∀ l ∈ test.literals, Spells l.token.display [l.token] := fun l hl => spells_display (h l hl)
  cases test with
  | isNull negated => exact (spells_negatedIf negated).1
  | oneOf negated first rest =>
    obtain ⟨hfirst, hrest⟩ := List.forall_mem_cons.mp hliteral
    have hothers : List.Forall₂ (fun text (l : Literal) => Spells text [l.token])
        (rest.map fun l => l.token.display) rest := by
      rw [List.forall₂_map_left_iff, List.forall₂_same]
      exact hrest
    have hlist := Spells.intercalate separates_comma (fun l : Literal => [l.token]) hfirst hothers
    have htext := (((spells_negatedIf negated).2.1.separate separates_leftParen hlist).append separates_rightParen).spells
    simpa [tokens, commaTokens, Test.text] using htext
  | like negated pattern =>
    have hpattern := hliteral pattern (by simp [literals])
    simpa [tokens, Test.text] using (spells_negatedIf negated).2.2.separate separates_space hpattern
  | between low high =>
    have hlow := hliteral low (by simp [literals])
    have hhigh := hliteral high (by simp [literals])
    exact ((leads_keyword .BETWEEN).append_spells hlow).separate (separates_keyword .AND) hhigh
  | compare c value =>
    have hvalue := hliteral value (by simp [literals])
    have hop : Spells c.text [.comparison c] := spells_display (t := .comparison c) trivial
    exact hop.separate separates_space hvalue

end SegmentQuery
