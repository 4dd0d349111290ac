import SegmentQuery.Statement.Basic
import SegmentQuery.Statement.Error

namespace SegmentQuery

/-- Why a draft does not take a token. -/
inductive Refusal where
  /-- The token does not belong here. -/
  | misplaced
  /-- The token completes a comparison of literals that does not hold on its face. -/
  | unequalLiterals (left : String) (c : Comparison) (right : String)
  deriving Repr, DecidableEq

/-- A test that has been read in part. -/
inductive TestDraft where
  | start
  | is
  | isNot
  | not
  | oneOf (negated : Bool)
  /-- A list whose next value is missing. -/
  | listValue (negated : Bool) (values : List Literal)
  /-- A list that ends here or goes on with a comma. -/
  | listEnd (negated : Bool) (first : Literal) (rest : List Literal)
  | like (negated : Bool)
  | between
  | betweenAnd (low : Literal)
  | betweenHigh (low : Literal)
  | compare (c : Comparison)
  deriving Repr, DecidableEq

namespace TestDraft

/-- A list with one more value. -/
def listed (negated : Bool) (l : Literal) : List Literal → TestDraft
  | [] => listEnd negated l []
  | first :: rest => listEnd negated first (rest ++ [l])

/-- Takes a token: the test goes on, or it is complete. -/
def step? : TestDraft → Token → Option (TestDraft ⊕ Test)
  | start, t =>
    match t with
    | .keyword .IS => some (.inl is)
    | .keyword .NOT => some (.inl not)
    | .keyword .IN => some (.inl (oneOf false))
    | .keyword .LIKE => some (.inl (like false))
    | .keyword .BETWEEN => some (.inl between)
    | .comparison c => some (.inl (compare c))
    | _ => none
  | is, t =>
    match t with
    | .keyword .NOT => some (.inl isNot)
    | .keyword .NULL => some (.inr (.isNull false))
    | _ => none
  | isNot, t =>
    match t with
    | .keyword .NULL => some (.inr (.isNull true))
    | _ => none
  | not, t =>
    match t with
    | .keyword .IN => some (.inl (oneOf true))
    | .keyword .LIKE => some (.inl (like true))
    | _ => none
  | oneOf negated, t =>
    match t with
    | .leftParen => some (.inl (listValue negated []))
    | _ => none
  | listValue negated values, t => (Literal.ofToken? t).map fun l => .inl (listed negated l values)
  | listEnd negated first rest, t =>
    match t with
    | .comma => some (.inl (listValue negated (first :: rest)))
    | .rightParen => some (.inr (.oneOf negated first rest))
    | _ => none
  | like negated, t => (Literal.ofToken? t).map fun l => .inr (.like negated l)
  | between, t => (Literal.ofToken? t).map fun l => .inl (betweenAnd l)
  | betweenAnd low, t =>
    match t with
    | .keyword .AND => some (.inl (betweenHigh low))
    | _ => none
  | betweenHigh low, t => (Literal.ofToken? t).map fun l => .inr (.between low l)
  | compare c, t => (Literal.ofToken? t).map fun l => .inr (.compare c l)

/-- What is missing in a test. -/
def missing : TestDraft → Expected
  | start => .operator
  | is | isNot => .keyword .NULL
  | not => .inOrLike
  | oneOf _ => .leftParen
  | listEnd .. => .rightParen
  | betweenAnd _ => .keyword .AND
  | listValue .. | like _ | between | betweenHigh _ | compare _ => .value

end TestDraft

/-- A term that has been read in part. -/
inductive TermDraft where
  | start
  | literal (left : String)
  | literals (left : String) (c : Comparison)
  | condition (field : String) (test : TestDraft)
  deriving Repr, DecidableEq

namespace TermDraft

/-- What is missing in a term. -/
def missing : TermDraft → Expected
  | start => .condition
  | literal _ => .comparison
  | literals .. => .value
  | condition _ test => test.missing

end TermDraft

/-- A disjunction whose next term is missing. -/
inductive DisjunctionDraft where
  | start
  | and (d : Disjunction)
  | or (d : Disjunction)

/-- A disjunction with one more term in its last conjunction. -/
def Disjunction.addTerm (t : Term) : Disjunction → Disjunction
  | .conjunction c => .conjunction (c.and t)
  | .or d c => .or d (c.and t)

namespace DisjunctionDraft

/-- Puts a term into the gap. -/
def fill (t : Term) : DisjunctionDraft → Disjunction
  | start => .conjunction (.term t)
  | and d => d.addTerm t
  | or d => d.or (.term t)

end DisjunctionDraft

/-- A filter that has been read in part, with the disjunctions around it whose parentheses are still open, the
innermost first. -/
inductive FilterDraft where
  | inTerm (outer : List DisjunctionDraft) (current : DisjunctionDraft) (term : TermDraft)
  | afterTerm (outer : List DisjunctionDraft) (d : Disjunction)

namespace FilterDraft

/-- A filter of which nothing has been read. -/
def start : FilterDraft := inTerm [] .start .start

/-- Two literals compare only if they are equal and the comparison says so. -/
def literals (left : String) (c : Comparison) (right : Literal) : Except Refusal Term :=
  if c = .eq ∧ left = right.raw then .ok (.literals left c right)
  else .error (.unequalLiterals left c right.raw)

/-- Takes a token inside a term. -/
def termStep (outer : List DisjunctionDraft) (current : DisjunctionDraft) :
    TermDraft → Token → Except Refusal FilterDraft
  | .start, t =>
    match t with
    | .leftParen => .ok (inTerm (current :: outer) .start .start)
    | .number digits => .ok (inTerm outer current (.literal digits))
    | .identifier name => .ok (inTerm outer current (.condition name .start))
    | _ => .error .misplaced
  | .literal left, t =>
    match t with
    | .comparison c => .ok (inTerm outer current (.literals left c))
    | _ => .error .misplaced
  | .literals left c, t =>
    match Literal.ofToken? t with
    | some right => (literals left c right).map fun term => afterTerm outer (current.fill term)
    | none => .error .misplaced
  | .condition name test, t =>
    match test.step? t with
    | some (.inl test) => .ok (inTerm outer current (.condition name test))
    | some (.inr test) => .ok (afterTerm outer (current.fill (.condition name test)))
    | none => .error .misplaced

/-- What is missing in a filter; behind a complete one, the end of the query. -/
def missing : FilterDraft → Expected
  | inTerm _ _ term => term.missing
  | afterTerm [] _ => .endOfQuery
  | afterTerm (_ :: _) _ => .rightParen

end FilterDraft

namespace Statement

/-- A statement that has been read in part. From `afterTable` on, the statement itself holds the clauses that are
complete. -/
inductive Draft where
  | start
  | columns
  | column (first : String) (rest : List String)
  | afterColumns (columns : ColumnList)
  | table (columns : ColumnList)
  | afterTable (s : Statement)
  | filter (s : Statement) (f : FilterDraft)
  | order (s : Statement)
  | orderField (s : Statement)
  | afterField (s : Statement) (field : String)
  | afterOrder (s : Statement)
  | limit (s : Statement)
  | complete (s : Statement)

namespace Draft

/-- A statement of which only columns and table have been read. -/
def base (columns : ColumnList) (table : String) : Statement := ⟨columns, table, none, none, none⟩

/-- Takes a token where an order or a limit may come. -/
def orderStep (s : Statement) : Token → Except Refusal Draft
  | .keyword .ORDER => .ok (order s)
  | .keyword .LIMIT => .ok (limit s)
  | _ => .error .misplaced

/-- Takes a token where only a limit may come. -/
def limitStep (s : Statement) : Token → Except Refusal Draft
  | .keyword .LIMIT => .ok (limit s)
  | _ => .error .misplaced

/-- Takes a token inside a filter, or behind it. -/
def filterStep (s : Statement) : FilterDraft → Token → Except Refusal Draft
  | .inTerm outer current term, t => (FilterDraft.termStep outer current term t).map (filter s)
  | .afterTerm outer d, t =>
    match t, outer with
    | .keyword .AND, _ => .ok (filter s (.inTerm outer (.and d) .start))
    | .keyword .OR, _ => .ok (filter s (.inTerm outer (.or d) .start))
    | .rightParen, around :: outer => .ok (filter s (.afterTerm outer (around.fill (.parens d))))
    | _, _ :: _ => .error .misplaced
    | t, [] => orderStep { s with filter := some d } t

/-- Takes a token. -/
def step : Draft → Token → Except Refusal Draft
  | start, t =>
    match t with
    | .keyword .SELECT => .ok columns
    | _ => .error .misplaced
  | columns, t =>
    match t with
    | .star => .ok (afterColumns .all)
    | .identifier name => .ok (afterColumns (.listed name []))
    | _ => .error .misplaced
  | column first rest, t =>
    match t with
    | .identifier name => .ok (afterColumns (.listed first (rest ++ [name])))
    | _ => .error .misplaced
  | afterColumns cs, t =>
    match t, cs with
    | .keyword .FROM, cs => .ok (table cs)
    | .comma, .listed first rest => .ok (column first rest)
    | _, _ => .error .misplaced
  | table cs, t =>
    match t with
    | .identifier name => .ok (afterTable (base cs name))
    | _ => .error .misplaced
  | afterTable s, t =>
    match t with
    | .keyword .WHERE => .ok (filter s .start)
    | t => orderStep s t
  | filter s f, t => filterStep s f t
  | order s, t =>
    match t with
    | .keyword .BY => .ok (orderField s)
    | _ => .error .misplaced
  | orderField s, t =>
    match t with
    | .identifier name => .ok (afterField s name)
    | _ => .error .misplaced
  | afterField s field, t =>
    match t with
    | .keyword .ASC => .ok (afterOrder { s with order := some ⟨field, some .ascending⟩ })
    | .keyword .DESC => .ok (afterOrder { s with order := some ⟨field, some .descending⟩ })
    | t => limitStep { s with order := some ⟨field, none⟩ } t
  | afterOrder s, t => limitStep s t
  | limit s, t =>
    match t with
    | .number digits => .ok (complete { s with limit := some digits })
    | _ => .error .misplaced
  | complete _, _ => .error .misplaced

/-- What is missing in a statement; behind a complete one, its end. -/
def missing : Draft → Expected
  | start => .keyword .SELECT
  | columns | column .. => .columnName
  | afterColumns _ => .keyword .FROM
  | table _ => .tableName
  | filter _ f => f.missing
  | order _ => .keyword .BY
  | orderField _ => .fieldName
  | limit _ => .rowLimit
  | afterTable _ | afterField .. | afterOrder _ | complete _ => .endOfQuery

/-- The statement of a draft, if it may end here. -/
def finish? : Draft → Option Statement
  | afterTable s | afterOrder s | complete s => some s
  | filter s (.afterTerm [] d) => some { s with filter := some d }
  | afterField s field => some { s with order := some ⟨field, none⟩ }
  | _ => none

end Draft

/-- A text that was refused: why, and what had been read of it by then. -/
structure Failure where
  error : ParseError
  draft : Draft

namespace Draft

/-- Takes tokens, the first of them at a position, to the end of the statement. -/
def run : Draft → Nat → List Token → Except Failure Statement
  | d, _, [] =>
    match d.finish? with
    | some s => .ok s
    | none => .error ⟨.unexpectedEnd d.missing, d⟩
  | d, position, t :: rest =>
    match d.step t with
    | .ok d => d.run (position + 1) rest
    | .error .misplaced => .error ⟨.unexpectedToken d.missing t position, d⟩
    | .error (.unequalLiterals left c right) => .error ⟨.unequalLiterals left c right, d⟩

end Draft

/-- Reads a statement. -/
def ofTokens (tokens : List Token) : Except Failure Statement := Draft.start.run 0 tokens

end Statement

end SegmentQuery
