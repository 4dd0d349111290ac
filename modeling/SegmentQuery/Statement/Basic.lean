import SegmentQuery.Token

namespace SegmentQuery

/-- A literal of a statement, as it is written. -/
inductive Literal where
  | number (digits : String)
  | text (content : String)
  | word (name : String)
  deriving Repr, DecidableEq

namespace Literal

def token : Literal → Token
  | number digits => .number digits
  | text content => .string content
  | word name => .identifier name

/-- The literal that a token is. -/
def ofToken? : Token → Option Literal
  | .number digits => some (number digits)
  | .string content => some (text content)
  | .identifier name => some (word name)
  | _ => none

/-- The text of a literal, whatever its kind. -/
def raw : Literal → String
  | number digits => digits
  | text content => content
  | word name => name

theorem ofToken?_eq_some {t : Token} {l : Literal} : ofToken? t = some l ↔ t = l.token := by
  cases t <;> cases l <;> simp [ofToken?, token]

end Literal

/-- What a condition asks of its field. -/
inductive Test where
  | isNull (negated : Bool)
  | oneOf (negated : Bool) (first : Literal) (rest : List Literal)
  | like (negated : Bool) (pattern : Literal)
  | between (low high : Literal)
  | compare (c : Comparison) (value : Literal)
  deriving Repr, DecidableEq

namespace Test

/-- The word `NOT`, where it stands. -/
def negation (negated : Bool) : List Token := if negated then [.keyword .NOT] else []

/-- Literals with a comma before each. -/
def commaTokens (literals : List Literal) : List Token := literals.flatMap fun l => [.comma, l.token]

def tokens : Test → List Token
  | isNull negated => [.keyword .IS] ++ negation negated ++ [.keyword .NULL]
  | oneOf negated first rest =>
    negation negated ++ [.keyword .IN, .leftParen, first.token] ++ commaTokens rest ++ [.rightParen]
  | like negated pattern => negation negated ++ [.keyword .LIKE, pattern.token]
  | between low high => [.keyword .BETWEEN, low.token, .keyword .AND, high.token]
  | compare c value => [.comparison c, value.token]

end Test

mutual

/-- A condition, a comparison of two literals, or an expression in parentheses. -/
inductive Term where
  | condition (field : String) (test : Test)
  | literals (left : String) (c : Comparison) (right : Literal)
  | parens (inner : Disjunction)

/-- Terms joined by `AND`. -/
inductive Conjunction where
  | term (t : Term)
  | and (c : Conjunction) (t : Term)

/-- Conjunctions joined by `OR`. -/
inductive Disjunction where
  | conjunction (c : Conjunction)
  | or (d : Disjunction) (c : Conjunction)

end

mutual

def Term.tokens : Term → List Token
  | .condition field test => .identifier field :: test.tokens
  | .literals left c right => [.number left, .comparison c, right.token]
  | .parens inner => .leftParen :: inner.tokens ++ [.rightParen]

def Conjunction.tokens : Conjunction → List Token
  | .term t => t.tokens
  | .and c t => c.tokens ++ .keyword .AND :: t.tokens

def Disjunction.tokens : Disjunction → List Token
  | .conjunction c => c.tokens
  | .or d c => d.tokens ++ .keyword .OR :: c.tokens

end

/-- The columns that a statement asks for. -/
inductive ColumnList where
  | all
  | listed (first : String) (rest : List String)
  deriving Repr, DecidableEq

namespace ColumnList

def tokens : ColumnList → List Token
  | all => [.star]
  | listed first rest => .identifier first :: rest.flatMap fun name => [.comma, .identifier name]

end ColumnList

/-- The order that a statement asks for. -/
structure RowOrder where
  field : String
  direction : Option Direction
  deriving Repr, DecidableEq

namespace RowOrder

def directionTokens : Option Direction → List Token
  | none => []
  | some .ascending => [.keyword .ASC]
  | some .descending => [.keyword .DESC]

def tokens (o : RowOrder) : List Token :=
  [.keyword .ORDER, .keyword .BY, .identifier o.field] ++ directionTokens o.direction

end RowOrder

/-- A statement: `SELECT columns FROM table`, and as much as there is of `WHERE disjunction`, `ORDER BY name [ASC | DESC]`
and `LIMIT number`, in this order. -/
structure Statement where
  columns : ColumnList
  table : String
  filter : Option Disjunction
  order : Option RowOrder
  limit : Option String

namespace Statement

def filterTokens : Option Disjunction → List Token
  | none => []
  | some d => .keyword .WHERE :: d.tokens

def limitTokens : Option String → List Token
  | none => []
  | some digits => [.keyword .LIMIT, .number digits]

def tokens (s : Statement) : List Token :=
  .keyword .SELECT :: s.columns.tokens ++ [.keyword .FROM, .identifier s.table] ++ filterTokens s.filter ++
    (s.order.map RowOrder.tokens).getD [] ++ limitTokens s.limit

end Statement

end SegmentQuery
