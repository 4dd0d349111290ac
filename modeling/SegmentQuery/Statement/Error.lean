import SegmentQuery.Token

namespace SegmentQuery

/-- What should have come next. -/
inductive Expected where
  | keyword (k : Keyword)
  | columnName
  | tableName
  | fieldName
  | rowLimit
  | endOfQuery
  | condition
  | comparison
  | value
  | operator
  | inOrLike
  | leftParen
  | rightParen
  deriving Repr, DecidableEq

def Expected.text : Expected → String
  | keyword k => k.text
  | columnName => "column name"
  | tableName => "table name"
  | fieldName => "field name"
  | rowLimit => "row limit"
  | endOfQuery => "end of query"
  | condition => "condition"
  | comparison => "comparison operator"
  | value => "value"
  | operator => "operator"
  | inOrLike => "IN or LIKE after NOT"
  | leftParen => "'('"
  | rightParen => "')'"

/-- Why a text is refused. Positions count tokens from 0. -/
inductive ParseError where
  | unexpectedToken (expected : Expected) (found : Token) (position : Nat)
  | unexpectedEnd (expected : Expected)
  | unequalLiterals (left : String) (c : Comparison) (right : String)
  deriving Repr, DecidableEq

def ParseError.message : ParseError → String
  | unexpectedToken expected found position =>
    "Expected " ++ expected.text ++ ", found " ++ found.display ++ " (token " ++ position.repr ++ ")"
  | unexpectedEnd expected => "Expected " ++ expected.text ++ ", found " ++ Token.endOfInput
  | unequalLiterals left c right => "Unsupported literal comparison " ++ left ++ " " ++ c.text ++ " " ++ right

end SegmentQuery
