import SegmentQuery.Operator
import SegmentQuery.Text

namespace SegmentQuery

/-- The reserved words. -/
inductive Keyword where
  | SELECT | FROM | WHERE | AND | OR | NOT | IS | NULL | BETWEEN | LIKE | IN | ORDER | BY | ASC | DESC | LIMIT
  deriving Repr, DecidableEq

namespace Keyword

def text : Keyword → String
  | .SELECT => "SELECT"
  | .FROM => "FROM"
  | .WHERE => "WHERE"
  | .AND => "AND"
  | .OR => "OR"
  | .NOT => "NOT"
  | .IS => "IS"
  | .NULL => "NULL"
  | .BETWEEN => "BETWEEN"
  | .LIKE => "LIKE"
  | .IN => "IN"
  | .ORDER => "ORDER"
  | .BY => "BY"
  | .ASC => "ASC"
  | .DESC => "DESC"
  | .LIMIT => "LIMIT"

def all : List Keyword :=
  [.SELECT, .FROM, .WHERE, .AND, .OR, .NOT, .IS, .NULL, .BETWEEN, .LIKE, .IN, .ORDER, .BY, .ASC, .DESC, .LIMIT]

/-- The reserved word that a word spells, in any case of its letters. -/
def ofWord? (word : String) : Option Keyword := all.find? fun k => Text.sameLetters k.text word

end Keyword

/-- A token of the query language. -/
inductive Token where
  | keyword (k : Keyword)
  /-- A word that is not reserved: the name of a column or table, or a bare value. -/
  | identifier (name : String)
  /-- A number as it is written. -/
  | number (digits : String)
  /-- The text between single quotes. -/
  | string (content : String)
  | comparison (c : Comparison)
  | leftParen
  | rightParen
  | comma
  | star
  deriving Repr, DecidableEq

namespace Token

/-- The text that shows a token to a reader. -/
def display : Token → String
  | .keyword k => k.text
  | .identifier name => name
  | .number digits => digits
  | .string content => Text.Quoted.quote content
  | .comparison c => c.text
  | .leftParen => "("
  | .rightParen => ")"
  | .comma => ","
  | .star => "*"

/-- What stands in a message where the tokens have ended. -/
def endOfInput : String := "end of input"

end Token

end SegmentQuery
