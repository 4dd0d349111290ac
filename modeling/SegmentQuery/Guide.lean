import SegmentQuery.Schema

namespace SegmentQuery.Guide

/-- What there is a page on. -/
inductive Topic where
  | statements
  | filters
  | values
  | fields
  deriving Repr, DecidableEq

namespace Topic

def all : List Topic := [statements, filters, values, fields]

/-- The names of a topic, in lower case. -/
def names : Topic → List String
  | statements => ["syntax", "grammar"]
  | filters => ["filters", "filter", "where", "operators", "ops"]
  | values => ["values", "value", "literals", "ticks"]
  | fields => ["fields", "field", "columns"]

/-- The Kelvin sign, the only character beyond ASCII whose lower case is one ASCII letter. -/
def kelvin : Char := '\u212a'

/-- A character in lower case, as far as that is an ASCII letter. -/
def lower (c : Char) : Char := if c = kelvin then 'k' else c.toLower

/-- The topic with a name, in any case of its letters. -/
def ofName? (name : String) : Option Topic :=
  all.find? fun topic => topic.names.contains (String.ofList (name.toList.map lower))

end Topic

/-- The overview of the topics. -/
def overview : String := "SEGQL DOCUMENTATION

segql translates between media segment filters and a small SQL subset that
always reads from the MediaSegments relation.

DOCUMENTATION CATEGORIES

  syntax            Statement layout: SELECT, FROM, WHERE, ORDER BY, LIMIT
  filters           Conditions, AND/OR precedence and parentheses
  values            Literal formats, including time ticks
  fields            Known columns, their types and legal operators

QUICK REFERENCE

  SELECT * FROM MediaSegments
  WHERE SeriesName IN ('Lost') AND IntroStartTicks > 0
  ORDER BY ItemName DESC
  LIMIT 20

Run 'segql doc <category>' for detailed documentation.
"

/-- A text with blanks behind it, up to a width. -/
def column (width : Nat) (s : String) : String := s ++ String.ofList (List.replicate (width - s.length) ' ')

/-- The line of a field in the page on fields. -/
def fieldLine (f : Field) : String :=
  "  " ++ column 18 f.name ++ " " ++ column 14 f.label ++ " " ++ column 11 f.type.name ++ " " ++
    ", ".intercalate (f.type.operators.map Operator.text) ++ "\n"

/-- The page on fields. -/
def fieldPage : String := "FIELDS\n\n" ++ String.join (Schema.fields.map fieldLine)

/-- The page on statements. -/
def statementPage : String := "SYNTAX - Statement Layout

  SELECT columns FROM MediaSegments [WHERE filter] [ORDER BY field [ASC|DESC]] [LIMIT n]

COLUMNS
  *                       Every column in default order
  ItemId, ItemName        Explicit list, returned in the order given

    Selecting any time column (for example IntroStartTicks) always brings
    ItemId along, placed first.

KEYWORDS
  Keywords are case-insensitive: select, Select and SELECT are the same.
  Field names are matched against the known fields ignoring case.

ORDER BY / LIMIT
  ORDER BY EpisodeNumber DESC
  LIMIT 10

    ASC is the default direction. LIMIT 0 means no limit.
"

/-- The page on filters. -/
def filterPage : String := "FILTERS - WHERE Clause

CONDITIONS
  field = value           also !=, <, >, <=, >=
  field LIKE 'text'       substring match (NOT LIKE negates)
  field IN ('a', 'b')     membership (NOT IN negates)
  field BETWEEN a AND b   inclusive range
  field IS NULL           also IS NOT NULL

PRECEDENCE
  AND binds tighter than OR:

    A AND B OR C AND D    means    (A AND B) OR (C AND D)

  Parentheses always form their own group:

    (A OR B) AND C

EMPTY LISTS
  An IN list with no values is written as 1=1 and matches everything.
  Reading 1=1 back drops it from an AND; an OR containing it matches
  everything, so the whole OR is dropped.
"

/-- The page on values. -/
def valuePage : String := "VALUES - Literal Formats

TEXT
  'Pilot'                 Single quotes; write '' for a quote inside: 'O''Brien'

LIKE
  ItemName LIKE '%Pilot%' Wildcards are added on output and removed on input

INTEGER
  SeasonNumber = 2        Non-numeric input is treated as 0

TICKS
  Time positions are stored as ticks (1 tick = 100 ns) and shown as HH:MM:SS.mmm

    00:01:30.500  <->  905000000

  An unset position shows as --:--:--.--- and is written as 0.

BOOLEAN
  HasIntro = 1            1 is true, anything else is 0
"

/-- The page on a topic. -/
def page : Topic → String
  | .statements => statementPage
  | .filters => filterPage
  | .values => valuePage
  | .fields => fieldPage

end SegmentQuery.Guide
