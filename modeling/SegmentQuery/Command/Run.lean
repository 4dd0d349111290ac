import SegmentQuery.Command.Arguments
import SegmentQuery.Document.Query
import SegmentQuery.Guide
import SegmentQuery.Session

namespace SegmentQuery

/-- How a failure to read a document is told, if nothing else is said about it. -/
def Json.Failure.message : Json.Failure → String
  | cutShort => "the text ends too soon"
  | malformed => "the text is not JSON"
  | unfit => "the text does not describe a query"

namespace Command

/-- Why a command fails. -/
inductive Error where
  | query (e : ParseError)
  | document (e : Json.Failure)
  /-- The standard input is no text. -/
  | notText
  /-- There is nobody to take a document from. -/
  | noInput
  | unknownTopic (name : String)
  deriving Repr, DecidableEq

/-- The message of an error. What is wrong with a document, its reader says in words of its own: they are the `detail`,
and only stand behind what this program says. -/
def Error.message (e : Error) (detail : Json.Failure → String := Json.Failure.message) : String :=
  match e with
  | query e => "Parse error: " ++ e.message
  | document e => "Invalid JSON: " ++ detail e
  | notText => "IO error: stream did not contain valid UTF-8"
  | noInput => "No input provided. Use --input or pipe JSON to stdin."
  | unknownTopic name => "Unknown category: '" ++ name ++ "'\nRun 'segql docs' to see available categories."

/-- Reads a query that a command is given. -/
def readQuery (text : String) : Except Error Query := (Query.ofText text).mapError .query

/-- The document of a query. -/
def documentOf (layout : Json.Layout) (text : String) : Except Error String :=
  (readQuery text).map (Query.document layout)

/-- The query that a document describes, as the text of a session on it. -/
def textOf (document : String) : Except Error String :=
  ((Query.ofDocument document).mapError Error.document).map fun q => (Session.ofQuery q).exportText

/-- The canonical text of a query. -/
def canonical (text : String) : Except Error String := (readQuery text).map Query.text

section

variable {text : String} {q : Query} (h : Query.ofText text = .ok q)

include h

theorem readQuery_of_ofText : readQuery text = .ok q := by
  rw [readQuery, h]
  rfl

theorem documentOf_of_ofText (layout : Json.Layout) : documentOf layout text = .ok (q.document layout) := by
  rw [documentOf, readQuery_of_ofText h, Except.map]

theorem canonical_of_ofText : canonical text = .ok q.text := by rw [canonical, readQuery_of_ofText h, Except.map]

end

/-- The page of the guide on a topic. -/
def guidePage (name : String) : Except Error String :=
  match Guide.Topic.ofName? name with
  | some topic => .ok (Guide.page topic)
  | none => .error (.unknownTopic name)

/-- The document that a command is given: in its arguments, or from the standard input, unless that is a terminal. -/
def givenDocument (document : Option String) (input : Option ByteArray) : Except Error String :=
  match document, input with
  | some text, _ => .ok text
  | none, none => .error .noInput
  | none, some bytes =>
    match String.fromUTF8? bytes with
    | some text => .ok text
    | none => .error .notText

/-- How the program ends. -/
structure Outcome where
  status : UInt32
  output : String
  errors : String
  deriving Repr, DecidableEq

namespace Outcome

/-- The program has printed a text. -/
def printed (text : String) : Outcome := ⟨0, text, ""⟩

/-- A command has given a text, or failed. -/
def ofResult (detail : Json.Failure → String) : Except Error String → Outcome
  | .ok text => printed text
  | .error e => ⟨1, "", e.message detail ++ "\n"⟩

end Outcome

def line (text : String) : String := text ++ "\n"

/-- The name of the program and its version. -/
def versionLine : String := line "segql 0.1.0"

/-- How the program is used. -/
def usage : String := "segql - translate media segment filters to and from their SQL form

Usage: segql <COMMAND>

Commands:
  parse <QUERY> [-p | --pretty]    Parse a query and print its structured form as JSON
  generate [-i | --input <INPUT>]  Generate query text from a JSON query state
  check <QUERY> [--roundtrip]      Validate a query
  fields [--json]                  List known fields with their types and operators
  docs                             List documentation categories
  doc <CATEGORY>                   Show documentation for a specific category
  help                             Print this message

Options:
  -h, --help     Print help
  -V, --version  Print version
"

/-- Runs a command on a standard input; there is none if that is a terminal. The `detail` is what the reader of documents
says about one that it refuses. -/
def run (input : Option ByteArray) (command : Command) (detail : Json.Failure → String := Json.Failure.message) :
    Outcome :=
  match command with
  | misuse => ⟨2, "", usage⟩
  | help => .printed usage
  | version => .printed versionLine
  | parse query layout => .ofResult detail ((documentOf layout query).map line)
  | generate document => .ofResult detail ((givenDocument document input >>= textOf).map line)
  | check query true => .ofResult detail ((canonical query).map line)
  | check query false => .ofResult detail ((readQuery query).map fun _ => line "Syntax is valid")
  | fields true => .printed (line (Schema.document .indented))
  | fields false => .printed Guide.fieldPage
  | docs => .printed Guide.overview
  | doc topic => .ofResult detail (guidePage topic)

/-- The command takes its document from the standard input. -/
def needsInput : Command → Bool
  | generate none => true
  | _ => false

end Command

end SegmentQuery
