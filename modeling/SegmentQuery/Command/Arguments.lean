import SegmentQuery.Json.Layout

namespace SegmentQuery

/-- A switch of a subcommand: an option with a value, or a flag. -/
structure Switch where
  long : String
  short : Option Char
  takesValue : Bool
  deriving Repr, DecidableEq

/-- What ends the reading of arguments before their end. -/
inductive Stop where
  | misuse
  | help
  deriving Repr, DecidableEq

inductive Subcommand where
  | parse | generate | check | fields | docs | doc
  deriving Repr, DecidableEq

namespace Subcommand

def name : Subcommand → String
  | parse => "parse"
  | generate => "generate"
  | check => "check"
  | fields => "fields"
  | docs => "docs"
  | doc => "doc"

def all : List Subcommand := [parse, generate, check, fields, docs, doc]

/-- The subcommand with this exact name. -/
def ofName? (s : String) : Option Subcommand := all.find? fun sub => sub.name == s

def pretty : Switch := ⟨"pretty", some 'p', false⟩
def input : Switch := ⟨"input", some 'i', true⟩
def roundTrip : Switch := ⟨"roundtrip", none, false⟩
def json : Switch := ⟨"json", none, false⟩

def switches : Subcommand → List Switch
  | parse => [pretty]
  | generate => [input]
  | check => [roundTrip]
  | fields => [json]
  | docs | doc => []

/-- The number of operands that a subcommand needs. -/
def operands : Subcommand → Nat
  | parse | check | doc => 1
  | generate | fields | docs => 0

end Subcommand

/-- The arguments of a subcommand that have been read. A flag is given with an empty value. -/
structure Arguments where
  operands : List String
  given : List (Switch × String)
  deriving Repr, DecidableEq

namespace Arguments

def empty : Arguments := ⟨[], []⟩

/-- The value that a switch is given with, if it is given. -/
def value? (a : Arguments) (s : Switch) : Option String := (a.given.find? fun g => g.1 == s).map (·.2)

def has (a : Arguments) (s : Switch) : Bool := (a.value? s).isSome

/-- Notes a switch and its value. -/
def give (a : Arguments) (s : Switch) (value : String) : Except Stop Arguments :=
  if a.has s then .error .misuse else .ok { a with given := a.given ++ [(s, value)] }

/-- Notes an operand, if the subcommand needs one more. -/
def addOperand (sub : Subcommand) (a : Arguments) (operand : String) : Except Stop Arguments :=
  if a.operands.length < sub.operands then .ok { a with operands := a.operands ++ [operand] } else .error .misuse

/-- How the next argument is taken. -/
inductive Mode where
  | any
  /-- As the value of an option. -/
  | valueOf (s : Switch)
  /-- As an operand, whatever it looks like. -/
  | operand
  deriving Repr, DecidableEq

/-- An argument that looks like a switch. A lone dash does not. -/
def looksLikeSwitch (arg : List Char) : Bool := arg.head? = some '-' && arg.length ≠ 1

/-- Takes the long form of a switch, after its dashes. -/
def takeLong (sub : Subcommand) (a : Arguments) (arg : List Char) : Except Stop (Mode × Arguments) :=
  let name := String.ofList (arg.takeWhile (· != '='))
  let value := arg.dropWhile (· != '=')
  match sub.switches.find? (·.long == name), value with
  | some s, [] => if s.takesValue then .ok (.valueOf s, a) else (a.give s "").map (.any, ·)
  | some s, _ :: value =>
    if s.takesValue then (a.give s (String.ofList value)).map (.any, ·) else .error .misuse
  | none, value => .error (if name = "help" ∧ value.isEmpty then .help else .misuse)

/-- The value of an option that stands behind its letter, with or without an equals sign. -/
def attached : List Char → String
  | '=' :: value => String.ofList value
  | value => String.ofList value

/-- Takes the short forms of switches, after their dash. -/
def takeShort (sub : Subcommand) (a : Arguments) : List Char → Except Stop (Mode × Arguments)
  | [] => .ok (.any, a)
  | c :: rest =>
    match sub.switches.find? (·.short == some c) with
    | some s =>
      if s.takesValue then
        if rest.isEmpty then .ok (.valueOf s, a) else (a.give s (attached rest)).map (.any, ·)
      else match a.give s "" with
        | .ok a => takeShort sub a rest
        | .error e => .error e
    | none => .error (if c = 'h' then .help else .misuse)

/-- Takes an argument. -/
def take (sub : Subcommand) : Mode × Arguments → String → Except Stop (Mode × Arguments)
  | (.valueOf s, a), arg =>
    if looksLikeSwitch arg.toList then .error .misuse else (a.give s arg).map (.any, ·)
  | (.operand, a), arg => (addOperand sub a arg).map (.operand, ·)
  | (.any, a), arg =>
    match arg.toList with
    | ['-', '-'] => .ok (.operand, a)
    | '-' :: '-' :: name => takeLong sub a name
    | '-' :: c :: rest => takeShort sub a (c :: rest)
    | _ => (addOperand sub a arg).map (.any, ·)

/-- Reads the arguments of a subcommand. -/
def read (sub : Subcommand) (args : List String) : Except Stop Arguments :=
  match args.foldlM (take sub) (Mode.any, empty) with
  | .error e => .error e
  | .ok (.valueOf _, _) => .error .misuse
  | .ok (_, a) => if a.operands.length = sub.operands then .ok a else .error .misuse

end Arguments

/-- What a command line asks for. -/
inductive Command where
  | misuse
  | help
  | version
  /-- The document of a query. -/
  | parse (query : String) (layout : Json.Layout)
  /-- The query of a document, which comes from the standard input if it is not given. -/
  | generate (document : Option String)
  /-- Whether a query can be read, or its canonical text. -/
  | check (query : String) (roundTrip : Bool)
  /-- The fields of the table, as a document or for readers. -/
  | fields (asDocument : Bool)
  | docs
  | doc (topic : String)
  deriving Repr, DecidableEq

namespace Command

/-- What a subcommand asks for with its arguments. -/
def ofSubcommand (sub : Subcommand) (a : Arguments) : Command :=
  match sub, a.operands with
  | .parse, [query] => parse query (if a.has Subcommand.pretty then .indented else .compact)
  | .generate, [] => generate (a.value? Subcommand.input)
  | .check, [query] => check query (a.has Subcommand.roundTrip)
  | .fields, [] => fields (a.has Subcommand.json)
  | .docs, [] => docs
  | .doc, [topic] => doc topic
  | _, _ => misuse

/-- What the program is asked for before a subcommand. -/
def ofSwitch (arg : String) : Command :=
  match arg.toList with
  | '-' :: 'V' :: _ => version
  | '-' :: 'h' :: _ => help
  | _ => if arg = "--version" then version else if arg = "--help" then help else misuse

/-- What a command line asks for. -/
def ofArguments : List String → Command
  | [] => misuse
  | first :: others =>
    match Subcommand.ofName? first with
    | some sub =>
      match Arguments.read sub others with
      | .ok a => ofSubcommand sub a
      | .error .misuse => misuse
      | .error .help => help
    | none =>
      if first = "help" then
        match others with
        | [] | ["help"] => help
        | [name] => if (Subcommand.ofName? name).isSome then help else misuse
        | _ => misuse
      else ofSwitch first

end Command

end SegmentQuery
