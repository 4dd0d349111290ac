import SegmentQuery.Json.Reader

namespace SegmentQuery.Json

namespace Reader

variable {α : Type}

/-- The reader of a scalar that starts with the given character, if any does. -/
def scalar? (care : Care) (c : Char) : Option (Reader Json) :=
  if c = 'n' then some ((word 'n' ['u', 'l', 'l']).map fun _ => .null)
  else if c = 't' then some ((word 't' ['r', 'u', 'e']).map fun _ => .bool true)
  else if c = 'f' then some ((word 'f' ['a', 'l', 's', 'e']).map fun _ => .bool false)
  else if c = '"' then some (Json.string <$> string care)
  else if c = '-' ∨ c.isDigit then some (number care)
  else none

/-- Reads any value, given how the values inside an array or an object are read, if there may be any. -/
def value (care : Care) (inner : Option (Reader Json)) : Reader Json :=
  byNext fun c =>
    match scalar? care c, inner with
    | some r, _ => r
    | none, some inner =>
      if c = '[' then Json.array <$> array inner
      else if c = '{' then
        (fun members => Json.object members.reverse) <$>
          object care (fun members key => (fun v => (key, v) :: members) <$> afterColon inner) []
      else fail .malformed
    | none, none => fail .malformed

/-- Reads any value with at most `depth` arrays and objects open at once. -/
def anything (care : Care) : Nat → Reader Json
  | 0 => value care none
  | depth + 1 => value care (some (anything care depth))

/-- Passes over a value of any depth. -/
def skip : Reader Unit where
  run cs := ((anything .skipped cs.length).run cs).withValue fun _ => ()
  shortens {cs _ _} h := by
    unfold Read.withValue Read.andThen at h
    split at h <;> cases h
    next heq => exact (anything .skipped cs.length).shortens heq

/-- Reads a scalar of which something can be made. A scalar of another kind is read to its end before it is refused, an
array or an object is refused at its bracket. -/
def fitting (f : Json → Option α) : Reader α :=
  byNext fun c =>
    match scalar? .kept c with
    | some r => r.fit f
    | none => if c = '[' ∨ c = '{' then fail .unfit else fail .malformed

/-- Refuses every value. -/
def misfit : Reader α := fitting fun _ => none

/-- Reads a string. -/
def text : Reader String := fitting text?

/-- Reads a number that is whole and has at most 64 bits. -/
def natural : Reader UInt64 := fitting natural?

/-- Reads a string with a certain meaning. -/
def name (ofText? : String → Option α) : Reader α := fitting fun j => j.text?.bind ofText?

/-- Reads an array of items of one kind. -/
def list (item : Reader α) : Reader (List α) := byNext fun c => if c = '[' then array item else misfit

/-- Reads a string with a certain meaning, or an object with that string as its only key and `null` as its value. The
key is read like those of every object: one that is no string makes the text no JSON, while a string without such a
meaning only does not fit. -/
def choice (ofText? : String → Option α) : Reader α :=
  byNext fun c =>
    if c = '"' then name ofText?
    else if c = '{' then
      (sign '{').andThen fun _ => ((key .kept).fit ofText?).andThen fun a =>
        (afterColon (fitting null?)).andThen fun _ => (sign '}').map fun _ => a
    else fail .malformed

end Reader

/-- Reads a whole text, with nothing but blanks after the value. -/
def Reader.whole {α : Type} (r : Reader α) (text : String) : Except Failure α :=
  match r.run text.toList with
  | .error e => .error e
  | .ok (a, rest) => if (skipBlanks rest).isEmpty then .ok a else .error .malformed

end SegmentQuery.Json
