import SegmentQuery.Json.Numeral
import SegmentQuery.Json.Quoted

namespace SegmentQuery.Json

/-- How a value is laid out. -/
inductive Layout where
  | compact
  | indented
  deriving Repr, DecidableEq

namespace Layout

/-- The break before what starts a line at a depth. -/
def lineBreak : Layout → Nat → List Char
  | compact, _ => []
  | indented, depth => '\n' :: List.replicate (2 * depth) ' '

/-- What stands between a key and its value. -/
def colon : Layout → List Char
  | compact => [':']
  | indented => [':', ' ']

/-- Entries between brackets that open at a depth. -/
def enclose (layout : Layout) (depth : Nat) (opening close : Char) (entries : List (List Char)) : List Char :=
  if entries.isEmpty then [opening, close]
  else
    opening :: [','].intercalate (entries.map (layout.lineBreak (depth + 1) ++ ·)) ++ layout.lineBreak depth ++ [close]

/-- What stands behind the first entry, before the closing bracket: a comma and each other entry, and a break. -/
def following (layout : Layout) (depth : Nat) : List (List Char) → List Char
  | [] => layout.lineBreak depth
  | cs :: others => ',' :: layout.lineBreak (depth + 1) ++ cs ++ layout.following depth others

theorem enclose_cons (layout : Layout) (depth : Nat) (opening close : Char) (first : List Char)
    (others : List (List Char)) :
    layout.enclose depth opening close (first :: others) =
      opening :: (layout.lineBreak (depth + 1) ++ first ++ layout.following depth others) ++ [close] := by
  have hjoined (first : List Char) (others : List (List Char)) :
      [','].intercalate (first :: others.map (layout.lineBreak (depth + 1) ++ ·)) ++ layout.lineBreak depth =
        first ++ layout.following depth others := by
    induction others generalizing first with
    | nil => simp [following]
    | cons cs others ih =>
      rw [List.map_cons, List.intercalate_cons_cons, List.append_assoc, ih, following]
      simp
  rw [enclose, List.map_cons, ← hjoined]
  rfl

end Layout

mutual

/-- The text of a value at a depth. -/
def write (layout : Layout) (depth : Nat) : Json → List Char
  | null => ['n', 'u', 'l', 'l']
  | bool true => ['t', 'r', 'u', 'e']
  | bool false => ['f', 'a', 'l', 's', 'e']
  | natural n => Nat.toDigits 10 n.toNat
  | numeral n => n.text
  | string s => Quoted.encode s
  | array items => layout.enclose depth '[' ']' (writeItems layout (depth + 1) items)
  | object members => layout.enclose depth '{' '}' (writeMembers layout (depth + 1) members)

/-- The texts of the items of an array. -/
def writeItems (layout : Layout) (depth : Nat) : List Json → List (List Char)
  | [] => []
  | item :: rest => write layout depth item :: writeItems layout depth rest

/-- The texts of the members of an object. -/
def writeMembers (layout : Layout) (depth : Nat) : List (String × Json) → List (List Char)
  | [] => []
  | (key, value) :: rest =>
    (Quoted.encode key ++ layout.colon ++ write layout depth value) :: writeMembers layout depth rest

end

/-- The text of a value. -/
def text (layout : Layout) (j : Json) : String := String.ofList (j.write layout 0)

end SegmentQuery.Json
