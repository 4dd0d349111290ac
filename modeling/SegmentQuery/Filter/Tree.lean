import SegmentQuery.Filter.Basic
import SegmentQuery.IdSource

namespace SegmentQuery

mutual

/-- The first filter with an id, in document order. -/
def Filter.find? (id : UInt64) : Filter → Option Filter
  | .condition c => if c.id = id then some (.condition c) else none
  | .group gid k children => if gid = id then some (.group gid k children) else Filters.find? id children

def Filters.find? (id : UInt64) : List Filter → Option Filter
  | [] => none
  | f :: rest => (f.find? id).or (Filters.find? id rest)

end

mutual

/-- Edits the first filter with an id; `none` if there is none. -/
def Filter.update? (id : UInt64) (edit : Filter → Filter) : Filter → Option Filter
  | .condition c => if c.id = id then some (edit (.condition c)) else none
  | .group gid k children =>
    if gid = id then some (edit (.group gid k children))
    else (Filters.update? id edit children).map (.group gid k ·)

def Filters.update? (id : UInt64) (edit : Filter → Filter) : List Filter → Option (List Filter)
  | [] => none
  | f :: rest =>
    match f.update? id edit with
    | some f => some (f :: rest)
    | none => (Filters.update? id edit rest).map (f :: ·)

end

/-- Puts a filter in the place of the first one with an id: the old filter and the new list. -/
def Filters.replace? (id : UInt64) (new : Filter) (items : List Filter) : Option (Filter × List Filter) := do
  let old ← Filters.find? id items
  let items ← Filters.update? id (fun _ => new) items
  return (old, items)

/-- Takes the first member of a list with an id out of it, without a look inside the members. -/
def Filters.takeMember? (id : UInt64) : List Filter → Option (Filter × List Filter)
  | [] => none
  | f :: rest =>
    if f.id = id then some (f, rest)
    else (Filters.takeMember? id rest).map fun (taken, rest) => (taken, f :: rest)

mutual

/-- Takes a filter with an id out of the inside of a filter. -/
def Filter.detachInside? (id : UInt64) : Filter → Option (Filter × Filter)
  | .condition _ => none
  | .group gid k children =>
    ((Filters.takeMember? id children).or (Filters.detachInside? id children)).map fun (taken, children) =>
      (taken, .group gid k children)

def Filters.detachInside? (id : UInt64) : List Filter → Option (Filter × List Filter)
  | [] => none
  | f :: rest =>
    match f.detachInside? id with
    | some (taken, f) => some (taken, f :: rest)
    | none => (Filters.detachInside? id rest).map fun (taken, rest) => (taken, f :: rest)

end

/-- Takes a filter with an id, and all that is inside it, out of a list: a member of the list if there is one, else
from inside the first group that has one. -/
def Filters.detach? (id : UInt64) (items : List Filter) : Option (Filter × List Filter) :=
  (Filters.takeMember? id items).or (Filters.detachInside? id items)

mutual

/-- The conditions of a filter, in document order. -/
def Filter.conditions : Filter → List Condition
  | .condition c => [c]
  | .group _ _ children => Filters.conditions children

def Filters.conditions : List Filter → List Condition
  | [] => []
  | f :: rest => f.conditions ++ Filters.conditions rest

end

mutual

/-- The largest id in a filter. -/
def Filter.maxId : Filter → UInt64
  | .condition c => c.id
  | .group gid _ children => max gid (Filters.maxId children)

/-- The largest id in a list of filters; 0 if there are none. -/
def Filters.maxId : List Filter → UInt64
  | [] => 0
  | f :: rest => max f.maxId (Filters.maxId rest)

end

mutual

/-- Gives every filter a new id, in document order. -/
def Filter.renumber : Filter → IdSource → Filter × IdSource
  | .condition c, ids => (.condition { c with id := ids.next }, ids.advance)
  | .group _ k children, ids =>
    let (children, after) := Filters.renumber children ids.advance
    (.group ids.next k children, after)

def Filters.renumber : List Filter → IdSource → List Filter × IdSource
  | [], ids => ([], ids)
  | f :: rest, ids =>
    let (f, ids) := f.renumber ids
    let (rest, ids) := Filters.renumber rest ids
    (f :: rest, ids)

end

/-- Adds a filter at the end of a group; a condition stays as it is. -/
def Filter.addChild (new : Filter) : Filter → Filter
  | .condition c => .condition c
  | .group gid k children => .group gid k (children ++ [new])

/-- Adds a filter at the end of a list, or at the end of the group with an id. `none` if the first filter with that id
is no group. -/
def Filters.attach? (new : Filter) (parent : Option UInt64) (items : List Filter) : Option (List Filter) :=
  match parent with
  | none => some (items ++ [new])
  | some id =>
    match Filters.find? id items with
    | some (.group ..) => Filters.update? id (Filter.addChild new) items
    | _ => none

end SegmentQuery
