namespace SegmentQuery

/-- A counter of ids: `next` is the id that it hands out next. -/
structure IdSource where
  next : UInt64
  deriving Repr, DecidableEq

namespace IdSource

/-- The largest id that there is. -/
def last : UInt64 := 0xffffffffffffffff

/-- The largest id after which a source may start: the upper half of the range is left to be handed out. -/
def lastSeed : UInt64 := 0x7fffffffffffffff

/-- A source that starts at 1. -/
def initial : IdSource := ⟨1⟩

/-- A source whose first id is the one after `id`, if that leaves half of the range. -/
def startingAfter? (id : UInt64) : Option IdSource := if id ≤ lastSeed then some ⟨id + 1⟩ else none

/-- The source after its next id has been handed out. -/
def advance (ids : IdSource) : IdSource := if ids.next = last then ids else ⟨ids.next + 1⟩

/-- Hands out the next id. -/
def draw (ids : IdSource) : UInt64 × IdSource := (ids.next, ids.advance)

theorem toNat_next_advance (ids : IdSource) :
    ids.advance.next.toNat = min (ids.next.toNat + 1) last.toNat := by
  have hlast : last.toNat = 0xffffffffffffffff := rfl
  have hlt := ids.next.toNat_lt
  unfold advance
  split
  · next h => rw [h]; omega
  · next h =>
    have hne : ids.next.toNat ≠ last.toNat := fun heq => h (UInt64.toNat_inj.mp heq)
    rw [UInt64.toNat_add, UInt64.toNat_one]
    omega

end IdSource

end SegmentQuery
