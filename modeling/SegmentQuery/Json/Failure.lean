namespace SegmentQuery.Json

/-- Why a text is refused. -/
inductive Failure where
  /-- The text ends too soon. -/
  | cutShort
  /-- The text is not JSON, or too deeply nested. -/
  | malformed
  /-- The text is JSON, but does not describe what is wanted. -/
  | unfit
  deriving Repr, DecidableEq

/-- What happens to a value that is read. -/
inductive Care where
  /-- The value is needed. -/
  | kept
  /-- The value is passed over. Its numbers may be of any size, and surrogates in its strings need no partner. -/
  | skipped
  deriving Repr, DecidableEq

/-- What reading at the front of a text gives: a value, and the rest of the text. -/
abbrev Read (α : Type) := Except Failure (α × List Char)

namespace Read

variable {α β : Type} {n m : Nat}

/-- Goes on with a value and the rest of the text. -/
def andThen (r : Read α) (next : α → List Char → Read β) : Read β :=
  match r with
  | .error e => .error e
  | .ok (a, rest) => next a rest

/-- The same reading with another value. -/
def withValue (f : α → β) (r : Read α) : Read β := r.andThen fun a rest => .ok (f a, rest)

/-- A rest that is no longer than `n` characters, if there is one. -/
def Within (n : Nat) (r : Read α) : Prop := ∀ a rest, r = .ok (a, rest) → rest.length ≤ n

namespace Within

theorem error (e : Failure) : Within n (.error e : Read α) := by
  intro a rest h
  cases h

theorem ok {a : α} {rest : List Char} (h : rest.length ≤ n) : Within n (.ok (a, rest) : Read α) := by
  intro a' rest' h'
  cases h'
  exact h

theorem mono {r : Read α} (h : r.Within n) (hle : n ≤ m) : r.Within m :=
  fun a rest hr => Nat.le_trans (h a rest hr) hle

theorem andThen {r : Read α} {next : α → List Char → Read β} (h : r.Within n)
    (hnext : ∀ a rest, rest.length ≤ n → (next a rest).Within n) : (r.andThen next).Within n := by
  unfold Read.andThen
  split
  · exact error _
  · exact hnext _ _ (h _ _ rfl)

theorem withValue {f : α → β} {r : Read α} (h : r.Within n) : (r.withValue f).Within n :=
  h.andThen fun _ _ hrest => ok hrest

end Within

end Read

end SegmentQuery.Json
