import Mathlib.Data.List.Iterate
import SegmentQuery.IdSource

namespace SegmentQuery.IdSource

theorem toNat_last : last.toNat = 0xffffffffffffffff := rfl

theorem le_last (id : UInt64) : id ≤ last := by
  have hlt := id.toNat_lt
  rw [UInt64.le_iff_toNat_le, toNat_last]
  omega

theorem next_le_advance (ids : IdSource) : ids.next ≤ ids.advance.next := by
  have hle := UInt64.le_iff_toNat_le.mp (le_last ids.next)
  rw [UInt64.le_iff_toNat_le, toNat_next_advance]
  omega

/-- A source goes on to a larger id, unless it has come to the last one. -/
theorem next_lt_advance {ids : IdSource} (h : ids.advance.next ≠ last) : ids.next < ids.advance.next := by
  have hadvance := toNat_next_advance ids
  have hne : ids.advance.next.toNat ≠ last.toNat := fun heq => h (UInt64.toNat_inj.mp heq)
  rw [UInt64.lt_iff_toNat_lt]
  omega

/-- A source does not come back from its last id. -/
theorem ne_last_of_le {before after : IdSource} (hle : before.next ≤ after.next) (hlast : after.next ≠ last) :
    before.next ≠ last := by
  intro hbefore
  rw [hbefore] at hle
  exact hlast (UInt64.le_antisymm (le_last _) hle)

theorem toNat_next_iterate (ids : IdSource) (n : ℕ) :
    (advance^[n] ids).next.toNat = min (ids.next.toNat + n) last.toNat := by
  have hlast : last.toNat = 0xffffffffffffffff := rfl
  have hlt := ids.next.toNat_lt
  induction n with
  | zero =>
    simp only [Function.iterate_zero, id_eq]
    omega
  | succ n ih =>
    rw [Function.iterate_succ_apply', toNat_next_advance, ih]
    omega

/-- The ids that a source hands out next. -/
def upcoming (ids : IdSource) (n : ℕ) : List UInt64 := (List.iterate advance ids n).map next

theorem upcoming_succ (ids : IdSource) (n : ℕ) : ids.upcoming (n + 1) = ids.next :: ids.advance.upcoming n := rfl

theorem upcoming_add (ids : IdSource) (m n : ℕ) :
    ids.upcoming (m + n) = ids.upcoming m ++ (advance^[m] ids).upcoming n := by
  rw [upcoming, List.iterate_add, List.map_append]
  rfl

/-- As long as there are enough, the ids that come next are one number after the other. -/
theorem map_toNat_upcoming {ids : IdSource} {n : ℕ} (h : ids.next.toNat + n ≤ last.toNat) :
    (ids.upcoming n).map UInt64.toNat = List.range' ids.next.toNat n := by
  apply List.ext_getElem
  · rw [upcoming, List.length_map, List.length_map, List.length_iterate, List.length_range']
  · intro i hi hi'
    rw [List.length_range'] at hi'
    simp only [upcoming, List.getElem_map, List.getElem_iterate, toNat_next_iterate, List.getElem_range', Nat.one_mul]
    omega

/-- From the state `before` to the state `after` a source can have handed out the ids of a list: as long as it has not
reached the last id, they are distinct and lie between the two states. -/
structure Handed (before after : IdSource) (ids : List UInt64) : Prop where
  le : before.next ≤ after.next
  nodup : after.next ≠ last → ids.Nodup
  bounds : after.next ≠ last → ∀ id ∈ ids, before.next ≤ id ∧ id < after.next

namespace Handed

variable {a b c : IdSource} {xs ys : List UInt64}

theorem nil (h : a.next ≤ b.next) : Handed a b [] where
  le := h
  nodup _ := .nil
  bounds _ _ hid := by cases hid

theorem draw (ids : IdSource) : Handed ids ids.advance [ids.next] where
  le := ids.next_le_advance
  nodup _ := by simp
  bounds hlast id hid := by
    rw [List.mem_singleton] at hid
    subst hid
    exact ⟨UInt64.le_refl _, next_lt_advance hlast⟩

/-- What is handed out later is larger than what was handed out before. -/
theorem append (h : Handed a b xs) (h' : Handed b c ys) : Handed a c (xs ++ ys) := by
  have hmiddle : c.next ≠ last → b.next ≠ last := ne_last_of_le h'.le
  refine ⟨UInt64.le_trans h.le h'.le, fun hlast => ?_, fun hlast id hid => ?_⟩
  · refine List.nodup_append.mpr ⟨h.nodup (hmiddle hlast), h'.nodup hlast, ?_⟩
    rintro id hid _ hid' rfl
    have hlt := (h.bounds (hmiddle hlast) id hid).2
    have hle := (h'.bounds hlast id hid').1
    exact absurd hle (UInt64.not_le.mpr hlt)
  · rcases List.mem_append.mp hid with hid | hid
    · obtain ⟨hle, hlt⟩ := h.bounds (hmiddle hlast) id hid
      exact ⟨hle, UInt64.lt_of_lt_of_le hlt h'.le⟩
    · obtain ⟨hle, hlt⟩ := h'.bounds hlast id hid
      exact ⟨UInt64.le_trans h.le hle, hlt⟩

theorem perm (h : Handed a b xs) (hperm : xs.Perm ys) : Handed a b ys where
  le := h.le
  nodup hlast := hperm.nodup_iff.mp (h.nodup hlast)
  bounds hlast id hid := h.bounds hlast id (hperm.mem_iff.mpr hid)

/-- Some of the ids may be dropped. -/
theorem sublist (h : Handed a b xs) (hsublist : ys.Sublist xs) : Handed a b ys where
  le := h.le
  nodup hlast := (h.nodup hlast).sublist hsublist
  bounds hlast id hid := h.bounds hlast id (hsublist.mem hid)

/-- The ids that come next can be handed out. -/
theorem upcoming (ids : IdSource) (n : ℕ) : Handed ids (advance^[n] ids) (ids.upcoming n) := by
  induction n generalizing ids with
  | zero => exact .nil (UInt64.le_refl _)
  | succ n ih => exact (draw ids).append (ih ids.advance)

end Handed

end SegmentQuery.IdSource
