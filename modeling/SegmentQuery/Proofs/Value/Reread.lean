import Mathlib.Data.List.Perm.Basic
import SegmentQuery.Proofs.Value.Clock

namespace SegmentQuery

/-- Only a list with repeats gets shorter without them. -/
theorem length_distinct_eq_iff {names : List String} : (distinct names).length = names.length ↔ names.Nodup := by
  refine ⟨fun hlength => ?_, fun h => by rw [distinct_of_nodup h]⟩
  have hsubset : distinct names ⊆ names := fun _ => mem_distinct.mp
  have hsubperm := List.subperm_of_subset (nodup_distinct names) hsubset
  exact (hsubperm.perm_of_length_le hlength.ge).nodup_iff.mp (nodup_distinct names)

namespace Value

variable {type : FieldType} {op : Operator} {value : String}

/-- A value that has been read back has the form of its type, unless it is a time in a pattern. -/
theorem stable_reread (hpattern : op.isPattern = true → type ≠ .ticks) (value : String) :
    Stable type (reread type op value) := by
  by_cases hvalue : value = ""
  · rw [hvalue, reread_empty]
    exact .inl rfl
  · refine .inr ?_
    rw [reread_of_ne hvalue]
    cases type with
    | text | enumerable => trivial
    | integer => exact congrArg Integer.text (Integer.ofText_text (Integer.natAbs_ofText_le value)).symm
    | ticks =>
      have hop : op.isPattern = false := Bool.eq_false_iff.mpr fun hop => hpattern hop rfl
      simp only [hop, Bool.false_eq_true, if_false]
      exact (Ticks.time_ofTime_time_ofTime value).symm
    | boolean => by_cases hone : value = "1" <;> simp [hone]

/-- A time in a pattern is read back as a number. -/
theorem reread_ticks_of_isPattern (hop : op.isPattern = true) (hvalue : value ≠ "") :
    reread .ticks op value = (Ticks.ofTime value).repr := by
  rw [reread_of_ne hvalue]
  exact if_pos hop

/-- What a value is read back as is read back as itself, unless it is a time in a pattern, other than no time. -/
theorem reread_reread_iff : reread type op (reread type op value) = reread type op value ↔
    (op.isPattern = true → type = .ticks → reread type op value = "" ∨ reread type op value = "0") := by
  by_cases hpattern : op.isPattern = true → type ≠ .ticks
  · refine iff_of_true (reread_of_stable (stable_reread hpattern value) hpattern) ?_
    exact fun hop htype => absurd htype (hpattern hop)
  · obtain ⟨hop, rfl⟩ : op.isPattern = true ∧ type = .ticks := by simpa using hpattern
    by_cases hvalue : value = ""
    · rw [hvalue, reread_empty, reread_empty]
      simp
    · have hne : (Ticks.ofTime value).repr ≠ "" := Nat.repr_ne_empty
      have hagain : reread .ticks op (Ticks.ofTime value).repr = "0" := by
        rw [reread_ticks_of_isPattern hop hne, Ticks.ofTime_repr]
        rfl
      rw [reread_ticks_of_isPattern hop hvalue, hagain]
      simp [hop, hne, eq_comm]

/-- The number that a time in a pattern is read back as is no time. -/
theorem ofTime_reread_of_isPattern (hop : op.isPattern = true) (value : String) :
    Ticks.ofTime (reread .ticks op value) = 0 := by
  by_cases hvalue : value = ""
  · rw [hvalue, reread_empty]
    decide
  · rw [reread_ticks_of_isPattern hop hvalue]
    exact Ticks.ofTime_repr _

/-- The literal of a value is the literal of what it is read back as, unless it is the largest number of ticks. A time
in a pattern is left out, for it is read back as a number. -/
theorem written_reread_iff
    (hpattern : op.isPattern = true → type = .ticks → value = "" ∨ Ticks.ofTime value = 0) :
    written type op (reread type op value) = written type op value ↔
      (type = .ticks → Ticks.ofTime value ≠ Integer.largest) := by
  by_cases hvalue : value = ""
  · rw [hvalue, reread_empty]
    exact iff_of_true rfl fun _ => by decide
  · rw [reread_of_ne hvalue]
    cases type with
    | text | enumerable => simp
    | integer =>
      have hne : Integer.text (Integer.ofText value) ≠ "" := Integer.text_ne_empty _
      simp [written, hvalue, hne, Integer.ofText_text (Integer.natAbs_ofText_le value)]
    | ticks =>
      by_cases hop : op.isPattern = true
      · have hzero : Ticks.ofTime value = 0 := (hpattern hop rfl).resolve_left hvalue
        have hlargest : 0 ≠ Integer.largest := by decide
        simp [written, hvalue, hop, hzero, hlargest, Ticks.ofTime_repr]
      · have hne : Ticks.time (Ticks.ofTime value) ≠ "" := Ticks.time_ne_empty _
        have hdigits (m n : Nat) : m.repr = n.repr ↔ m = n := Integer.text_inj.trans Int.ofNat_inj
        simp [written, hvalue, hop, hne, hdigits, Ticks.ofTime_time_ofTime]
    | boolean => by_cases hone : value = "1" <;> simp [written, hvalue, hone]

/-- A value is read back from its literal. -/
theorem reread_eq_of_literal_eq {v w : String} (h : literal type op v = literal type op w) :
    reread type op v = reread type op w := by
  rw [reread, reread, h]

/-- The literals of a list are those of what it is read back as, without repeats, if no two of them are the same and
none is the largest number of ticks. -/
theorem map_written_reread_iff {values : List String}
    (hpattern : ∀ value ∈ values, op.isPattern = true → type = .ticks → value = "" ∨ Ticks.ofTime value = 0) :
    (distinct (values.map (reread type op))).map (written type op) = values.map (written type op) ↔
      (values.map (literal type op)).Nodup ∧
        (type = .ticks → ∀ value ∈ values, Ticks.ofTime value ≠ Integer.largest) := by
  constructor
  · intro hwritten
    have hlength : (distinct (values.map (reread type op))).length = (values.map (reread type op)).length := by
      simpa using congrArg List.length hwritten
    -- Nothing has been left out, so there were no repeats in what is read back, and then none in the literals.
    have hreread := length_distinct_eq_iff.mp hlength
    rw [distinct_of_nodup hreread, List.map_map, List.map_inj_left] at hwritten
    refine ⟨?_, fun htype value hvalue =>
      (written_reread_iff (hpattern value hvalue)).mp (hwritten value hvalue) htype⟩
    rw [List.Nodup, List.pairwise_map] at hreread ⊢
    exact hreread.imp fun hne hliteral => hne (reread_eq_of_literal_eq hliteral)
  · rintro ⟨hnodup, htimes⟩
    have hwritten : ∀ value ∈ values, written type op (reread type op value) = written type op value :=
      fun value hvalue => (written_reread_iff (hpattern value hvalue)).mpr fun htype => htimes htype value hvalue
    have hliteral : ∀ value ∈ values, literal type op value = literal type op (reread type op value) :=
      fun value hvalue => by rw [literal_eq_display, literal_eq_display, hwritten value hvalue]
    have hreread : (values.map (reread type op)).Nodup := by
      rw [List.map_congr_left hliteral] at hnodup
      rw [List.Nodup, List.pairwise_map] at hnodup ⊢
      exact hnodup.imp fun hne heq => hne (congrArg (literal type op) heq)
    rw [distinct_of_nodup hreread, List.map_map]
    exact List.map_congr_left hwritten

end Value

end SegmentQuery
