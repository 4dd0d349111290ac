namespace SegmentQuery

/-- Adds a name at the end of a list, unless it is there already. -/
def addDistinct (kept : List String) (name : String) : List String := if name ∈ kept then kept else kept ++ [name]

/-- The members of a list, each at its first place. -/
def distinct (names : List String) : List String := names.foldl addDistinct []

theorem mem_addDistinct {kept : List String} {name x : String} : x ∈ addDistinct kept name ↔ x ∈ kept ∨ x = name := by
  unfold addDistinct
  split
  · next h =>
    constructor
    · exact Or.inl
    · rintro (hx | rfl)
      · exact hx
      · exact h
  · simp

theorem nodup_addDistinct {kept : List String} (name : String) (h : kept.Nodup) : (addDistinct kept name).Nodup := by
  unfold addDistinct
  split
  · exact h
  · next hmem =>
    refine List.nodup_append.mpr ⟨h, by simp, ?_⟩
    intro a ha b hb
    rintro rfl
    exact hmem (List.mem_singleton.mp hb ▸ ha)

private theorem mem_foldl_addDistinct {names kept : List String} {x : String} :
    x ∈ names.foldl addDistinct kept ↔ x ∈ kept ∨ x ∈ names := by
  induction names generalizing kept with
  | nil => simp
  | cons n rest ih => simp only [List.foldl_cons, ih, mem_addDistinct, List.mem_cons, or_assoc]

theorem mem_distinct {names : List String} {x : String} : x ∈ distinct names ↔ x ∈ names := by
  simp [distinct, mem_foldl_addDistinct]

private theorem nodup_foldl_addDistinct {names kept : List String} (h : kept.Nodup) :
    (names.foldl addDistinct kept).Nodup := by
  induction names generalizing kept with
  | nil => exact h
  | cons n rest ih => exact ih (nodup_addDistinct n h)

private theorem foldl_addDistinct_of_nodup {names kept : List String} (h : (kept ++ names).Nodup) :
    names.foldl addDistinct kept = kept ++ names := by
  induction names generalizing kept with
  | nil => exact (List.append_nil kept).symm
  | cons n rest ih =>
    have hn : n ∉ kept := fun hmem => (List.nodup_append.mp h).2.2 n hmem n (by simp) rfl
    rw [List.append_cons] at h ⊢
    rw [List.foldl_cons, addDistinct, if_neg hn, ih h]

/-- A list without repeats stays as it is. -/
theorem distinct_of_nodup {names : List String} (h : names.Nodup) : distinct names = names :=
  foldl_addDistinct_of_nodup (by rwa [List.nil_append])

theorem nodup_distinct (names : List String) : (distinct names).Nodup := nodup_foldl_addDistinct .nil

end SegmentQuery
