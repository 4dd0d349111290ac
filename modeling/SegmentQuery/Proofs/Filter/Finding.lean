import SegmentQuery.Proofs.Filter.Place

namespace SegmentQuery

variable {id : UInt64} {edit : Filter → Filter}

/-- Nothing that comes before the place has the id. -/
def Place.IsFirst (id : UInt64) (p : Place) : Prop := id ∉ p.earlier.map Head.id

namespace Place

theorem isFirst_between {before after : List Filter} : (between before after).IsFirst id ↔ id ∉ Filters.ids before := by
  rw [IsFirst, earlier, Filters.map_id_heads]

theorem isFirst_inside {before after : List Filter} {gid : UInt64} {k : Connector} {p : Place} :
    (inside before gid k p after).IsFirst id ↔ id ∉ Filters.ids before ∧ gid ≠ id ∧ p.IsFirst id := by
  rw [IsFirst, IsFirst, earlier, List.map_append, List.map_cons, Filters.map_id_heads, List.mem_append, List.mem_cons,
    not_or, not_or]
  exact and_congr_right fun _ => and_congr_left fun _ => ne_comm

theorem IsFirst.around {p : Place} (h : p.IsFirst id) {front : List Filter} (hfront : id ∉ Filters.ids front)
    (back : List Filter) : (p.around front back).IsFirst id := by
  rw [IsFirst, earlier_around, List.map_append, Filters.map_id_heads, List.mem_append, not_or]
  exact ⟨hfront, h⟩

end Place

namespace Filters

/-- A filter stands at a place of a list, and is the first one there with an id. -/
structure FirstAt (id : UInt64) (items : List Filter) (p : Place) (f : Filter) : Prop where
  fill : p.fill [f] = items
  id_eq : f.id = id
  isFirst : p.IsFirst id

/-- The list after a replacement: as before if there was nothing to replace. -/
def replaced (id : UInt64) (new : Filter) (items : List Filter) : List Filter :=
  (replace? id new items).elim items Prod.snd

end Filters

mutual

theorem Filter.find?_eq_none_iff : ∀ {f : Filter}, f.find? id = none ↔ id ∉ f.ids
  | .condition c => by
    rw [Filter.find?, Filter.ids, List.mem_singleton, eq_comm (a := id)]
    split <;> simp_all
  | .group gid k children => by
    rw [Filter.find?, Filter.ids, List.mem_cons, not_or, eq_comm (a := id)]
    split
    · simp_all
    · next hid => rw [Filters.find?_eq_none_iff, and_iff_right hid]

theorem Filters.find?_eq_none_iff : ∀ {items : List Filter}, Filters.find? id items = none ↔ id ∉ Filters.ids items
  | [] => by simp [Filters.find?, Filters.ids]
  | f :: rest => by
    rw [Filters.find?, Filters.ids, List.mem_append, not_or, Option.or_eq_none_iff, Filter.find?_eq_none_iff,
      Filters.find?_eq_none_iff]

end

mutual

theorem Filter.update?_eq_none : ∀ {f : Filter}, id ∉ f.ids → f.update? id edit = none
  | .condition c, h => by
    rw [Filter.ids, List.mem_singleton] at h
    rw [Filter.update?, if_neg (Ne.symm h)]
  | .group gid k children, h => by
    rw [Filter.ids, List.mem_cons, not_or] at h
    rw [Filter.update?, if_neg (Ne.symm h.1), Filters.update?_eq_none h.2, Option.map_none]

theorem Filters.update?_eq_none : ∀ {items : List Filter}, id ∉ Filters.ids items →
    Filters.update? id edit items = none
  | [], _ => rfl
  | f :: rest, h => by
    rw [Filters.ids, List.mem_append, not_or] at h
    simp only [Filters.update?, Filter.update?_eq_none h.1, Filters.update?_eq_none h.2, Option.map_none]

end

namespace Filter

theorem find?_of_id {f : Filter} (h : f.id = id) : f.find? id = some f := by
  cases f with
  | condition c => exact if_pos h
  | group gid k children => exact if_pos h

theorem update?_of_id {f : Filter} (h : f.id = id) : f.update? id edit = some (edit f) := by
  cases f with
  | condition c => exact if_pos h
  | group gid k children => exact if_pos h

end Filter

namespace Filters

theorem find?_append_of_not_mem {front : List Filter} (h : id ∉ ids front) (items : List Filter) :
    find? id (front ++ items) = find? id items := by
  induction front with
  | nil => rfl
  | cons f rest ih =>
    rw [ids, List.mem_append, not_or] at h
    rw [List.cons_append, find?, Filter.find?_eq_none_iff.mpr h.1, Option.none_or, ih h.2]

theorem update?_append_of_not_mem {front : List Filter} (h : id ∉ ids front) (items : List Filter) :
    update? id edit (front ++ items) = (update? id edit items).map (front ++ ·) := by
  induction front with
  | nil => exact Option.map_id'.symm
  | cons f rest ih =>
    rw [ids, List.mem_append, not_or] at h
    simp only [List.cons_append, update?, Filter.update?_eq_none h.1, ih h.2, Option.map_map]
    rfl

theorem find?_fill {p : Place} {f : Filter} (hfirst : p.IsFirst id) (hid : f.id = id) :
    find? id (p.fill [f]) = some f := by
  induction p with
  | between before after =>
    rw [Place.isFirst_between] at hfirst
    rw [Place.fill, List.append_assoc, find?_append_of_not_mem hfirst, List.singleton_append, find?,
      Filter.find?_of_id hid, Option.some_or]
  | inside before gid k p after ih =>
    rw [Place.isFirst_inside] at hfirst
    obtain ⟨hbefore, hgid, hp⟩ := hfirst
    rw [Place.fill, find?_append_of_not_mem hbefore, find?, Filter.find?, if_neg hgid, ih hp, Option.some_or]

/-- Editing the first filter with an id leaves everything around it as it is. -/
theorem update?_fill {p : Place} {f : Filter} (hfirst : p.IsFirst id) (hid : f.id = id) :
    update? id edit (p.fill [f]) = some (p.fill [edit f]) := by
  induction p with
  | between before after =>
    rw [Place.isFirst_between] at hfirst
    simp only [Place.fill, List.append_assoc, update?_append_of_not_mem hfirst, List.singleton_append, update?,
      Filter.update?_of_id hid, Option.map_some]
  | inside before gid k p after ih =>
    rw [Place.isFirst_inside] at hfirst
    obtain ⟨hbefore, hgid, hp⟩ := hfirst
    simp only [Place.fill, update?_append_of_not_mem hbefore, update?, Filter.update?, if_neg hgid, ih hp,
      Option.map_some]

namespace FirstAt

variable {items : List Filter} {p : Place} {f : Filter}

theorem find? (h : FirstAt id items p f) : Filters.find? id items = some f := by
  rw [← h.fill]
  exact find?_fill h.isFirst h.id_eq

theorem update? (h : FirstAt id items p f) (edit : Filter → Filter) :
    Filters.update? id edit items = some (p.fill [edit f]) := by
  rw [← h.fill]
  exact update?_fill h.isFirst h.id_eq

theorem around (h : FirstAt id items p f) {front : List Filter} (hfront : id ∉ ids front) (back : List Filter) :
    FirstAt id (front ++ items ++ back) (p.around front back) f where
  fill := by rw [Place.fill_around, h.fill]
  id_eq := h.id_eq
  isFirst := h.isFirst.around hfront back

theorem here (h : f.id = id) : FirstAt id [f] (.between [] []) f where
  fill := rfl
  id_eq := h
  isFirst := Place.isFirst_between.mpr List.not_mem_nil

theorem inside (h : FirstAt id items p f) {gid : UInt64} (hgid : gid ≠ id) (k : Connector) :
    FirstAt id [.group gid k items] (.inside [] gid k p []) f where
  fill := by rw [Place.fill, h.fill, List.nil_append]
  id_eq := h.id_eq
  isFirst := Place.isFirst_inside.mpr ⟨List.not_mem_nil, hgid, h.isFirst⟩

/-- With another filter with the id in its place. -/
theorem refill (h : FirstAt id items p f) {new : Filter} (hnew : new.id = id) : FirstAt id (p.fill [new]) p new where
  fill := rfl
  id_eq := hnew
  isFirst := h.isFirst

end FirstAt

end Filters

mutual

theorem Filter.exists_firstAt : ∀ {f found : Filter}, f.find? id = some found →
    ∃ p, Filters.FirstAt id [f] p found
  | .condition c, found, h => by
    rw [Filter.find?] at h
    split at h
    · next hid =>
      cases h
      exact ⟨_, .here hid⟩
    · cases h
  | .group gid k children, found, h => by
    rw [Filter.find?] at h
    split at h
    · next hid =>
      cases h
      exact ⟨_, .here hid⟩
    · next hid =>
      obtain ⟨p, hp⟩ := Filters.exists_firstAt h
      exact ⟨_, hp.inside hid k⟩

/-- What is found is the first filter with the id in document order. -/
theorem Filters.exists_firstAt : ∀ {items : List Filter} {found : Filter}, Filters.find? id items = some found →
    ∃ p, Filters.FirstAt id items p found
  | [], _, h => by cases h
  | f :: rest, found, h => by
    rw [Filters.find?] at h
    rcases Option.or_eq_some_iff.mp h with hf | ⟨hf, hrest⟩
    · obtain ⟨p, hp⟩ := Filter.exists_firstAt hf
      have hfront : id ∉ Filters.ids [] := List.not_mem_nil
      exact ⟨_, hp.around hfront rest⟩
    · obtain ⟨p, hp⟩ := Filters.exists_firstAt hrest
      have hfront : id ∉ Filters.ids [f] := by
        rw [Filters.ids_singleton]
        exact Filter.find?_eq_none_iff.mp hf
      have haround := hp.around hfront []
      rw [List.append_nil] at haround
      exact ⟨_, haround⟩

end

namespace Filters

/-- Finding is looking through the heads in document order. -/
theorem find?_heads (id : UInt64) (items : List Filter) :
    ((heads items).find? fun h => h.id = id) = (find? id items).map Filter.head := by
  cases hfound : find? id items with
  | none =>
    rw [find?_eq_none_iff, ← map_id_heads] at hfound
    rw [Option.map_none, List.find?_eq_none]
    intro h hh heq
    exact hfound (List.mem_map.mpr ⟨h, hh, of_decide_eq_true heq⟩)
  | some f =>
    obtain ⟨p, hp⟩ := exists_firstAt hfound
    obtain ⟨inside, hinside⟩ := f.exists_heads_eq
    rw [← hp.fill, Place.heads_fill, heads_singleton, hinside, List.append_assoc, List.find?_append]
    have hearlier : (p.earlier.find? fun h => h.id = id) = none := by
      rw [List.find?_eq_none]
      intro h hh heq
      exact hp.isFirst (List.mem_map.mpr ⟨h, hh, of_decide_eq_true heq⟩)
    have hhead : decide (f.head.id = id) = true := decide_eq_true (f.id_head.trans hp.id_eq)
    rw [hearlier, Option.none_or, List.cons_append, Option.map_some]
    exact List.find?_cons_of_pos hhead

theorem find?_heads_eq_condition_iff {id : UInt64} {items : List Filter} {c : Condition} :
    ((heads items).find? fun h => h.id = id) = some (.condition c) ↔ find? id items = some (.condition c) := by
  rw [find?_heads, Option.map_eq_some_iff]
  constructor
  · rintro ⟨f, hf, hhead⟩
    cases f with
    | condition d =>
      cases hhead
      exact hf
    | group => cases hhead
  · intro h
    exact ⟨_, h, rfl⟩

theorem replace?_of_firstAt {items : List Filter} {p : Place} {f : Filter} (h : FirstAt id items p f) (new : Filter) :
    replace? id new items = some (f, p.fill [new]) := by
  rw [replace?, h.find?, h.update?]
  rfl

theorem replaced_of_firstAt {items : List Filter} {p : Place} {f : Filter} (h : FirstAt id items p f) (new : Filter) :
    replaced id new items = p.fill [new] := by
  rw [replaced, replace?_of_firstAt h]
  rfl

/-- Finding means the first filter with the id, replacing gives back what finding finds, and exchanges it and nothing
else. If the new filter has the same id it is found afterwards, replacing it by the old one gives the old list, and of
two replacements the second one counts. -/
theorem replaced_laws (id : UInt64) (items : List Filter) (new : Filter) :
    (find? id items = none ↔ id ∉ ids items) ∧
      (replace? id new items).map Prod.fst = find? id items ∧
      (find? id items = none → replaced id new items = items ∧ ∀ edit, update? id edit items = none) ∧
      ∀ f, find? id items = some f → ∃ p, FirstAt id items p f ∧
        (∀ edit, update? id edit items = some (p.fill [edit f])) ∧
        replaced id new items = p.fill [new] ∧
        (new.id = id → find? id (replaced id new items) = some new ∧
          replaced id f (replaced id new items) = items ∧
          ∀ other, replaced id other (replaced id new items) = replaced id other items) := by
  refine ⟨find?_eq_none_iff, ?_, fun hnone => ⟨?_, fun edit => ?_⟩, fun f hf => ?_⟩
  · cases hfound : find? id items with
    | none =>
      rw [replace?, hfound]
      rfl
    | some f =>
      obtain ⟨p, hp⟩ := exists_firstAt hfound
      rw [replace?_of_firstAt hp]
      rfl
  · rw [replaced, replace?, hnone]
    rfl
  · exact update?_eq_none (find?_eq_none_iff.mp hnone)
  · obtain ⟨p, hp⟩ := exists_firstAt hf
    refine ⟨p, hp, hp.update?, replaced_of_firstAt hp new, fun hnew => ?_⟩
    have hafter := hp.refill hnew
    rw [replaced_of_firstAt hp]
    refine ⟨hafter.find?, ?_, fun other => ?_⟩
    · rw [replaced_of_firstAt hafter, hp.fill]
    · rw [replaced_of_firstAt hafter, replaced_of_firstAt hp]

/-- The id stands at two places, and once more inside the new filter. -/
theorem replaced_laws_of_repeated :
    let old : Filter := .condition (.plain 2 "ItemName" .isNull)
    let other : Filter := .condition (.plain 2 "ItemId" .isNull)
    let new : Filter := .group 2 .or [other]
    let items : List Filter := [.group 1 .and [old, .group 3 .or []], other]
    find? 2 items = some old ∧ new.id = 2 ∧
      replaced 2 new items = [.group 1 .and [new, .group 3 .or []], other] ∧
      find? 2 (replaced 2 new items) = some new ∧ replaced 2 old (replaced 2 new items) = items := by
  intro old other new items
  have hfind : find? 2 items = some old := rfl
  obtain ⟨-, -, -, hlaws⟩ := replaced_laws 2 items new
  obtain ⟨p, -, -, -, hsame⟩ := hlaws old hfind
  obtain ⟨hnew, hback, -⟩ := hsame rfl
  exact ⟨hfind, rfl, rfl, hnew, hback⟩

end Filters

end SegmentQuery
