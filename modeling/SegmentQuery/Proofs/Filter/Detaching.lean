import SegmentQuery.Proofs.Filter.Finding

namespace SegmentQuery

variable {id : UInt64}

namespace Place

/-- The filters that stand behind the groups around the place, each in the same list as its group. -/
def behind : Place → List Filter
  | between _ _ => []
  | inside _ _ _ place after => place.behind ++ after

/-- No filter that is looked at before the place has the id: none before it in its own list, and for every group around
it none in the list of the group, nor inside those that stand there before the group. -/
def IsNearest (id : UInt64) : Place → Prop
  | between before _ => ∀ f ∈ before, f.id ≠ id
  | inside before gid _ place after =>
    id ∉ Filters.ids before ∧ gid ≠ id ∧ place.IsNearest id ∧ ∀ f ∈ after, f.id ≠ id

theorem IsNearest.around {p : Place} (h : p.IsNearest id) {front back : List Filter} (hfront : id ∉ Filters.ids front)
    (hback : ∀ f ∈ back, f.id ≠ id) : (p.around front back).IsNearest id := by
  cases p with
  | between before after =>
    intro f hf
    rcases List.mem_append.mp hf with hf | hf
    · exact Filters.id_ne_of_not_mem_ids hfront f hf
    · exact h f hf
  | inside before gid k p after =>
    obtain ⟨hbefore, hgid, hp, hafter⟩ := h
    refine ⟨?_, hgid, hp, fun f hf => ?_⟩
    · rw [Filters.ids_append, List.mem_append, not_or]
      exact ⟨hfront, hbefore⟩
    · exact (List.mem_append.mp hf).elim (hafter f) (hback f)

/-- The first place of an id is also the one that is looked at first, unless a filter with the id stands behind a group
around it. -/
theorem IsFirst.isNearest_iff {p : Place} (h : p.IsFirst id) : p.IsNearest id ↔ ∀ f ∈ p.behind, f.id ≠ id := by
  induction p with
  | between before after =>
    rw [isFirst_between] at h
    exact iff_of_true (Filters.id_ne_of_not_mem_ids h) fun f hf => absurd hf List.not_mem_nil
  | inside before gid k p after ih =>
    rw [isFirst_inside] at h
    obtain ⟨hbefore, hgid, hp⟩ := h
    simp only [IsNearest, behind, hbefore, hgid, ih hp, List.mem_append, or_imp, forall_and, ne_eq, not_false_eq_true,
      true_and]

theorem id_mem_later_of_mem_behind {p : Place} {f : Filter} (h : f ∈ p.behind) : f.id ∈ p.later.map Head.id := by
  induction p with
  | between before after => cases h
  | inside before gid k p after ih =>
    rw [later, List.map_append, List.mem_append, Filters.map_id_heads]
    rcases List.mem_append.mp h with hp | hafter
    · exact .inl (ih hp)
    · exact .inr (Filters.id_mem_ids hafter)

end Place

namespace Filters

/-- A filter with an id stands at a place of a list, it is looked at before the others with the id, and without it the
list is `rest`. -/
structure DetachedAt (id : UInt64) (items rest : List Filter) (p : Place) (taken : Filter) : Prop where
  fill : p.fill [taken] = items
  fill_nil : p.fill [] = rest
  id_eq : taken.id = id
  isNearest : p.IsNearest id

/-- The list after detaching: as before if there was nothing to detach. -/
def remaining (id : UInt64) (items : List Filter) : List Filter := (detach? id items).elim items Prod.snd

theorem takeMember?_eq_none_iff {items : List Filter} : takeMember? id items = none ↔ ∀ f ∈ items, f.id ≠ id := by
  induction items with
  | nil => exact iff_of_true rfl fun f hf => absurd hf List.not_mem_nil
  | cons f rest ih =>
    rw [takeMember?, List.forall_mem_cons]
    split
    · next hid => exact iff_of_false (Option.some_ne_none _) fun h => h.1 hid
    · next hid => rw [Option.map_eq_none_iff, ih, and_iff_right hid]

theorem takeMember?_append {before : List Filter} (h : ∀ f ∈ before, f.id ≠ id) {f : Filter} (hid : f.id = id)
    (after : List Filter) : takeMember? id (before ++ f :: after) = some (f, before ++ after) := by
  induction before with
  | nil => rw [List.nil_append, takeMember?, if_pos hid, List.nil_append]
  | cons g rest ih =>
    obtain ⟨hg, hrest⟩ := List.forall_mem_cons.mp h
    rw [List.cons_append, takeMember?, if_neg hg, ih hrest]
    rfl

theorem exists_of_takeMember? {items rest : List Filter} {taken : Filter}
    (h : takeMember? id items = some (taken, rest)) :
    ∃ before after, DetachedAt id items rest (.between before after) taken := by
  induction items generalizing rest with
  | nil => cases h
  | cons f items ih =>
    rw [takeMember?] at h
    split at h
    · next hid =>
      cases h
      exact ⟨[], items, rfl, rfl, hid, fun g hg => absurd hg List.not_mem_nil⟩
    · next hid =>
      obtain ⟨⟨found, left⟩, hfound, heq⟩ := Option.map_eq_some_iff.mp h
      cases heq
      obtain ⟨before, after, hat⟩ := ih hfound
      refine ⟨f :: before, after, ?_, ?_, hat.id_eq, List.forall_mem_cons.mpr ⟨hid, hat.isNearest⟩⟩
      · exact congrArg (f :: ·) hat.fill
      · exact congrArg (f :: ·) hat.fill_nil

private theorem detach?_eq_none_iff_of_inside {items : List Filter}
    (h : (∀ f ∈ items, f.id ≠ id) → (detachInside? id items = none ↔ id ∉ ids items)) :
    detach? id items = none ↔ id ∉ ids items := by
  rw [detach?, Option.or_eq_none_iff, takeMember?_eq_none_iff]
  exact ⟨fun hnone => (h hnone.1).mp hnone.2,
    fun hid => ⟨id_ne_of_not_mem_ids hid, (h (id_ne_of_not_mem_ids hid)).mpr hid⟩⟩

end Filters

mutual

theorem Filter.detachInside?_eq_none_iff : ∀ {f : Filter}, f.id ≠ id → (f.detachInside? id = none ↔ id ∉ f.ids)
  | .condition c, h => by
    rw [Filter.ids, List.mem_singleton]
    exact iff_of_true rfl (Ne.symm h)
  | .group gid k children, h => by
    have hchildren : Filters.detach? id children = none ↔ id ∉ Filters.ids children :=
      Filters.detach?_eq_none_iff_of_inside Filters.detachInside?_eq_none_iff
    have hid : id ≠ gid := Ne.symm h
    rw [Filter.ids, List.mem_cons, not_or, and_iff_right hid, ← hchildren]
    exact Option.map_eq_none_iff

theorem Filters.detachInside?_eq_none_iff : ∀ {items : List Filter}, (∀ f ∈ items, f.id ≠ id) →
    (Filters.detachInside? id items = none ↔ id ∉ Filters.ids items)
  | [], _ => iff_of_true rfl List.not_mem_nil
  | f :: rest, h => by
    obtain ⟨hf, hrest⟩ := List.forall_mem_cons.mp h
    rw [Filters.detachInside?, Filters.ids, List.mem_append, not_or, ← Filter.detachInside?_eq_none_iff hf,
      ← Filters.detachInside?_eq_none_iff hrest]
    split
    · next hsome => simp [hsome]
    · next hnone => rw [Option.map_eq_none_iff, and_iff_right hnone]

end

namespace Filters

theorem detach?_eq_none_iff {items : List Filter} : detach? id items = none ↔ id ∉ ids items :=
  detach?_eq_none_iff_of_inside detachInside?_eq_none_iff

namespace DetachedAt

variable {items rest : List Filter} {p : Place} {taken : Filter}

theorem around (h : DetachedAt id items rest p taken) {front back : List Filter} (hfront : id ∉ ids front)
    (hback : ∀ f ∈ back, f.id ≠ id) :
    DetachedAt id (front ++ items ++ back) (front ++ rest ++ back) (p.around front back) taken where
  fill := by rw [Place.fill_around, h.fill]
  fill_nil := by rw [Place.fill_around, h.fill_nil]
  id_eq := h.id_eq
  isNearest := h.isNearest.around hfront hback

theorem inside (h : DetachedAt id items rest p taken) {gid : UInt64} (hgid : gid ≠ id) (k : Connector) :
    DetachedAt id [.group gid k items] [.group gid k rest] (.inside [] gid k p []) taken where
  fill := by rw [Place.fill, h.fill, List.nil_append]
  fill_nil := by rw [Place.fill, h.fill_nil, List.nil_append]
  id_eq := h.id_eq
  isNearest := ⟨List.not_mem_nil, hgid, h.isNearest, fun f hf => absurd hf List.not_mem_nil⟩

end DetachedAt

end Filters

mutual

theorem Filter.exists_of_detachInside? : ∀ {f left taken : Filter}, f.id ≠ id →
    f.detachInside? id = some (taken, left) → ∃ p, Filters.DetachedAt id [f] [left] p taken
  | .condition c, _, _, _, h => by cases h
  | .group gid k children, left, taken, hid, h => by
    obtain ⟨⟨found, rest⟩, hfound, heq⟩ := Option.map_eq_some_iff.mp h
    cases heq
    rcases Option.or_eq_some_iff.mp hfound with hmember | ⟨hmembers, hinside⟩
    · obtain ⟨before, after, hat⟩ := Filters.exists_of_takeMember? hmember
      exact ⟨_, hat.inside hid k⟩
    · obtain ⟨p, hat⟩ := Filters.exists_of_detachInside? (Filters.takeMember?_eq_none_iff.mp hmembers) hinside
      exact ⟨_, hat.inside hid k⟩

theorem Filters.exists_of_detachInside? : ∀ {items rest : List Filter} {taken : Filter}, (∀ f ∈ items, f.id ≠ id) →
    Filters.detachInside? id items = some (taken, rest) → ∃ p, Filters.DetachedAt id items rest p taken
  | [], _, _, _, h => by cases h
  | f :: items, rest, taken, hmembers, h => by
    obtain ⟨hf, hitems⟩ := List.forall_mem_cons.mp hmembers
    rw [Filters.detachInside?] at h
    split at h
    · next found left hfound =>
      cases h
      obtain ⟨p, hat⟩ := Filter.exists_of_detachInside? hf hfound
      have hfront : id ∉ Filters.ids [] := List.not_mem_nil
      exact ⟨_, hat.around hfront hitems⟩
    · next hnone =>
      obtain ⟨⟨found, left⟩, hfound, heq⟩ := Option.map_eq_some_iff.mp h
      cases heq
      obtain ⟨p, hat⟩ := Filters.exists_of_detachInside? hitems hfound
      have hfront : id ∉ Filters.ids [f] := by
        rw [Filters.ids_singleton]
        exact (Filter.detachInside?_eq_none_iff hf).mp hnone
      have hback : ∀ g ∈ ([] : List Filter), g.id ≠ id := fun g hg => absurd hg List.not_mem_nil
      have haround := hat.around hfront hback
      rw [List.append_nil, List.append_nil] at haround
      exact ⟨_, haround⟩

end

namespace Filters

theorem exists_detachedAt {items rest : List Filter} {taken : Filter} (h : detach? id items = some (taken, rest)) :
    ∃ p, DetachedAt id items rest p taken := by
  rcases Option.or_eq_some_iff.mp h with hmember | ⟨hmembers, hinside⟩
  · obtain ⟨before, after, hat⟩ := exists_of_takeMember? hmember
    exact ⟨_, hat⟩
  · exact exists_of_detachInside? (takeMember?_eq_none_iff.mp hmembers) hinside

theorem detachInside?_append_of_not_mem {front : List Filter} (h : id ∉ ids front) (items : List Filter) :
    detachInside? id (front ++ items) =
      (detachInside? id items).map fun (taken, rest) => (taken, front ++ rest) := by
  induction front with
  | nil => exact Option.map_id'.symm
  | cons f front ih =>
    rw [ids, List.mem_append, not_or] at h
    have hf : f.id ≠ id := fun heq => h.1 (heq ▸ f.id_mem_ids)
    simp only [List.cons_append, detachInside?, (Filter.detachInside?_eq_none_iff hf).mpr h.1, ih h.2, Option.map_map]
    rfl

/-- Nothing outside a group is detached if something inside it is looked at first. -/
theorem detach?_inside {before after children left : List Filter} {gid : UInt64} {taken : Filter}
    (hbefore : id ∉ ids before) (hgid : gid ≠ id) (hafter : ∀ f ∈ after, f.id ≠ id) (k : Connector)
    (h : detach? id children = some (taken, left)) :
    detach? id (before ++ .group gid k children :: after) = some (taken, before ++ .group gid k left :: after) := by
  have hmembers : ∀ f ∈ before ++ .group gid k children :: after, f.id ≠ id := by
    rw [List.forall_mem_append, List.forall_mem_cons]
    exact ⟨id_ne_of_not_mem_ids hbefore, hgid, hafter⟩
  have hgroup : (Filter.group gid k children).detachInside? id = some (taken, .group gid k left) := by
    rw [Filter.detachInside?, ← detach?, h]
    rfl
  rw [detach?, takeMember?_eq_none_iff.mpr hmembers, Option.none_or, detachInside?_append_of_not_mem hbefore,
    detachInside?, hgroup]
  rfl

theorem detach?_fill {p : Place} {f : Filter} (hnearest : p.IsNearest id) (hid : f.id = id) :
    detach? id (p.fill [f]) = some (f, p.fill []) := by
  induction p with
  | between before after =>
    rw [Place.fill, Place.fill, List.append_assoc, List.singleton_append, List.append_nil, detach?,
      takeMember?_append hnearest hid, Option.some_or]
  | inside before gid k p after ih =>
    obtain ⟨hbefore, hgid, hp, hafter⟩ := hnearest
    exact detach?_inside hbefore hgid hafter k (ih hp)

/-- The first filter with an id is not detached unless its place is looked at first. -/
theorem isNearest_of_detach?_fill {p : Place} {f : Filter} (hfirst : p.IsFirst id)
    (h : detach? id (p.fill [f]) = some (f, p.fill [])) (hid : f.id = id) : p.IsNearest id := by
  induction p with
  | between before after =>
    rw [Place.isFirst_between] at hfirst
    exact id_ne_of_not_mem_ids hfirst
  | inside before gid k p after ih =>
    rw [Place.isFirst_inside] at hfirst
    obtain ⟨hbefore, hgid, hp⟩ := hfirst
    rw [Place.fill, Place.fill] at h
    cases hmember : takeMember? id (before ++ .group gid k (p.fill [f]) :: after) with
    | some found =>
      -- A member would be missing from the list, but the list has as many members as before.
      obtain ⟨taken, rest⟩ := found
      rw [detach?, hmember, Option.some_or] at h
      cases h
      obtain ⟨front, back, hat⟩ := exists_of_takeMember? hmember
      have hlength := congrArg List.length hat.fill
      have hlength' := congrArg List.length hat.fill_nil
      simp only [Place.fill, List.length_append, List.length_cons, List.length_nil] at hlength hlength'
      omega
    | none =>
      have hmembers := takeMember?_eq_none_iff.mp hmember
      rw [List.forall_mem_append, List.forall_mem_cons] at hmembers
      obtain ⟨-, -, hafter⟩ := hmembers
      cases hinner : detach? id (p.fill [f]) with
      | none => exact absurd (hid ▸ p.mem_ids_fill f) (detach?_eq_none_iff.mp hinner)
      | some found =>
        obtain ⟨taken, left⟩ := found
        rw [detach?_inside hbefore hgid hafter k hinner] at h
        simp only [Option.some.injEq, Prod.mk.injEq, List.append_cancel_left_eq, List.cons.injEq, Filter.group.injEq,
          true_and, and_true] at h
        obtain ⟨rfl, rfl⟩ := h
        exact ⟨hbefore, hgid, ih hp hinner, hafter⟩

/-- The first filter with an id is the one that is detached exactly if no filter with the id stands behind a group
around it, in the list of that group. -/
theorem FirstAt.detach?_eq_iff {items : List Filter} {p : Place} {f : Filter} (h : FirstAt id items p f) :
    detach? id items = some (f, p.fill []) ↔ ∀ g ∈ p.behind, g.id ≠ id := by
  rw [← h.isFirst.isNearest_iff, ← h.fill]
  exact ⟨fun hdetach => isNearest_of_detach?_fill h.isFirst hdetach h.id_eq,
    fun hnearest => detach?_fill hnearest h.id_eq⟩

/-- Distinct ids do not stand behind each other. -/
theorem FirstAt.behind_of_nodup {items : List Filter} {p : Place} {f : Filter} (h : FirstAt id items p f)
    (hnodup : (ids items).Nodup) : ∀ g ∈ p.behind, g.id ≠ id := by
  intro g hg heq
  have hf : id ∈ ids [f] := h.id_eq ▸ id_mem_ids (List.mem_singleton_self f)
  have haround := Place.not_mem_ids_fill_nil (h.fill ▸ hnodup) hf
  rw [Place.ids_fill_nil, List.mem_append, not_or] at haround
  exact haround.2 (heq ▸ Place.id_mem_later_of_mem_behind hg)

/-- Detaching finds something exactly if there is a filter with the id. What it takes out leaves a gap at a place of the
tree: with the place filled the tree is the old one, and empty it is the new one. So the heads and the conditions that
are left are all but those of the detached filter, which stood side by side, and distinct ids in it are gone. -/
theorem detached_leaves_gap (id : UInt64) (items : List Filter) :
    (detach? id items = none ↔ id ∉ ids items) ∧
      (detach? id items = none → remaining id items = items) ∧
      ∀ taken rest, detach? id items = some (taken, rest) → remaining id items = rest ∧ taken.id = id ∧
        (∃ p : Place, items = p.fill [taken] ∧ rest = p.fill [] ∧
          heads items = p.earlier ++ taken.heads ++ p.later ∧ heads rest = p.earlier ++ p.later ∧
          conditions items = p.earlier.filterMap Head.condition? ++ conditions [taken] ++
            p.later.filterMap Head.condition? ∧
          conditions rest = p.earlier.filterMap Head.condition? ++ p.later.filterMap Head.condition?) ∧
        ((ids items).Nodup → find? id rest = none ∧ ∀ inner ∈ taken.ids, find? inner rest = none) := by
  refine ⟨detach?_eq_none_iff, fun hnone => ?_, fun taken rest h => ?_⟩
  · rw [remaining, hnone]
    rfl
  · obtain ⟨p, hp⟩ := exists_detachedAt h
    refine ⟨?_, hp.id_eq, ⟨p, hp.fill.symm, hp.fill_nil.symm, ?_, ?_, ?_, ?_⟩, fun hnodup => ?_⟩
    · rw [remaining, h]
      rfl
    · rw [← hp.fill, Place.heads_fill, heads_singleton]
    · rw [← hp.fill_nil, Place.heads_fill, heads, List.append_nil]
    · rw [← hp.fill, Place.conditions_fill]
    · rw [← hp.fill_nil, Place.conditions_fill, conditions, List.append_nil]
    · have hgone : ∀ inner ∈ taken.ids, find? inner rest = none := by
        intro inner hinner
        rw [← hp.fill] at hnodup
        rw [← hp.fill_nil, find?_eq_none_iff]
        exact Place.not_mem_ids_fill_nil hnodup (by rwa [ids_singleton])
      exact ⟨hgone id (hp.id_eq ▸ taken.id_mem_ids), hgone⟩

/-- A group that is inside another one is detached with the condition inside it. -/
theorem detached_leaves_gap_of_nested_group :
    let first : Filter := .condition (.plain 1 "ItemName" .isNull)
    let third : Filter := .condition (.plain 3 "SeasonNumber" .isNull)
    let taken : Filter := .group 4 .and [.condition (.plain 5 "HasIntro" .isNull)]
    let items : List Filter := [first, .group 2 .or [third, taken]]
    let rest : List Filter := [first, .group 2 .or [third]]
    detach? 4 items = some (taken, rest) ∧ (ids items).Nodup ∧ remaining 4 items = rest ∧
      find? 4 rest = none ∧ find? 5 rest = none ∧ ∃ p : Place, items = p.fill [taken] ∧ rest = p.fill [] := by
  intro first third taken items rest
  have hdetach : detach? 4 items = some (taken, rest) := rfl
  have hids : (ids items).Nodup := by decide
  obtain ⟨-, -, hgap⟩ := detached_leaves_gap 4 items
  obtain ⟨hrest, -, ⟨p, hitems, hp, -⟩, hgone⟩ := hgap taken rest hdetach
  obtain ⟨hfour, hinner⟩ := hgone hids
  exact ⟨hdetach, hids, hrest, hfour, hinner 5 (by decide), p, hitems, hp⟩

end Filters

end SegmentQuery
