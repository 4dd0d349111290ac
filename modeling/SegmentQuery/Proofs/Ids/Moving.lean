import SegmentQuery.Proofs.Filter.Detaching

namespace SegmentQuery.Filters

/-- What is put into a gap brings its ids to those around the gap. -/
theorem ids_perm_fill (p : Place) (filling : List Filter) :
    (ids (p.fill filling)).Perm (ids filling ++ ids (p.fill [])) := by
  rw [Place.ids_fill, Place.ids_fill_nil, List.append_assoc]
  exact List.perm_append_comm_assoc ..

/-- A member of a list keeps its ids when it is moved to the front. -/
theorem ids_perm_eraseIdx {items : List Filter} {place : Nat} {f : Filter} (h : items[place]? = some f) :
    (ids items).Perm (f.ids ++ ids (items.eraseIdx place)) := by
  obtain ⟨p, hitems, hrest⟩ := Place.exists_fill_eq_of_getElem? h
  rw [← hrest, ← hitems, ← ids_singleton f]
  exact ids_perm_fill p [f]

/-- Detaching takes the ids of the detached filter out of a list, and no others. -/
theorem ids_perm_detach? {id : UInt64} {items rest : List Filter} {taken : Filter}
    (h : detach? id items = some (taken, rest)) : (ids items).Perm (taken.ids ++ ids rest) := by
  obtain ⟨p, hp⟩ := exists_detachedAt h
  rw [← hp.fill, ← hp.fill_nil, ← ids_singleton taken]
  exact ids_perm_fill p [taken]

/-- An edit that adds ids to the filter that it edits adds them to the whole list. -/
theorem ids_perm_update? {id : UInt64} {edit : Filter → Filter} {extra : List UInt64} {items updated : List Filter}
    (hedit : ∀ g, find? id items = some g → (edit g).ids.Perm (extra ++ g.ids))
    (h : update? id edit items = some updated) : (ids updated).Perm (extra ++ ids items) := by
  cases hfind : find? id items with
  | none =>
    rw [update?_eq_none (find?_eq_none_iff.mp hfind)] at h
    cases h
  | some f =>
    obtain ⟨p, hp⟩ := exists_firstAt hfind
    rw [hp.update?] at h
    cases h
    have hedited := ids_perm_fill p [edit f]
    have hitems := ids_perm_fill p [f]
    rw [ids_singleton] at hedited hitems
    rw [hp.fill] at hitems
    calc
      List.Perm (ids (p.fill [edit f])) ((edit f).ids ++ ids (p.fill [])) := hedited
      List.Perm _ (extra ++ f.ids ++ ids (p.fill [])) := (hedit f hfind).append_right _
      List.Perm _ (extra ++ ids items) := by
        rw [List.append_assoc]
        exact hitems.symm.append_left extra

/-- Attaching adds the ids of the attached filter to a list, and no others. -/
theorem ids_perm_attach? {new : Filter} {parent : Option UInt64} {items updated : List Filter}
    (h : attach? new parent items = some updated) : (ids updated).Perm (new.ids ++ ids items) := by
  cases parent with
  | none =>
    cases h
    rw [ids_append, ids_singleton]
    exact List.perm_append_comm
  | some id =>
    rw [attach?] at h
    split at h
    · next gid k children hfound =>
      refine ids_perm_update? (fun g hg => ?_) h
      rw [hfound] at hg
      cases hg
      rw [Filter.addChild, Filter.ids, Filter.ids, ids_append, ids_singleton]
      exact (List.perm_append_comm.cons gid).trans List.perm_middle.symm
    · cases h

end SegmentQuery.Filters
