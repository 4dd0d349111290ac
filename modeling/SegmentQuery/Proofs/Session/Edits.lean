import SegmentQuery.Proofs.Ids.Session

namespace SegmentQuery

namespace Session

theorem id_changeOperator (op : Operator) (f : Filter) : (changeOperator op f).id = f.id := by
  cases f with
  | condition c =>
    rw [changeOperator, Filter.id, Filter.id, Condition.clearUnused]
    split <;> rfl
  | group => rfl

theorem setOperator?_of_firstAt {s : Session} {id : UInt64} {p : Place} {c : Condition}
    (h : Filters.FirstAt id s.query.items p (.condition c)) (op : Operator) :
    s.setOperator? id op = some (s.withItems (p.fill [changeOperator op (.condition c)])) := by
  rw [setOperator?, h.find?, h.update?]
  rfl

theorem remove?_eq_iff {s : Session} {id : UInt64} {taken : Filter} {items : List Filter} :
    s.remove? id = some (taken, s.withItems items) ↔ Filters.detach? id s.query.items = some (taken, items) := by
  rw [remove?, Option.map_eq_some_iff]
  constructor
  · rintro ⟨⟨found, rest⟩, hfound, heq⟩
    cases heq
    exact hfound
  · exact fun h => ⟨_, h, rfl⟩

end Session

namespace Filters

/-- Detaching takes out a filter exactly if finding finds one. It is the one that is found, the first with the id in
document order and the one that a session edits, exactly if no other with the id stands behind a group around it, in the
list of that group; so it is if ids are distinct. In any case it is the one at the place that is looked at first. -/
theorem detached_is_found_iff (id : UInt64) (items : List Filter) :
    (detach? id items = none ↔ find? id items = none) ∧
      ∀ f, find? id items = some f → ∃ p, FirstAt id items p f ∧
        (detach? id items = some (f, p.fill []) ↔ ∀ g ∈ p.behind, g.id ≠ id) ∧
        ((ids items).Nodup → ∀ g ∈ p.behind, g.id ≠ id) ∧
        (∃ taken q, detach? id items = some (taken, q.fill []) ∧ DetachedAt id items (q.fill []) q taken) ∧
        ∀ s : Session, s.query.items = items →
          (∀ c op, f = .condition c →
            s.setOperator? id op = some (s.withItems (p.fill [Session.changeOperator op f]))) ∧
          (s.remove? id = some (f, s.withItems (p.fill [])) ↔ ∀ g ∈ p.behind, g.id ≠ id) := by
  refine ⟨detach?_eq_none_iff.trans find?_eq_none_iff.symm, fun f hf => ?_⟩
  obtain ⟨p, hp⟩ := exists_firstAt hf
  refine ⟨p, hp, hp.detach?_eq_iff, hp.behind_of_nodup, ?_, ?_⟩
  · cases hdetach : detach? id items with
    | none =>
      rw [find?_eq_none_iff.mpr (detach?_eq_none_iff.mp hdetach)] at hf
      cases hf
    | some found =>
      obtain ⟨taken, rest⟩ := found
      obtain ⟨q, hq⟩ := exists_detachedAt hdetach
      obtain rfl := hq.fill_nil
      exact ⟨taken, q, rfl, hq⟩
  · rintro s rfl
    refine ⟨fun c op hc => ?_, Session.remove?_eq_iff.trans hp.detach?_eq_iff⟩
    subst hc
    exact Session.setOperator?_of_firstAt hp op

/-- The found condition is inside a group, and the detached one stands behind that group. -/
theorem detached_is_found_iff_of_repeated :
    let nested : Filter := .condition (.plain 2 "ItemName" .isNull)
    let behind : Filter := .condition (.plain 2 "ItemId" .isNull)
    let items : List Filter := [.group 1 .and [nested], behind]
    find? 2 items = some nested ∧ detach? 2 items = some (behind, [.group 1 .and [nested]]) ∧
      ∃ p, FirstAt 2 items p nested ∧ ∃ g ∈ p.behind, g.id = 2 := by
  intro nested behind items
  have hfind : find? 2 items = some nested := rfl
  have hdetach : detach? 2 items = some (behind, [.group 1 .and [nested]]) := rfl
  obtain ⟨p, hp, hiff, -⟩ := (detached_is_found_iff 2 items).2 nested hfind
  refine ⟨hfind, hdetach, p, hp, ?_⟩
  by_contra hnone
  have hsame := hiff.mpr fun g hg heq => hnone ⟨g, hg, heq⟩
  rw [hdetach] at hsame
  simp [nested, behind, Condition.plain] at hsame

end Filters

namespace Session

/-- An edit of one filter of the query. -/
inductive Edit where
  | remove (id : UInt64)
  | setOperator (id : UInt64) (op : Operator)

namespace Edit

/-- The id of the filter that is edited. -/
def id : Edit → UInt64
  | remove id => id
  | setOperator id _ => id

/-- What stands in the place of the filter afterwards. -/
def outcome : Edit → Filter → List Filter
  | remove _, _ => []
  | setOperator _ op, f => [changeOperator op f]

end Edit

/-- The session after an edit. Nothing changes if it cannot be done. -/
def edit (s : Session) : Edit → Session
  | .remove id => (s.remove? id).elim s Prod.snd
  | .setOperator id op => (s.setOperator? id op).getD s

end Session

mutual

/-- What becomes of a filter if every filter with the id of an edit is edited. -/
def Filter.edited (e : Session.Edit) : Filter → List Filter
  | .condition c => if c.id = e.id then e.outcome (.condition c) else [.condition c]
  | .group id k children =>
    if id = e.id then e.outcome (.group id k children) else [.group id k (Filters.edited e children)]

/-- What becomes of a list of filters if every filter with the id of an edit is edited. -/
def Filters.edited (e : Session.Edit) : List Filter → List Filter
  | [] => []
  | f :: rest => f.edited e ++ Filters.edited e rest

end

section

variable {e : Session.Edit}

theorem Filter.edited_of_id {f : Filter} (h : f.id = e.id) : f.edited e = e.outcome f := by
  cases f with
  | condition c => exact if_pos h
  | group gid k children => exact if_pos h

theorem Filter.edited_condition {c : Condition} (h : (condition c).id ≠ e.id) :
    (condition c).edited e = [.condition c] := if_neg h

theorem Filter.edited_group {gid : UInt64} {k : Connector} {children : List Filter}
    (h : (group gid k children).id ≠ e.id) :
    (group gid k children).edited e = [.group gid k (Filters.edited e children)] := if_neg h

theorem Filters.edited_append (items more : List Filter) : edited e (items ++ more) = edited e items ++ edited e more := by
  induction items with
  | nil => rfl
  | cons f rest ih => rw [List.cons_append, edited, edited, ih, List.append_assoc]

theorem Filters.edited_singleton (f : Filter) : edited e [f] = f.edited e := by
  rw [edited, edited, List.append_nil]

mutual

theorem Filter.edited_of_not_mem : ∀ {f : Filter}, e.id ∉ f.ids → f.edited e = [f]
  | .condition c, h => Filter.edited_condition fun hid => h (List.mem_singleton.mpr hid.symm)
  | .group gid k children, h => by
    rw [Filter.ids, List.mem_cons, not_or] at h
    have hgid : (Filter.group gid k children).id ≠ e.id := Ne.symm h.1
    rw [Filter.edited_group hgid, Filters.edited_of_not_mem h.2]

theorem Filters.edited_of_not_mem : ∀ {items : List Filter}, e.id ∉ Filters.ids items → Filters.edited e items = items
  | [], _ => rfl
  | f :: rest, h => by
    rw [Filters.ids, List.mem_append, not_or] at h
    rw [Filters.edited, Filter.edited_of_not_mem h.1, Filters.edited_of_not_mem h.2, List.singleton_append]

end

theorem Filters.edited_fill {p : Place} {f : Filter} (hearlier : e.id ∉ p.earlier.map Head.id)
    (hlater : e.id ∉ p.later.map Head.id) (hid : f.id = e.id) : edited e (p.fill [f]) = p.fill (e.outcome f) := by
  induction p with
  | between before after =>
    rw [Place.earlier, map_id_heads] at hearlier
    rw [Place.later, map_id_heads] at hlater
    rw [Place.fill, Place.fill, edited_append, edited_append, edited_of_not_mem hearlier, edited_of_not_mem hlater,
      edited_singleton, Filter.edited_of_id hid]
  | inside before gid k p after ih =>
    rw [Place.earlier, List.map_append, List.map_cons, map_id_heads, List.mem_append, List.mem_cons, not_or,
      not_or] at hearlier
    rw [Place.later, List.map_append, map_id_heads, List.mem_append, not_or] at hlater
    obtain ⟨hbefore, hhead, hearlier⟩ := hearlier
    have hgid : (Filter.group gid k (p.fill [f])).id ≠ e.id := Ne.symm hhead
    rw [Place.fill, Place.fill, edited_append, edited, edited_of_not_mem hbefore, edited_of_not_mem hlater.2,
      Filter.edited_group hgid, ih hearlier hlater.1, List.singleton_append]

/-- Where ids are distinct, editing the filter at a place edits all filters with its id. -/
theorem Filters.edited_fill_of_nodup {p : Place} {f : Filter} (h : (ids (p.fill [f])).Nodup) (hid : f.id = e.id) :
    edited e (p.fill [f]) = p.fill (e.outcome f) := by
  have hf : e.id ∈ ids [f] := hid ▸ id_mem_ids (List.mem_singleton_self f)
  have haround := Place.not_mem_ids_fill_nil h hf
  rw [Place.ids_fill_nil, List.mem_append, not_or] at haround
  exact edited_fill haround.1 haround.2 hid

theorem Session.Edit.ids_outcome_sublist (e : Edit) (f : Filter) : (Filters.ids (e.outcome f)).Sublist f.ids := by
  cases e with
  | remove id => exact List.nil_sublist _
  | setOperator id op =>
    rw [outcome, Filters.ids_singleton, Desk.ids_changeOperator]

mutual

theorem Filter.ids_edited_sublist : ∀ f : Filter, (Filters.ids (f.edited e)).Sublist f.ids
  | .condition c => by
    by_cases hid : (Filter.condition c).id = e.id
    · rw [Filter.edited_of_id hid]
      exact e.ids_outcome_sublist _
    · rw [Filter.edited_condition hid, Filters.ids_singleton]
  | .group gid k children => by
    by_cases hid : (Filter.group gid k children).id = e.id
    · rw [Filter.edited_of_id hid]
      exact e.ids_outcome_sublist _
    · rw [Filter.edited_group hid, Filters.ids_singleton]
      exact (Filters.ids_edited_sublist children).cons_cons gid

theorem Filters.ids_edited_sublist : ∀ items : List Filter,
    (Filters.ids (Filters.edited e items)).Sublist (Filters.ids items)
  | [] => List.Sublist.refl _
  | f :: rest => by
    rw [Filters.edited, Filters.ids_append]
    exact (Filter.ids_edited_sublist f).append (Filters.ids_edited_sublist rest)

end

end

section

variable {a b : Session.Edit}

/-- What stands in the place of an edited filter is edited by another edit as the filter itself would have been. -/
theorem Filters.edited_outcome {f : Filter} (hid : f.id = a.id) (h : a.id ≠ b.id) :
    edited b (a.outcome f) = edited a (f.edited b) := by
  have hb : f.id ≠ b.id := hid ▸ h
  cases f with
  | condition c =>
    rw [Filter.edited_condition hb, edited_singleton, Filter.edited_of_id hid]
    cases a with
    | remove id => rfl
    | setOperator id op =>
      have hchanged : (Session.changeOperator op (.condition c)).id ≠ b.id := by rwa [Session.id_changeOperator]
      exact (edited_singleton _).trans (Filter.edited_condition hchanged)
  | group gid k children =>
    have hinside : (Filter.group gid k (edited b children)).id = a.id := hid
    rw [Filter.edited_group hb, edited_singleton, Filter.edited_of_id hinside]
    cases a with
    | remove id => rfl
    | setOperator id op => exact (edited_singleton _).trans (Filter.edited_group hb)

mutual

theorem Filter.edited_comm (h : a.id ≠ b.id) : ∀ f : Filter,
    Filters.edited b (f.edited a) = Filters.edited a (f.edited b)
  | .condition c => by
    by_cases ha : (Filter.condition c).id = a.id
    · rw [Filter.edited_of_id ha, Filters.edited_outcome ha h]
    · by_cases hb : (Filter.condition c).id = b.id
      · rw [Filter.edited_of_id hb, Filters.edited_outcome hb (Ne.symm h)]
      · rw [Filter.edited_condition ha, Filter.edited_condition hb, Filters.edited_singleton, Filters.edited_singleton,
          Filter.edited_condition ha, Filter.edited_condition hb]
  | .group gid k children => by
    by_cases ha : (Filter.group gid k children).id = a.id
    · rw [Filter.edited_of_id ha, Filters.edited_outcome ha h]
    · by_cases hb : (Filter.group gid k children).id = b.id
      · rw [Filter.edited_of_id hb, Filters.edited_outcome hb (Ne.symm h)]
      · have ha' : (Filter.group gid k (Filters.edited b children)).id ≠ a.id := ha
        have hb' : (Filter.group gid k (Filters.edited a children)).id ≠ b.id := hb
        rw [Filter.edited_group ha, Filter.edited_group hb, Filters.edited_singleton, Filters.edited_singleton,
          Filter.edited_group ha', Filter.edited_group hb', Filters.edited_comm h children]

theorem Filters.edited_comm (h : a.id ≠ b.id) : ∀ items : List Filter,
    Filters.edited b (Filters.edited a items) = Filters.edited a (Filters.edited b items)
  | [] => rfl
  | f :: rest => by
    rw [Filters.edited, Filters.edited, Filters.edited_append, Filters.edited_append, Filter.edited_comm h f,
      Filters.edited_comm h rest]

end

end

namespace Session

variable {s : Session}

theorem edit_of_not_mem {e : Edit} (h : e.id ∉ Filters.ids s.query.items) : s.edit e = s := by
  cases e with
  | remove id =>
    have hnone : Filters.detach? id s.query.items = none := Filters.detach?_eq_none_iff.mpr h
    rw [edit, remove?, hnone]
    rfl
  | setOperator id op =>
    have hnone : Filters.find? id s.query.items = none := Filters.find?_eq_none_iff.mpr h
    rw [edit, setOperator?, hnone]
    rfl

theorem edit_setOperator_group {id gid : UInt64} {k : Connector} {children : List Filter} (op : Operator)
    (h : Filters.find? id s.query.items = some (.group gid k children)) : s.edit (.setOperator id op) = s := by
  rw [edit, setOperator?, h]
  rfl

theorem edit_remove_eq_withItems (hids : (Filters.ids s.query.items).Nodup) {id : UInt64}
    (hmem : id ∈ Filters.ids s.query.items) :
    s.edit (.remove id) = s.withItems (Filters.edited (.remove id) s.query.items) := by
  cases hdetach : Filters.detach? id s.query.items with
  | none => exact absurd hmem (Filters.detach?_eq_none_iff.mp hdetach)
  | some found =>
    obtain ⟨taken, rest⟩ := found
    obtain ⟨p, hp⟩ := Filters.exists_detachedAt hdetach
    have hedited : Filters.edited (.remove id) s.query.items = rest := by
      rw [← hp.fill, ← hp.fill_nil]
      exact Filters.edited_fill_of_nodup (hp.fill ▸ hids) hp.id_eq
    rw [edit, remove?_eq_iff.mpr hdetach, hedited]
    rfl

theorem edit_setOperator_eq_withItems (hids : (Filters.ids s.query.items).Nodup) {id : UInt64}
    (hmem : id ∈ Filters.ids s.query.items) (op : Operator) :
    s.edit (.setOperator id op) = s.withItems (Filters.edited (.setOperator id op) s.query.items) := by
  cases hfind : Filters.find? id s.query.items with
  | none => exact absurd hmem (Filters.find?_eq_none_iff.mp hfind)
  | some f =>
    obtain ⟨p, hp⟩ := Filters.exists_firstAt hfind
    have hedited : Filters.edited (.setOperator id op) s.query.items = p.fill [changeOperator op f] := by
      rw [← hp.fill]
      exact Filters.edited_fill_of_nodup (hp.fill ▸ hids) hp.id_eq
    cases f with
    | condition c =>
      rw [edit, setOperator?_of_firstAt hp, hedited]
      rfl
    | group gid k children =>
      -- A group stays as it is, so the edited list is the old one.
      rw [edit_setOperator_group op hfind, hedited, changeOperator, hp.fill]
      rfl

/-- Where ids are distinct, an edit edits every filter with its id. -/
theorem edit_eq_withItems (hids : (Filters.ids s.query.items).Nodup) (e : Edit) :
    s.edit e = s.withItems (Filters.edited e s.query.items) := by
  by_cases hmem : e.id ∈ Filters.ids s.query.items
  · cases e with
    | remove id => exact edit_remove_eq_withItems hids hmem
    | setOperator id op => exact edit_setOperator_eq_withItems hids hmem op
  · rw [edit_of_not_mem hmem, Filters.edited_of_not_mem hmem]
    rfl

theorem nodup_edit (hids : (Filters.ids s.query.items).Nodup) (e : Edit) :
    (Filters.ids (s.edit e).query.items).Nodup := by
  rw [edit_eq_withItems hids]
  exact hids.sublist (Filters.ids_edited_sublist _)

/-- Edits of different filters can be exchanged where ids are distinct. A group has no operator to set, and nothing is
left to be edited of a filter that was taken out, or that was inside the one that was. -/
theorem edit_comm (hids : (Filters.ids s.query.items).Nodup) {a b : Edit} (h : a.id ≠ b.id) :
    (s.edit a).edit b = (s.edit b).edit a ∧
      (∀ gid k children op, Filters.find? a.id s.query.items = some (.group gid k children) →
        s.edit (.setOperator a.id op) = s) ∧
      ∀ taken after, s.remove? a.id = some (taken, after) → ∀ e : Edit, e.id ∈ taken.ids → after.edit e = after := by
  refine ⟨?_, fun gid k children op => edit_setOperator_group op, fun taken after hremove e he => ?_⟩
  · rw [edit_eq_withItems (nodup_edit hids a), edit_eq_withItems (nodup_edit hids b), edit_eq_withItems hids,
      edit_eq_withItems hids]
    exact congrArg s.withItems (Filters.edited_comm h s.query.items)
  · obtain ⟨⟨found, rest⟩, hdetach, heq⟩ := Option.map_eq_some_iff.mp hremove
    cases heq
    have hnodup := (Filters.ids_perm_detach? hdetach).nodup_iff.mp hids
    exact edit_of_not_mem fun hrest => (List.nodup_append.mp hnodup).2.2 e.id he e.id hrest rfl

/-- A group is taken out before or after the operator of a condition inside it is changed. -/
theorem edit_comm_of_nested :
    let inner : Condition := ⟨3, "SeasonNumber", .between, "1", "3", []⟩
    let outer : Filter := .condition (.plain 1 "ItemName" .isNull)
    let s : Session := ⟨⟨4⟩, { Query.everything with items := [.group 2 .or [.condition inner], outer] }⟩
    let a : Edit := .setOperator 3 (.compare .gt)
    let b : Edit := .remove 2
    (Filters.ids s.query.items).Nodup ∧ a.id ≠ b.id ∧
      (s.edit a).query.items = [.group 2 .or [.condition ⟨3, "SeasonNumber", .compare .gt, "1", "", []⟩], outer] ∧
      (s.edit a).edit b = (s.edit b).edit a ∧ ((s.edit a).edit b).query.items = [outer] := by
  intro inner outer s a b
  have hids : (Filters.ids s.query.items).Nodup := by decide
  have hne : a.id ≠ b.id := by decide
  exact ⟨hids, hne, rfl, (edit_comm hids hne).1, rfl⟩

end Session

end SegmentQuery
