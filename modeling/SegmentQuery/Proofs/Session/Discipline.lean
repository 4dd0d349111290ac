import Mathlib.Logic.Relation
import SegmentQuery.Proofs.Query.Tidy
import SegmentQuery.Proofs.Session.Adoption
import SegmentQuery.Proofs.Session.Operators

namespace SegmentQuery

theorem Condition.Tidy.disciplined {c : Condition} (h : c.Tidy) : c.Disciplined :=
  disciplined_iff.mpr ⟨h.clear, h.nodup⟩

namespace Filters

/-- All conditions in a list of filters, at any depth, are disciplined. -/
def Disciplined (items : List Filter) : Prop := ∀ c ∈ conditions items, c.Disciplined

theorem disciplined_nil : Disciplined [] := nofun

theorem disciplined_append {items more : List Filter} :
    Disciplined (items ++ more) ↔ Disciplined items ∧ Disciplined more := by
  rw [Disciplined, conditions_append]
  exact List.forall_mem_append

theorem disciplined_condition {c : Condition} : Disciplined [.condition c] ↔ c.Disciplined :=
  List.forall_mem_singleton

theorem disciplined_group {gid : UInt64} {k : Connector} {children : List Filter} :
    Disciplined [.group gid k children] ↔ Disciplined children := by
  rw [Disciplined, conditions, Filter.conditions, conditions, List.append_nil, Disciplined]

/-- What stands in a tree is disciplined exactly if it is so by itself and the rest of the tree is. -/
theorem disciplined_fill {p : Place} {filling : List Filter} :
    Disciplined (p.fill filling) ↔ Disciplined filling ∧ Disciplined (p.fill []) := by
  simp only [Disciplined, Place.conditions_fill, List.forall_mem_append, conditions, List.append_nil]
  tauto

theorem disciplined_anonymous {items : List Filter} : Disciplined (anonymous items) ↔ Disciplined items := by
  simp only [Disciplined, conditions_anonymous, List.forall_mem_map, Condition.disciplined_anonymous]

theorem disciplined_of_getElem? {items : List Filter} {n : Nat} {f : Filter} (h : Disciplined items)
    (hf : items[n]? = some f) : Disciplined [f] ∧ Disciplined (items.eraseIdx n) := by
  obtain ⟨p, hitems, hrest⟩ := Place.exists_fill_eq_of_getElem? hf
  rw [← hitems, disciplined_fill, hrest] at h
  exact h

theorem disciplined_detach? {id : UInt64} {items rest : List Filter} {taken : Filter} (h : Disciplined items)
    (hdetach : detach? id items = some (taken, rest)) : Disciplined [taken] ∧ Disciplined rest := by
  obtain ⟨p, hp⟩ := exists_detachedAt hdetach
  rw [← hp.fill, disciplined_fill, hp.fill_nil] at h
  exact h

/-- A value may be added to any list that is used. -/
theorem disciplined_addValue {p : Place} {c more : Condition} {value : String} (h : Disciplined (p.fill [.condition c]))
    (hlist : c.operator.isList = true) (hmore : c.addValue? value = some more) :
    Disciplined (p.fill [.condition more]) := by
  rw [disciplined_fill, disciplined_condition] at h ⊢
  exact ⟨h.1.addValue? (Operator.values_mem_slots.mpr hlist) hmore, h.2⟩

theorem disciplined_attach? {f : Filter} {parent : Option UInt64} {items updated : List Filter}
    (hitems : Disciplined items) (hf : Disciplined [f]) (h : attach? f parent items = some updated) :
    Disciplined updated := by
  cases parent with
  | none =>
    cases h
    exact disciplined_append.mpr ⟨hitems, hf⟩
  | some id =>
    rw [attach?] at h
    split at h
    · next gid k children hfound =>
      obtain ⟨p, hp⟩ := exists_firstAt hfound
      rw [hp.update?] at h
      cases h
      rw [← hp.fill, disciplined_fill, disciplined_group] at hitems
      rw [disciplined_fill, Filter.addChild, disciplined_group, disciplined_append]
      exact ⟨⟨hitems.1, hf⟩, hitems.2⟩
    · cases h

end Filters

namespace Session

open Filters (Disciplined)

theorem disciplined_ofQuery {q : Query} (h : Disciplined q.items) : Disciplined (ofQuery q).query.items := by
  obtain ⟨items, hquery, hitems⟩ := query_ofQuery q
  rw [hquery, ← Filters.disciplined_anonymous, hitems, Filters.disciplined_anonymous]
  exact h

namespace Desk

/-- What happens at a desk: the session does something, a loose filter is put into a gap in the query or in the other
loose filters, or a list that an operator uses gets one more value. -/
inductive Step : Desk → Desk → Prop where
  | act (d : Desk) (action : Action) : Step d (d.act action)
  | insert {d : Desk} (place : Nat) (p : Place) {f : Filter} (hf : d.loose[place]? = some f)
      (hp : p.fill [] = d.session.query.items) :
      Step d ⟨d.session.withItems (p.fill [f]), d.loose.eraseIdx place⟩
  | insertLoose {d : Desk} (place : Nat) (p : Place) {f : Filter} (hf : d.loose[place]? = some f)
      (hp : p.fill [] = d.loose.eraseIdx place) : Step d { d with loose := p.fill [f] }
  | addValue {d : Desk} (p : Place) (value : String) {c more : Condition}
      (hp : p.fill [.condition c] = d.session.query.items) (hlist : c.operator.isList = true)
      (hmore : c.addValue? value = some more) :
      Step d { d with session := d.session.withItems (p.fill [.condition more]) }
  | addLooseValue {d : Desk} (p : Place) (value : String) {c more : Condition}
      (hp : p.fill [.condition c] = d.loose) (hlist : c.operator.isList = true)
      (hmore : c.addValue? value = some more) : Step d { d with loose := p.fill [.condition more] }

/-- All conditions are disciplined, in the query and loose. -/
structure Disciplined (d : Desk) : Prop where
  items : Filters.Disciplined d.session.query.items
  loose : Filters.Disciplined d.loose

variable {d after : Desk}

theorem Disciplined.importText (h : d.Disciplined) (text : String) : (d.act (.importText text)).Disciplined := by
  rw [act, Session.importText]
  split
  · next q ids hread => exact ⟨fun c hc => ((Query.tidy_of_read hread).conditions c hc).disciplined, h.loose⟩
  · exact ⟨h.items, h.loose⟩

theorem Disciplined.attach {f : Filter} {place : Nat} {parent : Option UInt64} {session : Session} (h : d.Disciplined)
    (hf : d.loose[place]? = some f) (hattach : d.session.attach? f parent = some session) :
    Disciplined ⟨session, d.loose.eraseIdx place⟩ := by
  obtain ⟨items, hitems, rfl⟩ := Option.map_eq_some_iff.mp hattach
  obtain ⟨hf, hrest⟩ := Filters.disciplined_of_getElem? h.loose hf
  exact ⟨Filters.disciplined_attach? h.items hf hitems, hrest⟩

theorem Disciplined.remove {id : UInt64} {taken : Filter} {session : Session} (h : d.Disciplined)
    (hremove : d.session.remove? id = some (taken, session)) : Disciplined ⟨session, d.loose ++ [taken]⟩ := by
  obtain ⟨⟨found, items⟩, hdetach, heq⟩ := Option.map_eq_some_iff.mp hremove
  cases heq
  obtain ⟨htaken, hrest⟩ := Filters.disciplined_detach? h.items hdetach
  exact ⟨hrest, Filters.disciplined_append.mpr ⟨h.loose, htaken⟩⟩

theorem Disciplined.setOperator {id : UInt64} {op : Operator} {session : Session} (h : d.Disciplined)
    (hset : d.session.setOperator? id op = some session) : Disciplined { d with session } := by
  obtain ⟨c, hfound⟩ := (isSome_setOperator?_iff d.session id op).mp (Option.isSome_of_eq_some hset)
  obtain ⟨p, hp⟩ := Filters.exists_firstAt hfound
  rw [setOperator?_of_firstAt hp, changeOperator_condition] at hset
  cases hset
  have hitems := h.items
  rw [← hp.fill, Filters.disciplined_fill, Filters.disciplined_condition] at hitems
  refine ⟨?_, h.loose⟩
  exact Filters.disciplined_fill.mpr
    ⟨Filters.disciplined_condition.mpr (Condition.disciplined_reassigned hitems.1.nodup op), hitems.2⟩

/-- A filter that has just been made joins the loose ones. -/
theorem Disciplined.make {f : Filter} {session : Session} (h : d.Disciplined) (hquery : session.query = d.session.query)
    (hf : Filters.Disciplined [f]) : Disciplined ⟨session, d.loose ++ [f]⟩ := by
  refine ⟨?_, Filters.disciplined_append.mpr ⟨h.loose, hf⟩⟩
  rw [hquery]
  exact h.items

/-- Whatever a session does, all conditions stay disciplined. -/
theorem Disciplined.act (h : d.Disciplined) (action : Action) : (d.act action).Disciplined := by
  refine d.act_elim action ?unchanged ?importText ?newCondition ?newGroup ?attach ?remove ?setOperator
  case unchanged => exact h
  case importText => exact h.importText
  case newCondition =>
    exact fun _ => h.make rfl (Filters.disciplined_condition.mpr (Condition.disciplined_plain ..))
  case newGroup => exact fun _ => h.make rfl (Filters.disciplined_group.mpr Filters.disciplined_nil)
  case attach => exact h.attach
  case remove => exact h.remove
  case setOperator => exact h.setOperator

/-- One thing that happens leaves all conditions disciplined. -/
theorem Disciplined.step (h : d.Disciplined) (hstep : d.Step after) : after.Disciplined := by
  cases hstep with
  | act action => exact h.act action
  | insert _ _ hf hp =>
    obtain ⟨hf, hrest⟩ := Filters.disciplined_of_getElem? h.loose hf
    refine ⟨Filters.disciplined_fill.mpr ⟨hf, ?_⟩, hrest⟩
    rw [hp]
    exact h.items
  | insertLoose _ _ hf hp =>
    obtain ⟨hf, hrest⟩ := Filters.disciplined_of_getElem? h.loose hf
    rw [← hp] at hrest
    exact ⟨h.items, Filters.disciplined_fill.mpr ⟨hf, hrest⟩⟩
  | addValue _ _ hp hlist hmore =>
    have hitems := h.items
    rw [← hp] at hitems
    exact ⟨Filters.disciplined_addValue hitems hlist hmore, h.loose⟩
  | addLooseValue _ _ hp hlist hmore =>
    have hloose := h.loose
    rw [← hp] at hloose
    exact ⟨h.items, Filters.disciplined_addValue hloose hlist hmore⟩

theorem Disciplined.run (h : d.Disciplined) (hrun : Relation.ReflTransGen Step d after) : after.Disciplined := by
  induction hrun with
  | refl => exact h
  | tail _ hstep ih => exact ih.step hstep

end Desk

/-- In a session on no query, or on one whose conditions are disciplined, all conditions are disciplined at any time: in
the query, and loose. -/
theorem conditions_disciplined_of_run {s : Session} (h : s = new ∨ ∃ q, s = ofQuery q ∧ Disciplined q.items)
    {d : Desk} (hrun : Relation.ReflTransGen Desk.Step ⟨s, []⟩ d) :
    ∀ c ∈ Filters.conditions d.session.query.items ++ Filters.conditions d.loose, c.Disciplined := by
  have hstart : (Desk.mk s []).Disciplined := by
    refine ⟨?_, Filters.disciplined_nil⟩
    obtain rfl | ⟨q, rfl, hq⟩ := h
    · exact Filters.disciplined_nil
    · exact disciplined_ofQuery hq
  obtain ⟨hitems, hloose⟩ := hstart.run hrun
  exact List.forall_mem_append.mpr ⟨hitems, hloose⟩

/-- A range is taken out of the query and put into a new group, which takes its place. Under `IN` it loses its bounds
and gets a value, which it keeps under `NOT IN`. -/
theorem conditions_disciplined_of_run_range :
    let q : Query := { Query.everything with items := [.condition ⟨1, "ItemName", .between, "A", "B", []⟩] }
    let listed : Filter := .condition ⟨1, "ItemName", .notOneOf, "", "", ["C"]⟩
    let d : Desk := ⟨⟨⟨3⟩, { q with items := [.group 2 .or [listed]] }⟩, []⟩
    Relation.ReflTransGen Desk.Step ⟨ofQuery q, []⟩ d ∧
      ∀ c ∈ Filters.conditions d.session.query.items ++ Filters.conditions d.loose, c.Disciplined := by
  intro q listed d
  let inside : Place := .inside [] 2 .or (.between [] []) []
  have hq : Disciplined q.items := Filters.disciplined_condition.mpr (Condition.disciplined_iff.mpr ⟨rfl, .nil⟩)
  have hrun : Relation.ReflTransGen Desk.Step ⟨ofQuery q, []⟩ d := by
    refine .head (.act _ (.newGroup .or)) ?_
    refine .head (.act _ (.remove 1)) ?_
    refine .head (.insertLoose 1 inside rfl rfl) ?_
    refine .head (.insert 0 (.between [] []) rfl rfl) ?_
    refine .head (.act _ (.setOperator 1 .oneOf)) ?_
    refine .head (.addValue inside "C" rfl rfl rfl) ?_
    exact .single (.act _ (.setOperator 1 .notOneOf))
  exact ⟨hrun, conditions_disciplined_of_run (.inr ⟨q, rfl, hq⟩) hrun⟩

end Session

end SegmentQuery
