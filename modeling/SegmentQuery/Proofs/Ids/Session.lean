import SegmentQuery.Proofs.Ids.Moving
import SegmentQuery.Proofs.Ids.Reading
import SegmentQuery.Session

namespace SegmentQuery

namespace Session

/-- A session on no query, or on one whose ids are distinct or so large that they are replaced. -/
def Starts (s : Session) : Prop :=
  s = new ∨ ∃ q, s = ofQuery q ∧
    ((Filters.ids q.items).Nodup ∨ ∃ id ∈ Filters.ids q.items, IdSource.lastSeed < id)

/-- A session at work, with its loose filters: those that it has made, or taken out of its query, and not put into the
query since. -/
structure Desk where
  session : Session
  loose : List Filter

/-- What is done with a session. -/
inductive Action where
  | importText (text : String)
  | newCondition (field : String)
  | newGroup (k : Connector)
  /-- Puts the loose filter at a place at the end of the query, or of the group with an id. -/
  | attach (place : Nat) (parent : Option UInt64)
  | remove (id : UInt64)
  | setOperator (id : UInt64) (op : Operator)

namespace Desk

/-- The ids of all filters, in the query and loose. -/
def ids (d : Desk) : List UInt64 := Filters.ids d.session.query.items ++ Filters.ids d.loose

/-- Does something with a session. Nothing changes if it cannot be done, but a refused text may use up ids. -/
def act (d : Desk) : Action → Desk
  | .importText text => { d with session := (d.session.importText text).2 }
  | .newCondition field =>
    let (c, session) := d.session.newCondition field
    ⟨session, d.loose ++ [.condition c]⟩
  | .newGroup k =>
    let (group, session) := d.session.newGroup k
    ⟨session, d.loose ++ [group]⟩
  | .attach place parent =>
    match d.loose[place]? with
    | none => d
    | some f => (d.session.attach? f parent).elim d fun session => ⟨session, d.loose.eraseIdx place⟩
  | .remove id => (d.session.remove? id).elim d fun (taken, session) => ⟨session, d.loose ++ [taken]⟩
  | .setOperator id op => (d.session.setOperator? id op).elim d fun session => { d with session }

/-- Does one thing after the other. -/
def run (d : Desk) (actions : List Action) : Desk := actions.foldl act d

end Desk

end Session

open IdSource (Handed)

namespace Session.Desk

/-- An action either cannot be done and changes nothing, or is what the session does. -/
theorem act_elim {motive : Desk → Prop} (d : Desk) (action : Action) (unchanged : motive d)
    (importText : ∀ text, motive (d.act (.importText text)))
    (newCondition : ∀ field, motive (d.act (.newCondition field)))
    (newGroup : ∀ k, motive (d.act (.newGroup k)))
    (attach : ∀ {place parent f session}, d.loose[place]? = some f → d.session.attach? f parent = some session →
      motive ⟨session, d.loose.eraseIdx place⟩)
    (remove : ∀ {id taken session}, d.session.remove? id = some (taken, session) →
      motive ⟨session, d.loose ++ [taken]⟩)
    (setOperator : ∀ {id op session}, d.session.setOperator? id op = some session → motive { d with session }) :
    motive (d.act action) := by
  cases action with
  | importText text => exact importText text
  | newCondition field => exact newCondition field
  | newGroup k => exact newGroup k
  | attach place parent =>
    rw [act]
    split
    · exact unchanged
    · next f hf =>
      cases hattach : d.session.attach? f parent with
      | none => exact unchanged
      | some session => exact attach hf hattach
  | remove id =>
    rw [act]
    cases hremove : d.session.remove? id with
    | none => exact unchanged
    | some found => exact remove hremove
  | setOperator id op =>
    rw [act]
    cases hset : d.session.setOperator? id op with
    | none => exact unchanged
    | some session => exact setOperator hset

/-- A desk that comes after another: its filters have some of the ids from before, and new ones. -/
def Follows (d after : Desk) : Prop :=
  ∃ kept new, kept.Sublist d.ids ∧ Handed d.session.ids after.session.ids new ∧ after.ids.Perm (kept ++ new)

variable {d after : Desk}

/-- Filters that only change their places follow the ones before. -/
theorem Follows.of_perm (hids : after.session.ids = d.session.ids) (hperm : after.ids.Perm d.ids) :
    d.Follows after := by
  refine ⟨d.ids, [], List.Sublist.refl _, ?_, ?_⟩
  · rw [hids]
    exact .nil (UInt64.le_refl _)
  · rwa [List.append_nil]

theorem Follows.refl (d : Desk) : d.Follows d := .of_perm rfl (.refl _)

theorem Follows.next_le (h : d.Follows after) : d.session.ids.next ≤ after.session.ids.next := by
  obtain ⟨_, _, -, hnew, -⟩ := h
  exact hnew.le

theorem Follows.handed (h : d.Follows after) {before : IdSource} (hd : Handed before d.session.ids d.ids) :
    Handed before after.session.ids after.ids := by
  obtain ⟨kept, new, hkept, hnew, hperm⟩ := h
  exact ((hd.sublist hkept).append hnew).perm hperm.symm

theorem follows_importText (d : Desk) (text : String) : d.Follows (d.act (.importText text)) := by
  obtain ⟨hle, hread⟩ := Query.handedInOrder_read text d.session.ids
  rw [act, importText]
  split
  · next q ids heq =>
    rw [heq] at hread
    exact ⟨Filters.ids d.loose, Filters.ids q.items, List.sublist_append_right _ _, (hread q rfl).handed,
      List.perm_append_comm⟩
  · next e ids heq =>
    rw [heq] at hle
    exact ⟨d.ids, [], List.Sublist.refl _, .nil hle, by rw [List.append_nil]; exact .refl _⟩

/-- A filter that has just been made has the next id, and no others. -/
theorem follows_make {f : Filter} {session : Session} (hids : session.ids = d.session.ids.advance)
    (hquery : session.query = d.session.query) (hf : f.ids = [d.session.ids.next]) :
    d.Follows ⟨session, d.loose ++ [f]⟩ := by
  refine ⟨d.ids, f.ids, List.Sublist.refl _, ?_, ?_⟩
  · rw [hf, hids]
    exact .draw _
  · rw [ids, ids, hquery, Filters.ids_append, Filters.ids_singleton, List.append_assoc]

theorem follows_attach {f : Filter} {place : Nat} {parent : Option UInt64} {session : Session}
    (hf : d.loose[place]? = some f) (h : d.session.attach? f parent = some session) :
    d.Follows ⟨session, d.loose.eraseIdx place⟩ := by
  obtain ⟨items, hitems, rfl⟩ := Option.map_eq_some_iff.mp h
  refine .of_perm rfl ?_
  have hadded := Filters.ids_perm_attach? hitems
  have htaken := Filters.ids_perm_eraseIdx hf
  calc
    List.Perm (Filters.ids items ++ Filters.ids (d.loose.eraseIdx place))
        (f.ids ++ Filters.ids d.session.query.items ++ Filters.ids (d.loose.eraseIdx place)) := hadded.append_right _
    List.Perm _ (Filters.ids d.session.query.items ++ (f.ids ++ Filters.ids (d.loose.eraseIdx place))) := by
      rw [List.append_assoc]
      exact List.perm_append_comm_assoc ..
    List.Perm _ d.ids := htaken.symm.append_left _

theorem follows_remove {id : UInt64} {taken : Filter} {session : Session}
    (h : d.session.remove? id = some (taken, session)) : d.Follows ⟨session, d.loose ++ [taken]⟩ := by
  obtain ⟨⟨found, items⟩, hitems, heq⟩ := Option.map_eq_some_iff.mp h
  cases heq
  refine .of_perm rfl ?_
  have hdetached := Filters.ids_perm_detach? hitems
  calc
    List.Perm (Filters.ids items ++ Filters.ids (d.loose ++ [taken]))
        (taken.ids ++ Filters.ids items ++ Filters.ids d.loose) := by
      rw [Filters.ids_append, Filters.ids_singleton, ← List.append_assoc, List.append_assoc taken.ids]
      exact List.perm_append_comm
    List.Perm _ d.ids := hdetached.symm.append_right _

theorem ids_changeOperator (op : Operator) (f : Filter) : (changeOperator op f).ids = f.ids := by
  cases f with
  | condition c =>
    rw [changeOperator, Filter.ids, Filter.ids, Condition.clearUnused]
    split <;> rfl
  | group => rfl

theorem follows_setOperator {id : UInt64} {op : Operator} {session : Session}
    (h : d.session.setOperator? id op = some session) : d.Follows { d with session } := by
  rw [setOperator?] at h
  split at h
  · obtain ⟨items, hitems, rfl⟩ := Option.map_eq_some_iff.mp h
    have hperm : (Filters.ids items).Perm ([] ++ Filters.ids d.session.query.items) := by
      refine Filters.ids_perm_update? (fun f _ => ?_) hitems
      rw [ids_changeOperator]
      exact .refl _
    exact .of_perm rfl (hperm.append_right _)
  · cases h

/-- Whatever is done with a session, its filters have some of the ids from before, and new ones. -/
theorem follows_act (d : Desk) (action : Action) : d.Follows (d.act action) := by
  refine d.act_elim action ?unchanged ?importText ?newCondition ?newGroup ?attach ?remove ?setOperator
  case unchanged => exact .refl d
  case importText => exact d.follows_importText
  case newCondition => exact fun _ => follows_make rfl rfl rfl
  case newGroup => exact fun _ => follows_make rfl rfl rfl
  case attach => exact follows_attach
  case remove => exact follows_remove
  case setOperator => exact follows_setOperator

theorem handed_run {before : IdSource} (h : Handed before d.session.ids d.ids) (actions : List Action) :
    Handed before (d.run actions).session.ids (d.run actions).ids := by
  induction actions generalizing d with
  | nil => exact h
  | cons action actions ih => exact ih ((d.follows_act action).handed h)

end Session.Desk

namespace Session

/-- The id after one in the lower half of the range is larger. -/
private theorem lt_add_one {id seed : UInt64} (hid : id ≤ seed) (hseed : seed ≤ IdSource.lastSeed) : id < seed + 1 := by
  have hlast : IdSource.lastSeed.toNat = 0x7fffffffffffffff := rfl
  rw [UInt64.le_iff_toNat_le] at hid hseed
  rw [UInt64.lt_iff_toNat_lt, UInt64.toNat_add, UInt64.toNat_one]
  omega

/-- Distinct ids are kept and lie before the next one; ids that are too large are replaced. -/
theorem handed_ofQuery {q : Query}
    (h : (Filters.ids q.items).Nodup ∨ ∃ id ∈ Filters.ids q.items, IdSource.lastSeed < id) :
    Handed ⟨0⟩ (ofQuery q).ids (Filters.ids (ofQuery q).query.items) := by
  rw [ofQuery]
  split
  · next ids hids =>
    rw [IdSource.startingAfter?] at hids
    split at hids
    · next hseed =>
      cases hids
      refine ⟨UInt64.zero_le, fun _ => ?_, fun _ id hid => ⟨UInt64.zero_le, lt_add_one (Filters.le_maxId hid) hseed⟩⟩
      refine h.resolve_right ?_
      rintro ⟨id, hid, hlarge⟩
      exact absurd (UInt64.le_trans (Filters.le_maxId hid) hseed) (UInt64.not_le.mpr hlarge)
    · cases hids
  · exact (Handed.nil UInt64.zero_le).append (Filters.handed_renumber q.items .initial)

theorem Starts.handed {s : Session} (h : s.Starts) : Handed ⟨0⟩ s.ids (Filters.ids s.query.items) := by
  obtain rfl | ⟨q, rfl, hq⟩ := h
  · exact .nil UInt64.zero_le
  · exact handed_ofQuery hq

/-- Whatever is done with a session, all filters in its query and all loose ones have distinct ids, and ids that are
smaller than the next one, as long as the source has not come to its last id. The next id never becomes smaller. -/
theorem ids_nodup_of_starts {s : Session} (h : s.Starts) (actions : List Action) :
    let d := Desk.run ⟨s, []⟩ actions
    (d.session.ids.next ≠ IdSource.last → d.ids.Nodup ∧ ∀ id ∈ d.ids, id < d.session.ids.next) ∧
      ∀ action, d.session.ids.next ≤ (d.act action).session.ids.next := by
  intro d
  have hstart : Handed ⟨0⟩ (Desk.mk s []).session.ids (Desk.mk s []).ids := by
    rw [Desk.ids, Filters.ids, List.append_nil]
    exact h.handed
  have hrun := Desk.handed_run hstart actions
  exact ⟨fun hlast => ⟨hrun.nodup hlast, fun id hid => (hrun.bounds hlast id hid).2⟩,
    fun action => (d.follows_act action).next_le⟩

/-- Two filters with the same large id get the ids 1 and 2. The group with the id 2 is taken out, outlives the reading
of a text, and becomes a child of a group that the session has made. -/
theorem ids_nodup_of_starts_repeated :
    let q : Query := { Query.everything with
      items := [.condition (.plain 0x8000000000000000 "ItemName" .isNull), .group 0x8000000000000000 .or []] }
    let d := Desk.run ⟨ofQuery q, []⟩ [.remove 2, .importText "SELECT * FROM MediaSegments WHERE ItemId = 'a'",
      .newGroup .or, .attach 1 none, .attach 0 (some 4), .newCondition "ItemName"]
    (ofQuery q).Starts ∧ d.session.query.items =
        [.condition ⟨3, "ItemId", .compare .eq, "a", "", []⟩, .group 4 .or [.group 2 .or []]] ∧
      d.ids = [3, 4, 2, 5] ∧ d.ids.Nodup ∧ d.session.ids.next = 6 := by
  intro q d
  have hstarts : (ofQuery q).Starts := .inr ⟨q, rfl, .inr ⟨0x8000000000000000, by decide, by decide⟩⟩
  have hids : d.session.ids.next = 6 := by decide +kernel
  have hlast : d.session.ids.next ≠ IdSource.last := by
    rw [hids]
    decide
  refine ⟨hstarts, by decide +kernel, by decide +kernel, ?_, hids⟩
  exact ((ids_nodup_of_starts hstarts _).1 hlast).1

end Session

end SegmentQuery
