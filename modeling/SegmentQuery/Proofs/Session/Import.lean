import SegmentQuery.Proofs.Ids.Mapping
import SegmentQuery.Proofs.Ids.Reading
import SegmentQuery.Session

namespace SegmentQuery

open IdSource (last raise)

namespace Query

/-- The second query is the first one with every id a distance further on. -/
def MovedBy (distance : ℤ) (q q' : Query) : Prop :=
  ∃ g : UInt64 → UInt64, q' = q.mapIds g ∧ ∀ id ∈ Filters.ids q.items, ((g id).toNat : ℤ) = id.toNat + distance

/-- Two queries that are moved from the same one are moved from each other. -/
theorem MovedBy.between {m n : ℤ} {p q q' : Query} (h : p.MovedBy m q) (h' : p.MovedBy n q') :
    q.MovedBy (n - m) q' := by
  obtain ⟨g, rfl, hg⟩ := h
  obtain ⟨g', rfl, hg'⟩ := h'
  let move : UInt64 → UInt64 := fun id => UInt64.ofNat ((id.toNat : ℤ) + (n - m)).toNat
  have hmove : ∀ id ∈ Filters.ids p.items, move (g id) = g' id := by
    intro id hid
    have hdistance : ((g id).toNat : ℤ) + (n - m) = (g' id).toNat := by
      rw [hg id hid, hg' id hid]
      omega
    simp only [move, hdistance, Int.toNat_natCast, UInt64.ofNat_toNat]
  refine ⟨move, ?_, fun id hmoved => ?_⟩
  · have hitems := Filters.mapIds_mapIds g move p.items
    rw [Filters.mapIds_congr (g := move ∘ g) (h := g') hmove] at hitems
    exact congrArg (fun items => { p with items }) hitems.symm
  · rw [mapIds, Filters.ids_mapIds] at hmoved
    obtain ⟨id, hid, rfl⟩ := List.mem_map.mp hmoved
    rw [hmove id hid, hg' id hid, hg id hid]
    omega

/-- The number of ids that reading a text takes, as long as there are enough. -/
def drawn (text : String) : ℕ := (read text ⟨0⟩).2.next.toNat

theorem toNat_next_read (text : String) (ids : IdSource) :
    (read text ids).2.next.toNat = min (ids.next.toNat + drawn text) last.toNat := by
  rw [(read_of_maps text ids.maps_raise).2.next, IdSource.toNat_raise, drawn, Nat.add_comm]

/-- Reading takes no id back. From a source that has more ids to hand out than the text takes, a query gets distinct
ids, all of them new. Its conditions have increasing ids in document order, and every group has a larger id than all
filters inside it, at any depth. -/
theorem ids_ordered_of_read (text : String) (ids : IdSource) :
    ids.next ≤ (read text ids).2.next ∧
      (drawn text < 2 ^ 64 - 1 - ids.next.toNat →
        (read text ids).2.next.toNat = ids.next.toNat + drawn text ∧
        ∀ q, (read text ids).1 = .ok q →
          (Filters.ids q.items).Nodup ∧ (∀ id ∈ Filters.ids q.items, ids.next ≤ id ∧ id < (read text ids).2.next) ∧
          ((Filters.conditions q.items).map Condition.id).Pairwise (· < ·) ∧ Filters.GroupsLast q.items) := by
  obtain ⟨hle, hread⟩ := handedInOrder_read text ids
  refine ⟨hle, fun hdrawn => ?_⟩
  have htoNat : last.toNat = 2 ^ 64 - 1 := rfl
  have hnext : (read text ids).2.next.toNat = ids.next.toNat + drawn text := by
    rw [toNat_next_read]
    omega
  have hlast : (read text ids).2.next ≠ last := by
    intro heq
    rw [heq] at hnext
    omega
  refine ⟨hnext, fun q hq => ?_⟩
  obtain ⟨hhanded, hconditions, hgroups⟩ := hread q hq
  exact ⟨hhanded.nodup hlast, hhanded.bounds hlast, hconditions hlast, hgroups hlast⟩

/-- The first two conditions become a group when the third one is complete, and the parentheses become one after that.
The last condition takes an id, and is dropped for the tautology beside it. -/
theorem ids_ordered_of_read_nested :
    let text := "SELECT * FROM t WHERE (a=1 AND b=2 OR c=3) AND (d=4 OR 1=1)"
    drawn text < 2 ^ 64 - 1 - 42 ∧ (read text ⟨42⟩).2.next = 48 ∧ ∃ q, (read text ⟨42⟩).1 = .ok q ∧
      Filters.ids q.items = [46, 45, 42, 43, 44] ∧ (Filters.ids q.items).Nodup ∧
      ((Filters.conditions q.items).map Condition.id).Pairwise (· < ·) ∧ Filters.GroupsLast q.items := by
  intro text
  obtain ⟨q, hq, hids⟩ : ∃ q, read text ⟨42⟩ = (.ok q, ⟨48⟩) ∧ Filters.ids q.items = [46, 45, 42, 43, 44] :=
    ⟨{ everything with items := [.group 46 .or [.group 45 .and [.condition ⟨42, "a", .compare .eq, "1", "", []⟩,
        .condition ⟨43, "b", .compare .eq, "2", "", []⟩], .condition ⟨44, "c", .compare .eq, "3", "", []⟩]] },
      by decide +kernel, by decide +kernel⟩
  have hnext : 48 = min (42 + drawn text) (2 ^ 64 - 1) := by
    have hread := toNat_next_read text ⟨42⟩
    rw [hq] at hread
    exact hread
  have hdrawn : drawn text < 2 ^ 64 - 1 - 42 := by omega
  have hok : (read text ⟨42⟩).1 = .ok q := congrArg Prod.fst hq
  obtain ⟨-, hread⟩ := (ids_ordered_of_read text ⟨42⟩).2 hdrawn
  obtain ⟨hnodup, -, hconditions, hgroups⟩ := hread q hok
  exact ⟨hdrawn, by rw [hq], q, hok, hids, hnodup, hconditions, hgroups⟩

theorem read_of_error {text : String} {e : ParseError} (h : (read text ⟨0⟩).1 = .error e) (ids : IdSource) :
    (read text ids).1 = .error e := by
  rw [(read_of_maps text ids.maps_raise).1, h]
  rfl

/-- From a source with enough ids, a text gives what it gives from the source that starts at 0, moved to the first id of
the source. -/
theorem exists_movedBy_of_ok {text : String} {q : Query} (h : (read text ⟨0⟩).1 = .ok q)
    (hdrawn : drawn text < last.toNat) {ids : IdSource} (hids : ids.next.toNat + drawn text ≤ last.toNat) :
    ∃ q', (read text ids).1 = .ok q' ∧ q.MovedBy ids.next.toNat q' := by
  refine ⟨q.mapIds (raise ids.next), ?_, raise ids.next, rfl, fun id hid => ?_⟩
  · rw [(read_of_maps text ids.maps_raise).1, h]
    rfl
  · have hlast : (read text ⟨0⟩).2.next ≠ last := fun heq => by
      rw [drawn, heq] at hdrawn
      exact Nat.lt_irrefl _ hdrawn
    have hbound := ((handedInOrder_read text ⟨0⟩).2 q h).handed.bounds hlast id hid
    have hlt : id.toNat < drawn text := UInt64.lt_iff_toNat_lt.mp hbound.2
    rw [IdSource.toNat_raise, Nat.min_eq_left (by omega)]
    exact Int.natCast_add ..

end Query

namespace Session

variable {s : Session} {text : String}

theorem ids_importText (s : Session) (text : String) : (s.importText text).2.ids = (Query.read text s.ids).2 := by
  rw [importText]
  split <;> simp_all

theorem importText_of_ok {q : Query} (h : (Query.read text s.ids).1 = .ok q) :
    (s.importText text).1 = .ok () ∧ (s.importText text).2.query = q := by
  rw [importText]
  split <;> simp_all

theorem importText_of_error {e : ParseError} (h : (Query.read text s.ids).1 = .error e) :
    (s.importText text).1 = .error e ∧ (s.importText text).2.query = s.query := by
  rw [importText]
  split <;> simp_all

/-- Reading a text into a session depends on the text alone. Two sessions whose sources of ids do not come to the last
id take the same number of ids for it, and either both refuse it, for the same reason, and keep their queries, or both
hold then what the text says, with the same ids up to the distance between their first ones. -/
theorem importText_of_text (s s' : Session) (text : String) (hs : (s.importText text).2.ids.next ≠ last)
    (hs' : (s'.importText text).2.ids.next ≠ last) :
    (∃ n : ℕ, (s.importText text).2.ids.next.toNat = s.ids.next.toNat + n ∧
        (s'.importText text).2.ids.next.toNat = s'.ids.next.toNat + n) ∧
      match Query.ofText text with
      | .ok q => (s.importText text).1 = .ok () ∧ (s'.importText text).1 = .ok () ∧
          (s.importText text).2.query.MovedBy (s'.ids.next.toNat - s.ids.next.toNat) (s'.importText text).2.query ∧
          q.MovedBy (s.ids.next.toNat - 1) (s.importText text).2.query ∧
          q.MovedBy (s'.ids.next.toNat - 1) (s'.importText text).2.query
      | .error e => (s.importText text).1 = .error e ∧ (s'.importText text).1 = .error e ∧
          (s.importText text).2.query = s.query ∧ (s'.importText text).2.query = s'.query := by
  have hnext {t : Session} (ht : (t.importText text).2.ids.next ≠ last) :
      (t.importText text).2.ids.next.toNat = t.ids.next.toNat + Query.drawn text ∧
        t.ids.next.toNat + Query.drawn text < last.toNat := by
    have hne : (t.importText text).2.ids.next.toNat ≠ last.toNat := fun heq => ht (UInt64.toNat_inj.mp heq)
    rw [ids_importText, Query.toNat_next_read] at hne ⊢
    omega
  obtain ⟨hs, hroom⟩ := hnext hs
  obtain ⟨hs', hroom'⟩ := hnext hs'
  refine ⟨⟨Query.drawn text, hs, hs'⟩, ?_⟩
  cases hread : (Query.read text ⟨0⟩).1 with
  | error e =>
    have hparse : Query.ofText text = .error e := Query.read_of_error hread .initial
    obtain ⟨hresult, hquery⟩ := importText_of_error (Query.read_of_error hread s.ids)
    obtain ⟨hresult', hquery'⟩ := importText_of_error (Query.read_of_error hread s'.ids)
    rw [hparse]
    exact ⟨hresult, hresult', hquery, hquery'⟩
  | ok q =>
    have hdrawn : Query.drawn text < last.toNat := by omega
    have hinitial : IdSource.initial.next.toNat + Query.drawn text ≤ last.toNat := by
      have hone : IdSource.initial.next.toNat = 1 := rfl
      omega
    obtain ⟨p, hp, hmoved⟩ := Query.exists_movedBy_of_ok hread hdrawn hinitial
    obtain ⟨r, hr, hmoved₁⟩ := Query.exists_movedBy_of_ok hread hdrawn hroom.le
    obtain ⟨r', hr', hmoved₂⟩ := Query.exists_movedBy_of_ok hread hdrawn hroom'.le
    have hparse : Query.ofText text = .ok p := hp
    obtain ⟨hresult, rfl⟩ := importText_of_ok hr
    obtain ⟨hresult', rfl⟩ := importText_of_ok hr'
    rw [hparse]
    exact ⟨hresult, hresult', hmoved₁.between hmoved₂, hmoved.between hmoved₁, hmoved.between hmoved₂⟩

/-- The first condition of the text takes an id, and is dropped for the tautology beside it. -/
theorem importText_of_text_with_tautology :
    let text := "SELECT * FROM t WHERE (a = 1 OR 1=1) AND (b = 2)"
    let s : Session := ⟨⟨42⟩, Query.everything⟩
    (new.importText text).2.query.MovedBy 41 (s.importText text).2.query ∧
      (s.importText text).2.query.items = [.group 44 .and [.condition ⟨43, "b", .compare .eq, "2", "", []⟩]] := by
  intro text s
  obtain ⟨q, hq⟩ : ∃ q, Query.read text new.ids = (.ok q, ⟨4⟩) :=
    ⟨{ Query.everything with items := [.group 3 .and [.condition ⟨2, "b", .compare .eq, "2", "", []⟩]] },
      by decide +kernel⟩
  have hnext : (new.importText text).2.ids.next = 4 := by rw [ids_importText, hq]
  have hnext' : (s.importText text).2.ids.next = 45 := by decide +kernel
  have himport := importText_of_text new s text (by rw [hnext]; decide) (by rw [hnext']; decide)
  have hparse : Query.ofText text = .ok q := congrArg Prod.fst hq
  rw [hparse] at himport
  exact ⟨himport.2.2.2.1, by decide +kernel⟩

end Session

end SegmentQuery
