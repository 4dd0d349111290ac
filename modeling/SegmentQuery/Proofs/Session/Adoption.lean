import SegmentQuery.Proofs.Query.FilterText
import SegmentQuery.Session

namespace SegmentQuery

mutual

theorem Filter.anonymous_renumber : ∀ (f : Filter) (ids : IdSource), (f.renumber ids).1.anonymous = f.anonymous
  | .condition _, _ => rfl
  | .group _ k children, ids => by
    rw [Filter.renumber, Filter.anonymous, Filter.anonymous, Filters.anonymous_renumber children ids.advance]

theorem Filters.anonymous_renumber : ∀ (items : List Filter) (ids : IdSource),
    Filters.anonymous (Filters.renumber items ids).1 = Filters.anonymous items
  | [], _ => rfl
  | f :: rest, ids => by
    rw [Filters.renumber, Filters.anonymous, Filters.anonymous, Filter.anonymous_renumber f,
      Filters.anonymous_renumber rest]

end

namespace Session

/-- A session on a query has the query, but for the ids of its filters. -/
theorem query_ofQuery (q : Query) :
    ∃ items, (ofQuery q).query = { q with items } ∧ Filters.anonymous items = Filters.anonymous q.items := by
  rw [ofQuery]
  cases IdSource.startingAfter? (Filters.maxId q.items) with
  | some ids => exact ⟨q.items, rfl, rfl⟩
  | none => exact ⟨_, rfl, Filters.anonymous_renumber q.items .initial⟩

/-- A session on a query exports the text of the query. -/
theorem exportText_ofQuery (q : Query) : (ofQuery q).exportText = q.text := by
  obtain ⟨items, hquery, hitems⟩ := query_ofQuery q
  rw [exportText, hquery]
  exact Query.text_withItems (Filters.texts_eq_of_anonymous hitems)

variable {q : Query}

/-- Ids that leave the upper half of the range to new ones stay. -/
theorem ofQuery_of_forall_le (h : ∀ id ∈ Filters.ids q.items, id ≤ IdSource.lastSeed) :
    ofQuery q = ⟨⟨Filters.maxId q.items + 1⟩, q⟩ ∧
      (Filters.maxId q.items + 1).toNat = (Filters.maxId q.items).toNat + 1 := by
  have hmax : Filters.maxId q.items ≤ IdSource.lastSeed := by
    by_cases hitems : q.items = []
    · rw [hitems]
      exact UInt64.zero_le
    · exact h _ (Filters.maxId_mem hitems)
  have hseed : IdSource.lastSeed.toNat = 0x7fffffffffffffff := rfl
  constructor
  · rw [ofQuery, IdSource.startingAfter?, if_pos hmax]
  · rw [UInt64.le_iff_toNat_le] at hmax
    rw [UInt64.toNat_add, UInt64.toNat_one]
    omega

/-- An id in the upper half of the range makes the session give out new ones. -/
theorem ofQuery_of_lt {id : UInt64} (hid : id ∈ Filters.ids q.items) (hlarge : IdSource.lastSeed < id) :
    ofQuery q = ⟨(Filters.renumber q.items .initial).2, { q with items := (Filters.renumber q.items .initial).1 }⟩ := by
  have hmax : ¬Filters.maxId q.items ≤ IdSource.lastSeed := by
    intro hle
    exact UInt64.not_le.mpr hlarge (UInt64.le_trans (Filters.le_maxId hid) hle)
  rw [ofQuery, IdSource.startingAfter?, if_neg hmax]

/-- New ids start with 1, and follow each other as long as there are fewer filters than ids. -/
theorem ids_renumber_initial {items : List Filter} (h : (Filters.ids items).length < IdSource.last.toNat) :
    (Filters.ids (Filters.renumber items .initial).1).map UInt64.toNat = List.range' 1 (Filters.ids items).length ∧
      (Filters.renumber items .initial).2.next.toNat = (Filters.ids items).length + 1 := by
  have hone : IdSource.initial.next.toNat = 1 := rfl
  obtain ⟨hids, hafter⟩ := Filters.renumber_eq_upcoming items .initial
  constructor
  · rw [hids, IdSource.map_toNat_upcoming (by omega), hone]
  · rw [hafter, IdSource.toNat_next_iterate, hone]
    omega

/-- A session takes a query over as it is if all ids in it are at most `2 ^ 63 - 1`; then the next id is one more than
the largest of them, or 1 if there are none. Otherwise the filters get the ids 1, 2, 3 and so on in document order, and
the next id is the one after those. Either way the next id is larger than all ids in the query, nothing but ids changes,
and the session exports the text of the query. A tree with as many filters as there are ids would get the last id more
than once, but is larger than any memory. -/
theorem ofQuery_keeps_or_renumbers (q : Query) :
    ((∀ id ∈ Filters.ids q.items, id.toNat ≤ 2 ^ 63 - 1) →
        (ofQuery q).query = q ∧ (q.items = [] → (ofQuery q).ids.next = 1) ∧
        (q.items ≠ [] → ∃ id ∈ Filters.ids q.items, (∀ other ∈ Filters.ids q.items, other ≤ id) ∧
          (ofQuery q).ids.next.toNat = id.toNat + 1) ∧
        ∀ id ∈ Filters.ids q.items, id < (ofQuery q).ids.next) ∧
      ((∃ id ∈ Filters.ids q.items, 2 ^ 63 - 1 < id.toNat) → (Filters.ids q.items).length < 2 ^ 64 - 1 →
        (Filters.ids (ofQuery q).query.items).map UInt64.toNat = List.range' 1 (Filters.ids q.items).length ∧
        (ofQuery q).ids.next.toNat = (Filters.ids q.items).length + 1 ∧
        ∀ id ∈ Filters.ids (ofQuery q).query.items, id < (ofQuery q).ids.next) ∧
      (∃ items, (ofQuery q).query = { q with items } ∧ Filters.anonymous items = Filters.anonymous q.items) ∧
      (ofQuery q).exportText = q.text := by
  refine ⟨fun hsmall => ?_, ?_, query_ofQuery q, exportText_ofQuery q⟩
  · have hseed : ∀ id ∈ Filters.ids q.items, id ≤ IdSource.lastSeed := by
      intro id hid
      exact UInt64.le_iff_toNat_le.mpr (hsmall id hid)
    obtain ⟨hkept, hnext⟩ := ofQuery_of_forall_le hseed
    rw [hkept]
    refine ⟨rfl, fun hitems => ?_, fun hitems => ?_, fun id hid => ?_⟩
    · rw [hitems]
      rfl
    · exact ⟨_, Filters.maxId_mem hitems, fun other => Filters.le_maxId, hnext⟩
    · have hle := UInt64.le_iff_toNat_le.mp (Filters.le_maxId hid)
      rw [UInt64.lt_iff_toNat_lt, hnext]
      omega
  · rintro ⟨id, hid, hlarge⟩ hsize
    have hlarge : IdSource.lastSeed < id := UInt64.lt_iff_toNat_lt.mpr hlarge
    obtain ⟨hids, hnext⟩ := ids_renumber_initial hsize
    rw [ofQuery_of_lt hid hlarge]
    refine ⟨hids, hnext, fun id hid => ?_⟩
    have hmem := List.mem_map_of_mem (f := UInt64.toNat) hid
    rw [hids, List.mem_range'_1] at hmem
    rw [UInt64.lt_iff_toNat_lt, hnext]
    omega

/-- The ids of the first query reach the middle of the range and stay. Those of the second one go beyond it, and one of
them is repeated: its filters are numbered again. -/
theorem ofQuery_keeps_or_renumbers_at_the_middle :
    let inner : Condition := .plain 0x7fffffffffffffff "ItemName" .isNull
    let kept : Query := { Query.everything with items := [.group 7 .or [.condition inner]] }
    let large : Condition := .plain 0x8000000000000000 "ItemName" .isNull
    let renumbered : Query :=
      { Query.everything with items := [.group 7 .or [.condition large, .condition large], .group 9 .and []] }
    ((ofQuery kept).query = kept ∧ ∀ id ∈ Filters.ids kept.items, id < (ofQuery kept).ids.next) ∧
      (ofQuery kept).ids.next = 0x8000000000000000 ∧
      (Filters.ids (ofQuery renumbered).query.items).map UInt64.toNat = [1, 2, 3, 4] ∧
      (ofQuery renumbered).ids.next.toNat = 5 ∧ (ofQuery renumbered).exportText = renumbered.text := by
  intro inner kept large renumbered
  have hids : Filters.ids kept.items = [7, 0x7fffffffffffffff] := rfl
  have hsmall : ∀ id ∈ Filters.ids kept.items, id.toNat ≤ 2 ^ 63 - 1 := by
    rw [hids]
    simp
  have hlarge : ∃ id ∈ Filters.ids renumbered.items, 2 ^ 63 - 1 < id.toNat :=
    ⟨0x8000000000000000, by decide, by decide⟩
  obtain ⟨hkept, -, -, hnext⟩ := (ofQuery_keeps_or_renumbers kept).1 hsmall
  obtain ⟨-, hnumbers, -, htext⟩ := ofQuery_keeps_or_renumbers renumbered
  obtain ⟨hids, hafter, -⟩ := hnumbers hlarge (by decide)
  exact ⟨⟨hkept, hnext⟩, rfl, hids, hafter, htext⟩

end Session

end SegmentQuery
