import SegmentQuery.Proofs.Ids.Tree
import SegmentQuery.Proofs.Statement.Flattening

namespace SegmentQuery

mutual

/-- The filter with a function of each id in its place. -/
def Filter.mapIds (g : UInt64 → UInt64) : Filter → Filter
  | .condition c => .condition { c with id := g c.id }
  | .group id k children => .group (g id) k (Filters.mapIds g children)

def Filters.mapIds (g : UInt64 → UInt64) : List Filter → List Filter
  | [] => []
  | f :: rest => f.mapIds g :: Filters.mapIds g rest

end

/-- The query with a function of each id in its place. -/
def Query.mapIds (g : UInt64 → UInt64) (q : Query) : Query := { q with items := Filters.mapIds g q.items }

/-- The list with a function of each id in its place. -/
def Joined.mapIds (g : UInt64 → UInt64) (j : Joined) : Joined := { j with items := Filters.mapIds g j.items }

namespace Filters

variable {g h : UInt64 → UInt64}

theorem mapIds_eq_map (items : List Filter) : mapIds g items = items.map (Filter.mapIds g) := by
  induction items with
  | nil => rfl
  | cons f rest ih => rw [mapIds, ih, List.map_cons]

theorem mapIds_append (items more : List Filter) : mapIds g (items ++ more) = mapIds g items ++ mapIds g more := by
  simp only [mapIds_eq_map, List.map_append]

theorem isEmpty_mapIds (items : List Filter) : (mapIds g items).isEmpty = items.isEmpty := by
  cases items <;> rfl

end Filters

mutual

theorem Filter.mapIds_mapIds (g h : UInt64 → UInt64) : ∀ f : Filter, (f.mapIds g).mapIds h = f.mapIds (h ∘ g)
  | .condition _ => rfl
  | .group _ _ children => by
    rw [Filter.mapIds, Filter.mapIds, Filters.mapIds_mapIds g h children]
    rfl

theorem Filters.mapIds_mapIds (g h : UInt64 → UInt64) :
    ∀ items : List Filter, Filters.mapIds h (Filters.mapIds g items) = Filters.mapIds (h ∘ g) items
  | [] => rfl
  | f :: rest => by
    rw [Filters.mapIds, Filters.mapIds, Filters.mapIds, Filter.mapIds_mapIds g h f, Filters.mapIds_mapIds g h rest]

end

mutual

theorem Filter.mapIds_congr {g h : UInt64 → UInt64} : ∀ {f : Filter}, (∀ id ∈ f.ids, g id = h id) →
    f.mapIds g = f.mapIds h
  | .condition c, hids => by
    rw [Filter.mapIds, Filter.mapIds, hids c.id (by simp [Filter.ids])]
  | .group id k children, hids => by
    rw [Filter.mapIds, Filter.mapIds, hids id (by simp [Filter.ids]),
      Filters.mapIds_congr fun i hi => hids i (by simp [Filter.ids, hi])]

/-- Only the values at the ids of a list count. -/
theorem Filters.mapIds_congr {g h : UInt64 → UInt64} : ∀ {items : List Filter},
    (∀ id ∈ Filters.ids items, g id = h id) → Filters.mapIds g items = Filters.mapIds h items
  | [], _ => rfl
  | f :: rest, hids => by
    rw [Filters.mapIds, Filters.mapIds, Filter.mapIds_congr fun i hi => hids i (by simp [Filters.ids, hi]),
      Filters.mapIds_congr fun i hi => hids i (by simp [Filters.ids, hi])]

end

mutual

theorem Filter.ids_mapIds (g : UInt64 → UInt64) : ∀ f : Filter, (f.mapIds g).ids = f.ids.map g
  | .condition _ => rfl
  | .group _ _ children => by
    rw [Filter.mapIds, Filter.ids, Filter.ids, Filters.ids_mapIds g children, List.map_cons]

theorem Filters.ids_mapIds (g : UInt64 → UInt64) :
    ∀ items : List Filter, Filters.ids (Filters.mapIds g items) = (Filters.ids items).map g
  | [] => rfl
  | f :: rest => by
    rw [Filters.mapIds, Filters.ids, Filters.ids, Filter.ids_mapIds g f, Filters.ids_mapIds g rest, List.map_append]

end

/-- Whenever ids are drawn from both sources, the second one gives a function of the id that the first one gives. -/
def IdSource.Maps (g : UInt64 → UInt64) (a b : IdSource) : Prop :=
  ∀ n : ℕ, (IdSource.advance^[n] b).next = g (IdSource.advance^[n] a).next

variable {g : UInt64 → UInt64} {a b : IdSource}

theorem IdSource.Maps.next (h : Maps g a b) : b.next = g a.next := h 0

theorem IdSource.Maps.advance (h : Maps g a b) : Maps g a.advance b.advance := fun n => h (n + 1)

theorem Filter.mapIds_ofTest (id : UInt64) (field : String) (test : Test) :
    (Filter.condition (.ofTest id field test)).mapIds g = .condition (.ofTest (g id) field test) := by
  cases test <;> rfl

theorem Filters.ofAlternatives_of_maps (parts : List (List Filter)) (h : a.Maps g b) :
    (ofAlternatives (parts.map (mapIds g)) b).1 = mapIds g (ofAlternatives parts a).1 ∧
      (ofAlternatives parts a).2.Maps g (ofAlternatives (parts.map (mapIds g)) b).2 := by
  fun_induction ofAlternatives parts a generalizing b with
  | case1 a => exact ⟨rfl, h⟩
  | case2 f rest a items after hrest ih =>
    obtain ⟨hitems, hafter⟩ := ih h
    rw [hrest] at hitems hafter
    exact ⟨congrArg (f.mapIds g :: ·) hitems, hafter⟩
  | case3 fs rest a hfs items after hrest ih =>
    obtain ⟨hitems, hafter⟩ := ih h.advance
    rw [hrest] at hitems hafter
    have hmany : ∀ f, mapIds g fs = [f] → False := fun f hf => by
      rw [mapIds_eq_map, List.map_eq_singleton_iff] at hf
      obtain ⟨f', rfl, -⟩ := hf
      exact hfs f' rfl
    rw [List.map_cons, ofAlternatives.eq_3 b _ _ hmany]
    refine ⟨?_, hafter⟩
    rw [mapIds, Filter.mapIds, ← h.next]
    exact congrArg (Filter.group b.next .and (mapIds g fs) :: ·) hitems

namespace Joined

theorem ofConjunctions_of_maps {parts : List (List Filter)} (hparts : parts ≠ []) (h : a.Maps g b) :
    (ofConjunctions (parts.map (Filters.mapIds g)) b).1 = (ofConjunctions parts a).1.mapIds g ∧
      (ofConjunctions parts a).2.Maps g (ofConjunctions (parts.map (Filters.mapIds g)) b).2 := by
  have hnil : [] ∈ parts.map (Filters.mapIds g) ↔ [] ∈ parts := by
    simp [List.mem_map, Filters.mapIds_eq_map]
  by_cases hempty : [] ∈ parts
  · rw [ofConjunctions_of_nil_mem hempty, ofConjunctions_of_nil_mem (hnil.mpr hempty)]
    exact ⟨rfl, h⟩
  · match parts, hparts with
    | [fs], _ =>
      have hfs : fs ≠ [] := fun hfs => hempty (by simp [hfs])
      have hmapped : Filters.mapIds g fs ≠ [] := fun hfs => hempty (hnil.mp (by simp [hfs]))
      rw [List.map_singleton, ofConjunctions_singleton hfs, ofConjunctions_singleton hmapped]
      exact ⟨rfl, h⟩
    | first :: second :: rest, _ =>
      rw [ofConjunctions_of_two_le (by simp) hempty, ofConjunctions_of_two_le (by simp) (hnil.not.mpr hempty)]
      obtain ⟨hitems, hafter⟩ := Filters.ofAlternatives_of_maps (first :: second :: rest) h
      exact ⟨congrArg (Joined.mk .or) hitems, hafter⟩

theorem toGroup_of_maps (j : Joined) (h : a.Maps g b) :
    ((j.mapIds g).toGroup b).1 = Filters.mapIds g (j.toGroup a).1 ∧
      (j.toGroup a).2.Maps g ((j.mapIds g).toGroup b).2 := by
  have hempty : (j.mapIds g).items.isEmpty = j.items.isEmpty := Filters.isEmpty_mapIds j.items
  rw [toGroup, toGroup, hempty]
  split
  · exact ⟨rfl, h⟩
  · rw [h.next]
    exact ⟨rfl, h.advance⟩

end Joined

/-- A disjunction read from two sources, if its conjunctions are. -/
private theorem Disjunction.join_of_conjunctions {d : Disjunction}
    (h : (d.conjunctions b).1 = (d.conjunctions a).1.map (Filters.mapIds g) ∧
      (d.conjunctions a).2.Maps g (d.conjunctions b).2) :
    (d.join b).1 = (d.join a).1.mapIds g ∧ (d.join a).2.Maps g (d.join b).2 := by
  have hjoin := Joined.ofConjunctions_of_maps (d.conjunctions_ne_nil a) h.2
  rw [← h.1] at hjoin
  exact hjoin

mutual

theorem Term.filters_of_maps : ∀ (t : Term) {a b : IdSource}, a.Maps g b →
    (t.filters b).1 = Filters.mapIds g (t.filters a).1 ∧ (t.filters a).2.Maps g (t.filters b).2
  | .condition field test, a, b, h => by
    refine ⟨?_, h.advance⟩
    have hcondition := Filter.mapIds_ofTest (g := g) a.next field test
    rw [← h.next] at hcondition
    exact congrArg (fun f => [f]) hcondition.symm
  | .literals .., _, _, h => ⟨rfl, h⟩
  | .parens inner, a, b, h => by
    obtain ⟨hjoined, hafter⟩ := Disjunction.join_of_conjunctions (Disjunction.conjunctions_of_maps inner h)
    have hgroup := Joined.toGroup_of_maps (inner.join a).1 hafter
    rw [← hjoined] at hgroup
    exact hgroup

theorem Conjunction.filters_of_maps : ∀ (c : Conjunction) {a b : IdSource}, a.Maps g b →
    (c.filters b).1 = Filters.mapIds g (c.filters a).1 ∧ (c.filters a).2.Maps g (c.filters b).2
  | .term t, _, _, h => Term.filters_of_maps t h
  | .and c t, _, _, h => by
    obtain ⟨hbefore, hmiddle⟩ := Conjunction.filters_of_maps c h
    obtain ⟨hlast, hafter⟩ := Term.filters_of_maps t hmiddle
    refine ⟨?_, hafter⟩
    rw [Conjunction.filters_and, Conjunction.filters_and, hbefore, hlast, Filters.mapIds_append]

theorem Disjunction.conjunctions_of_maps : ∀ (d : Disjunction) {a b : IdSource}, a.Maps g b →
    (d.conjunctions b).1 = (d.conjunctions a).1.map (Filters.mapIds g) ∧
      (d.conjunctions a).2.Maps g (d.conjunctions b).2
  | .conjunction c, _, _, h => by
    obtain ⟨honly, hafter⟩ := Conjunction.filters_of_maps c h
    exact ⟨congrArg (fun fs => [fs]) honly, hafter⟩
  | .or d c, _, _, h => by
    obtain ⟨hbefore, hmiddle⟩ := Disjunction.conjunctions_of_maps d h
    obtain ⟨hlast, hafter⟩ := Conjunction.filters_of_maps c hmiddle
    refine ⟨?_, hafter⟩
    rw [Disjunction.conjunctions_or, Disjunction.conjunctions_or, hbefore, hlast, List.map_append, List.map_singleton]

end

theorem Disjunction.join_of_maps (d : Disjunction) (h : a.Maps g b) :
    (d.join b).1 = (d.join a).1.mapIds g ∧ (d.join a).2.Maps g (d.join b).2 :=
  Disjunction.join_of_conjunctions (d.conjunctions_of_maps h)

theorem Statement.join_of_maps (s : Statement) (h : a.Maps g b) :
    (s.join b).1 = (s.join a).1.mapIds g ∧ (s.join a).2.Maps g (s.join b).2 := by
  rw [join, join]
  cases s.filter with
  | none => exact ⟨rfl, h⟩
  | some d => exact d.join_of_maps h

/-- A statement gives the same query from both sources, with other ids. -/
theorem Statement.resolve_of_maps (s : Statement) (h : a.Maps g b) :
    (s.resolve b).1 = (s.resolve a).1.mapIds g ∧ (s.resolve a).2.Maps g (s.resolve b).2 := by
  obtain ⟨hjoined, hafter⟩ := s.join_of_maps h
  refine ⟨?_, hafter⟩
  simp only [resolve, hjoined]
  rfl

theorem DisjunctionDraft.useIds_of_maps (d : DisjunctionDraft) (h : a.Maps g b) :
    (d.useIds a).Maps g (d.useIds b) := by
  cases d with
  | start => exact h
  | and d | or d => exact (d.conjunctions_of_maps h).2

theorem DisjunctionDraft.foldr_useIds_of_maps (ds : List DisjunctionDraft) (h : a.Maps g b) :
    (ds.foldr useIds a).Maps g (ds.foldr useIds b) := by
  induction ds with
  | nil => exact h
  | cons d ds ih => exact d.useIds_of_maps ih

theorem Statement.Draft.useIds_of_maps (d : Draft) (h : a.Maps g b) : (d.useIds a).Maps g (d.useIds b) := by
  cases d with
  | filter s f =>
    cases f with
    | inTerm outer current term => exact DisjunctionDraft.foldr_useIds_of_maps (current :: outer) h
    | afterTerm outer d => exact (d.join_of_maps (DisjunctionDraft.foldr_useIds_of_maps outer h)).2
  | order s | orderField s | afterField s _ | afterOrder s | limit s | complete s => exact (s.join_of_maps h).2
  | start | columns | column | afterColumns | table | afterTable => exact h

/-- A text is read in the same way from both sources, but for the ids. -/
theorem Query.read_of_maps (text : String) (h : a.Maps g b) :
    (read text b).1 = (read text a).1.map (mapIds g) ∧ (read text a).2.Maps g (read text b).2 := by
  rw [read, read]
  cases Statement.ofTokens (Token.scan text.toList) with
  | ok s =>
    obtain ⟨hquery, hafter⟩ := s.resolve_of_maps h
    exact ⟨congrArg Except.ok hquery, hafter⟩
  | error f => exact ⟨rfl, f.draft.useIds_of_maps h⟩

namespace IdSource

/-- The id that comes `n` ids after another, or the last one if there are not as many. -/
def raise (n id : UInt64) : UInt64 := UInt64.ofNat (min (id.toNat + n.toNat) last.toNat)

theorem toNat_raise (n id : UInt64) : (raise n id).toNat = min (id.toNat + n.toNat) last.toNat := by
  have hlast : last.toNat < UInt64.size := by decide
  rw [raise, UInt64.toNat_ofNat_of_lt' (Nat.lt_of_le_of_lt (Nat.min_le_right _ _) hlast)]

/-- The ids of a source are those of the source that starts at 0, raised by its first one. -/
theorem maps_raise (ids : IdSource) : Maps (raise ids.next) ⟨0⟩ ids := by
  intro n
  rw [← UInt64.toNat_inj, toNat_raise, toNat_next_iterate, toNat_next_iterate]
  simp only [UInt64.toNat_zero]
  omega

end IdSource

end SegmentQuery
