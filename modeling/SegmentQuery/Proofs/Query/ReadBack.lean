import SegmentQuery.Proofs.Query.Reread

namespace SegmentQuery

/-- The connector of filters as it is read back. A single filter shows none. -/
def Connector.settled (k : Connector) (items : List Filter) : Connector := if 2 ≤ items.length then k else .and

theorem Connector.settled_of_length_eq {items more : List Filter} (h : items.length = more.length) (k : Connector) :
    k.settled items = k.settled more := by
  rw [settled, settled, h]

mutual

/-- Every group has members, and every condition asks for something. -/
def Filter.Full : Filter → Prop
  | .condition c => c.asksNothing = false
  | .group _ _ children => children ≠ [] ∧ Filters.Full children

def Filters.Full : List Filter → Prop
  | [] => True
  | f :: rest => f.Full ∧ Filters.Full rest

end

mutual

/-- The filter that is read back, without ids. -/
def Filter.readBack : Filter → Filter
  | .condition c => .condition c.reread.anonymous
  | .group _ k children => .group 0 (k.settled children) (Filters.readBack children)

def Filters.readBack : List Filter → List Filter
  | [] => []
  | f :: rest => f.readBack :: Filters.readBack rest

end

theorem Filters.length_readBack (items : List Filter) : (readBack items).length = items.length := by
  induction items with
  | nil => rfl
  | cons f rest ih => rw [readBack, List.length_cons, List.length_cons, ih]

/-- Terms that each give one filter form a chain that gives these filters. -/
private theorem Chain.gives_of_forall₂ {ts : List Term} {fs : List Filter}
    (h : List.Forall₂ (fun t f => Term.Gives t [f]) ts fs) : Chain.Gives ts fs := by
  have hparts : List.Forall₂ Term.Gives ts (fs.map fun f => [f]) := by rwa [List.forall₂_map_right_iff]
  have hflatten : (fs.map fun f => [f]).flatten = fs := List.flatMap_singleton' fs
  have hgives := Chain.Gives.intro hparts
  rwa [hflatten] at hgives

/-- The chains of joined terms: a single one under `AND`, and one for each term under `OR`. -/
private theorem Connector.chains_of_joinTerms? {k : Connector} {ts : List Term} {d : Disjunction}
    (h : k.joinTerms? ts = some d) : d.chains = match k with
      | .and => [ts]
      | .or => ts.map fun t => [t] := by
  refine joinTerms?_induction (P := fun ts d => d.chains = match k with
    | .and => [ts]
    | .or => ts.map fun t => [t]) (fun t => by cases k <;> rfl) ?_ ?_ h
  · rintro rfl ts c t - ih
    have hterms : c.terms = ts := by simpa [Disjunction.chains] using ih
    rw [← hterms]
    rfl
  · rintro rfl ts d t - ih
    rw [Disjunction.chains, ih, List.map_append]
    rfl

/-- Different terms are joined to different disjunctions. -/
theorem Connector.joinTerms?_inj {k : Connector} {ts us : List Term} :
    k.joinTerms? ts = k.joinTerms? us ↔ ts = us := by
  refine ⟨fun h => ?_, congrArg _⟩
  cases hd : k.joinTerms? ts with
  | none =>
    rw [hd] at h
    rw [joinTerms?_eq_none.mp hd, joinTerms?_eq_none.mp h.symm]
  | some d =>
    have hts := chains_of_joinTerms? hd
    have hus := chains_of_joinTerms? (h ▸ hd)
    rw [hts] at hus
    cases k with
    | and => exact List.singleton_inj.mp hus
    | or => exact List.map_injective_iff.mpr (fun t u htu => List.singleton_inj.mp htu) hus

/-- Joined terms that each give one filter give these filters, joined in the same way. -/
theorem Connector.flattens_of_joinTerms? {k : Connector} {ts : List Term} {fs : List Filter} {d : Disjunction}
    (hgives : List.Forall₂ (fun t f => Term.Gives t [f]) ts fs) (h : k.joinTerms? ts = some d) :
    d.Flattens (k.settled fs) fs := by
  have hchains := chains_of_joinTerms? h
  have hts : ts ≠ [] := fun hnil => by
    rw [joinTerms?_eq_none.mpr hnil] at h
    cases h
  have hfs : fs ≠ [] := by
    rintro rfl
    exact hts (List.forall₂_nil_right_iff.mp hgives)
  have hsingle : d.chains = [ts] → d.Flattens .and fs := fun hchain =>
    .intro (hchain ▸ .cons (Chain.gives_of_forall₂ hgives) .nil) (.single hfs)
  rw [settled]
  by_cases htwo : 2 ≤ fs.length
  · rw [if_pos htwo]
    cases k with
    | and => exact hsingle hchains
    | or =>
      have hparts : List.Forall₂ Chain.Gives d.chains (fs.map fun f => [f]) := by
        rw [hchains, List.forall₂_map_left_iff, List.forall₂_map_right_iff]
        exact hgives.imp fun t f => Chain.gives_singleton.mpr
      have hjoin : Chain.Join (fs.map fun f => [f]) .or ((fs.map fun f => [f]).map Chain.asFilter) :=
        .several (by simpa using htwo) (by simp)
      have hitems : (fs.map fun f => [f]).map Chain.asFilter = fs := by
        rw [List.map_map]
        exact List.map_id fs
      rw [hitems] at hjoin
      exact .intro hparts hjoin
  · rw [if_neg htwo]
    have hone : ts.length = 1 := by
      have hlength := hgives.length_eq
      have hpos := List.length_pos_iff.mpr hfs
      omega
    obtain ⟨t, rfl⟩ := List.length_eq_one_iff.mp hone
    apply hsingle
    cases k with
    | and | or => exact hchains

mutual

/-- A full filter has a term, and the term gives what is read back. -/
theorem Filter.gives_readBack : ∀ f : Filter, f.Full → ∃ t, f.term? = some t ∧ t.Gives [f.readBack]
  | .condition c, hasks => by
    rw [Filter.Full] at hasks
    obtain ⟨test, htest⟩ := Condition.exists_test? hasks
    refine ⟨c.term, rfl, ?_⟩
    rw [Condition.term, htest, Filter.readBack, ← Condition.ofTest_eq_reread htest]
    exact .condition c.field test
  | .group id k children, h => by
    obtain ⟨hchildren, hfull⟩ := h
    have hgives := Filters.gives_readBack children hfull
    have hlength := hgives.length_eq
    rw [Filters.length_readBack] at hlength
    have hterms : Filters.terms children ≠ [] := by
      rw [ne_eq, ← List.length_eq_zero_iff, hlength, List.length_eq_zero_iff]
      exact hchildren
    obtain ⟨d, hd⟩ := Option.ne_none_iff_exists'.mp (mt Connector.joinTerms?_eq_none.mp hterms)
    refine ⟨.parens d, by rw [Filter.term?, hd]; rfl, ?_⟩
    have hflattens := Connector.flattens_of_joinTerms? hgives hd
    rw [k.settled_of_length_eq (Filters.length_readBack children)] at hflattens
    refine .group hflattens ?_
    rwa [ne_eq, ← List.length_eq_zero_iff, Filters.length_readBack, List.length_eq_zero_iff]

theorem Filters.gives_readBack : ∀ items : List Filter, Filters.Full items →
    List.Forall₂ (fun t f => Term.Gives t [f]) (Filters.terms items) (Filters.readBack items)
  | [], _ => .nil
  | f :: rest, h => by
    obtain ⟨t, ht, hgives⟩ := Filter.gives_readBack f h.1
    rw [Filters.terms, ht]
    exact .cons hgives (Filters.gives_readBack rest h.2)

end

/-- The statement of a query with full filters gives the filters that are read back. -/
theorem Query.flattens_readBack {q : Query} (h : Filters.Full q.items) :
    q.statement.Flattens (q.connector.settled q.items) (Filters.readBack q.items) := by
  have hgives := Filters.gives_readBack q.items h
  rw [← q.connector.settled_of_length_eq (Filters.length_readBack q.items)]
  cases hd : q.connector.joinTerms? (Filters.terms q.items) with
  | none =>
    rw [Connector.joinTerms?_eq_none.mp hd, List.forall₂_nil_left_iff] at hgives
    rw [hgives]
    exact .everything hd
  | some d => exact .filter hd (Connector.flattens_of_joinTerms? hgives hd)

mutual

/-- Ids are not written. -/
theorem Filter.term?_anonymous : ∀ f : Filter, f.anonymous.term? = f.term?
  | .condition _ => rfl
  | .group _ _ children => by rw [Filter.anonymous, Filter.term?, Filters.terms_anonymous children, Filter.term?]

theorem Filters.terms_anonymous : ∀ items : List Filter, Filters.terms (Filters.anonymous items) = Filters.terms items
  | [] => rfl
  | f :: rest => by
    rw [Filters.anonymous, Filters.terms, Filter.term?_anonymous f, Filters.terms_anonymous rest, Filters.terms]

end

theorem Filters.length_terms_le (items : List Filter) : (terms items).length ≤ items.length := by
  induction items with
  | nil => exact Nat.le_refl _
  | cons f rest ih =>
    have hfirst : f.term?.toList.length ≤ 1 := by cases f.term? <;> simp
    rw [terms, List.length_append, List.length_cons]
    omega

/-- The connector of a list with a single filter is not written. -/
theorem Connector.joinTerms?_settled {k : Connector} {items : List Filter} {ts : List Term}
    (h : ts.length ≤ items.length) : (k.settled items).joinTerms? ts = k.joinTerms? ts := by
  rw [settled]
  split
  · rfl
  · match ts with
    | [] | [_] => cases k <;> rfl
    | _ :: _ :: _ =>
      simp only [List.length_cons] at h
      omega

mutual

theorem Filter.conditions_readBack : ∀ f : Filter,
    f.readBack.conditions = f.conditions.map fun c => c.reread.anonymous
  | .condition _ => rfl
  | .group _ _ children => Filters.conditions_readBack children

theorem Filters.conditions_readBack : ∀ items : List Filter,
    Filters.conditions (Filters.readBack items) = (Filters.conditions items).map fun c => c.reread.anonymous
  | [] => rfl
  | f :: rest => by
    rw [Filters.readBack, Filters.conditions, Filters.conditions, List.map_append, Filter.conditions_readBack f,
      Filters.conditions_readBack rest]

end

mutual

/-- What is read back of a filter is written in the same way exactly if its conditions are. -/
theorem Filter.term?_readBack_iff : ∀ f : Filter,
    f.readBack.term? = f.term? ↔ ∀ c ∈ f.conditions, c.reread.term = c.term
  | .condition c => by
    have hterm : c.reread.anonymous.term = c.reread.term := rfl
    simp only [Filter.readBack, Filter.term?, Filter.conditions, Option.some.injEq, List.mem_singleton, forall_eq,
      hterm]
  | .group id k children => by
    have hlength : (Filters.terms (Filters.readBack children)).length ≤ children.length := by
      rw [← Filters.length_readBack children]
      exact Filters.length_terms_le _
    rw [Filter.readBack, Filter.term?, Filter.term?, Connector.joinTerms?_settled hlength, Filter.conditions,
      ← Filters.terms_readBack_iff children, ← Connector.joinTerms?_inj (k := k)]
    exact (Option.map_injective fun _ _ => Term.parens.inj).eq_iff

theorem Filters.terms_readBack_iff : ∀ items : List Filter,
    Filters.terms (Filters.readBack items) = Filters.terms items ↔
      ∀ c ∈ Filters.conditions items, c.reread.term = c.term
  | [] => by simp [Filters.readBack, Filters.conditions]
  | f :: rest => by
    rw [Filters.readBack, Filters.terms, Filters.terms, Filters.conditions, List.forall_mem_append,
      ← Filter.term?_readBack_iff f, ← Filters.terms_readBack_iff rest]
    have hnone : f.readBack.term? = none ↔ f.term? = none := by
      rw [Filter.term?_eq_none, Filter.term?_eq_none, Filter.conditions_readBack, List.map_eq_nil_iff]
    cases hread : f.readBack.term? with
    | none => simp [hnone.mp hread]
    | some t =>
      obtain ⟨u, hu⟩ := Option.ne_none_iff_exists'.mp (mt hnone.mpr (by simp [hread]))
      simp [hu]

end

end SegmentQuery
