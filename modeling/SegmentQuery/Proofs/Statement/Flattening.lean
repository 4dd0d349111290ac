import Mathlib.Data.List.Forall2
import SegmentQuery.Proofs.Filter.Anonymous
import SegmentQuery.Statement.Resolve

namespace SegmentQuery

/-- The terms of a conjunction. -/
def Conjunction.terms : Conjunction → List Term
  | .term t => [t]
  | .and c t => c.terms ++ [t]

/-- The chains of a disjunction, each as the list of its terms. -/
def Disjunction.chains : Disjunction → List (List Term)
  | .conjunction c => [c.terms]
  | .or d c => d.chains ++ [c.terms]

/-- A chain among others: its only filter, or a group of all of them. -/
def Chain.asFilter : List Filter → Filter
  | [f] => f
  | fs => .group 0 .and fs

/-- What chains with given filters give together, and the connector between them. -/
inductive Chain.Join : List (List Filter) → Connector → List Filter → Prop where
  /-- A chain without filters leaves none at all. -/
  | always {parts : List (List Filter)} (hempty : [] ∈ parts) : Chain.Join parts .and []
  /-- A single chain stays flat. -/
  | single {items : List Filter} (hne : items ≠ []) : Chain.Join [items] .and items
  /-- Of several chains each becomes one filter. -/
  | several {parts : List (List Filter)} (hlength : 2 ≤ parts.length) (hne : [] ∉ parts) :
      Chain.Join parts .or (parts.map Chain.asFilter)

mutual

/-- The filters that a term gives. -/
inductive Term.Gives : Term → List Filter → Prop where
  | condition (field : String) (test : Test) : Term.Gives (.condition field test) [.condition (.ofTest 0 field test)]
  /-- A comparison of literals gives no filter. -/
  | literals (left : String) (c : Comparison) (right : Literal) : Term.Gives (.literals left c right) []
  /-- Parentheses around no filters give none. -/
  | empty {inner : Disjunction} {k : Connector} (h : Disjunction.Flattens inner k []) : Term.Gives (.parens inner) []
  /-- Parentheses around filters give one group, even around a single one. -/
  | group {inner : Disjunction} {k : Connector} {items : List Filter} (h : Disjunction.Flattens inner k items)
      (hne : items ≠ []) : Term.Gives (.parens inner) [.group 0 k items]

/-- The filters that a chain gives: those of its terms, one after the other. -/
inductive Chain.Gives : List Term → List Filter → Prop where
  | intro {terms : List Term} {parts : List (List Filter)} (h : List.Forall₂ Term.Gives terms parts) :
      Chain.Gives terms parts.flatten

/-- The filters that a disjunction gives, and the connector between them. -/
inductive Disjunction.Flattens : Disjunction → Connector → List Filter → Prop where
  | intro {d : Disjunction} {parts : List (List Filter)} {k : Connector} {items : List Filter}
      (h : List.Forall₂ Chain.Gives d.chains parts) (hjoin : Chain.Join parts k items) : Disjunction.Flattens d k items

end

/-- The filters that a statement gives, and the connector between them. Without a `WHERE` there are none. -/
inductive Statement.Flattens : Statement → Connector → List Filter → Prop where
  | everything {s : Statement} (h : s.filter = none) : Statement.Flattens s .and []
  | filter {s : Statement} {d : Disjunction} {k : Connector} {items : List Filter} (hfilter : s.filter = some d)
      (h : d.Flattens k items) : Statement.Flattens s k items

private theorem forall₂_snoc_iff {α β : Type} {R : α → β → Prop} {xs : List α} {x : α} {ys : List β} :
    List.Forall₂ R (xs ++ [x]) ys ↔ ∃ before last, ys = before ++ [last] ∧ List.Forall₂ R xs before ∧ R x last := by
  induction xs generalizing ys with
  | nil =>
    simp only [List.nil_append, List.forall₂_cons_left_iff, List.forall₂_nil_left_iff]
    constructor
    · rintro ⟨last, _, hlast, rfl, rfl⟩
      exact ⟨[], last, rfl, rfl, hlast⟩
    · rintro ⟨_, last, rfl, rfl, hlast⟩
      exact ⟨last, [], hlast, rfl, rfl⟩
  | cons y xs ih =>
    simp only [List.cons_append, List.forall₂_cons_left_iff, ih]
    constructor
    · rintro ⟨first, _, hfirst, ⟨before, last, rfl, hbefore, hlast⟩, rfl⟩
      exact ⟨first :: before, last, rfl, ⟨first, before, hfirst, hbefore, rfl⟩, hlast⟩
    · rintro ⟨_, last, rfl, ⟨first, before, hfirst, hbefore, rfl⟩, hlast⟩
      exact ⟨first, before ++ [last], hfirst, ⟨before, last, rfl, hbefore, hlast⟩, rfl⟩

theorem Chain.gives_singleton {t : Term} {fs : List Filter} : Chain.Gives [t] fs ↔ t.Gives fs := by
  constructor
  · rintro ⟨h⟩
    obtain ⟨part, _, hpart, hnil, rfl⟩ := List.forall₂_cons_left_iff.mp h
    rw [List.forall₂_nil_left_iff] at hnil
    subst hnil
    simpa using hpart
  · intro h
    simpa using Chain.Gives.intro (.cons h .nil)

theorem Chain.gives_snoc {ts : List Term} {t : Term} {fs : List Filter} :
    Chain.Gives (ts ++ [t]) fs ↔ ∃ before last, fs = before ++ last ∧ Chain.Gives ts before ∧ t.Gives last := by
  constructor
  · rintro ⟨h⟩
    obtain ⟨before, last, rfl, hbefore, hlast⟩ := forall₂_snoc_iff.mp h
    exact ⟨before.flatten, last, by simp, ⟨hbefore⟩, hlast⟩
  · rintro ⟨_, last, rfl, ⟨hbefore⟩, hlast⟩
    simpa using Chain.Gives.intro (forall₂_snoc_iff.mpr ⟨_, last, rfl, hbefore, hlast⟩)

namespace Joined

theorem ofConjunctions_of_nil_mem {parts : List (List Filter)} (h : [] ∈ parts) (ids : IdSource) :
    ofConjunctions parts ids = (⟨.and, []⟩, ids) := by
  have hany : parts.any List.isEmpty = true := List.any_eq_true.mpr ⟨[], h, rfl⟩
  simp [ofConjunctions, hany]

theorem ofConjunctions_singleton {fs : List Filter} (hne : fs ≠ []) (ids : IdSource) :
    ofConjunctions [fs] ids = (⟨.and, fs⟩, ids) := by
  simp [ofConjunctions, hne]

theorem ofConjunctions_of_two_le {parts : List (List Filter)} (hlength : 2 ≤ parts.length) (hne : [] ∉ parts)
    (ids : IdSource) :
    ofConjunctions parts ids = (⟨.or, (Filters.ofAlternatives parts ids).1⟩, (Filters.ofAlternatives parts ids).2) := by
  have hany : parts.any List.isEmpty = false := by
    simpa [List.any_eq_false] using fun fs hfs => fun (hnil : fs = []) => hne (hnil ▸ hfs)
  match parts with
  | first :: second :: rest => simp only [ofConjunctions, hany, Bool.false_eq_true, if_false]

end Joined

theorem Chain.asFilter_of_length_ne_one {fs : List Filter} (h : fs.length ≠ 1) : asFilter fs = .group 0 .and fs := by
  match fs with
  | [] => rfl
  | [_] => simp at h
  | _ :: _ :: _ => rfl

theorem Filters.anonymous_ofAlternatives (parts : List (List Filter)) (ids : IdSource) :
    anonymous (ofAlternatives parts ids).1 = (parts.map anonymous).map Chain.asFilter := by
  fun_induction ofAlternatives parts ids with
  | case1 => rfl
  | case2 f rest ids items after hrest ih =>
    rw [hrest] at ih
    rw [anonymous, ih]
    rfl
  | case3 fs rest ids hfs items after hrest ih =>
    have hlength : (anonymous fs).length ≠ 1 := by
      intro hone
      rw [length_anonymous] at hone
      obtain ⟨f, hf⟩ := List.length_eq_one_iff.mp hone
      exact hfs f hf
    rw [hrest] at ih
    rw [anonymous, ih, List.map_cons, List.map_cons, Chain.asFilter_of_length_ne_one hlength]
    rfl

/-- Joining conjunctions follows the rules. -/
theorem Chain.join_iff {parts : List (List Filter)} (hparts : parts ≠ []) (ids : IdSource) (k : Connector)
    (items : List Filter) :
    Join (parts.map Filters.anonymous) k items ↔ k = (Joined.ofConjunctions parts ids).1.connector ∧
      items = Filters.anonymous (Joined.ofConjunctions parts ids).1.items := by
  have hnil : [] ∈ parts.map Filters.anonymous ↔ [] ∈ parts := by
    simp [List.mem_map, Filters.anonymous_eq_nil]
  by_cases hempty : [] ∈ parts
  · rw [Joined.ofConjunctions_of_nil_mem hempty]
    constructor
    · generalize hall : parts.map Filters.anonymous = all at hnil
      rintro (_ | hne | ⟨_, hne⟩)
      · exact ⟨rfl, rfl⟩
      · exact absurd (List.mem_singleton.mp (hnil.mpr hempty)).symm hne
      · exact absurd (hnil.mpr hempty) hne
    · rintro ⟨rfl, rfl⟩
      exact .always (hnil.mpr hempty)
  · match parts, hparts with
    | [fs], _ =>
      have hfs : fs ≠ [] := fun h => hempty (by simp [h])
      rw [Joined.ofConjunctions_singleton hfs]
      constructor
      · rintro (h | _ | ⟨h, _⟩)
        · exact absurd (hnil.mp h) hempty
        · exact ⟨rfl, rfl⟩
        · simp at h
      · rintro ⟨rfl, rfl⟩
        exact .single (by rwa [ne_eq, Filters.anonymous_eq_nil])
    | first :: second :: rest, _ =>
      rw [Joined.ofConjunctions_of_two_le (by simp) hempty, Filters.anonymous_ofAlternatives]
      constructor
      · rintro (h | _ | _)
        · exact absurd (hnil.mp h) hempty
        · exact ⟨rfl, rfl⟩
      · rintro ⟨rfl, rfl⟩
        exact .several (by simp) (fun h => hempty (hnil.mp h))

theorem Condition.id_ofTest (id : UInt64) (field : String) (test : Test) : (ofTest id field test).id = id := by
  cases test <;> rfl

theorem Condition.field_ofTest (id : UInt64) (field : String) (test : Test) :
    (ofTest id field test).field = Schema.canonical field := by
  cases test <;> rfl

theorem Condition.anonymous_ofTest (id : UInt64) (field : String) (test : Test) :
    (ofTest id field test).anonymous = ofTest 0 field test := by
  cases test <;> rfl

/-- A condition gives one filter. -/
theorem Term.anonymous_filters_condition (field : String) (test : Test) (ids : IdSource) :
    Filters.anonymous (filters (.condition field test) ids).1 = [.condition (.ofTest 0 field test)] := by
  rw [← Condition.anonymous_ofTest ids.next]
  rfl

theorem Term.filters_parens (inner : Disjunction) (ids : IdSource) :
    (filters (.parens inner) ids).1 = ((inner.join ids).1.toGroup (inner.join ids).2).1 := rfl

theorem Conjunction.filters_and (c : Conjunction) (t : Term) (ids : IdSource) :
    (filters (.and c t) ids).1 = (c.filters ids).1 ++ (t.filters (c.filters ids).2).1 := rfl

theorem Disjunction.conjunctions_or (d : Disjunction) (c : Conjunction) (ids : IdSource) :
    (conjunctions (.or d c) ids).1 = (d.conjunctions ids).1 ++ [(c.filters (d.conjunctions ids).2).1] := rfl

theorem Disjunction.conjunctions_ne_nil (d : Disjunction) (ids : IdSource) : (d.conjunctions ids).1 ≠ [] := by
  cases d <;> simp [conjunctions]

/-- The filters of a disjunction follow the rules, if those of its chains do. -/
private theorem Disjunction.flattens_iff_of_chains {d : Disjunction} {ids : IdSource}
    (hchains : ∀ parts, List.Forall₂ Chain.Gives d.chains parts ↔
      parts = (d.conjunctions ids).1.map Filters.anonymous) (k : Connector) (items : List Filter) :
    d.Flattens k items ↔
      k = (d.join ids).1.connector ∧ items = Filters.anonymous (d.join ids).1.items := by
  have hjoin := Chain.join_iff (d.conjunctions_ne_nil ids) (d.conjunctions ids).2 k items
  constructor
  · rintro ⟨h, hparts⟩
    rw [(hchains _).mp h] at hparts
    exact hjoin.mp hparts
  · intro h
    exact ⟨(hchains _).mpr rfl, hjoin.mpr h⟩

mutual

theorem Term.gives_iff : ∀ (t : Term) (ids : IdSource) (fs : List Filter),
    t.Gives fs ↔ fs = Filters.anonymous (t.filters ids).1
  | .condition field test, ids, fs => by
    rw [Term.anonymous_filters_condition]
    constructor
    · rintro ⟨⟩
      rfl
    · rintro rfl
      exact .condition field test
  | .literals left c right, ids, fs => by
    constructor
    · rintro ⟨⟩
      rfl
    · rintro rfl
      exact .literals left c right
  | .parens inner, ids, fs => by
    have hinner := Disjunction.flattens_iff_of_chains (Disjunction.forall₂_gives_iff inner ids)
    rw [Term.filters_parens, Joined.toGroup]
    constructor
    · rintro (_ | _ | h | ⟨h, hne⟩)
      · obtain ⟨-, hitems⟩ := (hinner _ _).mp h
        rw [eq_comm, Filters.anonymous_eq_nil] at hitems
        simp [hitems, Filters.anonymous]
      · obtain ⟨rfl, rfl⟩ := (hinner _ _).mp h
        rw [ne_eq, Filters.anonymous_eq_nil] at hne
        simp [hne, Filters.anonymous, Filter.anonymous]
    · rintro rfl
      have hflattens := (hinner _ _).mpr ⟨rfl, rfl⟩
      by_cases hitems : (inner.join ids).1.items = []
      · rw [hitems] at hflattens ⊢
        exact .empty hflattens
      · simp only [List.isEmpty_iff, hitems, if_false]
        exact .group hflattens (by rwa [ne_eq, Filters.anonymous_eq_nil])

theorem Conjunction.gives_iff : ∀ (c : Conjunction) (ids : IdSource) (fs : List Filter),
    Chain.Gives c.terms fs ↔ fs = Filters.anonymous (c.filters ids).1
  | .term t, ids, fs => Chain.gives_singleton.trans (Term.gives_iff t ids fs)
  | .and c t, ids, fs => by
    have hbefore := Conjunction.gives_iff c ids
    have hlast := Term.gives_iff t (c.filters ids).2
    rw [Conjunction.terms, Chain.gives_snoc, Conjunction.filters_and, Filters.anonymous_append]
    constructor
    · rintro ⟨before, last, rfl, h, h'⟩
      rw [(hbefore _).mp h, (hlast _).mp h']
    · rintro rfl
      exact ⟨_, _, rfl, (hbefore _).mpr rfl, (hlast _).mpr rfl⟩

theorem Disjunction.forall₂_gives_iff : ∀ (d : Disjunction) (ids : IdSource) (parts : List (List Filter)),
    List.Forall₂ Chain.Gives d.chains parts ↔ parts = (d.conjunctions ids).1.map Filters.anonymous
  | .conjunction c, ids, parts => by
    have hc := Conjunction.gives_iff c ids
    have hparts : (Disjunction.conjunctions (.conjunction c) ids).1 = [(c.filters ids).1] := rfl
    rw [Disjunction.chains, hparts, List.map_singleton]
    constructor
    · rintro (_ | ⟨h, _ | _⟩)
      rw [(hc _).mp h]
    · rintro rfl
      exact .cons ((hc _).mpr rfl) .nil
  | .or d c, ids, parts => by
    have hd := Disjunction.forall₂_gives_iff d ids
    have hc := Conjunction.gives_iff c (d.conjunctions ids).2
    rw [Disjunction.chains, Disjunction.conjunctions_or, forall₂_snoc_iff, List.map_append, List.map_singleton]
    constructor
    · rintro ⟨before, last, rfl, h, h'⟩
      rw [(hd _).mp h, (hc _).mp h']
    · rintro rfl
      exact ⟨_, _, rfl, (hd _).mpr rfl, (hc _).mpr rfl⟩

end

/-- Resolving a statement gives the filters of the rules, and the rules give no others. -/
theorem Statement.flattens_iff (s : Statement) (ids : IdSource) {k : Connector} {items : List Filter} :
    s.Flattens k items ↔ k = (s.join ids).1.connector ∧ items = Filters.anonymous (s.join ids).1.items := by
  rw [join]
  cases hfilter : s.filter with
  | none =>
    constructor
    · rintro (_ | ⟨h, -⟩)
      · exact ⟨rfl, rfl⟩
      · rw [hfilter] at h
        cases h
    · rintro ⟨rfl, rfl⟩
      exact .everything hfilter
  | some d =>
    have hd := Disjunction.flattens_iff_of_chains (Disjunction.forall₂_gives_iff d ids) k items
    constructor
    · rintro (h | ⟨h, hflattens⟩)
      · rw [hfilter] at h
        cases h
      · rw [hfilter] at h
        cases h
        exact hd.mp hflattens
    · intro h
      exact .filter hfilter (hd.mpr h)

end SegmentQuery
