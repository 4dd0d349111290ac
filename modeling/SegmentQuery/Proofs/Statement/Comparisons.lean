import SegmentQuery.Proofs.Statement.Progress

namespace SegmentQuery

open Comparison (Trivial)

/-- A comparison of literals in a statement, with the number of tokens of the statement up to its end. -/
structure LiteralComparison where
  left : String
  sign : Comparison
  right : Literal
  stop : Nat

namespace LiteralComparison

/-- The comparison says that a text equals itself. -/
def Trivial (k : LiteralComparison) : Prop := Comparison.Trivial k.left k.sign k.right

/-- Of the comparisons that could fail, the one that ends first. -/
structure FailsFirst (k : LiteralComparison) (ks : List LiteralComparison) : Prop where
  mem : k ∈ ks
  fails : ¬k.Trivial
  first : ∀ j ∈ ks, ¬j.Trivial → k.stop ≤ j.stop

theorem FailsFirst.append {k : LiteralComparison} {ks js : List LiteralComparison} (h : k.FailsFirst ks)
    (hlater : ∀ j ∈ js, k.stop ≤ j.stop) : k.FailsFirst (ks ++ js) where
  mem := List.mem_append_left js h.mem
  fails := h.fails
  first j hj hfails := (List.mem_append.mp hj).elim (fun hj => h.first j hj hfails) (hlater j)

/-- Comparisons that hold may stand before it. -/
theorem FailsFirst.behind {k : LiteralComparison} {ks js : List LiteralComparison} (h : k.FailsFirst ks)
    (htrivial : ∀ j ∈ js, j.Trivial) : k.FailsFirst (js ++ ks) where
  mem := List.mem_append_right js h.mem
  fails := h.fails
  first j hj hfails := (List.mem_append.mp hj).elim (fun hj => absurd (htrivial j hj) hfails) (h.first j · hfails)

end LiteralComparison

mutual

/-- The comparisons of literals in a term that stands behind some tokens. -/
def Term.comparisons (before : Nat) : Term → List LiteralComparison
  | .condition .. => []
  | .literals left c right => [⟨left, c, right, before + 3⟩]
  | .parens inner => inner.comparisons (before + 1)

def Conjunction.comparisons (before : Nat) : Conjunction → List LiteralComparison
  | .term t => t.comparisons before
  | .and c t => c.comparisons before ++ t.comparisons (before + c.tokens.length + 1)

def Disjunction.comparisons (before : Nat) : Disjunction → List LiteralComparison
  | .conjunction c => c.comparisons before
  | .or d c => d.comparisons before ++ c.comparisons (before + d.tokens.length + 1)

end

/-- The comparisons of literals in a statement. -/
def Statement.comparisons (s : Statement) : List LiteralComparison :=
  (s.filter.map (·.comparisons (s.columns.tokens.length + 4))).getD []

mutual

theorem Term.everyComparison_iff (before : Nat) : ∀ t : Term,
    t.EveryComparison Trivial ↔ ∀ k ∈ t.comparisons before, k.Trivial
  | .condition .. => by simp [Term.EveryComparison, Term.comparisons]
  | .literals .. => by simp [Term.EveryComparison, Term.comparisons, LiteralComparison.Trivial]
  | .parens inner => Disjunction.everyComparison_iff (before + 1) inner

theorem Conjunction.everyComparison_iff (before : Nat) : ∀ c : Conjunction,
    c.EveryComparison Trivial ↔ ∀ k ∈ c.comparisons before, k.Trivial
  | .term t => Term.everyComparison_iff before t
  | .and c t => by
    rw [Conjunction.EveryComparison, Conjunction.comparisons, List.forall_mem_append]
    exact and_congr (Conjunction.everyComparison_iff before c) (Term.everyComparison_iff _ t)

theorem Disjunction.everyComparison_iff (before : Nat) : ∀ d : Disjunction,
    d.EveryComparison Trivial ↔ ∀ k ∈ d.comparisons before, k.Trivial
  | .conjunction c => Conjunction.everyComparison_iff before c
  | .or d c => by
    rw [Disjunction.EveryComparison, Disjunction.comparisons, List.forall_mem_append]
    exact and_congr (Disjunction.everyComparison_iff before d) (Conjunction.everyComparison_iff _ c)

end

theorem Statement.everyComparison_iff (s : Statement) :
    s.EveryComparison Trivial ↔ ∀ k ∈ s.comparisons, k.Trivial := by
  unfold EveryComparison comparisons
  cases s.filter with
  | none => simp
  | some d => simpa using d.everyComparison_iff _

/-- The comparison is among tokens that stand behind some others, and it ends where it says. -/
def LiteralComparison.StandsIn (k : LiteralComparison) (before : Nat) (ts : List Token) : Prop :=
  ∃ us vs, ts = us ++ [.number k.left, .comparison k.sign, k.right.token] ++ vs ∧ k.stop = before + us.length + 3

namespace LiteralComparison

variable {k : LiteralComparison} {before : Nat} {ts : List Token}

theorem StandsIn.lt_stop (h : k.StandsIn before ts) : before < k.stop := by
  obtain ⟨us, vs, -, hstop⟩ := h
  omega

/-- Its tokens are the last ones up to its end. -/
theorem StandsIn.suffix_take (h : k.StandsIn 0 ts) :
    [.number k.left, .comparison k.sign, k.right.token] <:+ ts.take k.stop := by
  obtain ⟨us, vs, rfl, hstop⟩ := h
  rw [List.take_left' (by simp [hstop])]
  exact List.suffix_append ..

theorem StandsIn.append (h : k.StandsIn before ts) (more : List Token) : k.StandsIn before (ts ++ more) := by
  obtain ⟨us, vs, rfl, hstop⟩ := h
  exact ⟨us, vs ++ more, by simp, hstop⟩

theorem StandsIn.behind {all : Nat} (h : k.StandsIn all ts) (first : List Token)
    (hall : all = before + first.length) : k.StandsIn before (first ++ ts) := by
  obtain ⟨us, vs, rfl, hstop⟩ := h
  refine ⟨first ++ us, vs, by simp, ?_⟩
  rw [List.length_append]
  omega

end LiteralComparison

mutual

/-- The comparisons of a term are among its tokens. -/
theorem Term.standsIn {before : Nat} : ∀ (t : Term), ∀ k ∈ t.comparisons before, k.StandsIn before t.tokens
  | .condition .., _, hk => by simp [Term.comparisons] at hk
  | .literals .., _, hk => by
    rw [Term.comparisons, List.mem_singleton] at hk
    subst hk
    exact ⟨[], [], rfl, rfl⟩
  | .parens inner, k, hk =>
    ((Disjunction.standsIn inner k hk).append [.rightParen]).behind [.leftParen] rfl

theorem Conjunction.standsIn {before : Nat} :
    ∀ (c : Conjunction), ∀ k ∈ c.comparisons before, k.StandsIn before c.tokens
  | .term t, k, hk => Term.standsIn t k hk
  | .and c t, k, hk => by
    rcases List.mem_append.mp hk with hk | hk
    · exact (Conjunction.standsIn c k hk).append _
    · rw [Conjunction.tokens, List.append_cons]
      exact (Term.standsIn t k hk).behind _ (by simp [Nat.add_assoc])

theorem Disjunction.standsIn {before : Nat} :
    ∀ (d : Disjunction), ∀ k ∈ d.comparisons before, k.StandsIn before d.tokens
  | .conjunction c, k, hk => Conjunction.standsIn c k hk
  | .or d c, k, hk => by
    rcases List.mem_append.mp hk with hk | hk
    · exact (Disjunction.standsIn d k hk).append _
    · rw [Disjunction.tokens, List.append_cons]
      exact (Conjunction.standsIn c k hk).behind _ (by simp [Nat.add_assoc])

end

/-- The comparisons of a statement are among its tokens, and each ends where it says. -/
theorem Statement.standsIn {s : Statement} : ∀ k ∈ s.comparisons, k.StandsIn 0 s.tokens := by
  intro k hk
  obtain ⟨columns, table, clause, order, limit⟩ := s
  cases clause with
  | none => simp [comparisons] at hk
  | some d =>
    have hd := Disjunction.standsIn d k (by simpa [comparisons] using hk)
    have hhead : k.StandsIn 0 _ := hd.behind
      (.keyword .SELECT :: columns.tokens ++ [.keyword .FROM, .identifier table, .keyword .WHERE]) (by simp)
    simpa [tokens, filterTokens] using hhead.append ((order.map RowOrder.tokens).getD [] ++ limitTokens limit)

end SegmentQuery
