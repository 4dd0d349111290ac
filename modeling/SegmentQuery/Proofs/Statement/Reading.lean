import SegmentQuery.Proofs.Statement.Progress

namespace SegmentQuery

open Comparison (Trivial)

namespace Statement.Draft

/-- From one draft to another by taking tokens. -/
inductive Takes : Draft → List Token → Draft → Prop where
  | nil (d : Draft) : Takes d [] d
  | cons {d e f : Draft} {t : Token} {ts : List Token} (step : d.step t = .ok e) (rest : Takes e ts f) :
      Takes d (t :: ts) f

theorem Takes.append {d e f : Draft} {ts us : List Token} (hfirst : Takes d ts e) (hrest : Takes e us f) :
    Takes d (ts ++ us) f := by
  induction hfirst with
  | nil => exact hrest
  | cons step _ ih => exact .cons step (ih hrest)

/-- A step at the end of others. -/
theorem Takes.snoc {d e f : Draft} {ts : List Token} {t : Token} (hfirst : Takes d ts e) (step : e.step t = .ok f) :
    Takes d (ts ++ [t]) f := hfirst.append (.cons step (.nil f))

/-- Taking tokens adds them to those of a draft, and keeps it valid. -/
theorem Takes.spec {d e : Draft} {ts : List Token} (h : Takes d ts e) (hvalid : d.Valid) :
    e.Valid ∧ e.tokens = d.tokens ++ ts := by
  induction h with
  | nil => exact ⟨hvalid, by simp⟩
  | cons step _ ih =>
    obtain ⟨hnext, htokens⟩ := step_spec hvalid step
    obtain ⟨hend, hall⟩ := ih hnext
    exact ⟨hend, by simp [hall, htokens]⟩

theorem run_eq_ok_iff {d : Draft} {position : Nat} {ts : List Token} {s : Statement} :
    d.run position ts = .ok s ↔ ∃ e, Takes d ts e ∧ e.finish? = some s := by
  constructor
  · intro h
    induction ts generalizing d position with
    | nil =>
      rw [run] at h
      split at h
      · next found hfinish =>
        cases h
        exact ⟨d, .nil d, hfinish⟩
      · cases h
    | cons t ts ih =>
      rw [run] at h
      split at h
      · next e hstep =>
        obtain ⟨f, htakes, hfinish⟩ := ih h
        exact ⟨f, .cons hstep htakes, hfinish⟩
      · cases h
      · cases h
  · rintro ⟨e, htakes, hfinish⟩
    induction htakes generalizing position with
    | nil => simp [run, hfinish]
    | cons step _ ih =>
      rw [run, step]
      exact ih hfinish

end Statement.Draft

/-- What is read stands for the tokens that were given, and holds no comparison that could fail. -/
theorem Statement.ofTokens_sound {ts : List Token} {s : Statement} (h : ofTokens ts = .ok s) :
    s.EveryComparison Trivial ∧ s.tokens = ts := by
  obtain ⟨d, htakes, hfinish⟩ := Draft.run_eq_ok_iff.mp h
  obtain ⟨hvalid, htokens⟩ := htakes.spec trivial
  obtain ⟨htrivial, hs⟩ := Draft.finish?_spec hvalid hfinish
  exact ⟨htrivial, by rw [hs, htokens]; rfl⟩

section

open Statement Statement.Draft FilterDraft

variable (s : Statement) (outer : List DisjunctionDraft) (current : DisjunctionDraft)

private theorem takes_listValues (field : String) (negated : Bool) (first : Literal) (before rest : List Literal) :
    Takes (filter s (inTerm outer current (.condition field (.listEnd negated first before))))
      (Test.commaTokens rest)
      (filter s (inTerm outer current (.condition field (.listEnd negated first (before ++ rest))))) := by
  induction rest generalizing before with
  | nil => simpa [Test.commaTokens] using Takes.nil _
  | cons l rest ih =>
    refine .cons (e := filter s (inTerm outer current (.condition field (.listValue negated (first :: before))))) rfl ?_
    refine .cons (e := filter s (inTerm outer current (.condition field (.listEnd negated first (before ++ [l])))))
      ?_ ?_
    · cases l <;> rfl
    · have hrest := ih (before ++ [l])
      rwa [List.append_assoc] at hrest

/-- The tokens of a test complete a condition. -/
private theorem takes_test (field : String) (test : Test) :
    Takes (filter s (inTerm outer current (.condition field .start))) test.tokens
      (filter s (afterTerm outer (current.fill (.condition field test)))) := by
  cases test with
  | isNull negated =>
    cases negated
    · exact .cons rfl (.cons rfl (.nil _))
    · exact .cons rfl (.cons rfl (.cons rfl (.nil _)))
  | oneOf negated first rest =>
    have hopen : Takes (filter s (inTerm outer current (.condition field .start)))
        (Test.negation negated ++ [.keyword .IN, .leftParen, first.token])
        (filter s (inTerm outer current (.condition field (.listEnd negated first [])))) := by
      cases negated <;> cases first
      all_goals
        first
        | exact .cons rfl (.cons rfl (.cons rfl (.nil _)))
        | exact .cons rfl (.cons rfl (.cons rfl (.cons rfl (.nil _))))
    exact (hopen.append (takes_listValues s outer current field negated first [] rest)).snoc rfl
  | like negated pattern =>
    cases negated <;> cases pattern
    all_goals
      first
      | exact .cons rfl (.cons rfl (.nil _))
      | exact .cons rfl (.cons rfl (.cons rfl (.nil _)))
  | between low high =>
    cases low <;> cases high <;> exact .cons rfl (.cons rfl (.cons rfl (.cons rfl (.nil _))))
  | compare c value =>
    cases value <;> exact .cons rfl (.cons rfl (.nil _))

end

/-- A conjunction behind the disjunction before it, if there is one. -/
def Disjunction.behind : Option Disjunction → Conjunction → Disjunction
  | none, c => .conjunction c
  | some d, c => .or d c

/-- The gap for a conjunction behind the disjunction before it, if there is one. -/
def DisjunctionDraft.behind : Option Disjunction → DisjunctionDraft
  | none => start
  | some d => or d

theorem Disjunction.addTerm_behind (before : Option Disjunction) (c : Conjunction) (t : Term) :
    (behind before c).addTerm t = behind before (c.and t) := by
  cases before <;> rfl

theorem DisjunctionDraft.fill_behind (before : Option Disjunction) (t : Term) :
    (behind before).fill t = Disjunction.behind before (.term t) := by
  cases before <;> rfl

section

open Statement Statement.Draft FilterDraft

mutual

/-- The tokens of a term fill the gap at the end of a filter. -/
theorem Term.takes (s : Statement) (outer : List DisjunctionDraft) (current : DisjunctionDraft) :
    ∀ t : Term, t.EveryComparison Trivial →
      Takes (filter s (inTerm outer current .start)) t.tokens (filter s (afterTerm outer (current.fill t)))
  | .condition field test, _ => .cons rfl (takes_test s outer current field test)
  | .literals left c right, htrivial => by
    have hstep : (filter s (inTerm outer current (.literals left c))).step right.token =
        .ok (filter s (afterTerm outer (current.fill (.literals left c right)))) := by
      have hright := Literal.ofToken?_eq_some.mpr (rfl : right.token = right.token)
      have hequal : c = .eq ∧ left = right.raw := htrivial
      simp only [Draft.step, filterStep, termStep, hright, literals, if_pos hequal]
      rfl
    exact .cons rfl (.cons rfl (.cons hstep (.nil _)))
  | .parens inner, htrivial => by
    have hinner := Disjunction.takes s (current :: outer) inner htrivial
    exact .cons rfl (hinner.snoc rfl)

theorem Conjunction.takes (s : Statement) (outer : List DisjunctionDraft) (before : Option Disjunction) :
    ∀ c : Conjunction, c.EveryComparison Trivial →
      Takes (filter s (inTerm outer (.behind before) .start)) c.tokens
        (filter s (afterTerm outer (.behind before c)))
  | .term t, htrivial => by
    rw [← DisjunctionDraft.fill_behind]
    exact Term.takes s outer (.behind before) t htrivial
  | .and c t, htrivial => by
    have hlast := Term.takes s outer (.and (.behind before c)) t htrivial.2
    rw [DisjunctionDraft.fill, Disjunction.addTerm_behind] at hlast
    exact (Conjunction.takes s outer before c htrivial.1).append (.cons rfl hlast)

theorem Disjunction.takes (s : Statement) (outer : List DisjunctionDraft) :
    ∀ d : Disjunction, d.EveryComparison Trivial →
      Takes (filter s (inTerm outer .start .start)) d.tokens (filter s (afterTerm outer d))
  | .conjunction c, htrivial => Conjunction.takes s outer none c htrivial
  | .or d c, htrivial =>
    (Disjunction.takes s outer d htrivial.1).append (.cons rfl (Conjunction.takes s outer (some d) c htrivial.2))

end

end

namespace Statement

open Draft

private theorem takes_columns (cs : ColumnList) : Takes .columns cs.tokens (.afterColumns cs) := by
  cases cs with
  | all => exact .cons rfl (.nil _)
  | listed first rest =>
    have hrest : ∀ before : List String, Takes (.afterColumns (.listed first before))
        (rest.flatMap fun name => [.comma, .identifier name]) (.afterColumns (.listed first (before ++ rest))) := by
      induction rest with
      | nil => exact fun before => by simpa using Takes.nil _
      | cons name rest ih =>
        intro before
        have hnext := ih (before ++ [name])
        rw [List.append_assoc] at hnext
        exact .cons rfl (.cons rfl hnext)
    exact .cons rfl (hrest [])

/-- The columns and the table of a statement. -/
theorem takes_head (columns : ColumnList) (table : String) :
    Takes .start (.keyword .SELECT :: columns.tokens ++ [.keyword .FROM, .identifier table])
      (.afterTable (base columns table)) :=
  .cons rfl ((takes_columns columns).append (.cons rfl (.cons rfl (.nil _))))

/-- The limit of a statement, after its other clauses. -/
private theorem takes_limit {d : Draft} {s : Statement} (limit : Option String) (hfinish : d.finish? = some s)
    (hstep : d.step (.keyword .LIMIT) = .ok (.limit s)) :
    ∃ e, Takes d (limitTokens limit) e ∧ e.finish? = some { s with limit := limit.or s.limit } := by
  cases limit with
  | none => exact ⟨d, .nil d, by simpa using hfinish⟩
  | some digits => exact ⟨_, .cons hstep (.cons rfl (.nil _)), rfl⟩

/-- The order and the limit of a statement, after its other clauses. -/
private theorem takes_order {d : Draft} {s : Statement} (order : Option RowOrder) (limit : Option String)
    (horder : s.order = none) (hlimit : s.limit = none) (hfinish : d.finish? = some s)
    (hstep : ∀ t, t = .keyword .ORDER ∨ t = .keyword .LIMIT → d.step t = orderStep s t) :
    ∃ e, Takes d ((order.map RowOrder.tokens).getD [] ++ limitTokens limit) e ∧
      e.finish? = some { s with order, limit } := by
  cases order with
  | none =>
    obtain ⟨e, htakes, he⟩ := takes_limit limit hfinish (hstep _ (.inr rfl))
    rw [hlimit, Option.or_none] at he
    exact ⟨e, htakes, by rw [he, ← horder]⟩
  | some o =>
    have hfield : Takes d [.keyword .ORDER, .keyword .BY, .identifier o.field] (.afterField s o.field) :=
      .cons (hstep _ (.inl rfl)) (.cons rfl (.cons rfl (.nil _)))
    obtain ⟨f, hdirection, hf, hlast⟩ : ∃ f, Takes (.afterField s o.field) (RowOrder.directionTokens o.direction) f ∧
        f.finish? = some { s with order := some o } ∧
        f.step (.keyword .LIMIT) = .ok (.limit { s with order := some o }) := by
      obtain ⟨field, direction⟩ := o
      cases direction with
      | none => exact ⟨_, .nil _, rfl, rfl⟩
      | some direction => cases direction <;> exact ⟨_, .cons rfl (.nil _), rfl, rfl⟩
    obtain ⟨e, htakes, he⟩ := takes_limit limit hf hlast
    refine ⟨e, ?_, ?_⟩
    · simpa [RowOrder.tokens] using hfield.append (hdirection.append htakes)
    · simpa [hlimit] using he

/-- The tokens of a statement are read as that statement, unless a comparison in it fails. -/
theorem ofTokens_tokens {s : Statement} (h : s.EveryComparison Trivial) : ofTokens s.tokens = .ok s := by
  obtain ⟨columns, table, clause, order, limit⟩ := s
  obtain ⟨d, hclause, hfinish, hstep⟩ : ∃ d, Takes (.afterTable (base columns table)) (filterTokens clause) d ∧
      d.finish? = some { base columns table with filter := clause } ∧
      ∀ t, t = .keyword .ORDER ∨ t = .keyword .LIMIT →
        d.step t = orderStep { base columns table with filter := clause } t := by
    cases clause with
    | none => exact ⟨_, .nil _, rfl, by rintro t (rfl | rfl) <;> rfl⟩
    | some d =>
      have hd := Disjunction.takes (base columns table) [] d (h d rfl)
      exact ⟨_, .cons rfl hd, rfl, by rintro t (rfl | rfl) <;> rfl⟩
  obtain ⟨e, htail, he⟩ := takes_order order limit rfl rfl hfinish hstep
  refine run_eq_ok_iff.mpr ⟨e, ?_, he⟩
  simpa [tokens] using (takes_head columns table).append (hclause.append htail)

/-- Reading gives a statement exactly if the statement stands for the tokens and no comparison in it fails. -/
theorem ofTokens_eq_ok_iff {ts : List Token} {s : Statement} :
    ofTokens ts = .ok s ↔ s.EveryComparison Trivial ∧ s.tokens = ts := by
  constructor
  · exact ofTokens_sound
  · rintro ⟨htrivial, rfl⟩
    exact ofTokens_tokens htrivial

/-- Two statements without a comparison that could fail never stand for the same tokens. -/
theorem eq_of_tokens_eq {s s' : Statement} (h : s.EveryComparison Trivial) (h' : s'.EveryComparison Trivial)
    (htokens : s.tokens = s'.tokens) : s = s' := by
  have hread := ofTokens_tokens h
  rw [htokens, ofTokens_tokens h'] at hread
  cases hread
  rfl

end Statement

end SegmentQuery
