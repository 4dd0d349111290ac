import SegmentQuery.Proofs.Query.RoundTrip

namespace SegmentQuery

theorem Literal.token_ne_keyword (l : Literal) (k : Keyword) : l.token ≠ .keyword k := by
  cases l <;> simp [token]

theorem Test.limit_not_mem_tokens (test : Test) : .keyword .LIMIT ∉ test.tokens := by
  have hliteral (l : Literal) : .keyword .LIMIT ≠ l.token := (l.token_ne_keyword .LIMIT).symm
  cases test with
  | isNull negated => cases negated <;> decide
  | oneOf negated first rest => cases negated <;> simp [tokens, negation, commaTokens, hliteral]
  | like negated pattern => cases negated <;> simp [tokens, negation, hliteral]
  | between low high => simp [tokens, hliteral]
  | compare c value => simp [tokens, hliteral]

mutual

/-- No filter has a limit in it. -/
theorem Term.limit_not_mem_tokens : ∀ t : Term, .keyword .LIMIT ∉ t.tokens
  | .condition field test => by simp [Term.tokens, test.limit_not_mem_tokens]
  | .literals left c right => by simp [Term.tokens, (right.token_ne_keyword .LIMIT).symm]
  | .parens inner => by simp [Term.tokens, Disjunction.limit_not_mem_tokens inner]

theorem Conjunction.limit_not_mem_tokens : ∀ c : Conjunction, .keyword .LIMIT ∉ c.tokens
  | .term t => Term.limit_not_mem_tokens t
  | .and c t => by
    simp [Conjunction.tokens, Conjunction.limit_not_mem_tokens c, Term.limit_not_mem_tokens t]

theorem Disjunction.limit_not_mem_tokens : ∀ d : Disjunction, .keyword .LIMIT ∉ d.tokens
  | .conjunction c => Conjunction.limit_not_mem_tokens c
  | .or d c => by
    simp [Disjunction.tokens, Disjunction.limit_not_mem_tokens d, Conjunction.limit_not_mem_tokens c]

end

namespace Statement

theorem limit_mem_tokens {s : Statement} : .keyword .LIMIT ∈ s.tokens ↔ s.limit ≠ none := by
  have hcolumns : .keyword .LIMIT ∉ s.columns.tokens := by
    cases s.columns <;> simp [ColumnList.tokens]
  have hfilter : .keyword .LIMIT ∉ filterTokens s.filter := by
    cases s.filter with
    | none => simp [filterTokens]
    | some d => simp [filterTokens, d.limit_not_mem_tokens]
  have horder : .keyword .LIMIT ∉ (s.order.map RowOrder.tokens).getD [] := by
    cases s.order with
    | none => simp
    | some o =>
      obtain ⟨field, direction⟩ := o
      rcases direction with _ | _ | _ <;> simp [RowOrder.tokens, RowOrder.directionTokens]
  have hlimit : .keyword .LIMIT ∈ limitTokens s.limit ↔ s.limit ≠ none := by
    cases s.limit <;> simp [limitTokens]
  rw [tokens, List.mem_append, hlimit]
  simp [hcolumns, hfilter, horder]

end Statement

namespace Query

variable {q : Query}

/-- The text of a query has a limit exactly if the query has one. -/
theorem limit_mem_scan_text (h : q.Named) : .keyword .LIMIT ∈ Token.scan q.text.toList ↔ q.limit ≠ 0 := by
  have hlimit : q.statement.limit = if q.limit = 0 then none else some q.limit.toNat.repr := rfl
  rw [(spells_text h).scan_eq, Statement.limit_mem_tokens, hlimit]
  by_cases hzero : q.limit = 0 <;> simp [hzero]

/-- The text of a query is read with the limit of the query, held at the largest number with a sign. So a limit stays
exactly if it is no larger than that, and it is in the text before and after exactly if there is one. -/
theorem limit_read_text (h : q.Named) (ids : IdSource) : ∃ r ids', read q.text ids = (.ok r, ids') ∧
    r.limit.toNat = min q.limit.toNat Integer.largest ∧
      (r.limit = q.limit ↔ q.limit.toNat ≤ Integer.largest) ∧
      (.keyword .LIMIT ∈ Token.scan q.text.toList ↔ q.limit ≠ 0) ∧
      (.keyword .LIMIT ∈ Token.scan r.text.toList ↔ q.limit ≠ 0) := by
  have hread := read_text h ids
  have hlimit : (q.statement.resolve ids).1.limit.toNat = min q.limit.toNat Integer.largest := toNat_limit_statement
  refine ⟨_, _, hread, hlimit, ?_, limit_mem_scan_text h, ?_⟩
  · rw [← UInt64.toNat_inj, hlimit]
    omega
  · have hpos : 0 < Integer.largest := by decide
    rw [limit_mem_scan_text (tidy_of_read hread).named, ne_eq, ne_eq, ← UInt64.toNat_inj, ← UInt64.toNat_inj, hlimit,
      UInt64.toNat_zero]
    omega

/-- The largest limit of all, behind a filter with the word in a value. -/
theorem limit_read_text_of_largest : ∃ r ids',
    read "SELECT * FROM MediaSegments\nWHERE ItemName = 'LIMIT 1'\nLIMIT 18446744073709551615" .initial = (.ok r, ids') ∧
      r.limit = 9223372036854775807 := by
  have hnamed : Named { everything with
      items := [.condition ⟨1, "ItemName", .compare .eq, "LIMIT 1", "", []⟩], limit := 18446744073709551615 } :=
    ⟨by decide, by decide, .inl rfl⟩
  obtain ⟨r, ids', hread, hlimit, -⟩ := limit_read_text hnamed .initial
  refine ⟨r, ids', hread, UInt64.toNat_inj.mp (hlimit.trans (by decide))⟩

end Query

end SegmentQuery
