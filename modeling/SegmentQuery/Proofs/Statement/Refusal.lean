import Mathlib.Control.Monad.Basic
import SegmentQuery.Proofs.Statement.Comparisons
import SegmentQuery.Proofs.Statement.Completion
import SegmentQuery.Proofs.Statement.Reading
import SegmentQuery.Statement.Resolve

namespace SegmentQuery

open Comparison (Trivial)

namespace Statement.Draft

/-- A draft takes a number of tokens and refuses the next one. -/
inductive Stops : Draft → List Token → Nat → Refusal → Prop where
  | here {d : Draft} {t : Token} {r : Refusal} (step : d.step t = .error r) (rest : List Token) :
    Stops d (t :: rest) 0 r
  | later {d e : Draft} {t : Token} {rest : List Token} {n : Nat} {r : Refusal} (step : d.step t = .ok e)
      (stops : Stops e rest n r) : Stops d (t :: rest) (n + 1) r

theorem Stops.append {d : Draft} {ts : List Token} {n : Nat} {r : Refusal} (h : Stops d ts n r) (us : List Token) :
    Stops d (ts ++ us) n r := by
  induction h with
  | here step rest => exact .here step (rest ++ us)
  | later step _ ih => exact .later step ih

theorem Takes.append_stops {d e : Draft} {ts us : List Token} {n : Nat} {r : Refusal} (h : Takes d ts e)
    (hstops : Stops e us n r) : Stops d (ts ++ us) (ts.length + n) r := by
  induction h with
  | nil => simpa using hstops
  | cons step _ ih =>
    rw [List.cons_append, List.length_cons, Nat.add_right_comm]
    exact .later step (ih hstops)

/-- Only the tokens up to the refused one count. -/
theorem Stops.of_take {d : Draft} {ts us : List Token} {n : Nat} {r : Refusal} (h : Stops d ts n r)
    (hstart : ts.take (n + 1) <+: us) : Stops d us n r := by
  have htake : Stops d (ts.take (n + 1)) n r := by
    clear hstart
    induction h with
    | here step rest => exact .here step _
    | later step _ ih => exact .later step ih
  obtain ⟨rest, rfl⟩ := hstart
  exact htake.append rest

/-- The draft that refuses, and the token that it refuses. -/
theorem Stops.exists_step {d : Draft} {ts : List Token} {n : Nat} {r : Refusal} (h : Stops d ts n r) :
    ∃ e t, Takes d (ts.take n) e ∧ ts[n]? = some t ∧ e.step t = .error r := by
  induction h with
  | @here d t r step rest => exact ⟨d, t, .nil d, rfl, step⟩
  | later step _ ih =>
    obtain ⟨e, t, htakes, hat, hrefused⟩ := ih
    exact ⟨e, t, .cons step htakes, hat, hrefused⟩

theorem Stops.lt_length {d : Draft} {ts : List Token} {n : Nat} {r : Refusal} (h : Stops d ts n r) :
    n < ts.length := by
  obtain ⟨e, t, -, hat, -⟩ := h.exists_step
  exact (List.getElem?_eq_some_iff.mp hat).1

theorem Stops.unique {d : Draft} {ts : List Token} {n m : Nat} {r r' : Refusal} (h : Stops d ts n r)
    (h' : Stops d ts m r') : n = m ∧ r = r' := by
  induction h generalizing m with
  | here step =>
    cases h' with
    | here step' =>
      cases step.symm.trans step'
      exact ⟨rfl, rfl⟩
    | later step' => cases step.symm.trans step'
  | later step _ ih =>
    cases h' with
    | here step' => cases step.symm.trans step'
    | later step' hstops =>
      cases step.symm.trans step'
      obtain ⟨rfl, rfl⟩ := ih hstops
      exact ⟨rfl, rfl⟩

/-- Tokens that are all taken have none that is refused. -/
theorem Stops.not_takes {d e : Draft} {ts : List Token} {n : Nat} {r : Refusal} (h : Stops d ts n r) :
    ¬Takes d ts e := by
  intro htakes
  induction h with
  | here step =>
    cases htakes with
    | cons step' => cases step.symm.trans step'
  | later step _ ih =>
    cases htakes with
    | cons step' rest =>
      cases step.symm.trans step'
      exact ih rest

/-- The three ways in which reading fails. -/
theorem run_error_cases {d : Draft} {position : Nat} {ts : List Token} {f : Failure}
    (h : d.run position ts = .error f) :
    (∃ e, Takes d ts e ∧ f.error = .unexpectedEnd e.missing) ∨
      (∃ n expected found, Stops d ts n .misplaced ∧ ts[n]? = some found ∧
        f.error = .unexpectedToken expected found (position + n)) ∨
      ∃ n left c right, Stops d ts n (.unequalLiterals left c right) ∧ f.error = .unequalLiterals left c right := by
  induction ts generalizing d position with
  | nil =>
    rw [run] at h
    split at h
    · cases h
    · cases h
      exact .inl ⟨d, .nil d, rfl⟩
  | cons t ts ih =>
    rw [run] at h
    split at h
    · next e step =>
      obtain ⟨f, htakes, herror⟩ | ⟨n, expected, found, hstops, hat, herror⟩ |
        ⟨n, left, c, right, hstops, herror⟩ := ih h
      · exact .inl ⟨f, .cons step htakes, herror⟩
      · refine .inr (.inl ⟨n + 1, expected, found, .later step hstops, hat, ?_⟩)
        rw [herror, Nat.add_right_comm, Nat.add_assoc]
      · exact .inr (.inr ⟨n + 1, left, c, right, .later step hstops, herror⟩)
    · next step =>
      cases h
      exact .inr (.inl ⟨0, d.missing, t, .here step ts, rfl, rfl⟩)
    · next left c right step =>
      cases h
      exact .inr (.inr ⟨0, left, c, right, .here step ts, rfl⟩)

end Statement.Draft

section

open Statement Statement.Draft FilterDraft LiteralComparison

/-- Taking tokens behind others, a draft completes one of some comparisons, the first of them that could fail. -/
def Statement.Draft.StopsAtFailure (d : Draft) (ts : List Token) (before : Nat) (ks : List LiteralComparison) : Prop :=
  ∃ k n, FailsFirst k ks ∧ k.stop = before + n + 1 ∧
    Stops d ts n (.unequalLiterals k.left k.sign k.right.raw)

theorem Statement.Draft.StopsAtFailure.append {d : Draft} {ts : List Token} {before : Nat}
    {ks : List LiteralComparison} (h : d.StopsAtFailure ts before ks) (us : List Token) (js : List LiteralComparison)
    (hlater : ∀ j ∈ js, before + ts.length < j.stop) : d.StopsAtFailure (ts ++ us) before (ks ++ js) := by
  obtain ⟨k, n, hfirst, hstop, hstops⟩ := h
  refine ⟨k, n, hfirst.append fun j hj => ?_, hstop, hstops.append us⟩
  have hlength := hstops.lt_length
  have hbehind := hlater j hj
  omega

/-- Comparisons that hold may be completed before. -/
theorem Statement.Draft.Takes.stopsAtFailure {d e : Draft} {ts us : List Token} {after : Nat}
    {ks : List LiteralComparison} (h : Takes d ts e) (hstops : e.StopsAtFailure us after ks) (before : Nat)
    (js : List LiteralComparison) (hafter : after = before + ts.length) (htrivial : ∀ j ∈ js, j.Trivial) :
    d.StopsAtFailure (ts ++ us) before (js ++ ks) := by
  obtain ⟨k, n, hfirst, hstop, hstops⟩ := hstops
  exact ⟨k, ts.length + n, hfirst.behind htrivial, by omega, h.append_stops hstops⟩

mutual

/-- In a term, reading stops at the first comparison that could fail. -/
theorem Term.stopsAtFailure (s : Statement) (outer : List DisjunctionDraft) (current : DisjunctionDraft)
    (before : Nat) : ∀ t : Term, ¬t.EveryComparison Trivial →
      (filter s (inTerm outer current .start)).StopsAtFailure t.tokens before (t.comparisons before)
  | .condition .., hfails => (hfails trivial).elim
  | .literals left c right, hfails => by
    have hstep : (filter s (inTerm outer current (.literals left c))).step right.token =
        .error (.unequalLiterals left c right.raw) := by
      have hright := Literal.ofToken?_eq_some.mpr (rfl : right.token = right.token)
      have hunequal : ¬(c = .eq ∧ left = right.raw) := hfails
      simp only [Draft.step, filterStep, termStep, hright, literals, if_neg hunequal]
      rfl
    refine ⟨⟨left, c, right, before + 3⟩, 2, ⟨?_, hfails, ?_⟩, rfl, .later rfl (.later rfl (.here hstep []))⟩
    · exact List.mem_singleton_self _
    · rintro j hj -
      rw [Term.comparisons, List.mem_singleton] at hj
      subst hj
      exact Nat.le_refl _
  | .parens inner, hfails => by
    have hopen : Takes (filter s (inTerm outer current .start)) [.leftParen]
        (filter s (inTerm (current :: outer) .start .start)) := .cons rfl (.nil _)
    have hinner := Disjunction.stopsAtFailure s (current :: outer) (before + 1) inner hfails
    have hclosed := hinner.append [.rightParen] [] (by simp)
    rw [List.append_nil] at hclosed
    exact hopen.stopsAtFailure hclosed before [] rfl (by simp)

theorem Conjunction.stopsAtFailure (s : Statement) (outer : List DisjunctionDraft) (chains : Option Disjunction)
    (before : Nat) : ∀ c : Conjunction, ¬c.EveryComparison Trivial →
      (filter s (inTerm outer (.behind chains) .start)).StopsAtFailure c.tokens before (c.comparisons before)
  | .term t, hfails => Term.stopsAtFailure s outer (.behind chains) before t hfails
  | .and c t, hfails => by
    by_cases hc : c.EveryComparison Trivial
    · have ht : ¬t.EveryComparison Trivial := fun ht => hfails ⟨hc, ht⟩
      have hlast := Term.stopsAtFailure s outer (.and (.behind chains c)) (before + c.tokens.length + 1) t ht
      have hbefore := (Conjunction.takes s outer chains c hc).snoc (t := .keyword .AND) rfl
      have hall := hbefore.stopsAtFailure hlast before _ (by simp [Nat.add_assoc])
        ((Conjunction.everyComparison_iff before c).mp hc)
      rwa [List.append_assoc] at hall
    · refine (Conjunction.stopsAtFailure s outer chains before c hc).append _ _ fun j hj => ?_
      have hbehind := (Term.standsIn t j hj).lt_stop
      omega

theorem Disjunction.stopsAtFailure (s : Statement) (outer : List DisjunctionDraft) (before : Nat) :
    ∀ d : Disjunction, ¬d.EveryComparison Trivial →
      (filter s (inTerm outer .start .start)).StopsAtFailure d.tokens before (d.comparisons before)
  | .conjunction c, hfails => Conjunction.stopsAtFailure s outer none before c hfails
  | .or d c, hfails => by
    by_cases hd : d.EveryComparison Trivial
    · have hc : ¬c.EveryComparison Trivial := fun hc => hfails ⟨hd, hc⟩
      have hlast := Conjunction.stopsAtFailure s outer (some d) (before + d.tokens.length + 1) c hc
      have hbefore := (Disjunction.takes s outer d hd).snoc (t := .keyword .OR) rfl
      have hall := hbefore.stopsAtFailure hlast before _ (by simp [Nat.add_assoc])
        ((Disjunction.everyComparison_iff before d).mp hd)
      rwa [List.append_assoc] at hall
    · refine (Disjunction.stopsAtFailure s outer before d hd).append _ _ fun j hj => ?_
      have hbehind := (Conjunction.standsIn c j hj).lt_stop
      omega

end

end

namespace Statement

open Draft LiteralComparison

/-- The tokens of a statement are taken up to the end of the first comparison that could fail. -/
theorem stopsAtFailure {s : Statement} (hfails : ¬s.EveryComparison Trivial) :
    Draft.start.StopsAtFailure s.tokens 0 s.comparisons := by
  obtain ⟨columns, table, clause, order, limit⟩ := s
  cases clause with
  | none => exact (hfails (by simp [EveryComparison])).elim
  | some d =>
    have hd : ¬d.EveryComparison Trivial := fun hd => hfails (by simpa [EveryComparison] using hd)
    have hwhere := (takes_head columns table).snoc (t := .keyword .WHERE) rfl
    have hclause := Disjunction.stopsAtFailure (base columns table) [] (columns.tokens.length + 4) d hd
    have hfilter := hwhere.stopsAtFailure hclause 0 [] (by simp) (by simp)
    have hall := hfilter.append ((order.map RowOrder.tokens).getD [] ++ limitTokens limit) [] (by simp)
    simpa [tokens, filterTokens, comparisons] using hall

/-- Reading the tokens of a statement stops nowhere but at the first comparison that could fail. -/
theorem failsFirst_of_stops {s : Statement} {n : Nat} {r : Refusal} (h : Stops .start s.tokens n r) :
    ∃ k, FailsFirst k s.comparisons ∧ k.stop = n + 1 ∧ r = .unequalLiterals k.left k.sign k.right.raw := by
  have hfails : ¬s.EveryComparison Trivial := by
    intro htrivial
    obtain ⟨e, htakes, -⟩ := run_eq_ok_iff.mp (ofTokens_tokens htrivial)
    exact h.not_takes htakes
  obtain ⟨k, m, hfirst, hstop, hstops⟩ := stopsAtFailure hfails
  obtain ⟨rfl, rfl⟩ := hstops.unique h
  exact ⟨k, hfirst, by rw [hstop, Nat.zero_add], rfl⟩

/-- Tokens that are all taken hold no comparison that could fail. -/
theorem trivial_of_takes {s : Statement} {ts : List Token} {e : Draft} (h : Takes .start ts e)
    (hstart : ts <+: s.tokens) : ∀ k ∈ s.comparisons, k.stop ≤ ts.length → k.Trivial := by
  intro k hk hstop
  refine Classical.byContradiction fun hfails => ?_
  obtain ⟨first, n, hfirst, hfirstStop, hstops⟩ := stopsAtFailure fun htrivial =>
    hfails (s.everyComparison_iff.mp htrivial k hk)
  have hle := hfirst.first k hk hfails
  have hsame : ts = s.tokens.take ts.length := List.prefix_iff_eq_take.mp hstart
  have hshort : s.tokens.take (n + 1) <+: ts := by
    rw [hsame]
    exact List.take_prefix_take_left (by omega)
  exact (hstops.of_take hshort).not_takes h

namespace Draft

/-- Only the right literal of a comparison is refused for what it says. -/
theorem of_step_unequalLiterals {d : Draft} {t : Token} {left raw : String} {c : Comparison}
    (h : d.step t = .error (.unequalLiterals left c raw)) :
    ∃ s outer current, ∃ right : Literal, d = filter s (.inTerm outer current (.literals left c)) ∧
      t = right.token := by
  have horder (s : Statement) : orderStep s t ≠ .error (.unequalLiterals left c raw) := by
    unfold orderStep
    split <;> simp
  have hlimit (s : Statement) : limitStep s t ≠ .error (.unequalLiterals left c raw) := by
    unfold limitStep
    split <;> simp
  cases d with
  | start | columns | column | afterColumns | table | order | orderField | limit =>
    simp only [step] at h
    split at h <;> cases h
  | complete => cases h
  | afterTable s =>
    simp only [step] at h
    split at h
    · cases h
    · exact (horder s h).elim
  | afterField s field =>
    simp only [step] at h
    split at h
    · cases h
    · cases h
    · exact (hlimit _ h).elim
  | afterOrder s => exact (hlimit s h).elim
  | filter s f =>
    cases f with
    | afterTerm outer d =>
      simp only [step, filterStep] at h
      split at h
      case h_5 => exact (horder _ h).elim
      all_goals cases h
    | inTerm outer current term =>
      cases term with
      | start | literal =>
        simp only [step, filterStep, FilterDraft.termStep] at h
        split at h <;> cases h
      | condition =>
        simp only [step, filterStep, FilterDraft.termStep] at h
        split at h <;> cases h
      | literals left' c' =>
        simp only [step, filterStep, FilterDraft.termStep] at h
        split at h
        · next right hright =>
          unfold FilterDraft.literals at h
          split at h <;> cases h
          exact ⟨s, outer, current, right, rfl, Literal.ofToken?_eq_some.mp hright⟩
        · cases h

/-- What is taken is the beginning of a statement. -/
theorem Takes.begins {ts : List Token} {e : Draft} (h : Takes .start ts e) : Begins ts := by
  obtain ⟨hvalid, htokens⟩ := h.spec trivial
  have hbegins := begins_tokens hvalid
  rwa [htokens] at hbegins

/-- The token that completes a comparison belongs where it stands. -/
theorem Stops.begins {ts : List Token} {n : Nat} {left raw : String} {c : Comparison}
    (h : Stops .start ts n (.unequalLiterals left c raw)) : Begins (ts.take (n + 1)) := by
  obtain ⟨e, t, htakes, hat, hrefused⟩ := h.exists_step
  obtain ⟨s, outer, current, right, rfl, rfl⟩ := of_step_unequalLiterals hrefused
  obtain ⟨⟨hfilter, horder, hlimit, -⟩, htokens⟩ := htakes.spec trivial
  have hbegins := begins_filter (.afterTerm outer (current.fill (.literals left c right))) hfilter horder hlimit
  have htaken : (filter s (.inTerm outer current (.literals left c))).tokens = ts.take n :=
    htokens.trans (List.nil_append _)
  rw [List.take_add_one, hat, Option.toList_some, ← htaken]
  simpa [tokens, FilterDraft.tokens, TermDraft.tokens, DisjunctionDraft.tokens_fill, Term.tokens] using hbegins

end Draft

/-- No comparison that ends within some tokens could fail, whatever statement the tokens begin. -/
def Unfailing (ts : List Token) : Prop :=
  ∀ s : Statement, ts <+: s.tokens → ∀ k ∈ s.comparisons, k.stop ≤ ts.length → k.Trivial

end Statement

/-- What an error says about the tokens that were refused. -/
def ParseError.Explains (ts : List Token) : ParseError → Prop
  | unexpectedToken expected found position =>
    ts[position]? = some found ∧
      (unexpectedToken expected found position).message =
        "Expected " ++ expected.text ++ ", found " ++ found.display ++ " (token " ++ position.repr ++ ")" ∧
      Statement.Begins (ts.take position) ∧ ¬Statement.Begins (ts.take (position + 1)) ∧
      Statement.Unfailing (ts.take position)
  | unexpectedEnd _ => Statement.Begins ts ∧ (¬∃ s : Statement, s.tokens = ts) ∧ Statement.Unfailing ts
  | unequalLiterals left c right =>
    ∃ stop ≤ ts.length, Statement.Begins (ts.take stop) ∧ ∀ s : Statement, ts.take stop <+: s.tokens →
      ∃ k : LiteralComparison, k.FailsFirst s.comparisons ∧ k.stop = stop ∧
        left = k.left ∧ c = k.sign ∧ right = k.right.raw ∧
        [.number k.left, .comparison k.sign, k.right.token] <:+ ts.take stop

namespace Statement

open Draft

/-- The error of tokens that are refused explains why. -/
theorem explains_of_ofTokens {ts : List Token} {f : Failure} (h : ofTokens ts = .error f) :
    f.error.Explains ts := by
  obtain ⟨e, htakes, herror⟩ | ⟨n, expected, found, hstops, hat, herror⟩ | ⟨n, left, c, right, hstops, herror⟩ :=
    run_error_cases h
  · rw [herror]
    refine ⟨htakes.begins, ?_, fun s hstart => trivial_of_takes htakes hstart⟩
    rintro ⟨s, rfl⟩
    by_cases htrivial : s.EveryComparison Trivial
    · rw [ofTokens_tokens htrivial] at h
      cases h
    · obtain ⟨k, n, -, -, hstops⟩ := stopsAtFailure htrivial
      exact hstops.not_takes htakes
  · rw [herror, Nat.zero_add]
    obtain ⟨e, t, htakes, -, -⟩ := hstops.exists_step
    refine ⟨hat, rfl, htakes.begins, ?_, fun s hstart => trivial_of_takes htakes hstart⟩
    rintro ⟨s, hstart⟩
    obtain ⟨k, -, -, hrefusal⟩ := failsFirst_of_stops (hstops.of_take hstart)
    cases hrefusal
  · rw [herror]
    refine ⟨n + 1, hstops.lt_length, hstops.begins, fun s hstart => ?_⟩
    obtain ⟨k, hfirst, hstop, hrefusal⟩ := failsFirst_of_stops (hstops.of_take hstart)
    have hsame : ts.take (n + 1) = s.tokens.take (n + 1) := by
      have hlength : (ts.take (n + 1)).length = n + 1 := List.length_take_of_le hstops.lt_length
      rw [List.prefix_iff_eq_take.mp hstart, hlength]
    have hsuffix := (standsIn k hfirst.mem).suffix_take
    rw [hstop, ← hsame] at hsuffix
    cases hrefusal
    exact ⟨k, hfirst, hstop, rfl, rfl, rfl, hsuffix⟩

end Statement

namespace Query

/-- A text is read exactly if its tokens are those of a statement whose comparisons all hold on their face, and the
error of any other text explains why it is refused. -/
theorem ofText_explained (text : String) :
    ((∃ q, ofText text = .ok q) ↔
      ∃ s : Statement, s.tokens = Token.scan text.toList ∧ ∀ k ∈ s.comparisons, k.Trivial) ∧
      ∀ e, ofText text = .error e → e.Explains (Token.scan text.toList) := by
  have hread : (∃ q, ofText text = .ok q) ↔ ∃ s, Statement.ofTokens (Token.scan text.toList) = .ok s := by
    unfold ofText read
    split <;> simp_all
  refine ⟨?_, fun e he => ?_⟩
  · rw [hread]
    refine exists_congr fun s => ?_
    rw [Statement.ofTokens_eq_ok_iff, s.everyComparison_iff, and_comm]
  · unfold ofText read at he
    split at he
    · cases he
    · next f hf =>
      cases he
      exact Statement.explains_of_ofTokens hf

/-- One text for each kind of error. -/
theorem ofText_explained_of_refused :
    (ParseError.unexpectedToken .rowLimit (.identifier "x") 5).Explains
        (Token.scan "SELECT * FROM t LIMIT x".toList) ∧
      (ParseError.unexpectedEnd .tableName).Explains (Token.scan "SELECT * FROM".toList) ∧
      (ParseError.unequalLiterals "2" .eq "3").Explains
        (Token.scan "SELECT * FROM t WHERE 1 = 1 OR 2 = '3' AND 1 = 4 +".toList) :=
  ⟨(ofText_explained _).2 _ (by decide +kernel), (ofText_explained _).2 _ (by decide +kernel), (ofText_explained _).2 _ (by decide +kernel)⟩

end Query

end SegmentQuery
