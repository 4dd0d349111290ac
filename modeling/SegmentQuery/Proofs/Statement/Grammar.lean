import SegmentQuery.Proofs.Statement.Flattening
import SegmentQuery.Proofs.Statement.Reading
import SegmentQuery.Proofs.Token.Lexable

namespace SegmentQuery

/-- The comparison is a tautology: a number equals the same number, or a string of the same text. -/
def Comparison.Tautology (left : String) (c : Comparison) (right : Literal) : Prop :=
  c = .eq ∧ (right = .number left ∨ right = .text left)

open Comparison (Trivial Tautology)

/-- A statement of the grammar that stands for the tokens of a text. -/
def Statement.Derives (s : Statement) (text : String) : Prop :=
  s.EveryComparison Tautology ∧ s.tokens = Token.scan text.toList

/-- The text of a number is no name. -/
theorem Token.isName_eq_false_of_isNumeral {digits : String} (h : IsNumeral digits.toList) :
    isName digits = false := by
  rw [Bool.eq_false_iff]
  intro hname
  obtain ⟨c, rest, hcs, hstart, -⟩ := isName_iff.mp hname
  rw [hcs] at h
  generalize hall : c :: rest = cs at h
  cases h with
  | unsigned h =>
    obtain ⟨d, tail, rfl, hd⟩ := h.exists_cons
    cases hall
    rw [isDigit_eq_false_of_isWordStart hstart] at hd
    cases hd
  | negative h =>
    cases hall
    exact absurd hstart (by decide)

/-- Of the texts that a scan can give, a number shares its text with no word. -/
theorem Comparison.trivial_iff {left : String} {c : Comparison} {right : Literal}
    (hleft : Token.IsNumeral left.toList) (hright : right.token.Lexable) :
    Trivial left c right ↔ Tautology left c right := by
  refine and_congr_right fun _ => ?_
  constructor
  · rintro rfl
    cases right with
    | number digits => exact .inl rfl
    | text content => exact .inr rfl
    | word name =>
      have hname : Token.isName name = true := hright
      have hnumeral := Token.isName_eq_false_of_isNumeral hleft
      rw [Literal.raw, hname] at hnumeral
      cases hnumeral
  · rintro (rfl | rfl) <;> rfl

mutual

theorem Term.trivial_iff : ∀ t : Term, (∀ u ∈ t.tokens, u.Lexable) →
    (t.EveryComparison Trivial ↔ t.EveryComparison Tautology)
  | .condition .., _ => Iff.rfl
  | .literals left c right, hlexable =>
    Comparison.trivial_iff (hlexable (.number left) (by simp [Term.tokens]))
      (hlexable right.token (by simp [Term.tokens]))
  | .parens inner, hlexable => Disjunction.trivial_iff inner fun u hu => hlexable u (by simp [Term.tokens, hu])

theorem Conjunction.trivial_iff : ∀ c : Conjunction, (∀ u ∈ c.tokens, u.Lexable) →
    (c.EveryComparison Trivial ↔ c.EveryComparison Tautology)
  | .term t, hlexable => Term.trivial_iff t hlexable
  | .and c t, hlexable =>
    and_congr (Conjunction.trivial_iff c fun u hu => hlexable u (by simp [Conjunction.tokens, hu]))
      (Term.trivial_iff t fun u hu => hlexable u (by simp [Conjunction.tokens, hu]))

theorem Disjunction.trivial_iff : ∀ d : Disjunction, (∀ u ∈ d.tokens, u.Lexable) →
    (d.EveryComparison Trivial ↔ d.EveryComparison Tautology)
  | .conjunction c, hlexable => Conjunction.trivial_iff c hlexable
  | .or d c, hlexable =>
    and_congr (Disjunction.trivial_iff d fun u hu => hlexable u (by simp [Disjunction.tokens, hu]))
      (Conjunction.trivial_iff c fun u hu => hlexable u (by simp [Disjunction.tokens, hu]))

end

namespace Statement

theorem trivial_iff {s : Statement} (hlexable : ∀ u ∈ s.tokens, u.Lexable) :
    s.EveryComparison Trivial ↔ s.EveryComparison Tautology := by
  refine forall₂_congr fun d hd => d.trivial_iff fun u hu => hlexable u ?_
  simp only [tokens, Option.mem_def.mp hd, filterTokens]
  simp [hu]

/-- Reading the tokens of a text gives the statement that derives it. -/
theorem ofTokens_scan_eq_ok_iff {text : String} {s : Statement} :
    ofTokens (Token.scan text.toList) = .ok s ↔ s.Derives text := by
  rw [ofTokens_eq_ok_iff, Derives]
  refine and_congr_left fun htokens => trivial_iff fun u hu => ?_
  rw [htokens] at hu
  exact Token.lexable_of_mem_scan hu

theorem Derives.unique {s s' : Statement} {text : String} (h : s.Derives text) (h' : s'.Derives text) : s' = s := by
  have hread := ofTokens_scan_eq_ok_iff.mpr h
  rw [ofTokens_scan_eq_ok_iff.mpr h'] at hread
  cases hread
  rfl

end Statement

namespace Query

theorem read_of_derives {s : Statement} {text : String} (h : s.Derives text) (ids : IdSource) :
    read text ids = (.ok (s.resolve ids).1, (s.resolve ids).2) := by
  simp only [read, Statement.ofTokens_scan_eq_ok_iff.mpr h]

theorem exists_derives_of_read {text : String} {ids ids' : IdSource} {q : Query}
    (h : read text ids = (.ok q, ids')) : ∃ s : Statement, s.Derives text ∧ q = (s.resolve ids).1 := by
  unfold read at h
  split at h
  · next s hs =>
    cases h
    exact ⟨s, Statement.ofTokens_scan_eq_ok_iff.mp hs, rfl⟩
  · cases h

/-- A text is read exactly if a statement derives it. There is only one such statement, and the query holds exactly
the filters that the rules of flattening give for it, with the connector that they give. -/
theorem read_iff_derives (text : String) (ids : IdSource) :
    ((∃ q ids', read text ids = (.ok q, ids')) ↔ ∃ s : Statement, s.Derives text) ∧
      ∀ q ids', read text ids = (.ok q, ids') → ∃ s : Statement, s.Derives text ∧
        (∀ s' : Statement, s'.Derives text → s' = s) ∧
        ∀ k items, s.Flattens k items ↔ k = q.connector ∧ items = Filters.anonymous q.items := by
  refine ⟨⟨?_, ?_⟩, ?_⟩
  · rintro ⟨q, ids', h⟩
    obtain ⟨s, hs, -⟩ := exists_derives_of_read h
    exact ⟨s, hs⟩
  · rintro ⟨s, hs⟩
    exact ⟨_, _, read_of_derives hs ids⟩
  · intro q ids' h
    obtain ⟨s, hs, rfl⟩ := exists_derives_of_read h
    exact ⟨s, hs, fun s' hs' => hs.unique hs', fun k items => s.flattens_iff ids⟩

/-- The first expression in parentheses always holds, and the only chain in the last one stays a group. -/
theorem read_iff_derives_of_parens : ∃ s : Statement,
    s.Derives "SELECT * FROM MediaSegments WHERE (1=1 OR HasIntro IS NULL) AND (HasIntro = 1 OR (HasCredits = 0))" ∧
      s.Flattens .and [.group 0 .or [.condition ⟨0, "HasIntro", .compare .eq, "1", "", []⟩,
        .group 0 .and [.condition ⟨0, "HasCredits", .compare .eq, "0", "", []⟩]]] := by
  have hread := read_iff_derives
    "SELECT * FROM MediaSegments WHERE (1=1 OR HasIntro IS NULL) AND (HasIntro = 1 OR (HasCredits = 0))" .initial
  obtain ⟨s, hs, -, hflattens⟩ := hread.2
    { everything with items := [.group 5 .or [.condition ⟨2, "HasIntro", .compare .eq, "1", "", []⟩,
        .group 4 .and [.condition ⟨3, "HasCredits", .compare .eq, "0", "", []⟩]]] } ⟨6⟩ (by decide +kernel)
  exact ⟨s, hs, (hflattens _ _).mpr ⟨rfl, rfl⟩⟩

end Query

end SegmentQuery
