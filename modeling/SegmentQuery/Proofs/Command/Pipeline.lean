import SegmentQuery.Command.Run
import SegmentQuery.Proofs.Document.Query
import SegmentQuery.Proofs.Query.Tidy
import SegmentQuery.Proofs.Session.Adoption

namespace SegmentQuery

open Json

mutual

/-- The levels of a filter: one for a condition, and one more for every group around it. -/
def Filter.height : Filter → Nat
  | .condition _ => 1
  | .group _ _ children => Filters.height children + 1

def Filters.height : List Filter → Nat
  | [] => 0
  | f :: rest => max f.height (Filters.height rest)

end

/-- The most levels of filters in a document that is read. -/
def Document.heightLimit : Nat := 62

mutual

/-- A condition holds a list of values, and a group a list of filters; so every level takes an object and an array. -/
theorem Filter.depth_toJson : ∀ f : Filter, f.toJson.depth = 2 * f.height
  | .condition c => by
    simp [Filter.toJson, Condition.members, depth, memberDepths, Filter.height, Document.depth_ofTexts]
  | .group _ _ children => by
    have hchildren := Filters.depths_toJson children
    simp only [Filter.toJson, depth, memberDepths, Filter.height, hchildren]
    omega

theorem Filters.depths_toJson : ∀ items : List Filter, depths (Filters.toJson items) = 2 * Filters.height items
  | [] => rfl
  | f :: rest => by
    rw [Filters.toJson, depths, Filter.depth_toJson f, Filters.depths_toJson rest, Filters.height,
      Nat.mul_max_mul_left]

end

namespace Query

theorem depth_toJson (q : Query) : q.toJson.depth = 2 * Filters.height q.items + 2 := by
  simp only [toJson, Document.Key.all, List.map_cons, List.map_nil, Document.Key.valueIn, depth, memberDepths,
    Document.depth_ofTexts, Filters.depths_toJson]
  omega

/-- The document of a query is too deep exactly if its filters are too high. -/
theorem depth_toJson_le_iff (q : Query) :
    q.toJson.depth ≤ Document.depthLimit ↔ Filters.height q.items ≤ Document.heightLimit := by
  rw [depth_toJson, Document.depthLimit, Document.heightLimit]
  omega

end Query

namespace Command

/-- From the document of a query, with any blanks behind it, the text of the query is generated, unless the filters are
too high. -/
theorem textOf_document_append_blanks (q : Query) (layout : Layout) {blanks : List Char}
    (hblanks : blanks.all isBlank = true) :
    textOf (q.document layout ++ String.ofList blanks) =
      if Filters.height q.items ≤ Document.heightLimit then .ok q.text else .error (.document .malformed) := by
  rw [textOf, q.ofDocument_append_blanks layout hblanks, accept_congr q.depth_toJson_le_iff, accept]
  by_cases hheight : Filters.height q.items ≤ Document.heightLimit
  · rw [if_pos hheight, if_pos hheight, Except.mapError, Except.map, Session.exportText_ofQuery]
  · rw [if_neg hheight, if_neg hheight, Except.mapError, Except.map]

theorem textOf_document (q : Query) (layout : Layout) :
    textOf (q.document layout) =
      if Filters.height q.items ≤ Document.heightLimit then .ok q.text else .error (.document .malformed) := by
  have htext := textOf_document_append_blanks q layout (rfl : [].all isBlank = true)
  rwa [String.ofList_nil, String.append_empty] at htext

/-- A text that has been printed is taken from the standard input as it is. -/
theorem givenDocument_toUTF8 (text : String) : givenDocument none (some text.toUTF8) = .ok text := by
  have hvalid : String.fromUTF8? text.toUTF8 = some text := by
    unfold String.fromUTF8?
    rw [String.toUTF8_eq_toByteArray, dif_pos text.isValidUTF8]
    rfl
  rw [givenDocument, hvalid]

/-- From the printed document of a query, the text of the query is generated and printed, unless the filters are too
high. -/
theorem run_generate_document (q : Query) (layout : Layout) (detail : Failure → String) :
    run (some (line (q.document layout)).toUTF8) (.generate none) detail =
      if Filters.height q.items ≤ Document.heightLimit then .printed (line q.text)
      else .ofResult detail (.error (.document .malformed)) := by
  have htext : textOf (line (q.document layout)) = _ :=
    textOf_document_append_blanks q layout (rfl : ['\n'].all isBlank = true)
  simp only [run, givenDocument_toUTF8, bind, Except.bind, htext]
  by_cases hheight : Filters.height q.items ≤ Document.heightLimit
  · rw [if_pos hheight, if_pos hheight]
    rfl
  · rw [if_neg hheight, if_neg hheight]
    rfl

/-- A text that is no query is refused with the same error, whether it is parsed or checked. A query is parsed to a
document. From that the text is generated that a check with a round trip gives, if the document never has more than 127
arrays and objects open, which is so if the filters have at most 62 levels; else the document is refused. The commands
do the same, with the output of the one as the input of the other, whatever the reader of documents says about one that
it refuses. -/
theorem generate_of_parse (text : String) (layout : Layout) :
    match Query.ofText text with
    | .error e =>
      documentOf layout text = .error (.query e) ∧ readQuery text = .error (.query e) ∧
        canonical text = .error (.query e) ∧
        ∀ input roundTrip detail, run input (.parse text layout) detail = run input (.check text roundTrip) detail
    | .ok q => ∃ document,
      documentOf layout text = .ok document ∧ Json.deepest document = 2 * Filters.height q.items + 2 ∧
        textOf document =
          (if Json.deepest document ≤ Document.depthLimit then canonical text else .error (.document .malformed)) ∧
        ∀ input detail, run (some (run input (.parse text layout) detail).output.toUTF8) (.generate none) detail =
          if Json.deepest document ≤ Document.depthLimit then run input (.check text true) detail
          else .ofResult detail (.error (.document .malformed)) := by
  cases hread : Query.ofText text with
  | error e =>
    have hquery : readQuery text = .error (.query e) := by rw [readQuery, hread, Except.mapError]
    have hdocument : documentOf layout text = .error (.query e) := by rw [documentOf, hquery, Except.map]
    have hcanonical : canonical text = .error (.query e) := by rw [canonical, hquery, Except.map]
    refine ⟨hdocument, hquery, hcanonical, fun input roundTrip detail => ?_⟩
    cases roundTrip with
    | false => simp only [run, hdocument, hquery, Except.map]
    | true => simp only [run, hdocument, hcanonical, Except.map]
  | ok q =>
    have hdocument := documentOf_of_ofText hread layout
    have hcanonical := canonical_of_ofText hread
    have hdeepest : Json.deepest (q.document layout) ≤ Document.depthLimit ↔
        Filters.height q.items ≤ Document.heightLimit := by
      rw [q.deepest_document, q.depth_toJson_le_iff]
    refine ⟨q.document layout, hdocument, ?_, ?_, fun input detail => ?_⟩
    · rw [q.deepest_document, q.depth_toJson]
    · simp only [textOf_document, hdeepest, hcanonical]
    · have hparse : run input (.parse text layout) detail = .printed (line (q.document layout)) := by
        simp only [run, hdocument, Except.map, Outcome.ofResult]
      have hcheck : run input (.check text true) detail = .printed (line q.text) := by
        simp only [run, hcanonical, Except.map, Outcome.ofResult]
      have hgenerate := run_generate_document q layout detail
      simp only [hparse, Outcome.printed, hgenerate, hdeepest, hcheck]

/-- A query with its only condition in parentheses inside one another. -/
def parenthesized (levels : Nat) : String :=
  "SELECT * FROM t WHERE " ++ String.ofList (List.replicate levels '(') ++ "ItemId = 'a'" ++
    String.ofList (List.replicate levels ')')

/-- In 62 parentheses a condition makes filters of 63 levels: the query is read and has a canonical text, but no text is
generated from its document. -/
theorem generate_of_parse_parenthesized : ∃ q, Query.ofText (parenthesized 62) = .ok q ∧
    documentOf .compact (parenthesized 62) = .ok (q.document .compact) ∧
    canonical (parenthesized 62) = .ok q.text ∧ textOf (q.document .compact) = .error (.document .malformed) := by
  have hheight : (Query.ofText (parenthesized 62)).toOption.map (fun q => Filters.height q.items) = some 63 := by
    decide +kernel
  obtain ⟨q, hread, hheight⟩ := Query.exists_of_toOption_map hheight
  have htext := textOf_document q .compact
  rw [hheight, if_neg (by decide)] at htext
  exact ⟨q, hread, documentOf_of_ofText hread .compact, canonical_of_ofText hread, htext⟩

end Command

end SegmentQuery
