import SegmentQuery.Command.Run
import SegmentQuery.Proofs.Statement.Grammar
import SegmentQuery.Proofs.Statement.Respelling
import SegmentQuery.Proofs.Token.LetterCase

namespace SegmentQuery.Query

/-- The tokens of the second text may stand in the places of those of the statement that derives the first one. -/
def Respells (text text' : String) : Prop :=
  ∃ s : Statement, s.Derives text ∧ Role.Allow s.roles (Token.scan text'.toList)

section

variable {text text' : String}

theorem respells_of_scan_eq {s : Statement} (hs : s.Derives text)
    (h : Token.scan text'.toList = Token.scan text.toList) : Respells text text' := by
  refine ⟨s, hs, ?_⟩
  rw [h, ← hs.2]
  exact s.allow_tokens

/-- Two texts of the same statement, apart from its spelling, are read as the same query from every source of ids. -/
theorem Respells.read_eq (h : Respells text text') (ids : IdSource) : read text' ids = read text ids := by
  obtain ⟨s, hs, hallow⟩ := h
  obtain ⟨s', htokens, hresolve, hcomparisons⟩ := Statement.exists_of_allows hallow
  have hs' : s'.Derives text' := ⟨hcomparisons hs.1, htokens⟩
  rw [read_of_derives hs', read_of_derives hs, hresolve]

end

/-- A text that is read stays the same query in another spelling of the names of fields, of the table and of the truth
values that boolean fields are compared with, and in other letters of reserved words: it is read with the same ids, and
both have the same canonical text. -/
theorem read_respelled {text text' : String} {ids after : IdSource} {q : Query} (h : read text ids = (.ok q, after))
    (hspelling : Respells text text' ∨ Token.SameButKeywords text.toList text'.toList) :
    read text' ids = (.ok q, after) ∧
      ∃ canonical, Command.canonical text = .ok canonical ∧ Command.canonical text' = .ok canonical := by
  obtain ⟨s, hs, -⟩ := exists_derives_of_read h
  have hrespells : Respells text text' := hspelling.elim id fun hkeywords => respells_of_scan_eq hs hkeywords.scan_eq
  have hfirst : ofText text = .ok (s.resolve .initial).1 := by rw [ofText, read_of_derives hs]
  have hsecond : ofText text' = .ok (s.resolve .initial).1 := by rw [ofText, hrespells.read_eq, read_of_derives hs]
  exact ⟨(hrespells.read_eq ids).trans h, _, Command.canonical_of_ofText hfirst, Command.canonical_of_ofText hsecond⟩

/-- Another table, and other letters of names, of reserved words and of the truth value of a boolean field. -/
theorem read_respelled_of_lower_case :
    let text := "SELECT itemId FROM a WHERE hasIntro IN (TRUE, 'x') ORDER BY itemid"
    let text' := "select ITEMID from b where HasIntro in (true, 'x') order by ItemId"
    read text' .initial = read text .initial ∧
      ∃ canonical, Command.canonical text = .ok canonical ∧ Command.canonical text' = .ok canonical := by
  intro text text'
  let s : Statement :=
    { columns := .listed "itemId" []
      table := "a"
      filter := some (.conjunction (.term (.condition "hasIntro" (.oneOf false (.word "TRUE") [.text "x"]))))
      order := some ⟨"itemid", none⟩
      limit := none }
  have hs : s.Derives text := by
    refine ⟨?_, by decide +kernel⟩
    rintro _ ⟨⟩
    trivial
  have hallow : Role.Allow s.roles (Token.scan text'.toList) := by decide +kernel
  have hread := read_of_derives hs .initial
  rw [hread]
  exact read_respelled hread (.inl ⟨s, hs, hallow⟩)

end SegmentQuery.Query
