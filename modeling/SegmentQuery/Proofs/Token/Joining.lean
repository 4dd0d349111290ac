import Mathlib.Algebra.Ring.Parity
import SegmentQuery.Proofs.Token.Tiling

namespace SegmentQuery.Token

theorem Skipped.ne_quote {c : Char} {rest : List Char} (h : Skipped c rest) : c ≠ '\'' := by
  rintro rfl
  cases h with
  | blank h => exact absurd h (by decide)
  | foreign h => exact absurd h (by decide)

theorem IsUnsigned.quote_not_mem {cs : List Char} (h : IsUnsigned cs) : '\'' ∉ cs := by
  have hdigits {ds : List Char} (hds : ds.all Char.isDigit = true) : '\'' ∉ ds := fun hmem =>
    absurd (List.all_eq_true.mp hds _ hmem) (by decide)
  cases h with
  | whole _ hcs => exact hdigits hcs
  | point _ hcs hfraction => simp [hdigits hcs, hdigits hfraction]

/-- A token that is not closed is a quoted text at the very end. Only its lexeme has an odd number of quotes. -/
theorem IsLexeme.even_or_unclosed {t : Token} {cs rest : List Char} (h : IsLexeme t cs rest) :
    Even (cs.count '\'') ∨ Odd (cs.count '\'') ∧ rest = [] ∧
      ∃ content : String, t = .string content ∧ cs = '\'' :: Text.Quoted.double content.toList := by
  have heven_of_not_mem : '\'' ∉ cs → Even (cs.count '\'') := fun hmem => by
    rw [List.count_eq_zero.mpr hmem]
    exact ⟨0, rfl⟩
  cases h with
  | word hstart hcs =>
    refine .inl (heven_of_not_mem fun hmem => ?_)
    rcases List.mem_cons.mp hmem with rfl | hmem
    · exact absurd hstart (by decide)
    · exact absurd (List.all_eq_true.mp hcs _ hmem) (by decide)
  | number h =>
    refine .inl (heven_of_not_mem ?_)
    cases h with
    | unsigned h => exact h.quote_not_mem
    | negative h => simpa using h.quote_not_mem
  | @closed content =>
    have hdouble := Text.Quoted.even_count_double content.toList
    refine .inl ?_
    simpa [Text.Quoted.encode, Nat.even_add_one] using hdouble
  | @unclosed content =>
    have hdouble := Text.Quoted.even_count_double content.toList
    refine .inr ⟨?_, rfl, content, rfl, rfl⟩
    simpa using hdouble.add_one
  | @comparison c =>
    refine .inl (heven_of_not_mem ?_)
    cases c <;> decide
  | delimiter ht =>
    simp only [List.mem_cons, List.not_mem_nil, or_false] at ht
    refine .inl (heven_of_not_mem ?_)
    rcases ht with rfl | rfl | rfl | rfl <;> decide

theorem isWordChar_of_isWordStart {c : Char} (hc : isWordStart c = true) : isWordChar c = true := by
  rw [isWordStart, Bool.or_eq_true] at hc
  rw [isWordChar, Bool.or_eq_true, Char.isAlphanum, Bool.or_eq_true]
  exact hc.imp_left .inl

/-- What a first character may be changed to: a blank, or the start of a word in place of another one. -/
inductive Permits.Change (rest : List Char) (d : Char) : Prop where
  | same (h : d ∈ rest.head?)
  | blank (h : Text.isBlank d = true)
  | word {c : Char} (hc : c ∈ rest.head?) (hstart : isWordStart c = true) (h : isWordStart d = true)

/-- What stands in front of one text may stand in front of another: that one has the same first character, or a blank,
or none, or it starts with a word as the first one does. -/
def Permits (rest other : List Char) : Prop := ∀ d ∈ other.head?, Permits.Change rest d

theorem permits_of_append (head tail : List Char) : Permits (head ++ tail) head := by
  intro d hd
  cases head with
  | nil => cases hd
  | cons c head => exact .same hd

theorem permits_append_blank (rest after : List Char) {w : Char} (hw : Text.isBlank w = true) :
    Permits rest (rest ++ w :: after) := by
  intro d hd
  cases rest with
  | nil =>
    cases hd
    exact .blank hw
  | cons c rest => exact .same hd

theorem Permits.head?_ne {rest other : List Char} (h : Permits rest other) {d : Char} (hd : rest.head? ≠ some d)
    (hblank : Text.isBlank d = false) (hstart : isWordStart d = false) : other.head? ≠ some d := by
  intro hhead
  cases h d hhead with
  | same h => exact hd h
  | blank h => exact Bool.false_ne_true (hblank.symm.trans h)
  | word _ _ h => exact Bool.false_ne_true (hstart.symm.trans h)

/-- A character that is skipped in front of one text is skipped in front of the other. -/
theorem Skipped.of_permits {c : Char} {rest other : List Char} (h : Skipped c rest) (hother : Permits rest other) :
    Skipped c other := by
  cases h with
  | blank h => exact .blank h
  | foreign h => exact .foreign h
  | minus h =>
    refine .minus fun d hd => ?_
    cases hother d hd with
    | same hd => exact h d hd
    | blank hblank => exact (classes_of_isBlank hblank).1
    | word _ _ hstart => exact isDigit_eq_false_of_isWordStart hstart
  | exclamation h => exact .exclamation (hother.head?_ne h (by decide) (by decide))

/-- A lexeme in front of one text is the lexeme of the same token in front of the other, unless a quoted text is
open. -/
theorem IsLexeme.of_permits {t : Token} {cs rest other : List Char} (h : IsLexeme t cs rest)
    (hother : Permits rest other) (hclosed : Even (cs.count '\'') ∨ other = []) : IsLexeme t cs other := by
  cases h with
  | word hstart hcs hend =>
    refine .word hstart hcs fun d hd => ?_
    cases hother d hd with
    | same hd => exact hend d hd
    | blank hblank =>
      obtain ⟨hdigit, hstart⟩ := classes_of_isBlank hblank
      simp_all [isWordStart, isWordChar, Char.isAlphanum]
    | word hc hstart' =>
      have hchar := isWordChar_of_isWordStart hstart'
      rw [hend _ hc] at hchar
      cases hchar
  | number h hend =>
    refine .number h fun d hd => ?_
    cases hother d hd with
    | same hd => exact hend d hd
    | blank hblank =>
      refine ⟨(classes_of_isBlank hblank).1, ?_⟩
      rintro rfl
      exact absurd hblank (by decide)
    | word _ _ hstart =>
      refine ⟨isDigit_eq_false_of_isWordStart hstart, ?_⟩
      rintro rfl
      exact absurd hstart (by decide)
  | closed hend => exact .closed (hother.head?_ne hend (by decide) (by decide))
  | @unclosed content =>
    obtain heven | rfl := hclosed
    · have hodd := (Text.Quoted.even_count_double content.toList).add_one
      rw [List.count_cons_self] at heven
      exact absurd heven (Nat.not_even_iff_odd.mpr hodd)
    · exact .unclosed
  | comparison hend => exact .comparison fun hc => hother.head?_ne (hend hc) (by decide) (by decide)
  | delimiter ht => exact .delimiter ht

variable {cs : List Char} {ts : List Token}

theorem Tiles.append_blank {after : List Char} {us : List Token} {w : Char} (h : Tiles cs ts)
    (heven : Even (cs.count '\'')) (hw : Text.isBlank w = true) (hafter : Tiles after us) :
    Tiles (cs ++ w :: after) (ts ++ us) := by
  induction h with
  | nil => exact .skip (.blank hw) hafter
  | @skip c rest ts h _ ih =>
    rw [List.count_cons_of_ne h.ne_quote] at heven
    exact .skip (h.of_permits (permits_append_blank rest after hw)) (ih heven)
  | @lexeme t lexeme rest ts h _ ih =>
    rw [List.count_append, Nat.even_add] at heven
    rw [List.append_assoc, List.cons_append]
    rcases h.even_or_unclosed with hclosed | ⟨hodd, rfl, -⟩
    · exact .lexeme (h.of_permits (permits_append_blank rest after hw) (.inl hclosed)) (ih (heven.mp hclosed))
    · exact absurd (heven.mpr (by simp)) (Nat.not_even_iff_odd.mpr hodd)

/-- A text with an odd number of quotes ends in a quoted text that is not closed. -/
theorem Tiles.exists_unclosed (h : Tiles cs ts) (hodd : Odd (cs.count '\'')) :
    ∃ (head : List Char) (content : String) (us : List Token), cs = head ++ '\'' :: Text.Quoted.double content.toList ∧
      Even (head.count '\'') ∧ Tiles head us ∧ ts = us ++ [.string content] := by
  induction h with
  | nil => exact absurd hodd (by decide)
  | @skip c rest ts h _ ih =>
    rw [List.count_cons_of_ne h.ne_quote] at hodd
    obtain ⟨head, content, us, rfl, heven, htiles, rfl⟩ := ih hodd
    refine ⟨c :: head, content, us, rfl, ?_, .skip (h.of_permits (permits_of_append _ _)) htiles, rfl⟩
    rwa [List.count_cons_of_ne h.ne_quote]
  | @lexeme t lexeme rest ts h htail ih =>
    rw [List.count_append, Nat.odd_add] at hodd
    rcases h.even_or_unclosed with hclosed | ⟨hopen, rfl, content, rfl, rfl⟩
    · have hrest : Odd (rest.count '\'') := by
        rw [← Nat.not_even_iff_odd] at hodd ⊢
        exact fun heven => (hodd.mpr heven) hclosed
      obtain ⟨head, content, us, rfl, heven, htiles, rfl⟩ := ih hrest
      refine ⟨lexeme ++ head, content, t :: us, by rw [List.append_assoc], ?_, ?_, rfl⟩
      · rw [List.count_append]
        exact hclosed.add heven
      · exact .lexeme (h.of_permits (permits_of_append _ _) (.inl hclosed)) htiles
    · have hts : scan [] = ts := htail.scan_eq
      rw [scan_nil] at hts
      subst hts
      exact ⟨[], content, [], by simp, by simp, .nil, rfl⟩

/-- Behind an even number of quotes, a blank separates the tokens before it from those after it, whatever stands on
either side. A text with an odd number of quotes ends in a quoted text that is not closed: of the quotes behind its
opening one, each is written twice. -/
theorem scan_of_quotes (cs : List Char) :
    (Even (cs.count '\'') → ∀ w after, Text.isBlank w = true → scan (cs ++ w :: after) = scan cs ++ scan after) ∧
      (Odd (cs.count '\'') → ∃ (head : List Char) (content : String),
        cs = head ++ '\'' :: Text.Quoted.double content.toList ∧ Even (head.count '\'') ∧
          scan cs = scan head ++ [.string content]) := by
  constructor
  · intro heven w after hw
    exact ((tiles_scan cs).append_blank heven hw (tiles_scan after)).scan_eq
  · intro hodd
    obtain ⟨head, content, us, hcs, heven, htiles, hts⟩ := (tiles_scan cs).exists_unclosed hodd
    exact ⟨head, content, hcs, heven, by rw [hts, htiles.scan_eq]⟩

/-- A wide blank keeps a sign apart from the one behind it. The second text stays open: its last quote is written
twice. -/
theorem scan_of_quotes_of_signs :
    scan "Name <\u3000= 'a'".toList = [.identifier "Name", .comparison .lt, .comparison .eq, .string "a"] ∧
      ∃ (head : List Char) (content : String),
        "Name = 'It''".toList = head ++ '\'' :: Text.Quoted.double content.toList ∧ Even (head.count '\'') ∧
          scan "Name = 'It''".toList = scan head ++ [.string content] := by
  have hjoined := (scan_of_quotes "Name <".toList).1 (by decide) '\u3000' "= 'a'".toList (by decide)
  refine ⟨?_, (scan_of_quotes "Name = 'It''".toList).2 (by decide)⟩
  calc
    scan "Name <\u3000= 'a'".toList = scan "Name <".toList ++ scan "= 'a'".toList := hjoined
    _ = [.identifier "Name", .comparison .lt, .comparison .eq, .string "a"] := by decide +kernel

end SegmentQuery.Token
