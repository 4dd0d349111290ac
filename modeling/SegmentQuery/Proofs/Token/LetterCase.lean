import SegmentQuery.Proofs.Token.Joining

namespace SegmentQuery.Token

theorem toNat_toUpper (c : Char) :
    c.toUpper.toNat = if 97 ≤ c.toNat ∧ c.toNat ≤ 122 then c.toNat - 32 else c.toNat := by
  have hlower : ('a'.val ≤ c.val ∧ c.val ≤ 'z'.val) ↔ (97 ≤ c.toNat ∧ c.toNat ≤ 122) :=
    and_congr UInt32.le_iff_toNat_le UInt32.le_iff_toNat_le
  by_cases h : 'a'.val ≤ c.val ∧ c.val ≤ 'z'.val
  · have hrange := hlower.mp h
    have hdifference : ('A'.val - 'a'.val).toNat = 4294967264 := by decide
    have hcapital : c.toUpper = ⟨c.val + ('A'.val - 'a'.val), _⟩ := dif_pos h
    rw [if_pos hrange, hcapital, ← Char.toNat_val, UInt32.toNat_add, hdifference, Char.toNat_val]
    omega
  · have hsame : c.toUpper = c := dif_neg h
    rw [if_neg (mt hlower.mpr h), hsame]

/-- Characters with the same capital are the same, or both are letters. -/
theorem eq_or_isWordStart_of_toUpper_eq {c d : Char} (h : d.toUpper = c.toUpper) :
    d = c ∨ isWordStart c = true ∧ isWordStart d = true := by
  have hnat : d.toUpper.toNat = c.toUpper.toNat := congrArg Char.toNat h
  rw [toNat_toUpper, toNat_toUpper] at hnat
  rw [isWordStart_iff, isWordStart_iff, ← Char.toNat_inj]
  split at hnat <;> split at hnat <;> omega

theorem isWordStart_eq_of_toUpper_eq {c d : Char} (h : d.toUpper = c.toUpper) : isWordStart d = isWordStart c := by
  rcases eq_or_isWordStart_of_toUpper_eq h with rfl | ⟨hc, hd⟩
  · rfl
  · rw [hc, hd]

theorem isWordChar_eq_of_toUpper_eq {c d : Char} (h : d.toUpper = c.toUpper) : isWordChar d = isWordChar c := by
  rcases eq_or_isWordStart_of_toUpper_eq h with rfl | ⟨hc, hd⟩
  · rfl
  · rw [isWordChar_of_isWordStart hc, isWordChar_of_isWordStart hd]

theorem all_isWordChar_of_map_toUpper_eq {cs cs' : List Char} (hcs : cs.all isWordChar = true)
    (h : cs'.map Char.toUpper = cs.map Char.toUpper) : cs'.all isWordChar = true := by
  induction cs' generalizing cs with
  | nil => rfl
  | cons d ds ih =>
    cases cs with
    | nil => cases h
    | cons c cs =>
      obtain ⟨hhead, htail⟩ := List.cons.inj h
      rw [List.all_cons, Bool.and_eq_true] at hcs ⊢
      exact ⟨(isWordChar_eq_of_toUpper_eq hhead).trans hcs.1, ih hcs.2 htail⟩

variable {rest other : List Char}

theorem exists_head?_of_map_toUpper_eq (h : other.map Char.toUpper = rest.map Char.toUpper) {d : Char}
    (hd : d ∈ other.head?) : ∃ c ∈ rest.head?, d.toUpper = c.toUpper := by
  have hheads : other.head?.map Char.toUpper = rest.head?.map Char.toUpper := by
    rw [← List.head?_map, ← List.head?_map, h]
  rw [Option.mem_def.mp hd] at hheads
  obtain ⟨c, hc, heq⟩ := Option.map_eq_some_iff.mp hheads.symm
  exact ⟨c, hc, heq.symm⟩

/-- What stands in front of a text may stand in front of it in other letters. -/
theorem permits_of_map_toUpper_eq (h : other.map Char.toUpper = rest.map Char.toUpper) : Permits rest other := by
  intro d hd
  obtain ⟨c, hc, heq⟩ := exists_head?_of_map_toUpper_eq h hd
  rcases eq_or_isWordStart_of_toUpper_eq heq with rfl | ⟨hstart, hstart'⟩
  · exact .same hc
  · exact .word hc hstart hstart'

theorem ofWord_of_sameLetters {word other : String} {k : Keyword} (h : ofWord word = .keyword k)
    (hother : Text.sameLetters word other = true) : ofWord other = .keyword k := by
  have hsame : Keyword.ofWord? other = Keyword.ofWord? word := by
    simp only [Keyword.ofWord?, Text.sameLetters, Text.sameLetters_iff.mp hother]
  unfold ofWord at h ⊢
  rw [hsame]
  split at h
  · exact h
  · cases h

/-- A reserved word is the same in other letters. -/
theorem IsLexeme.of_map_toUpper_eq {k : Keyword} {cs cs' : List Char} (h : IsLexeme (.keyword k) cs rest)
    (hcs : cs'.map Char.toUpper = cs.map Char.toUpper) (hother : other.map Char.toUpper = rest.map Char.toUpper) :
    IsLexeme (.keyword k) cs' other := by
  generalize ht : Token.keyword k = t at h
  cases h with
  | @word c cs rest hstart htail hend =>
    cases cs' with
    | nil => cases hcs
    | cons d ds =>
      obtain ⟨hhead, hds⟩ := List.cons.inj hcs
      have hletters : Text.sameLetters (String.ofList (c :: cs)) (String.ofList (d :: ds)) = true := by
        rw [Text.sameLetters_iff, Text.upper, Text.upper, String.toList_ofList, String.toList_ofList, hcs]
      rw [← ht, ← ofWord_of_sameLetters ht.symm hletters]
      refine .word ((isWordStart_eq_of_toUpper_eq hhead).trans hstart) (all_isWordChar_of_map_toUpper_eq htail hds) ?_
      intro e he
      obtain ⟨e', he', heq⟩ := exists_head?_of_map_toUpper_eq hother he
      exact (isWordChar_eq_of_toUpper_eq heq).trans (hend e' he')
  | number | closed | unclosed | comparison => cases ht
  | delimiter hmem =>
    subst ht
    simp at hmem

/-- The same text, but for the letters of reserved words. -/
inductive SameButKeywords : List Char → List Char → Prop where
  | nil : SameButKeywords [] []
  | skip {c : Char} {rest other : List Char} (h : Skipped c rest) (htail : SameButKeywords rest other) :
      SameButKeywords (c :: rest) (c :: other)
  | lexeme {t : Token} {cs rest other : List Char} (h : IsLexeme t cs rest) (htail : SameButKeywords rest other) :
      SameButKeywords (cs ++ rest) (cs ++ other)
  | keyword {k : Keyword} {cs cs' rest other : List Char} (h : IsLexeme (.keyword k) cs rest)
      (hletters : cs'.map Char.toUpper = cs.map Char.toUpper) (htail : SameButKeywords rest other) :
      SameButKeywords (cs ++ rest) (cs' ++ other)

variable {cs cs' : List Char}

theorem SameButKeywords.map_toUpper_eq (h : SameButKeywords cs cs') :
    cs'.map Char.toUpper = cs.map Char.toUpper := by
  induction h with
  | nil => rfl
  | skip _ _ ih => rw [List.map_cons, List.map_cons, ih]
  | lexeme _ _ ih => rw [List.map_append, List.map_append, ih]
  | keyword _ hletters _ ih => rw [List.map_append, List.map_append, hletters, ih]

/-- The letters of reserved words do not matter to the tokens of a text. -/
theorem SameButKeywords.scan_eq (h : SameButKeywords cs cs') : scan cs' = scan cs := by
  suffices hboth : ∃ ts, Tiles cs ts ∧ Tiles cs' ts by
    obtain ⟨ts, htiles, htiles'⟩ := hboth
    rw [htiles'.scan_eq, htiles.scan_eq]
  induction h with
  | nil => exact ⟨[], .nil, .nil⟩
  | skip h htail ih =>
    obtain ⟨ts, htiles, htiles'⟩ := ih
    have hpermits := permits_of_map_toUpper_eq htail.map_toUpper_eq
    exact ⟨ts, .skip h htiles, .skip (h.of_permits hpermits) htiles'⟩
  | @lexeme t cs rest other h htail ih =>
    obtain ⟨ts, htiles, htiles'⟩ := ih
    have hletters := htail.map_toUpper_eq
    have hpermits := permits_of_map_toUpper_eq hletters
    -- Behind a quoted text that is not closed there is nothing, in the one text as in the other.
    have hclosed : Even (cs.count '\'') ∨ other = [] := by
      refine h.even_or_unclosed.imp_right ?_
      rintro ⟨-, rfl, -⟩
      exact List.map_eq_nil_iff.mp hletters
    exact ⟨t :: ts, .lexeme h htiles, .lexeme (h.of_permits hpermits hclosed) htiles'⟩
  | @keyword k cs cs' rest other h hletters htail ih =>
    obtain ⟨ts, htiles, htiles'⟩ := ih
    exact ⟨.keyword k :: ts, .lexeme h htiles,
      .lexeme (h.of_map_toUpper_eq hletters htail.map_toUpper_eq) htiles'⟩

end SegmentQuery.Token
