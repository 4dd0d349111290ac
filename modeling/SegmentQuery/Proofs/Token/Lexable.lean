import SegmentQuery.Token.Scan

namespace SegmentQuery.Token

/-- A word that starts with a letter or an underscore, goes on with letters, digits and underscores, and is not
reserved. -/
def isName (name : String) : Bool :=
  match name.toList with
  | [] => false
  | c :: rest => isWordStart c && rest.all isWordChar && (Keyword.ofWord? name).isNone

/-- Digits, and possibly a point and more digits behind it. -/
inductive IsUnsigned : List Char → Prop where
  | whole {digits : List Char} (hne : digits ≠ []) (hdigits : digits.all Char.isDigit = true) : IsUnsigned digits
  | point {digits fraction : List Char} (hne : digits ≠ []) (hdigits : digits.all Char.isDigit = true)
      (hfraction : fraction.all Char.isDigit = true) : IsUnsigned (digits ++ '.' :: fraction)

/-- A number as a text can contain it, with or without a minus sign. -/
inductive IsNumeral : List Char → Prop where
  | unsigned {cs : List Char} (h : IsUnsigned cs) : IsNumeral cs
  | negative {cs : List Char} (h : IsUnsigned cs) : IsNumeral ('-' :: cs)

/-- A token that a text can contain. -/
def Lexable : Token → Prop
  | identifier name => isName name = true
  | number digits => IsNumeral digits.toList
  | _ => True

/-- What follows a token does not go on with it. -/
def EndsBefore : Token → List Char → Prop
  | keyword _, rest | identifier _, rest => ∀ c ∈ rest.head?, isWordChar c = false
  | number _, rest => ∀ c ∈ rest.head?, c.isDigit = false ∧ c ≠ '.'
  | string _, rest => rest.head? ≠ some '\''
  | comparison .lt, rest | comparison .gt, rest => rest.head? ≠ some '='
  | _, _ => True

theorem takeWhile_append {p : Char → Bool} {cs rest : List Char} (hcs : cs.all p = true)
    (hrest : ∀ c ∈ rest.head?, p c = false) : (cs ++ rest).takeWhile p = cs := by
  rw [List.takeWhile_append_of_pos (List.all_eq_true.mp hcs)]
  cases rest with
  | nil => simp
  | cons c rest => simp [hrest c (by simp)]

theorem dropWhile_append {p : Char → Bool} {cs rest : List Char} (hcs : cs.all p = true)
    (hrest : ∀ c ∈ rest.head?, p c = false) : (cs ++ rest).dropWhile p = rest := by
  rw [List.dropWhile_append_of_pos (List.all_eq_true.mp hcs)]
  cases rest with
  | nil => simp
  | cons c rest => simp [hrest c (by simp)]

theorem isDigit_iff {c : Char} : c.isDigit = true ↔ 48 ≤ c.toNat ∧ c.toNat ≤ 57 := by
  simp only [Char.isDigit, Bool.and_eq_true, decide_eq_true_eq]
  exact and_congr UInt32.le_iff_toNat_le UInt32.le_iff_toNat_le

theorem isWordStart_iff {c : Char} : isWordStart c = true ↔
    65 ≤ c.toNat ∧ c.toNat ≤ 90 ∨ 97 ≤ c.toNat ∧ c.toNat ≤ 122 ∨ c.toNat = 95 := by
  have hunderscore : c = '_' ↔ c.toNat = 95 := by
    rw [← Char.toNat_inj]
    rfl
  have hstart : isWordStart c = (decide (65 ≤ c.val ∧ c.val ≤ 90) || (decide (97 ≤ c.val) && decide (c.val ≤ 122)) ||
      c == '_') := rfl
  simp only [hstart, Bool.or_eq_true, Bool.and_eq_true, decide_eq_true_eq, beq_iff_eq, hunderscore, or_assoc]
  exact or_congr (and_congr UInt32.le_iff_toNat_le UInt32.le_iff_toNat_le)
    (or_congr (and_congr UInt32.le_iff_toNat_le UInt32.le_iff_toNat_le) Iff.rfl)

theorem isDigit_eq_false_of_isWordStart {c : Char} (hc : isWordStart c = true) : c.isDigit = false := by
  rw [isWordStart_iff] at hc
  rw [Bool.eq_false_iff, ne_eq, isDigit_iff]
  omega

/-- Every reserved word is read as itself. -/
theorem ofWord_text (k : Keyword) : ofWord k.text = .keyword k := by
  cases k <;> decide

theorem isName_iff {name : String} : isName name = true ↔
    ∃ c rest, name.toList = c :: rest ∧ isWordStart c = true ∧ rest.all isWordChar = true ∧
      Keyword.ofWord? name = none := by
  unfold isName
  split
  · next h => simp [h]
  · next c rest h => simp [h, and_assoc]

/-- A name is no reserved word. -/
theorem ofWord_of_isName {name : String} (h : isName name = true) : ofWord name = .identifier name := by
  obtain ⟨c, rest, -, -, -, hword⟩ := isName_iff.mp h
  simp [ofWord, hword]

theorem lexeme?_of_isDigit {c : Char} (hc : c.isDigit = true) (rest : List Char) :
    lexeme? c rest =
      some (.number (String.ofList (splitNumber (c :: rest)).1), (splitNumber (c :: rest)).2) := by
  unfold lexeme?
  split <;> first | exact absurd hc (by decide) | rw [if_pos hc]

theorem lexeme?_of_isWordStart {c : Char} (hc : isWordStart c = true) (rest : List Char) :
    lexeme? c rest =
      some (ofWord (String.ofList (c :: rest.takeWhile isWordChar)), rest.dropWhile isWordChar) := by
  have hdigit := isDigit_eq_false_of_isWordStart hc
  unfold lexeme?
  split <;> first | exact absurd hc (by decide) | simp [hdigit, hc]

theorem lexeme?_minus {d : Char} (hd : d.isDigit = true) (rest : List Char) :
    lexeme? '-' (d :: rest) =
      some (.number (String.ofList ('-' :: (splitNumber (d :: rest)).1)), (splitNumber (d :: rest)).2) := by
  simp [lexeme?, hd]

/-- A blank character belongs to no number and to no word. -/
theorem classes_of_isBlank {c : Char} (hc : Text.isBlank c = true) : c.isDigit = false ∧ isWordStart c = false := by
  simp only [Text.isBlank, Text.blankRanges, List.any_cons, List.any_nil, Bool.or_eq_true, Bool.and_eq_true,
    decide_eq_true_eq, Bool.or_false] at hc
  simp only [Bool.eq_false_iff, ne_eq, isDigit_iff, isWordStart_iff]
  omega

/-- A blank character starts no token. -/
theorem lexeme?_of_isBlank {c : Char} (hc : Text.isBlank c = true) (rest : List Char) : lexeme? c rest = none := by
  have hclasses := classes_of_isBlank hc
  unfold lexeme?
  split <;> first | exact absurd hc (by decide) | simp [hclasses]

/-- A number ends where nothing goes on with it: no digit, and no point unless it has one already. -/
theorem splitNumber_append {cs rest : List Char} (hcs : IsUnsigned cs)
    (hrest : ∀ c ∈ rest.head?, c.isDigit = false ∧ (c = '.' → '.' ∈ cs)) : splitNumber (cs ++ rest) = (cs, rest) := by
  have hstop : ∀ c ∈ rest.head?, c.isDigit = false := fun c hc => (hrest c hc).1
  cases hcs with
  | whole hne hdigits =>
    simp only [splitNumber, takeWhile_append hdigits hstop, dropWhile_append hdigits hstop]
    split
    · have hpoint : '.' ∈ cs := by simpa using hrest
      exact absurd (List.all_eq_true.mp hdigits _ hpoint) (by decide)
    · rfl
  | @point digits fraction hne hdigits hfraction =>
    have hpoint : ∀ c ∈ ('.' :: (fraction ++ rest)).head?, c.isDigit = false := by simp
    simp only [List.append_assoc, List.cons_append, splitNumber, takeWhile_append hdigits hpoint,
      dropWhile_append hdigits hpoint, takeWhile_append hfraction hstop, dropWhile_append hfraction hstop]

/-- What is split off behind a first digit is a number. -/
theorem isUnsigned_splitNumber {c : Char} (hc : c.isDigit = true) (rest : List Char) :
    IsUnsigned (splitNumber (c :: rest)).1 := by
  have hne : (c :: rest).takeWhile Char.isDigit ≠ [] := by simp [hc]
  have hdigits : ((c :: rest).takeWhile Char.isDigit).all Char.isDigit = true := List.all_takeWhile
  unfold splitNumber
  split
  · exact .point hne hdigits List.all_takeWhile
  · exact .whole hne hdigits

theorem IsUnsigned.exists_cons {cs : List Char} (h : IsUnsigned cs) :
    ∃ c rest, cs = c :: rest ∧ c.isDigit = true := by
  cases h with
  | whole hne hdigits =>
    obtain ⟨c, rest, rfl⟩ := List.exists_cons_of_ne_nil hne
    exact ⟨c, rest, rfl, by simp_all⟩
  | @point digits fraction hne hdigits _ =>
    obtain ⟨c, rest, rfl⟩ := List.exists_cons_of_ne_nil hne
    exact ⟨c, rest ++ '.' :: fraction, rfl, by simp_all⟩

private theorem next?_of_lexeme? {c : Char} {rest after : List Char} {t : Token}
    (h : lexeme? c rest = some (t, after)) : next? (c :: rest) = some (t, after) := by
  simp [next?, h]

theorem next?_word {cs rest : List Char} {c : Char} (hc : isWordStart c = true)
    (hcs : cs.all isWordChar = true) (hrest : ∀ d ∈ rest.head?, isWordChar d = false) :
    next? (c :: cs ++ rest) = some (ofWord (String.ofList (c :: cs)), rest) := by
  rw [List.cons_append]
  apply next?_of_lexeme?
  rw [lexeme?_of_isWordStart hc, takeWhile_append hcs hrest, dropWhile_append hcs hrest]

theorem next?_numeral {cs rest : List Char} (hcs : IsNumeral cs)
    (hrest : ∀ c ∈ rest.head?, c.isDigit = false ∧ (c = '.' → '.' ∈ cs)) :
    next? (cs ++ rest) = some (.number (String.ofList cs), rest) := by
  cases hcs with
  | unsigned h =>
    have hsplit := splitNumber_append h hrest
    obtain ⟨c, cs, rfl, hc⟩ := h.exists_cons
    rw [List.cons_append] at hsplit ⊢
    apply next?_of_lexeme?
    rw [lexeme?_of_isDigit hc, hsplit]
  | negative h =>
    have hsplit := splitNumber_append h fun c hc => ⟨(hrest c hc).1, fun hpoint => by simpa using (hrest c hc).2 hpoint⟩
    obtain ⟨c, cs, rfl, hc⟩ := h.exists_cons
    rw [List.cons_append] at hsplit
    rw [List.cons_append, List.cons_append]
    apply next?_of_lexeme?
    rw [lexeme?_minus hc, hsplit]

theorem next?_quoted (content : String) {rest : List Char} (hrest : rest.head? ≠ some '\'') :
    next? ((Text.Quoted.quote content).toList ++ rest) = some (.string content, rest) := by
  have hread := Text.Quoted.read_double_append content.toList rest hrest
  simp only [Text.Quoted.quote, Text.Quoted.encode, String.toList_ofList, List.cons_append, List.append_assoc,
    List.nil_append]
  apply next?_of_lexeme?
  simp [lexeme?, hread]

/-- The display text of a token is read as that token, as long as what follows does not go on with it. -/
theorem next?_display {t : Token} {rest : List Char} (ht : t.Lexable) (hrest : t.EndsBefore rest) :
    next? (t.display.toList ++ rest) = some (t, rest) := by
  cases t with
  | keyword k =>
    obtain ⟨c, cs, hk, hc, hcs⟩ : ∃ c cs, k.text.toList = c :: cs ∧ isWordStart c = true ∧
        cs.all isWordChar = true := by
      cases k <;> exact ⟨_, _, rfl, by decide, by decide⟩
    rw [display, hk, next?_word hc hcs hrest, ← hk, String.ofList_toList, ofWord_text]
  | identifier name =>
    obtain ⟨c, cs, hname, hc, hcs, -⟩ := isName_iff.mp ht
    rw [display, hname, next?_word hc hcs hrest, ← hname, String.ofList_toList, ofWord_of_isName ht]
  | number digits =>
    have hends : ∀ c ∈ rest.head?, c.isDigit = false ∧ (c = '.' → '.' ∈ digits.toList) := fun c hc =>
      ⟨(hrest c hc).1, fun hpoint => absurd hpoint (hrest c hc).2⟩
    rw [display, next?_numeral ht hends, String.ofList_toList]
  | string content => exact next?_quoted content hrest
  | comparison c =>
    cases c with
    | lt =>
      change next? ('<' :: rest) = _
      apply next?_of_lexeme?
      cases rest with
      | nil => rfl
      | cons d rest =>
        have hd : d ≠ '=' := by simpa [EndsBefore] using hrest
        simp [lexeme?, hd]
    | gt =>
      change next? ('>' :: rest) = _
      apply next?_of_lexeme?
      cases rest with
      | nil => rfl
      | cons d rest =>
        have hd : d ≠ '=' := by simpa [EndsBefore] using hrest
        simp [lexeme?, hd]
    | eq | ne | le | ge => rfl
  | leftParen | rightParen | comma | star => rfl

theorem scan_of_next? {cs rest : List Char} {t : Token} (h : next? cs = some (t, rest)) :
    scan cs = t :: scan rest := by
  rw [scan]
  split
  · simp_all
  · next hnext =>
    rw [h] at hnext
    cases hnext
    rfl

theorem scan_display {t : Token} {rest : List Char} (ht : t.Lexable) (hrest : t.EndsBefore rest) :
    scan (t.display.toList ++ rest) = t :: scan rest := scan_of_next? (next?_display ht hrest)

theorem scan_nil : scan [] = [] := by
  rw [scan]
  rfl

/-- A blank in front of a text does not count. -/
theorem scan_blank {c : Char} (hc : Text.isBlank c = true) (rest : List Char) : scan (c :: rest) = scan rest := by
  have hnext : next? (c :: rest) = next? rest := by simp [next?, lexeme?_of_isBlank hc]
  cases hrest : next? rest with
  | none => rw [scan, scan, hnext, hrest]
  | some found => rw [scan_of_next? (hnext.trans hrest), scan_of_next? hrest]

theorem lexable_ofWord {c : Char} {cs : List Char} (hc : isWordStart c = true) (hcs : cs.all isWordChar = true) :
    (ofWord (String.ofList (c :: cs))).Lexable := by
  unfold ofWord
  split
  · trivial
  · next hword => exact isName_iff.mpr ⟨c, cs, by simp, hc, hcs, hword⟩

theorem lexable_of_lexeme? {c : Char} {rest after : List Char} {t : Token}
    (h : lexeme? c rest = some (t, after)) : t.Lexable := by
  unfold lexeme? at h
  split at h
  case h_12 d rest =>
    split at h
    · next hd =>
      cases h
      simpa [Lexable] using IsNumeral.negative (isUnsigned_splitNumber hd rest)
    · cases h
  case h_13 =>
    split at h
    · next hc =>
      cases h
      simpa [Lexable] using IsNumeral.unsigned (isUnsigned_splitNumber hc rest)
    · split at h
      · next hc =>
        cases h
        exact lexable_ofWord hc List.all_takeWhile
      · cases h
  all_goals
    cases h
    trivial

theorem lexable_of_next? {cs rest : List Char} {t : Token} (h : next? cs = some (t, rest)) : t.Lexable := by
  induction cs with
  | nil => cases h
  | cons c cs ih =>
    rw [next?] at h
    cases hlex : lexeme? c cs with
    | none => exact ih (by simpa [hlex] using h)
    | some found =>
      have hfound : found = (t, rest) := by simpa [hlex] using h
      rw [hfound] at hlex
      exact lexable_of_lexeme? hlex

/-- A text contains lexable tokens only. -/
theorem lexable_of_mem_scan {cs : List Char} {t : Token} (h : t ∈ scan cs) : t.Lexable := by
  fun_induction scan cs with
  | case1 => cases h
  | case2 cs u rest hnext ih =>
    rcases List.mem_cons.mp h with rfl | h
    · exact lexable_of_next? hnext
    · exact ih h

end SegmentQuery.Token
