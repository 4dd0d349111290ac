import Mathlib.Algebra.Group.Nat.Even
import SegmentQuery.Proofs.Token.Lexable

namespace SegmentQuery

private theorem head?_ne_of_forall {rest : List Char} {d : Char} (h : ∀ tail, rest = d :: tail → False) :
    rest.head? ≠ some d := by
  intro hhead
  obtain ⟨tail, htail⟩ := List.head?_eq_some_iff.mp hhead
  exact h tail htail

namespace Text.Quoted

/-- A quoted text ends at the first quote that is not written twice, or else where everything ends. -/
theorem read_cases (cs : List Char) :
    (cs = double (read cs).1 ++ '\'' :: (read cs).2 ∧ (read cs).2.head? ≠ some '\'') ∨
      (cs = double (read cs).1 ∧ (read cs).2 = []) := by
  fun_induction read cs with
  | case1 => exact .inr ⟨rfl, rfl⟩
  | case2 rest ih => simpa [double] using ih
  | case3 rest hrest => exact .inl ⟨rfl, head?_ne_of_forall hrest⟩
  | case4 c rest _ hc ih =>
    simpa [double, show c ≠ '\'' from hc] using ih

/-- A text that is not closed reads back too. -/
theorem read_double (s : List Char) : read (double s) = (s, []) := by
  induction s with
  | nil => rfl
  | cons c s ih =>
    by_cases hc : c = '\''
    · simp [double, hc, read, ih]
    · simp only [double, hc, if_false]
      rw [read.eq_4 _ _ (by simp_all) (by simp_all), ih]

theorem even_count_double (s : List Char) : Even ((double s).count '\'') := by
  induction s with
  | nil => exact ⟨0, rfl⟩
  | cons c s ih =>
    by_cases hc : c = '\''
    · simpa [double, hc, Nat.even_add_one] using ih
    · simpa [double, hc] using ih

end Text.Quoted

namespace Token

/-- A character that can start a token, if what follows it is right. -/
def canStart (c : Char) : Bool :=
  isWordStart c || c.isDigit || ['=', '<', '>', '(', ')', ',', '*', '\'', '-', '!'].contains c

/-- A character that belongs to no token, in front of the text that follows it. -/
inductive Skipped : Char → List Char → Prop where
  | blank {c : Char} {rest : List Char} (h : Text.isBlank c = true) : Skipped c rest
  | foreign {c : Char} {rest : List Char} (h : canStart c = false) : Skipped c rest
  | minus {rest : List Char} (h : ∀ d ∈ rest.head?, d.isDigit = false) : Skipped '-' rest
  | exclamation {rest : List Char} (h : rest.head? ≠ some '=') : Skipped '!' rest

/-- The characters of a token as it is written in front of a text that does not go on with it. -/
inductive IsLexeme : Token → List Char → List Char → Prop where
  | word {c : Char} {cs rest : List Char} (hstart : isWordStart c = true) (hcs : cs.all isWordChar = true)
      (hend : ∀ d ∈ rest.head?, isWordChar d = false) : IsLexeme (ofWord (String.ofList (c :: cs))) (c :: cs) rest
  | number {cs rest : List Char} (h : IsNumeral cs)
      (hend : ∀ d ∈ rest.head?, d.isDigit = false ∧ (d = '.' → '.' ∈ cs)) :
      IsLexeme (.number (String.ofList cs)) cs rest
  | closed {content : String} {rest : List Char} (hend : rest.head? ≠ some '\'') :
      IsLexeme (.string content) (Text.Quoted.encode content) rest
  /-- A text that is not closed runs to the end. -/
  | unclosed {content : String} : IsLexeme (.string content) ('\'' :: Text.Quoted.double content.toList) []
  | comparison {c : Comparison} {rest : List Char} (hend : c = .lt ∨ c = .gt → rest.head? ≠ some '=') :
      IsLexeme (.comparison c) c.text.toList rest
  | delimiter {t : Token} {rest : List Char} (ht : t ∈ [leftParen, rightParen, comma, star]) :
      IsLexeme t t.display.toList rest

/-- A text is cut up into skipped characters and the lexemes of tokens. -/
inductive Tiles : List Char → List Token → Prop where
  | nil : Tiles [] []
  | skip {c : Char} {rest : List Char} {ts : List Token} (h : Skipped c rest) (htail : Tiles rest ts) :
      Tiles (c :: rest) ts
  | lexeme {t : Token} {cs rest : List Char} {ts : List Token} (h : IsLexeme t cs rest) (htail : Tiles rest ts) :
      Tiles (cs ++ rest) (t :: ts)

theorem IsLexeme.ne_nil {t : Token} {cs rest : List Char} (h : IsLexeme t cs rest) : cs ≠ [] := by
  cases h with
  | word => simp
  | number h =>
    cases h with
    | unsigned h =>
      obtain ⟨c, tail, rfl, -⟩ := h.exists_cons
      simp
    | negative => simp
  | closed => simp [Text.Quoted.encode]
  | unclosed => simp
  | @comparison c => cases c <;> simp [Comparison.text]
  | delimiter ht =>
    simp only [List.mem_cons, List.not_mem_nil, or_false] at ht
    rcases ht with rfl | rfl | rfl | rfl <;> simp [display]

/-- No number is lost when it is split off. -/
theorem splitNumber_fst_append_snd (cs : List Char) : (splitNumber cs).1 ++ (splitNumber cs).2 = cs := by
  have hsplit := List.takeWhile_append_dropWhile (p := Char.isDigit) (l := cs)
  unfold splitNumber
  split
  · next rest hrest =>
    rw [hrest] at hsplit
    simp [hsplit]
  · exact hsplit

theorem head?_dropWhile {p : Char → Bool} {cs : List Char} {c : Char} (h : c ∈ (cs.dropWhile p).head?) :
    p c = false := by
  have hnot := List.head?_dropWhile_not p cs
  rw [Option.mem_def.mp h] at hnot
  simpa using hnot

/-- What is split off as a number goes on as long as it can. -/
theorem splitNumber_ends (cs : List Char) :
    ∀ d ∈ (splitNumber cs).2.head?, d.isDigit = false ∧ (d = '.' → '.' ∈ (splitNumber cs).1) := by
  intro d hd
  unfold splitNumber at hd ⊢
  split at hd
  · next rest hrest =>
    exact ⟨head?_dropWhile hd, fun _ => by simp⟩
  · next hpoint =>
    refine ⟨head?_dropWhile hd, ?_⟩
    rintro rfl
    obtain ⟨tail, htail⟩ := List.head?_eq_some_iff.mp hd
    exact absurd htail (hpoint tail)

theorem isLexeme_of_lexeme? {c : Char} {rest after : List Char} {t : Token} (h : lexeme? c rest = some (t, after)) :
    ∃ cs, c :: rest = cs ++ after ∧ IsLexeme t cs after := by
  unfold lexeme? at h
  split at h
  case h_12 d rest =>
    split at h
    · next hd =>
      cases h
      refine ⟨'-' :: (splitNumber (d :: rest)).1, by rw [List.cons_append, splitNumber_fst_append_snd], ?_⟩
      refine .number (.negative (isUnsigned_splitNumber hd rest)) fun e he => ?_
      obtain ⟨hdigit, hpoint⟩ := splitNumber_ends (d :: rest) e he
      exact ⟨hdigit, fun heq => List.mem_cons_of_mem _ (hpoint heq)⟩
    · cases h
  case h_13 =>
    split at h
    · next hc =>
      cases h
      exact ⟨_, (splitNumber_fst_append_snd (c :: rest)).symm,
        .number (.unsigned (isUnsigned_splitNumber hc rest)) (splitNumber_ends (c :: rest))⟩
    · split at h
      · next hc =>
        cases h
        refine ⟨c :: rest.takeWhile isWordChar, by simp, ?_⟩
        exact .word hc List.all_takeWhile fun d hd => head?_dropWhile hd
      · cases h
  case h_11 =>
    cases h
    rcases Text.Quoted.read_cases rest with ⟨hrest, hend⟩ | ⟨hrest, hend⟩
    · exact ⟨Text.Quoted.encode (String.ofList (Text.Quoted.read rest).1),
        by simpa [Text.Quoted.encode] using hrest, .closed hend⟩
    · refine ⟨'\'' :: (Text.Quoted.double (String.ofList (Text.Quoted.read rest).1).toList), ?_, ?_⟩
      · simpa [hend] using hrest
      · rw [hend]
        exact .unclosed
  case h_5 hnext =>
    cases h
    exact ⟨_, rfl, .comparison (c := .lt) fun _ => head?_ne_of_forall hnext⟩
  case h_6 hnext =>
    cases h
    exact ⟨_, rfl, .comparison (c := .gt) fun _ => head?_ne_of_forall hnext⟩
  case h_1 | h_2 | h_3 | h_4 =>
    cases h
    exact ⟨_, rfl, .comparison (by simp)⟩
  case h_7 | h_8 | h_9 | h_10 =>
    cases h
    exact ⟨_, rfl, .delimiter (by simp)⟩

/-- A character that starts no token is skipped. -/
theorem skipped_of_lexeme? {c : Char} {rest : List Char} (h : lexeme? c rest = none) : Skipped c rest := by
  unfold lexeme? at h
  split at h
  case h_12 d rest =>
    split at h
    · cases h
    · next hd => exact .minus (by simpa using hd)
  case h_13 heq hlt hgt hleft hright hcomma hstar hquote hne _ _ hminus =>
    split at h
    · cases h
    · next hdigit =>
      split at h
      · cases h
      · next hstart =>
        by_cases hc : c = '-'
        · subst hc
          cases rest with
          | nil => exact .minus (by simp)
          | cons d rest => exact (hminus d rest rfl rfl).elim
        · by_cases hc' : c = '!'
          · subst hc'
            exact .exclamation (head?_ne_of_forall fun tail htail => hne tail rfl htail)
          · refine .foreign ?_
            simp_all [canStart]
  all_goals cases h

theorem lexeme?_of_skipped {c : Char} {rest : List Char} (h : Skipped c rest) : lexeme? c rest = none := by
  cases h with
  | blank h => exact lexeme?_of_isBlank h rest
  | foreign h =>
    unfold lexeme?
    split <;> first | exact absurd h (by decide) | simp_all [canStart]
  | minus h =>
    cases rest with
    | nil => rfl
    | cons d rest => simp_all [lexeme?]
  | exclamation h =>
    unfold lexeme?
    split <;> simp_all
    decide

theorem next?_of_isLexeme {t : Token} {cs rest : List Char} (h : IsLexeme t cs rest) :
    next? (cs ++ rest) = some (t, rest) := by
  cases h with
  | word hstart hcs hend => exact next?_word hstart hcs hend
  | number h hend => exact next?_numeral h hend
  | @closed content _ hend => simpa [Text.Quoted.quote] using next?_quoted content hend
  | unclosed => simp [next?, lexeme?, Text.Quoted.read_double]
  | @comparison c _ hend =>
    refine next?_display (t := .comparison c) trivial ?_
    cases c <;> first | exact hend (.inl rfl) | exact hend (.inr rfl) | trivial
  | delimiter ht =>
    simp only [List.mem_cons, List.not_mem_nil, or_false] at ht
    rcases ht with rfl | rfl | rfl | rfl <;> rfl

theorem scan_of_skipped {c : Char} {rest : List Char} (h : Skipped c rest) : scan (c :: rest) = scan rest := by
  have hnext : next? (c :: rest) = next? rest := by simp [next?, lexeme?_of_skipped h]
  cases hrest : next? rest with
  | none => rw [scan, scan, hnext, hrest]
  | some found => rw [scan_of_next? (hnext.trans hrest), scan_of_next? hrest]

/-- A text up to the end of its next token. -/
theorem tiles_of_next? {cs rest : List Char} {t : Token} {ts : List Token} (h : next? cs = some (t, rest))
    (htail : Tiles rest ts) : Tiles cs (t :: ts) := by
  induction cs with
  | nil => cases h
  | cons c cs ih =>
    rw [next?] at h
    cases hlex : lexeme? c cs with
    | none =>
      rw [hlex, Option.none_or] at h
      exact .skip (skipped_of_lexeme? hlex) (ih h)
    | some found =>
      have hfound : found = (t, rest) := by simpa [hlex] using h
      rw [hfound] at hlex
      obtain ⟨lexeme, heq, hlexeme⟩ := isLexeme_of_lexeme? hlex
      rw [heq]
      exact .lexeme hlexeme htail

theorem tiles_of_next?_eq_none {cs : List Char} (h : next? cs = none) : Tiles cs [] := by
  induction cs with
  | nil => exact .nil
  | cons c cs ih =>
    rw [next?, Option.or_eq_none_iff] at h
    exact .skip (skipped_of_lexeme? h.1) (ih h.2)

/-- Scanning finds a way to cut up a text. -/
theorem tiles_scan (cs : List Char) : Tiles cs (scan cs) := by
  fun_induction scan cs with
  | case1 cs hnext => exact tiles_of_next?_eq_none hnext
  | case2 cs t rest hnext ih => exact tiles_of_next? hnext ih

/-- There is no other way to cut up a text. -/
theorem Tiles.scan_eq {cs : List Char} {ts : List Token} (h : Tiles cs ts) : scan cs = ts := by
  induction h with
  | nil => exact scan_nil
  | skip h _ ih => rw [scan_of_skipped h, ih]
  | lexeme h _ ih => rw [scan_of_next? (next?_of_isLexeme h), ih]

theorem Tiles.length_le {cs : List Char} {ts : List Token} (h : Tiles cs ts) : ts.length ≤ cs.length := by
  induction h with
  | nil => exact Nat.le_refl _
  | skip _ _ ih =>
    rw [List.length_cons]
    omega
  | lexeme h _ ih =>
    have hpositive := List.length_pos_iff.mpr h.ne_nil
    rw [List.length_append, List.length_cons]
    omega

/-- Asks for the next token of a text: the token, or nothing at the end, and the text that is left. -/
def ask (cs : List Char) : Option Token × List Char :=
  match next? cs with
  | some (t, rest) => (some t, rest)
  | none => (none, [])

/-- The answer to a question for the next token, after a number of other questions. -/
def answer : Nat → List Char → Option Token
  | 0, cs => (ask cs).1
  | n + 1, cs => answer n (ask cs).2

theorem answer_nil (n : Nat) : answer n [] = none := by
  induction n with
  | zero => rfl
  | succ n ih => exact ih

/-- The answers are the tokens of a text one after the other, and nothing forever after. -/
theorem answer_eq (n : Nat) (cs : List Char) : answer n cs = (scan cs)[n]? := by
  induction n generalizing cs with
  | zero =>
    cases hnext : next? cs with
    | none => rw [answer, ask, hnext, (tiles_of_next?_eq_none hnext).scan_eq, List.getElem?_nil]
    | some found => rw [answer, ask, hnext, scan_of_next? hnext, List.getElem?_cons_zero]
  | succ n ih =>
    cases hnext : next? cs with
    | none => rw [answer, ask, hnext, (tiles_of_next?_eq_none hnext).scan_eq, List.getElem?_nil, answer_nil]
    | some found => rw [answer, ask, hnext, scan_of_next? hnext, List.getElem?_cons_succ, ih]

/-- There is exactly one way to cut up a text into the lexemes of tokens and skipped characters, and its tokens are
those that scanning gives, one for each question. There are at most as many tokens as characters, and every question
after the last token is answered by nothing. -/
theorem tiles_iff_scan (cs : List Char) :
    (∀ ts, Tiles cs ts ↔ ts = scan cs) ∧ (scan cs).length ≤ cs.length ∧ (∀ n, answer n cs = (scan cs)[n]?) ∧
      ∀ n m, n ≤ m → answer n cs = none → answer m cs = none := by
  refine ⟨fun ts => ⟨fun h => h.scan_eq.symm, ?_⟩, (tiles_scan cs).length_le, fun n => answer_eq n cs, ?_⟩
  · rintro rfl
    exact tiles_scan cs
  · intro n m hle hnone
    rw [answer_eq, List.getElem?_eq_none_iff] at hnone ⊢
    exact Nat.le_trans hnone hle

/-- A sign without its second half, a second point, a doubled quote, and a quoted text that is never closed. -/
theorem tiles_iff_scan_of_unclosed :
    Tiles "x!-1.5.'it''s ".toList [.identifier "x", .number "-1.5", .string "it's "] :=
  ((tiles_iff_scan _).1 _).mpr (by decide +kernel)

end Token

end SegmentQuery
