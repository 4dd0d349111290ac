import SegmentQuery.Token

namespace SegmentQuery.Token

/-- A character that can start a word. -/
def isWordStart (c : Char) : Bool := c.isAlpha || c == '_'

/-- A character that can go on in a word. -/
def isWordChar (c : Char) : Bool := c.isAlphanum || c == '_'

/-- The token of a word. -/
def ofWord (word : String) : Token :=
  match Keyword.ofWord? word with
  | some k => .keyword k
  | none => .identifier word

/-- The digits of a number, with at most one point and the digits after it, and what follows them. -/
def splitNumber (cs : List Char) : List Char × List Char :=
  match cs.dropWhile Char.isDigit with
  | '.' :: rest => (cs.takeWhile Char.isDigit ++ '.' :: rest.takeWhile Char.isDigit, rest.dropWhile Char.isDigit)
  | rest => (cs.takeWhile Char.isDigit, rest)

/-- The token that starts with `c`, and what follows it. A minus sign starts a number only before a digit, and an
exclamation mark stands only before an equals sign. -/
def lexeme? (c : Char) (rest : List Char) : Option (Token × List Char) :=
  match c, rest with
  | '!', '=' :: rest => some (.comparison .ne, rest)
  | '<', '=' :: rest => some (.comparison .le, rest)
  | '>', '=' :: rest => some (.comparison .ge, rest)
  | '=', rest => some (.comparison .eq, rest)
  | '<', rest => some (.comparison .lt, rest)
  | '>', rest => some (.comparison .gt, rest)
  | '(', rest => some (.leftParen, rest)
  | ')', rest => some (.rightParen, rest)
  | ',', rest => some (.comma, rest)
  | '*', rest => some (.star, rest)
  | '\'', rest => some (.string (String.ofList (Text.Quoted.read rest).1), (Text.Quoted.read rest).2)
  | '-', d :: rest =>
    if d.isDigit then
      some (.number (String.ofList ('-' :: (splitNumber (d :: rest)).1)), (splitNumber (d :: rest)).2)
    else none
  | c, rest =>
    if c.isDigit then some (.number (String.ofList (splitNumber (c :: rest)).1), (splitNumber (c :: rest)).2)
    else if isWordStart c then
      some (ofWord (String.ofList (c :: rest.takeWhile isWordChar)), rest.dropWhile isWordChar)
    else none

/-- The next token of a text, and what follows it. -/
def next? : List Char → Option (Token × List Char)
  | [] => none
  | c :: rest => (lexeme? c rest).or (next? rest)

private theorem length_dropWhile_le (p : Char → Bool) (cs : List Char) : (cs.dropWhile p).length ≤ cs.length :=
  (List.dropWhile_suffix p).length_le

private theorem length_splitNumber_le (cs : List Char) : (splitNumber cs).2.length ≤ cs.length := by
  have hrest := length_dropWhile_le Char.isDigit cs
  unfold splitNumber
  split
  · next rest h =>
    have := length_dropWhile_le Char.isDigit rest
    simp only [h, List.length_cons] at hrest
    simp only
    omega
  · exact hrest

private theorem length_splitNumber_lt {c : Char} (hc : c.isDigit = true) (cs : List Char) :
    (splitNumber (c :: cs)).2.length ≤ cs.length := by
  have h : (splitNumber (c :: cs)).2 = (splitNumber cs).2 := by
    simp only [splitNumber, List.dropWhile_cons, hc, if_true]
    split <;> simp_all
  rw [h]
  exact length_splitNumber_le cs

/-- A token takes up at least its first character. -/
theorem length_le_of_lexeme? {c : Char} {rest rest' : List Char} {t : Token}
    (h : lexeme? c rest = some (t, rest')) : rest'.length ≤ rest.length := by
  unfold lexeme? at h
  split at h
  case h_11 =>
    simp only [Option.some.injEq, Prod.mk.injEq] at h
    obtain ⟨-, rfl⟩ := h
    exact Text.Quoted.length_read_le _
  case h_12 d rest =>
    split at h
    · next hd =>
      simp only [Option.some.injEq, Prod.mk.injEq] at h
      obtain ⟨-, rfl⟩ := h
      have := length_splitNumber_lt hd rest
      simp only [List.length_cons]
      omega
    · simp at h
  case h_13 =>
    split at h
    · next hd =>
      simp only [Option.some.injEq, Prod.mk.injEq] at h
      obtain ⟨-, rfl⟩ := h
      exact length_splitNumber_lt hd _
    · split at h
      · simp only [Option.some.injEq, Prod.mk.injEq] at h
        obtain ⟨-, rfl⟩ := h
        exact length_dropWhile_le _ _
      · simp at h
  all_goals
    simp only [Option.some.injEq, Prod.mk.injEq] at h
    obtain ⟨-, rfl⟩ := h
    simp

theorem length_lt_of_next? {cs rest : List Char} {t : Token} (h : next? cs = some (t, rest)) :
    rest.length < cs.length := by
  induction cs with
  | nil => simp [next?] at h
  | cons c cs ih =>
    simp only [next?] at h
    cases hlex : lexeme? c cs with
    | none =>
      have := ih (by simpa [hlex] using h)
      simp only [List.length_cons]
      omega
    | some found =>
      simp only [hlex, Option.some_or, Option.some.injEq] at h
      subst h
      have := length_le_of_lexeme? hlex
      simp only [List.length_cons]
      omega

/-- The tokens of a text. -/
def scan (cs : List Char) : List Token :=
  match _h : next? cs with
  | none => []
  | some (t, rest) => t :: scan rest
termination_by cs.length
decreasing_by exact length_lt_of_next? _h

end SegmentQuery.Token
