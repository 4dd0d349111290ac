import SegmentQuery.Json.Failure

namespace SegmentQuery.Json.Quoted

/-- The characters that stand for one character of a string. -/
def escaped (c : Char) : List Char :=
  match c with
  | '"' => ['\\', '"']
  | '\\' => ['\\', '\\']
  | '\n' => ['\\', 'n']
  | '\t' => ['\\', 't']
  | '\r' => ['\\', 'r']
  | '\x08' => ['\\', 'b']
  | '\x0c' => ['\\', 'f']
  | c =>
    if c.toNat < 0x20 then ['\\', 'u', '0', '0', Nat.digitChar (c.toNat / 16), Nat.digitChar (c.toNat % 16)] else [c]

/-- A string as it is written, with its quotation marks. -/
def encode (s : String) : List Char := '"' :: s.toList.flatMap escaped ++ ['"']

/-- The value of a hexadecimal digit. -/
def hexValue? (c : Char) : Option Nat :=
  if c.isDigit then some (c.toNat - '0'.toNat)
  else if 'a' ≤ c ∧ c ≤ 'f' then some (c.toNat - 'a'.toNat + 10)
  else if 'A' ≤ c ∧ c ≤ 'F' then some (c.toNat - 'A'.toNat + 10)
  else none

/-- A number of four hexadecimal digits. What is too short for them is measured in bytes of UTF-8. -/
def codeUnit : List Char → Read Nat
  | a :: b :: c :: d :: rest =>
    match hexValue? a, hexValue? b, hexValue? c, hexValue? d with
    | some a, some b, some c, some d => .ok (((a * 16 + b) * 16 + c) * 16 + d, rest)
    | _, _, _, _ => .error .malformed
  | cs => if (String.ofList cs).utf8ByteSize < 4 then .error .cutShort else .error .malformed

/-- A sign that has to stand right here. -/
def sign (c : Char) : List Char → Read Unit
  | [] => .error .cutShort
  | d :: rest => if d = c then .ok ((), rest) else .error .malformed

def isLeading (unit : Nat) : Bool := 0xd800 ≤ unit && unit < 0xdc00

def isTrailing (unit : Nat) : Bool := 0xdc00 ≤ unit && unit < 0xe000

/-- The character of two surrogates. -/
def paired (leading trailing : Nat) : Char :=
  Char.ofNat (0x10000 + (leading - 0xd800) * 0x400 + (trailing - 0xdc00))

/-- The character of a leading surrogate and the trailing one that has to follow it. -/
def partner (leading : Nat) (cs : List Char) : Read Char :=
  (sign '\\' cs).andThen fun _ cs => (sign 'u' cs).andThen fun _ cs => (codeUnit cs).andThen fun trailing cs =>
    if isTrailing trailing then .ok (paired leading trailing, cs) else .error .malformed

/-- The character of an escape by number. In a string that is passed over, surrogates stand for any character. -/
def numbered (care : Care) (cs : List Char) : Read Char :=
  (codeUnit cs).andThen fun unit cs =>
    if care = .kept ∧ isLeading unit then partner unit cs
    else if care = .kept ∧ isTrailing unit then .error .malformed
    else .ok (Char.ofNat unit, cs)

/-- The character of an escape by letter. -/
def lettered? : Char → Option Char
  | '"' => some '"'
  | '\\' => some '\\'
  | '/' => some '/'
  | 'b' => some '\x08'
  | 'f' => some '\x0c'
  | 'n' => some '\n'
  | 'r' => some '\r'
  | 't' => some '\t'
  | _ => none

/-- The character of an escape, after its backslash. -/
def escape (care : Care) : List Char → Read Char
  | [] => .error .cutShort
  | c :: cs =>
    if c = 'u' then numbered care cs
    else match lettered? c with
      | some c => .ok (c, cs)
      | none => .error .malformed

theorem within_codeUnit (cs : List Char) : (codeUnit cs).Within cs.length := by
  unfold codeUnit
  split
  · split
    · exact .ok (by simp only [List.length_cons]; omega)
    · exact .error _
  · split <;> exact .error _

theorem within_sign (c : Char) (cs : List Char) : (sign c cs).Within cs.length := by
  unfold sign
  split
  · exact .error _
  · split
    · exact .ok (by simp)
    · exact .error _

theorem within_partner (leading : Nat) (cs : List Char) : (partner leading cs).Within cs.length :=
  (within_sign _ cs).andThen fun _ cs₁ h₁ => ((within_sign _ cs₁).mono h₁).andThen fun _ cs₂ h₂ =>
    ((within_codeUnit cs₂).mono h₂).andThen fun _ _ h₃ => by
      split
      · exact .ok h₃
      · exact .error _

theorem within_numbered (care : Care) (cs : List Char) : (numbered care cs).Within cs.length :=
  (within_codeUnit cs).andThen fun _ cs₁ h₁ => by
    split
    · exact (within_partner _ cs₁).mono h₁
    · split
      · exact .error _
      · exact .ok h₁

theorem within_escape (care : Care) (cs : List Char) : (escape care cs).Within cs.length := by
  unfold escape
  split
  · exact .error _
  · split
    · exact (within_numbered care _).mono (by simp)
    · split
      · exact .ok (by simp)
      · exact .error _

/-- The characters of a string, after its opening quotation mark. -/
def read (care : Care) : List Char → Read (List Char)
  | [] => .error .cutShort
  | c :: cs =>
    if c = '"' then .ok ([], cs)
    else if c = '\\' then
      match _h : escape care cs with
      | .error e => .error e
      | .ok (c, rest) => (read care rest).withValue (c :: ·)
    else if c.toNat < 0x20 then .error .malformed
    else (read care cs).withValue (c :: ·)
termination_by cs => cs.length
decreasing_by
  · have := within_escape _ _ _ _ _h
    simp only [List.length_cons]
    omega
  · simp

theorem within_read (care : Care) (cs : List Char) : (read care cs).Within cs.length := by
  fun_induction read care cs with
  | case1 => exact .error _
  | case2 => exact .ok (by simp)
  | case3 => exact .error _
  | case4 cs c rest h _ ih =>
    have := within_escape _ _ _ _ h
    exact ih.withValue.mono (by simp only [List.length_cons]; omega)
  | case5 => exact .error _
  | case6 _ _ _ _ _ ih => exact ih.withValue.mono (by simp)

end SegmentQuery.Json.Quoted
