import SegmentQuery.Schema

namespace SegmentQuery

namespace Integer

/-- The largest magnitude that a number can have. -/
def largest : Nat := 0x7fffffffffffffff

/-- The magnitude that a run of digits denotes, held at the largest one. -/
def magnitude (cs : List Char) : Nat := min largest (Nat.ofDigitChars 10 (cs.takeWhile Char.isDigit) 0)

/-- A number after its leading blanks. -/
def ofSigned : List Char → Int
  | '-' :: rest => -(magnitude rest : Int)
  | '+' :: rest => magnitude rest
  | cs => magnitude cs

/-- The number at the front of a text: a sign and digits, after any blanks. A text without digits is zero, and a magnitude
above the largest one counts as the largest. -/
def ofText (s : String) : Int := ofSigned (s.toList.dropWhile Text.isBlank)

/-- A number in decimal digits. -/
def text : Int → String
  | .ofNat n => n.repr
  | .negSucc n => "-" ++ (n + 1).repr

theorem magnitude_le (cs : List Char) : magnitude cs ≤ largest := Nat.min_le_left _ _

theorem natAbs_ofSigned_le (cs : List Char) : (ofSigned cs).natAbs ≤ largest := by
  unfold ofSigned
  split <;> simp only [Int.natAbs_neg, Int.natAbs_natCast] <;> exact magnitude_le _

/-- A number never leaves the range between the negated largest magnitude and the largest one. -/
theorem natAbs_ofText_le (s : String) : (ofText s).natAbs ≤ largest := natAbs_ofSigned_le _

end Integer

namespace Ticks

/-- What is shown for a position that is not set. -/
def unset : String := "--:--:--.---"

/-- A tick takes 100 ns. -/
def perMillisecond : Nat := 10000

/-- A clock time. Minutes and seconds are taken as they are written, up to 99. -/
structure Clock where
  hours : Nat
  minutes : Nat
  seconds : Nat
  milliseconds : Nat
  deriving Repr, DecidableEq

/-- A number of decimal digits between `low` and `high`, as long a run as there is, and what follows it. -/
def digits? (low high : Nat) (cs : List Char) : Option (List Char × List Char) :=
  let run := cs.takeWhile Text.isDecimalDigit
  if low ≤ run.length ∧ run.length ≤ high then some (run, cs.dropWhile Text.isDecimalDigit) else none

/-- What follows a sign that has to stand here. -/
def after? (sign : Char) : List Char → Option (List Char)
  | [] => none
  | c :: rest => if c = sign then some rest else none

/-- The fraction of a second, which may be missing, and what follows it. -/
def fraction? : List Char → Option (List Char × List Char)
  | '.' :: rest => digits? 1 3 rest
  | rest => some ([], rest)

/-- The value of one part of a clock time. A part with digits that are not ASCII, or above the largest number, is
zero. -/
def part (digits : List Char) : Nat :=
  let n := Nat.ofDigitChars 10 digits 0
  if digits.all Char.isDigit ∧ n ≤ Integer.largest then n else 0

/-- A fraction of a second in three digits. -/
def padFraction (digits : List Char) : List Char := digits ++ List.replicate (3 - digits.length) '0'

/-- Reads a clock time, with blanks around it. -/
def Clock.read? (cs : List Char) : Option Clock := do
  let cs := cs.dropWhile Text.isBlank
  let (hours, cs) ← digits? 1 cs.length cs
  let cs ← after? ':' cs
  let (minutes, cs) ← digits? 1 2 cs
  let cs ← after? ':' cs
  let (seconds, cs) ← digits? 1 2 cs
  let (fraction, cs) ← fraction? cs
  if cs.all Text.isBlank then
    some ⟨part hours, part minutes, part seconds, part (padFraction fraction)⟩
  else none

/-- The ticks of a clock time, held at the largest number. -/
def ofClock (c : Clock) : Nat :=
  min Integer.largest
    (((c.hours * 3600 + c.minutes * 60 + c.seconds) * 1000 + c.milliseconds) * perMillisecond)

/-- The ticks of a written time; zero for a text that is no clock time. -/
def ofTime (s : String) : Nat := (Clock.read? s.toList).elim 0 ofClock

/-- The clock time of a number of milliseconds. -/
def Clock.ofMilliseconds (ms : Nat) : Clock :=
  ⟨ms / 1000 / 3600, ms / 1000 / 60 % 60, ms / 1000 % 60, ms % 1000⟩

/-- A number in at least `width` digits. -/
def padded (width n : Nat) : List Char :=
  List.replicate (width - (Nat.toDigits 10 n).length) '0' ++ Nat.toDigits 10 n

/-- A clock time in full: hours as long as they are, the other parts in two and three digits. -/
def Clock.text (c : Clock) : List Char :=
  padded 2 c.hours ++ ':' :: padded 2 c.minutes ++ ':' :: padded 2 c.seconds ++ '.' :: padded 3 c.milliseconds

/-- The time that shows a number of ticks, whole milliseconds only. -/
def time (ticks : Int) : String :=
  if ticks ≤ 0 then unset
  else String.ofList (Clock.ofMilliseconds (ticks.toNat / perMillisecond)).text

theorem ofClock_le (c : Clock) : ofClock c ≤ Integer.largest := Nat.min_le_left _ _

end Ticks

namespace Value

/-- The literal of a value, for a field of the given type under the given operator. An empty value is the empty text,
whatever the type. -/
def literal (type : FieldType) (op : Operator) (value : String) : String :=
  if value = "" then "''"
  else match type with
    | .text | .enumerable =>
      if op.isPattern then Text.Quoted.quote ("%" ++ value ++ "%") else Text.Quoted.quote value
    | .integer => Integer.text (Integer.ofText value)
    | .ticks => (Ticks.ofTime value).repr
    | .boolean => if value = "1" then "1" else "0"

/-- A text without the `%` that it starts with. -/
def stripLeading : List Char → List Char
  | '%' :: rest => rest
  | cs => cs

/-- A text without the `%` that it ends with. -/
def stripTrailing (cs : List Char) : List Char := (stripLeading cs.reverse).reverse

/-- A pattern without the one wildcard at its start and the one at its end. -/
def stripWildcards (pattern : String) : String := String.ofList (stripTrailing (stripLeading pattern.toList))

end Value

end SegmentQuery
