import SegmentQuery.Json.Basic
import SegmentQuery.Json.Failure

namespace SegmentQuery

namespace Numeral

/-- The digits of a number, with its signs. -/
def text (n : Numeral) : List Char :=
  (if n.negative then ['-'] else []) ++ n.whole ++ (n.fraction.map ('.' :: ·)).getD [] ++
    (n.exponent.map fun (negative, digits) => 'e' :: ((if negative then ['-'] else []) ++ digits)).getD []

/-- The value of a number without sign, fraction and power of ten, if it has at most 64 bits. -/
def natural? (n : Numeral) : Option UInt64 :=
  let value := Nat.ofDigitChars 10 n.whole 0
  if n.negative = false ∧ n.fraction = none ∧ n.exponent = none ∧ value < UInt64.size then some (UInt64.ofNat value)
  else none

/-- Takes digits up behind a number for as long as it has at most 64 bits, and leaves the others. -/
def extend (value : Nat) : List Char → Nat × List Char
  | [] => (value, [])
  | d :: ds =>
    let longer := value * 10 + (d.toNat - '0'.toNat)
    if longer < UInt64.size then extend longer ds else (value, d :: ds)

/-- The magnitude of a number, as a number of at most 64 bits times a power of ten. Digits of the whole part for which
there is no room count as zeros, those of the fraction not at all. -/
def scientific (n : Numeral) : Nat × Int :=
  let fraction := n.fraction.getD []
  let (significand, dropped) := extend 0 n.whole
  let (significand, ignored) := extend significand fraction
  let exponent : Int := match n.exponent with
    | none => 0
    | some (true, digits) => -(Nat.ofDigitChars 10 digits 0 : Int)
    | some (false, digits) => Nat.ofDigitChars 10 digits 0
  (significand, dropped.length - (fraction.length - ignored.length) + exponent)

/-- The largest power of ten that is a double. -/
def largestPower : Nat := 308

/-- A number times a power of ten is a finite double. -/
def isFinite (significand : Nat) (power : Nat) : Bool :=
  significand = 0 ||
    (power ≤ largestPower && (significand.toFloat * Float.ofScientific 1 false power).isFinite)

/-- A number is in range if its magnitude is a finite double. -/
def isInRange (n : Numeral) : Bool :=
  match n.scientific with
  | (significand, .ofNat power) => isFinite significand power
  | (_, .negSucc _) => true

end Numeral

namespace Json

/-- The value of a number. -/
def ofNumeral (n : Numeral) : Json :=
  match n.natural? with
  | some value => natural value
  | none => numeral n

end Json

namespace Numeral

open Json

/-- How a number ends that needs a further digit. In a value that is passed over, its end is no end of the text. -/
def cut : Care → Failure
  | .kept => .cutShort
  | .skipped => .malformed

/-- One digit or more. -/
def digits (care : Care) (cs : List Char) : Read (List Char) :=
  match cs.takeWhile Char.isDigit with
  | [] => .error (if cs.isEmpty then cut care else .malformed)
  | d :: ds => .ok (d :: ds, cs.dropWhile Char.isDigit)

/-- The digits before the point. A zero is not followed by further digits. -/
def wholeDigits (care : Care) (cs : List Char) : Read (List Char) :=
  (digits care cs).andThen fun ds rest =>
    match ds with
    | '0' :: _ :: _ => .error .malformed
    | ds => .ok (ds, rest)

/-- The fraction, which may be missing. -/
def fractionPart (care : Care) : List Char → Read (Option (List Char))
  | '.' :: cs => (digits care cs).withValue some
  | cs => .ok (none, cs)

/-- A sign, which may be missing: whether it is a minus. -/
def exponentSign : List Char → Bool × List Char
  | '-' :: cs => (true, cs)
  | '+' :: cs => (false, cs)
  | cs => (false, cs)

/-- The power of ten, which may be missing. -/
def exponentPart (care : Care) : List Char → Read (Option (Bool × List Char))
  | c :: cs =>
    if c = 'e' ∨ c = 'E' then
      (digits care (exponentSign cs).2).withValue fun ds => some ((exponentSign cs).1, ds)
    else .ok (none, c :: cs)
  | [] => .ok (none, [])

/-- A number after its sign. -/
def readUnsigned (care : Care) (negative : Bool) (cs : List Char) : Read Numeral :=
  (wholeDigits care cs).andThen fun whole cs => (fractionPart care cs).andThen fun fraction cs =>
    (exponentPart care cs).withValue fun exponent => ⟨negative, whole, fraction, exponent⟩

/-- A number. -/
def readSigned (care : Care) : List Char → Read Numeral
  | '-' :: cs => readUnsigned care true cs
  | cs => readUnsigned care false cs

/-- A number as a JSON value. One that is needed has to be in range. -/
def read (care : Care) (cs : List Char) : Read Json :=
  (readSigned care cs).andThen fun n cs =>
    if care = .skipped ∨ n.natural?.isSome ∨ n.isInRange then .ok (.ofNumeral n, cs) else .error .malformed

theorem length_lt_of_digits {care : Care} {cs ds rest : List Char} (h : digits care cs = .ok (ds, rest)) :
    rest.length < cs.length := by
  have hsplit : (cs.takeWhile Char.isDigit).length + (cs.dropWhile Char.isDigit).length = cs.length := by
    rw [← List.length_append, List.takeWhile_append_dropWhile]
  unfold digits at h
  split at h
  · cases h
  · next heq =>
    cases h
    rw [heq] at hsplit
    simp only [List.length_cons] at hsplit
    omega

theorem within_digits (care : Care) (cs : List Char) : (digits care cs).Within cs.length :=
  fun _ _ h => Nat.le_of_lt (length_lt_of_digits h)

theorem within_fractionPart (care : Care) (cs : List Char) : (fractionPart care cs).Within cs.length := by
  unfold fractionPart
  split
  · exact (within_digits care _).withValue.mono (by simp)
  · exact .ok (Nat.le_refl _)

theorem length_exponentSign_le (cs : List Char) : (exponentSign cs).2.length ≤ cs.length := by
  unfold exponentSign
  split <;> simp

theorem within_exponentPart (care : Care) (cs : List Char) : (exponentPart care cs).Within cs.length := by
  unfold exponentPart
  split
  · next c cs =>
    split
    · have := length_exponentSign_le cs
      exact (within_digits care _).withValue.mono (by simp only [List.length_cons]; omega)
    · exact .ok (Nat.le_refl _)
  · exact .ok (Nat.le_refl _)

theorem length_lt_of_readUnsigned {care : Care} {negative : Bool} {cs rest : List Char} {n : Numeral}
    (h : readUnsigned care negative cs = .ok (n, rest)) : rest.length < cs.length := by
  cases hdigits : digits care cs with
  | error e => simp [readUnsigned, wholeDigits, Read.andThen, hdigits] at h
  | ok p =>
    obtain ⟨ds, after⟩ := p
    have hlt := length_lt_of_digits hdigits
    have hwithin : (readUnsigned care negative cs).Within after.length := by
      have hwhole : (wholeDigits care cs).Within after.length := by
        simp only [wholeDigits, hdigits, Read.andThen]
        split
        · exact .error _
        · exact .ok (Nat.le_refl _)
      exact hwhole.andThen fun _ cs₁ h₁ => ((within_fractionPart care cs₁).mono h₁).andThen fun _ cs₂ h₂ =>
        ((within_exponentPart care cs₂).mono h₂).withValue
    have := hwithin _ _ h
    omega

/-- A number takes up at least one character. -/
theorem length_lt_of_read {care : Care} {cs rest : List Char} {j : Json}
    (h : read care cs = .ok (j, rest)) : rest.length < cs.length := by
  unfold read at h
  cases hsigned : readSigned care cs with
  | error e => simp [hsigned, Read.andThen] at h
  | ok p =>
    simp only [hsigned, Read.andThen] at h
    split at h <;> cases h
    unfold readSigned at hsigned
    split at hsigned
    · have := length_lt_of_readUnsigned hsigned
      simp only [List.length_cons]
      omega
    · exact length_lt_of_readUnsigned hsigned

end Numeral

end SegmentQuery
