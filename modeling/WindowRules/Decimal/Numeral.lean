import WindowRules.Text.Cut

/-!
# Numerals at the start of a text

A text may begin with a decimal numeral and go on with anything. A scan tells at which byte the numeral ends
(`Numeral.extent?`): behind an optional sign, digits with at most one point before, among or after them, and an optional
exponent, which counts only if it has a digit; so it ends behind a digit. The text up to there is cut out and read as a
numeral on its own (`Numeral.ofText?`). The value of a numeral is the binary floating-point number nearest to it
(`Numeral.toFloat`); a text without a numeral at its start has none (`Numeral.leading`).
-/

namespace WindowRules

/-- A decimal numeral. -/
structure Numeral where
  /-- A minus stands in front. -/
  isNegative : Bool
  /-- The digits before the point. -/
  whole : Text
  /-- The digits after the point. -/
  fraction : Text
  /-- The power of ten behind the digits. -/
  exponent : Int
deriving DecidableEq, Repr

namespace Numeral

/-- A decimal digit of ASCII. -/
def isDigit (c : Char) : Bool := '0' ≤ c && c ≤ '9'

/-- The number that a row of digits stands for. -/
def ofDigits (s : Text) : Nat := s.foldl (fun n c => 10 * n + (c.toNat - '0'.toNat)) 0

/-- A sign of a numeral or of an exponent. -/
def isSign (c : Char) : Bool := c == '+' || c == '-'

/-- The mark of an exponent. -/
def isExponentMark (c : Char) : Bool := c == 'e' || c == 'E'

/-! ## Where a numeral ends -/

/-- Passes over a sign: the byte behind it and the rest of the text. -/
def skipSign (place : Nat) : Text → Nat × Text
  | [] => (place, [])
  | c :: s => if isSign c then (place + c.utf8Size, s) else (place, c :: s)

/-- Passes over digits and at most one point: the byte behind the last digit, if there was one, the byte behind all of
them and the rest of the text. -/
def scanMantissa (stop? : Option Nat) (place : Nat) (hasPoint : Bool) : Text → Option Nat × Nat × Text
  | [] => (stop?, place, [])
  | c :: s =>
    if isDigit c then scanMantissa (some (place + 1)) (place + c.utf8Size) hasPoint s
    else if c = '.' ∧ hasPoint = false then scanMantissa stop? (place + c.utf8Size) true s
    else (stop?, place, c :: s)

/-- The byte behind the digits at the start of the text, and without a digit the byte that is given. -/
def scanDigits (stop place : Nat) : Text → Nat
  | [] => stop
  | c :: s => if isDigit c then scanDigits (place + 1) (place + c.utf8Size) s else stop

/-- The byte behind the exponent at the start of the text, and without a mark or a digit the byte that is given. -/
def scanExponent (stop place : Nat) : Text → Nat
  | [] => stop
  | c :: s =>
    if isExponentMark c then
      let (place, s) := skipSign (place + c.utf8Size) s
      scanDigits stop place s
    else stop

/-- The byte behind the numeral at the start of the text, if there is one. -/
def extent? (s : Text) : Option Nat :=
  let (place, s) := skipSign 0 s
  let (stop?, place, s) := scanMantissa none place false s
  stop?.map fun stop => scanExponent stop place s

/-! ## Texts that are numerals -/

/-- Whether a minus stands in front, and what follows the sign if there is one. -/
def readSign : Text → Bool × Text
  | '-' :: s => (true, s)
  | '+' :: s => (false, s)
  | s => (false, s)

/-- The digits behind a point, if the text begins with one, and what follows them. -/
def readFraction : Text → Text × Text
  | '.' :: s => (s.takeWhile isDigit, s.dropWhile isDigit)
  | s => ([], s)

/-- The exponent that the text is; no text at all is zero. -/
def exponentOfText? : Text → Option Int
  | [] => some 0
  | c :: s =>
    let (isNegative, digits) := readSign s
    if isExponentMark c ∧ digits ≠ [] ∧ digits.all isDigit then
      some (if isNegative then -(ofDigits digits : Int) else ofDigits digits)
    else none

/-- The numeral that the text is. -/
def ofText? (s : Text) : Option Numeral :=
  let (isNegative, s) := readSign s
  let whole := s.takeWhile isDigit
  let (fraction, rest) := readFraction (s.dropWhile isDigit)
  if whole = [] ∧ fraction = [] then none
  else (exponentOfText? rest).map fun exponent => ⟨isNegative, whole, fraction, exponent⟩

/-- The numeral that the text begins with. -/
def read? (s : Text) : Option Numeral := do
  let stop ← extent? s
  let taken ← Text.takeBytes? stop s
  ofText? taken

/-! ## The value of a numeral -/

/-- The digits of the numeral without the zeros in front. -/
def significant (n : Numeral) : Text := (n.whole ++ n.fraction).dropWhile (· == '0')

/-- The power of ten of the last digit. -/
def lastPlace (n : Numeral) : Int := n.exponent - n.fraction.length

/-- The size of the numeral, rounded to the nearest binary floating-point number. Above `10 ^ 309` it is infinite and
below `10 ^ -324` it is zero, whatever the digits are; so the power of ten that is computed stays small. -/
def magnitude (n : Numeral) : Float :=
  let top : Int := n.significant.length + n.lastPlace
  if n.significant = [] ∨ top < -323 then 0.0
  else if 309 < top then 1.0 / 0.0
  else Float.ofScientific (ofDigits n.significant) (n.lastPlace < 0) n.lastPlace.natAbs

/-- The binary floating-point number nearest to the numeral; zero keeps its sign. -/
def toFloat (n : Numeral) : Float := if n.isNegative then -n.magnitude else n.magnitude

/-- The value of the numeral that the text begins with, after blanks; without a numeral it is NaN. -/
def leading (s : Text) : Float :=
  match read? (Text.trimStart s) with
  | some number => number.toFloat
  | none => 0.0 / 0.0

end Numeral
end WindowRules
