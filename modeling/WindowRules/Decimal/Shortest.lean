import WindowRules.Text.Cut

/-!
# Shortest decimals

The text of a binary floating-point number is the shortest decimal that reads back as the number, written out in full
without an exponent (`Decimal.text`).

A finite number is `m * 2 ^ q` for integers `m` and `q`, and the reals that round to it form an interval around it.
Grids of decimals are tried from the coarsest one on; on each grid only the two neighbours of the number can be the
nearest ones that read back, so they alone are tested (`Binary.nearest?`). The first grid with a hit gives the fewest
digits, of two hits the nearer one is taken, and of two hits at the same distance the greater one.
-/

namespace WindowRules

/-- A positive number `mantissa * 2 ^ exponent` as it is stored in 64 bits. -/
structure Binary where
  /-- The integer before the power of two. -/
  mantissa : Nat
  /-- The power of two. -/
  exponent : Int
  /-- The next smaller stored number is half as far away as the next greater one. -/
  narrowBelow : Bool

/-- A number `digits * 10 ^ exponent`. -/
structure Decimal where
  /-- The integer before the power of ten. -/
  digits : Nat
  /-- The power of ten. -/
  exponent : Int
deriving DecidableEq, Repr

namespace Binary

/-! The distances are measured in quarters of the last binary place: the number is `4 * mantissa` of them. -/

/-- The lower end of the interval that rounds to the number, in quarters. -/
def lowerEnd (x : Binary) : Nat := 4 * x.mantissa - if x.narrowBelow then 1 else 2

/-- The upper end of the interval that rounds to the number, in quarters. -/
def upperEnd (x : Binary) : Nat := 4 * x.mantissa + 2

/-- A factor for quarters: `n` quarters and `d` steps of the grid `10 ^ k` compare like `n * quarter` and `d * step`. -/
def quarter (x : Binary) (k : Int) : Nat := Nat.pow 2 (x.exponent - 2).toNat * Nat.pow 10 (-k).toNat

/-- The factor for steps of the grid `10 ^ k`, beside `quarter`. -/
def step (x : Binary) (k : Int) : Nat := Nat.pow 2 (2 - x.exponent).toNat * Nat.pow 10 k.toNat

/-- Whether `d * 10 ^ k` rounds to the number; an end of the interval does so if the mantissa is even. -/
def readsBack (x : Binary) (k : Int) (d : Nat) : Bool :=
  let low := x.lowerEnd * x.quarter k
  let high := x.upperEnd * x.quarter k
  let here := d * x.step k
  if x.mantissa % 2 = 0 then low ≤ here && here ≤ high else low < here && here < high

/-- The decimal on the grid `10 ^ k` that rounds to the number and is nearest to it; the greater one of two. -/
def nearest? (x : Binary) (k : Int) : Option Nat :=
  let exact := 4 * x.mantissa * x.quarter k
  let below := exact / x.step k
  match x.readsBack k below, x.readsBack k (below + 1) with
  | true, true => if exact - below * x.step k < (below + 1) * x.step k - exact then some below else some (below + 1)
  | true, false => some below
  | false, true => some (below + 1)
  | false, false => none

/-- The grids in question, coarsest first. No stored number is above `10 ^ 309`, and the interval around each is wider
than `10 ^ -324`. -/
def grids : List Int := (List.range 634).map fun (n : Nat) => 309 - (n : Int)

/-- The decimal with the fewest digits that rounds to the number. -/
def shortest (x : Binary) : Decimal := (grids.findSome? fun k => (x.nearest? k).map (⟨·, k⟩)).getD ⟨0, 0⟩

end Binary

namespace Decimal

/-- The decimal written out, with a point only before places after it. -/
def positional (x : Decimal) : Text :=
  let digits := Nat.toDigits 10 x.digits
  let places := (-x.exponent).toNat
  if 0 ≤ x.exponent then digits ++ List.replicate x.exponent.toNat '0'
  else if places < digits.length then
    digits.take (digits.length - places) ++ '.' :: digits.drop (digits.length - places)
  else '0' :: '.' :: List.replicate (places - digits.length) '0' ++ digits

/-- The text of a stored number without its sign, from the two fields of its bits. -/
def magnitudeText (exponent fraction : Nat) : Text :=
  if exponent = 2047 then "inf".toList
  else if exponent = 0 ∧ fraction = 0 then ['0']
  else if exponent = 0 then (Binary.shortest ⟨fraction, -1074, false⟩).positional
  else (Binary.shortest ⟨Nat.pow 2 52 + fraction, exponent - 1075, fraction = 0 ∧ 1 < exponent⟩).positional

/-- The text of a binary floating-point number: the shortest decimal that reads back, written out in full. Zero keeps
its sign. -/
def text (x : Float) : Text :=
  let bits := x.toBits.toNat
  let exponent := bits / Nat.pow 2 52 % 2048
  let fraction := bits % Nat.pow 2 52
  if exponent = 2047 ∧ fraction ≠ 0 then "NaN".toList
  else if bits / Nat.pow 2 63 = 1 then '-' :: magnitudeText exponent fraction
  else magnitudeText exponent fraction

end Decimal
end WindowRules
