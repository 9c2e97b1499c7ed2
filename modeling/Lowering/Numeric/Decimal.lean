import Lowering.Numeric.Binary
import Lowering.Numeric.Power

/-!
# Decimal text of binary numbers

A floating-point number is written with the fewest decimal digits that read back as the same
number, and of those with the digits nearest to it.

* `Decimal`, a number of the form `digits * 10 ^ exponent`;
* `Decimal.shortest`, by exact comparison on coarser to finer decimal grids;
* the three written forms: `Decimal.positional`, `Decimal.scientific`, `Decimal.mixed`;
* `FloatText`: the choices of a format, and `FloatText.write`.
-/

namespace Lowering

/-- The number `digits * 10 ^ exponent`. -/
structure Decimal where
  digits : Nat
  exponent : Int
  deriving DecidableEq, Repr

/-- Which of two equally near decimals is taken. -/
inductive Tie
  | up
  | even
  deriving DecidableEq, Repr

namespace Decimal

/-- The interval of numbers that round to `significand * 2 ^ exponent`, scaled so that
the number itself is `4 * significand` quarters of its unit. -/
structure Rounding where
  low : Nat
  centre : Nat
  high : Nat
  closed : Bool
  deriving DecidableEq, Repr

/-- The interval of a binary number: half the gap on either side, ends included when the
significand is even. -/
def Rounding.of (significand : Nat) (atBoundary : Bool) : Rounding where
  low := 4 * significand - (if atBoundary then 1 else 2)
  centre := 4 * significand
  high := 4 * significand + 2
  closed := significand % 2 == 0

/-- Whether the fraction `c * b / a` of a quarter unit lies in the interval. -/
def Rounding.contains (r : Rounding) (a b c : Nat) : Bool :=
  if r.closed then decide (r.low * a ≤ c * b ∧ c * b ≤ r.high * a)
  else decide (r.low * a < c * b ∧ c * b < r.high * a)

/-- The point of the grid `10 ^ k` that reads back and is nearest, if some point does: only the
two neighbours of the number have to be tried. -/
def onGrid (r : Rounding) (exponent : Int) (tie : Tie) (k : Int) : Option Decimal :=
  let a := twoTo (exponent - 2).toNat * tenTo (-k).toNat
  let b := twoTo (2 - exponent).toNat * tenTo k.toNat
  let c := r.centre * a / b
  match r.contains a b c, r.contains a b (c + 1) with
  | false, false => none
  | true, false => some ⟨c, k⟩
  | false, true => some ⟨c + 1, k⟩
  | true, true =>
    let below := r.centre * a - c * b
    let above := (c + 1) * b - r.centre * a
    let upwards := decide (above < below) ||
      (below == above && (tie == .up || c % 2 == 1))
    some ⟨if upwards then c + 1 else c, k⟩

/-- The first grid with a point that reads back, from `10 ^ k` downwards. -/
def search (r : Rounding) (exponent : Int) (tie : Tie) : Nat → Int → Decimal
  | 0, k => ⟨r.centre, k⟩
  | n + 1, k => (onGrid r exponent tie k).getD (search r exponent tie n (k - 1))

/-- The shortest decimal that reads back as `significand * 2 ^ exponent`. -/
def shortest (significand : Nat) (exponent : Int) (atBoundary : Bool) (tie : Tie) : Decimal :=
  let top := ((significand.log2 : Int) + exponent + 1) * 30103 / 100000 + 1
  search (.of significand atBoundary) exponent tie 22 top

/-- A run of zeros. -/
def zeros (n : Nat) : String := String.ofList (List.replicate n '0')

/-- The digits as a text. -/
def digitText (d : Decimal) : String := toString d.digits

/-- The number of digits before the point, negative when zeros follow the point. -/
def pointAt (d : Decimal) : Int := d.digitText.length + d.exponent

/-- The text with the point after `n` of its characters. -/
def splitAt (s : String) (n : Nat) : String :=
  String.ofList (s.toList.take n) ++ "." ++ String.ofList (s.toList.drop n)

/-- The written form without an exponent. -/
def positional (d : Decimal) : String :=
  let p := d.pointAt
  if p ≤ 0 then "0." ++ zeros (-p).toNat ++ d.digitText
  else if 0 ≤ d.exponent then d.digitText ++ zeros d.exponent.toNat
  else splitAt d.digitText p.toNat

/-- The written form with one digit before the point and an exponent. -/
def scientific (d : Decimal) : String :=
  let s := d.digitText
  (if s.length ≤ 1 then s else splitAt s 1) ++ "e" ++ toString (d.pointAt - 1)

/-- Positional from `10 ^ (-5)` up to `10 ^ 16`, whole numbers with one zero after the point, and
scientific elsewhere. -/
def mixed (d : Decimal) : String :=
  let p := d.pointAt
  if 0 ≤ d.exponent ∧ p ≤ 16 then d.positional ++ ".0"
  else if -5 < p ∧ p ≤ 16 then d.positional
  else d.scientific

end Decimal

/-- How a format writes floating-point numbers. -/
structure FloatText where
  zero : String
  infinite : String
  nan : String
  tie : Tie
  finite : Decimal → String

namespace FloatText

/-- Values shown to a user: no exponent, and no point in whole numbers. -/
def plain : FloatText := ⟨"0", "inf", "NaN", .up, Decimal.positional⟩

/-- Constants in a listing: always an exponent. -/
def listing : FloatText := ⟨"0e0", "inf", "NaN", .up, Decimal.scientific⟩

/-- Numbers of a document. -/
def document : FloatText := ⟨"0.0", "null", "null", .even, Decimal.mixed⟩

/-- The text of a magnitude with its sign. -/
def write (t : FloatText) (negative : Bool) : Magnitude → String
  | .zero => (if negative then "-" else "") ++ t.zero
  | .finite m q b => (if negative then "-" else "") ++ t.finite (.shortest m q b t.tie)
  | .infinite => (if negative then "-" else "") ++ t.infinite
  | .nan => t.nan

end FloatText

/-- The text of a number in a format. -/
def Binary64.text (x : Binary64) (t : FloatText) : String := t.write x.isNegative x.magnitude

/-- The text of a number in a format. -/
def Binary32.text (x : Binary32) (t : FloatText) : String := t.write x.isNegative x.magnitude

end Lowering
