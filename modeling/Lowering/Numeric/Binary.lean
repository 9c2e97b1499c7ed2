import Lowering.Numeric.Power

/-!
# Binary floating-point numbers as words

A floating-point number is kept as its word, so that equality is equality of words and a
number that is stored and loaded again is the same number.  Arithmetic is that of the
hardware; only the choice of the resulting word when an operation yields no number is fixed
here: the first operand that is not a number, made quiet, or else the default such word.

* `BinaryFormat`: the two interchange formats, and `BinaryFormat.read`;
* `Binary64`, `Binary32`, with `Binary64.narrow` and `Binary32.widen` between them.
-/

namespace Lowering

/-! ### Formats -/

/-- The layout of a word: sign, biased exponent, fraction. -/
structure BinaryFormat where
  fractionBits : Nat
  exponentBits : Nat
  deriving DecidableEq, Repr

/-- What a word stands for, its sign apart. -/
inductive Magnitude
  | zero
  /-- The number `significand * 2 ^ exponent`; `atBoundary` when the gap to the number below is
  half the gap to the number above. -/
  | finite (significand : Nat) (exponent : Int) (atBoundary : Bool)
  | infinite
  | nan
  deriving DecidableEq, Repr

namespace BinaryFormat

/-- The format of 64 bits. -/
def double : BinaryFormat := ⟨52, 11⟩

/-- The format of 32 bits. -/
def single : BinaryFormat := ⟨23, 8⟩

/-- Whether the sign bit of a word is set. -/
def isNegative (f : BinaryFormat) (word : Nat) : Bool :=
  word.testBit (f.fractionBits + f.exponentBits)

/-- What a word stands for, its sign apart. -/
def read (f : BinaryFormat) (word : Nat) : Magnitude :=
  let fraction := word % twoTo f.fractionBits
  let biased := word / twoTo f.fractionBits % twoTo f.exponentBits
  let least : Int := 2 - twoTo (f.exponentBits - 1) - f.fractionBits
  if biased = twoTo f.exponentBits - 1 then
    if fraction = 0 then .infinite else .nan
  else if biased = 0 then
    if fraction = 0 then .zero else .finite fraction least false
  else
    .finite (fraction + twoTo f.fractionBits) (least + (biased - 1 : Nat))
      (fraction == 0 && decide (1 < biased))

end BinaryFormat

/-! ### Numbers of 64 bits -/

/-- A floating-point number of 64 bits. -/
structure Binary64 where
  word : UInt64
  deriving DecidableEq, Repr, Inhabited

/-- A floating-point number of 32 bits. -/
structure Binary32 where
  word : UInt32
  deriving DecidableEq, Repr, Inhabited

namespace Binary64

/-- Positive zero. -/
def zero : Binary64 := ⟨0⟩

/-- The word of an invalid operation. -/
def defaultNaN : Binary64 := ⟨0xFFF8000000000000⟩

/-- The hardware number of a word. -/
def toFloat (x : Binary64) : Float := Float.ofBits x.word

/-- The word of a hardware number. -/
def ofFloat (x : Float) : Binary64 := ⟨x.toBits⟩

/-- What the number is, its sign apart. -/
def magnitude (x : Binary64) : Magnitude := BinaryFormat.double.read x.word.toNat

/-- Whether the sign is negative. -/
def isNegative (x : Binary64) : Bool := BinaryFormat.double.isNegative x.word.toNat

/-- Whether the word stands for no number. -/
def isNaN (x : Binary64) : Bool := x.magnitude == .nan

/-- The same word with the quiet bit set. -/
def quiet (x : Binary64) : Binary64 := ⟨x.word ||| 0x0008000000000000⟩

/-- The result of a hardware operation, with the word of a missing number chosen. -/
def combine (op : Float → Float → Float) (x y : Binary64) : Binary64 :=
  if x.isNaN then x.quiet
  else if y.isNaN then y.quiet
  else
    let r := ofFloat (op x.toFloat y.toFloat)
    if r.isNaN then defaultNaN else r

/-- The sum, rounded. -/
def add : Binary64 → Binary64 → Binary64 := combine (· + ·)

/-- The difference, rounded. -/
def sub : Binary64 → Binary64 → Binary64 := combine (· - ·)

/-- The product, rounded. -/
def mul : Binary64 → Binary64 → Binary64 := combine (· * ·)

/-- The quotient, rounded. -/
def div : Binary64 → Binary64 → Binary64 := combine (· / ·)

/-- The number with its sign changed. -/
def neg (x : Binary64) : Binary64 := ⟨x.word ^^^ 0x8000000000000000⟩

/-- Numeric equality: the two zeros are equal, and nothing equals a missing number. -/
def eq (x y : Binary64) : Bool := x.toFloat == y.toFloat

/-- Numeric order. -/
def lt (x y : Binary64) : Bool := decide (x.toFloat < y.toFloat)

/-- Numeric order, equal numbers included. -/
def le (x y : Binary64) : Bool := decide (x.toFloat ≤ y.toFloat)

/-- The nearest number to a natural number below `2 ^ 64`. -/
def ofNat (n : Nat) : Binary64 := ofFloat (UInt64.ofNat n).toFloat

/-- The nearest number to an integer of 64 bits. -/
def ofInt (n : Int) : Binary64 := ofFloat (Int64.ofInt n).toFloat

/-- The integer part, clamped to 64 bits; zero for a missing number. -/
def toInt (x : Binary64) : Int := x.toFloat.toInt64.toInt

/-- The power of ten with exponent `n`, rounded. -/
def powerOfTen (n : Nat) : Binary64 := ofFloat (Float.ofScientific 1 false n)

/-- The nearest number of 32 bits. -/
def narrow (x : Binary64) : Binary32 :=
  if x.isNaN then
    let w := x.quiet.word
    let sign : UInt64 := (w >>> 32) &&& 0x80000000
    let payload : UInt64 := (w >>> 29) &&& 0x7FFFFF
    ⟨(sign ||| 0x7F800000 ||| payload).toUInt32⟩
  else
    ⟨x.toFloat.toFloat32.toBits⟩

end Binary64

/-! ### Numbers of 32 bits -/

namespace Binary32

/-- Positive zero. -/
def zero : Binary32 := ⟨0⟩

/-- What the number is, its sign apart. -/
def magnitude (x : Binary32) : Magnitude := BinaryFormat.single.read x.word.toNat

/-- Whether the sign is negative. -/
def isNegative (x : Binary32) : Bool := BinaryFormat.single.isNegative x.word.toNat

/-- Whether the word stands for no number. -/
def isNaN (x : Binary32) : Bool := x.magnitude == .nan

/-- The nearest number to an integer of 64 bits. -/
def ofInt (n : Int) : Binary32 := ⟨(Int64.ofInt n).toFloat32.toBits⟩

/-- The same number with 64 bits. -/
def widen (x : Binary32) : Binary64 :=
  if x.isNaN then
    let w := x.word.toUInt64
    let sign : UInt64 := (w &&& 0x80000000) <<< 32
    let payload : UInt64 := (w &&& 0x7FFFFF) <<< 29
    ⟨sign ||| 0x7FF8000000000000 ||| payload⟩
  else
    .ofFloat (Float32.ofBits x.word).toFloat

end Binary32

end Lowering
