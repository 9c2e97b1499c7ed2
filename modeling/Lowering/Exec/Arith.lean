import Lowering.Exec.Memory
import Lowering.IR.Inst
import Lowering.Numeric.Power

/-!
# Operations on runtime values

* `Exec.castValue`: a change of type;
* `Exec.binaryValue`: an arithmetic operation;
* `Exec.moved?`: an address moved within its allocation.
-/

namespace Lowering.Exec

open IR (Ty CastOp BinaryOp)

/-- An integer extended by zeros: its low bits, as many as its width has. -/
def zeroExtend (bits : Nat) (value : Int) : Int :=
  if 64 ≤ bits then value else value % twoTo bits

/-- A value after a change of type. An operation that does not apply leaves the value. -/
def castValue (op : CastOp) (v : RtValue) (source target : Ty) : RtValue :=
  let width := target.bits?.getD 64
  match op, v with
  | .bitcast, .ptr p => .ptr p
  | .bitcast, v => decode (encode v source) target
  | .intToPtr, .int _ value => .ptr (toWord value)
  | .ptrToInt, .ptr p => .int width (wrap width (ofWord p))
  | .trunc, .int _ value => .int width (wrap width value)
  | .zext, .int bits value => .int width (wrap width (zeroExtend bits value))
  | .sext, .int bits value => .int width (wrap width (if bits = 1 then -value else value))
  | .intToFloat, .int _ value =>
    if target = .float then .f32 (.ofInt value) else .f64 (.ofInt value)
  | .floatToInt, v => .int width (wrap width (v.float?.getD .zero).toInt)
  | .floatExt, v => .f64 (v.float?.getD .zero)
  | .floatTrunc, v => .f32 (v.float?.getD .zero).narrow
  | _, v => v

/-- A bitwise operation on 64 bits. -/
def bitwise (op : BitVec 64 → BitVec 64 → BitVec 64) (x y : Int) : Int :=
  (op (BitVec.ofInt 64 x) (BitVec.ofInt 64 y)).toInt

/-- An operation on integers, before its result is reduced to a width. -/
def integerOp (op : BinaryOp) (x y : Int) : Except Fault Int :=
  match op with
  | .add => .ok (x + y)
  | .sub => .ok (x - y)
  | .mul => .ok (x * y)
  | .sdiv => if y = 0 then .error .divisionByZero else .ok (Int.tdiv x y)
  | .srem => if y = 0 then .error .divisionByZero else .ok (Int.tmod x y)
  | .and => .ok (bitwise (· &&& ·) x y)
  | .or => .ok (bitwise (· ||| ·) x y)
  | .xor => .ok (bitwise (· ^^^ ·) x y)
  | _ => .ok 0

/-- An operation on floating-point numbers. -/
def floatOp (op : BinaryOp) (x y : Binary64) : Binary64 :=
  match op with
  | .fadd => x.add y
  | .fsub => x.sub y
  | .fmul => x.mul y
  | _ => x.div y

/-- An arithmetic operation with a result of a type. -/
def binaryValue (op : BinaryOp) (a b : RtValue) (t : Ty) : Except Fault RtValue :=
  if op.isFloat then
    let r := floatOp op (a.float?.getD .zero) (b.float?.getD .zero)
    .ok (if t = .float then .f32 r.narrow else .f64 r)
  else
    let width := t.bits?.getD 64
    match a.int?, b.int? with
    | some x, some y => (integerOp op x y).map fun r => .int width (wrap width r)
    | _, _ => .error (.badOperand (op.mnemonic ++ " on non-integers"))

/-! ### Addresses -/

/-- An integer that fits a signed word of 64 bits. -/
def fitsWord (n : Int) : Bool := decide (-0x8000000000000000 ≤ n ∧ n < 0x8000000000000000)

/-- An address moved by a number of bytes, if the result is an offset of the same allocation. -/
def moved? (address : Nat) (delta : Int) : Option Nat :=
  let offset : Int := (address % offsetRange : Nat) + delta
  if 0 ≤ offset ∧ offset < offsetRange then
    some (address / offsetRange * offsetRange + offset.toNat)
  else none

/-- The offset of the element that the first index counts, in whole objects of a type. -/
def firstStep? (t : Ty) (index : Int) : Option Int :=
  let step := index * t.size
  if fitsWord step then some step else none

/-- The sum of two offsets. -/
def addOffsets? (a b : Int) : Option Int := if fitsWord (a + b) then some (a + b) else none

end Lowering.Exec
