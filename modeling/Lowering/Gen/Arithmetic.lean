import Lowering.Gen.State

/-!
# Arithmetic

The operations on two operands and the numeric conversions.  Truth values, chars, integers and
symbols are integers of a width; truth values and chars have no sign.  Operands of two widths meet
in the wider one, and an integer that meets a floating-point number becomes one.

* `NumberClass`, `TypeTable.numberClass?`;
* `Gen.numericCast`, `Gen.toInt64`;
* `Gen.combine`: an operation on two operands, as a value of the return type.
-/

namespace Lowering

open IR (Ty Value Build)

/-- The kinds of numbers that values are held as. -/
inductive NumberClass
  | int (bits : Nat) (unsigned : Bool)
  | float (double : Bool)
  deriving DecidableEq, Repr

/-- A floating-point class of the wide format. -/
def NumberClass.isDouble : NumberClass → Bool
  | .float double => double
  | .int _ _ => false

/-- The kind of number that values of a type are. -/
def TypeTable.numberClass? (ts : TypeTable) (t : TypeId) : Option NumberClass :=
  match ts.kind t with
  | .int bits => some (.int bits false)
  | .char => some (.int 8 true)
  | .bool => some (.int 1 true)
  | .symbol => some (.int 32 false)
  | .float double => some (.float double)
  | _ => none

namespace Gen

/-! ### Conversions -/

/-- An integer in another width. -/
def resize (value : Value) (source : Nat) (unsigned : Bool) (bits : Nat) (target : Ty) :
    Gen Value := do
  if source = bits then return value
  else if bits < source then Build.cast .trunc value target
  else if unsigned then Build.cast .zext value target
  else Build.cast .sext value target

/-- A number of one type as a number of another. -/
def numericCast (value : Value) (source target : TypeId) : Gen Value := do
  let ts ← types
  let want := ts.irType target
  match ts.numberClass? source, ts.numberClass? target with
  | some (.int a unsigned), some (.int b _) => resize value a unsigned b want
  | some (.int _ _), some (.float _) => Build.cast .intToFloat value want
  | some (.float _), some (.int _ _) => Build.cast .floatToInt value want
  | some (.float false), some (.float true) => Build.cast .floatExt value want
  | some (.float true), some (.float false) => Build.cast .floatTrunc value want
  | some (.float _), some (.float _) => return value
  | _, _ => fail (.noNumericConversion (ts.name source) (ts.name target))

/-- An integer in 64 bits. -/
def toInt64 (value : Value) (t : TypeId) : Gen Value := do
  match (← types).numberClass? t with
  | some (.int bits unsigned) =>
    if bits = 64 then return value
    else Build.cast (if unsigned then .zext else .sext) value .i64
  | _ => fail (.notInteger (← typeName t))

/-- A number as a floating-point number of a format that is no narrower. -/
def toFloat (value : Value) (n : NumberClass) (double : Bool) : Gen Value := do
  let want : Ty := if double then .double else .float
  match n with
  | .int _ _ => Build.cast .intToFloat value want
  | .float given => if given = double then return value else Build.cast .floatExt value want

/-! ### Operations -/

/-- What an operation is on integers. -/
inductive IntOperation
  | arithmetic (op : IR.BinaryOp)
  | comparison (pred : IR.IntPredicate)

/-- What an operation is on floating-point numbers. -/
inductive FloatOperation
  | arithmetic (op : IR.BinaryOp)
  | comparison (pred : IR.FloatPredicate)

/-- An operation on two operands, on integers. -/
def onInts : BinaryPrimitive → IntOperation
  | .add => .arithmetic .add
  | .sub => .arithmetic .sub
  | .mul => .arithmetic .mul
  | .div => .arithmetic .sdiv
  | .rem => .arithmetic .srem
  | .and => .arithmetic .and
  | .or => .arithmetic .or
  | .eq => .comparison .eq
  | .ne => .comparison .ne
  | .lt => .comparison .slt
  | .le => .comparison .sle
  | .gt => .comparison .sgt
  | .ge => .comparison .sge

/-- An operation on two operands, on floating-point numbers, where there is one. -/
def onFloats? : BinaryPrimitive → Option FloatOperation
  | .add => some (.arithmetic .fadd)
  | .sub => some (.arithmetic .fsub)
  | .mul => some (.arithmetic .fmul)
  | .div => some (.arithmetic .fdiv)
  | .eq => some (.comparison .oeq)
  | .ne => some (.comparison .one)
  | .lt => some (.comparison .olt)
  | .le => some (.comparison .ole)
  | .gt => some (.comparison .ogt)
  | .ge => some (.comparison .oge)
  | .rem | .and | .or => none

/-- An operation on two integers of one width. -/
def combineInts (op : BinaryPrimitive) (lhs rhs : Value) : Gen Value :=
  match onInts op with
  | .arithmetic op => Build.binary op lhs rhs
  | .comparison pred => Build.icmp pred lhs rhs

/-- An operation on two floating-point numbers of one format. -/
def combineFloats (op : BinaryPrimitive) (lhs rhs : Value) : Gen Value :=
  match onFloats? op with
  | some (.arithmetic op) => Build.binary op lhs rhs
  | some (.comparison pred) => Build.fcmp pred lhs rhs
  | none => fail (.notOnFloats op)

/-- The type in which two operands meet, told by their classes. -/
def meetingType (lhs rhs : TypeId) : NumberClass → NumberClass → TypeId
  | .float true, _ => lhs
  | _, .float true => rhs
  | .float false, _ => lhs
  | _, .float false => rhs
  | .int a _, .int b _ => if a < b then rhs else lhs

/-- The integer type in which operands of two widths meet: the first one of the wider width in
the table. -/
def commonInt (ts : TypeTable) (lhs rhs : TypeId) (a b : Nat) : TypeId :=
  (ts.int? (max a b)).getD (if b ≤ a then lhs else rhs)

/-- An operation on two operands of given classes. -/
def combineNumbers (op : BinaryPrimitive) (lhs : Value) (lhsType : TypeId) (rhs : Value)
    (rhsType : TypeId) : NumberClass → NumberClass → Gen Value
  | .int a _, .int b _ => do
    let common := commonInt (← types) lhsType rhsType a b
    let lhs ← numericCast lhs lhsType common
    let rhs ← numericCast rhs rhsType common
    combineInts op lhs rhs
  | l, r => do
    let double := l.isDouble || r.isDouble
    let lhs ← toFloat lhs l double
    let rhs ← toFloat rhs r double
    combineFloats op lhs rhs

/-- The result of an operation as a number of the return type; a truth value, or a result of no
numeric type, stays as it is. -/
def asReturned (result : Value) (source : TypeId) : Option TypeId → Gen Value
  | some t => do
    let ts ← types
    if ts.isBool t || (ts.numberClass? t).isNone then return result
    else if (← Build.typeOf result) = ts.irType t then return result
    else numericCast result source t
  | none => return result

/-- An operation on two operands, as a value of the return type. -/
def combine (op : BinaryPrimitive) (lhs : Value) (lhsType : TypeId) (rhs : Value)
    (rhsType : TypeId) (returned : Option TypeId) : Gen Value := do
  let ts ← types
  match ts.numberClass? lhsType, ts.numberClass? rhsType with
  | some l, some r => do
    let result ← combineNumbers op lhs lhsType rhs rhsType l r
    asReturned result (meetingType lhsType rhsType l r) returned
  | _, _ => fail (.operandTypes op (ts.name lhsType) (ts.name rhsType))

end Gen

end Lowering
