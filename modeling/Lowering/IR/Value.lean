import Lowering.IR.Ty
import Lowering.Numeric.Binary

/-!
# Operands

* ids of functions, globals, blocks and instructions;
* `IR.Constant`, `IR.Value`.
-/

namespace Lowering.IR

/-- The position of a function in its module. -/
structure FuncId where
  index : Nat
  deriving DecidableEq, Repr, Inhabited

/-- The position of a global in its module. -/
structure GlobalId where
  index : Nat
  deriving DecidableEq, Repr, Inhabited

/-- The position of a block in its function. -/
structure BlockId where
  index : Nat
  deriving DecidableEq, Repr, Inhabited

/-- The position of an instruction in its function. -/
structure InstId where
  index : Nat
  deriving DecidableEq, Repr, Inhabited

/-- A value known before the program runs. -/
inductive Constant
  | int (bits : Nat) (value : Int)
  | float (double : Bool) (value : Binary64)
  /-- All zero bits: the null pointer, or zero in every part. -/
  | null (type : Ty)
  | array (elem : Ty) (values : List Constant)
  /-- The address of a global, taken as a pointer of another type. -/
  | globalAddr (id : GlobalId) (type : Ty)
  | undef (type : Ty)
  deriving Repr, Inhabited

namespace Constant

mutual

/-- Equality of constants as a test. -/
def same : Constant → Constant → Bool
  | .int a x, .int b y => a == b && x == y
  | .float a x, .float b y => a == b && x == y
  | .null a, .null b => a == b
  | .array a xs, .array b ys => a == b && sameAll xs ys
  | .globalAddr g a, .globalAddr h b => g == h && a == b
  | .undef a, .undef b => a == b
  | _, _ => false

/-- Equality of lists of constants as a test. -/
def sameAll : List Constant → List Constant → Bool
  | [], [] => true
  | a :: as, b :: bs => same a b && sameAll as bs
  | _, _ => false

end

mutual

theorem same_iff : ∀ a b : Constant, same a b = true ↔ a = b
  | .int a x, b | .float a x, b | .globalAddr a x, b => by cases b <;> simp [same]
  | .null a, b | .undef a, b => by cases b <;> simp [same]
  | .array a xs, b => by cases b <;> simp [same, sameAll_iff xs]

theorem sameAll_iff : ∀ as bs : List Constant, sameAll as bs = true ↔ as = bs
  | [], bs => by cases bs <;> simp [sameAll]
  | a :: as, bs => by cases bs <;> simp [sameAll, same_iff a, sameAll_iff as]

end

instance : DecidableEq Constant := fun a b => decidable_of_iff _ (same_iff a b)

/-- The type of a constant. -/
def type : Constant → Ty
  | .int bits _ => .int bits
  | .float double _ => if double then .double else .float
  | .null t | .undef t => t
  | .array elem values => .array elem values.length
  | .globalAddr _ t => t

/-- An array of bytes. -/
def bytes (bs : List UInt8) : Constant := .array .i8 (bs.map fun b => .int 8 b.toNat)

end Constant

/-- An operand of an instruction. -/
inductive Value
  | const (c : Constant)
  | inst (id : InstId)
  | param (index : Nat)
  | global (id : GlobalId)
  deriving DecidableEq, Repr, Inhabited

namespace Value

/-- A constant integer. -/
def int (bits : Nat) (value : Int) : Value := .const (.int bits value)

/-- A constant truth value. -/
def i1 (value : Bool) : Value := .int 1 (if value then 1 else 0)

/-- A constant byte. -/
def i8 (value : Int) : Value := .int 8 value

/-- A constant of 32 bits. -/
def i32 (value : Int) : Value := .int 32 value

/-- A constant of 64 bits. -/
def i64 (value : Int) : Value := .int 64 value

/-- The zero of a type. -/
def null (type : Ty) : Value := .const (.null type)

/-- No particular value of a type. -/
def undef (type : Ty) : Value := .const (.undef type)

/-- A constant. -/
def isConst : Value → Bool
  | .const _ => true
  | _ => false

/-- The integer that a constant stands for. -/
def constInt? : Value → Option Int
  | .const (.int _ value) => some value
  | .const (.null (.int _)) => some 0
  | _ => none

/-- The truth value that a constant of one bit stands for. -/
def constBool? : Value → Option Bool
  | .const (.int 1 value) => some (value != 0)
  | _ => none

/-- No particular value. -/
def isUndef : Value → Bool
  | .const (.undef _) => true
  | _ => false

end Value

end Lowering.IR
