import Lowering.Numeric.Power

/-!
# Types of the intermediate representation

* `IR.Ty` and its written form `IR.Ty.text`;
* the layout on a target with 64-bit pointers and natural alignment: `IR.Ty.align`,
  `IR.Ty.size`, `IR.Ty.fieldOffset`;
* `IR.Ty.element`, the type one step inside.
-/

namespace Lowering.IR

/-- A type of the intermediate representation. -/
inductive Ty
  | void
  | int (bits : Nat)
  | float
  | double
  | ptr (pointee : Ty)
  | array (elem : Ty) (length : Nat)
  | struct (fields : List Ty)
  deriving Repr, Inhabited

namespace Ty

/-! ### Equality -/

mutual

/-- Equality of types as a test. -/
def same : Ty → Ty → Bool
  | .void, .void => true
  | .int a, .int b => a == b
  | .float, .float => true
  | .double, .double => true
  | .ptr a, .ptr b => same a b
  | .array a m, .array b n => same a b && m == n
  | .struct as, .struct bs => sameAll as bs
  | _, _ => false

/-- Equality of lists of types as a test. -/
def sameAll : List Ty → List Ty → Bool
  | [], [] => true
  | a :: as, b :: bs => same a b && sameAll as bs
  | _, _ => false

end

mutual

theorem same_iff : ∀ a b : Ty, same a b = true ↔ a = b
  | .void, b | .float, b | .double, b => by cases b <;> simp [same]
  | .int m, b => by cases b <;> simp [same]
  | .ptr a, b => by cases b <;> simp [same, same_iff a]
  | .array a m, b => by cases b <;> simp [same, same_iff a]
  | .struct as, b => by cases b <;> simp [same, sameAll_iff as]

theorem sameAll_iff : ∀ as bs : List Ty, sameAll as bs = true ↔ as = bs
  | [], bs => by cases bs <;> simp [sameAll]
  | a :: as, bs => by cases bs <;> simp [sameAll, same_iff a, sameAll_iff as]

end

instance : DecidableEq Ty := fun a b => decidable_of_iff _ (same_iff a b)

/-! ### Parts -/

/-- The type of truth values. -/
def i1 : Ty := .int 1

/-- The type of bytes. -/
def i8 : Ty := .int 8

/-- Integers of 32 bits. -/
def i32 : Ty := .int 32

/-- Integers of 64 bits. -/
def i64 : Ty := .int 64

/-- A pointer to bytes, which stands for any pointer. -/
def bytePtr : Ty := .ptr i8

/-- What a pointer points to. -/
def pointee? : Ty → Option Ty
  | .ptr t => some t
  | _ => none

/-- A pointer type. -/
def isPtr : Ty → Bool
  | .ptr _ => true
  | _ => false

/-- An integer type. -/
def isInt : Ty → Bool
  | .int _ => true
  | _ => false

/-- A floating-point type. -/
def isFloat : Ty → Bool
  | .float | .double => true
  | _ => false

/-- An array or struct type. -/
def isAggregate : Ty → Bool
  | .array _ _ | .struct _ => true
  | _ => false

/-- The width of an integer type. -/
def bits? : Ty → Option Nat
  | .int bits => some bits
  | _ => none

/-- The type of a struct field or array element. -/
def element (index : Nat) : Ty → Option Ty
  | .struct fields => fields[index]?
  | .array elem _ => some elem
  | _ => none

/-! ### Written form -/

mutual

/-- The written form of a type. -/
def text : Ty → String
  | .void => "void"
  | .int bits => "i" ++ toString bits
  | .float => "float"
  | .double => "double"
  | .ptr t => text t ++ "*"
  | .array t n => "[" ++ toString n ++ " x " ++ text t ++ "]"
  | .struct fields => "\x7b " ++ ", ".intercalate (texts fields) ++ " \x7d"

/-- The written forms of a list of types. -/
def texts : List Ty → List String
  | [] => []
  | t :: ts => text t :: texts ts

end

/-! ### Layout -/

/-- The bytes of a pointer. -/
def pointerSize : Nat := 8

/-- The bytes of an integer: enough for its bits, rounded up to a power of two. -/
def intSize (bits : Nat) : Nat :=
  let bytes := (bits + 7) / 8
  if bytes ≤ 1 then 1 else twoTo ((bytes - 1).log2 + 1)

/-- The least multiple of an alignment that is not below an offset. -/
def alignTo (offset align : Nat) : Nat :=
  if align ≤ 1 then offset else (offset + (align - 1)) / align * align

mutual

/-- The alignment of a type. -/
def align : Ty → Nat
  | .void => 1
  | .int bits => intSize bits
  | .float => 4
  | .double => 8
  | .ptr _ => pointerSize
  | .array t _ => align t
  | .struct fields => alignAll fields

/-- The greatest alignment of a list of fields. -/
def alignAll : List Ty → Nat
  | [] => 1
  | t :: ts => max (align t) (alignAll ts)

end

mutual

/-- The bytes of a value of a type. -/
def size : Ty → Nat
  | .void => 0
  | .int bits => intSize bits
  | .float => 4
  | .double => 8
  | .ptr _ => pointerSize
  | .array t n => size t * n
  | .struct fields => alignTo (endOffset 0 fields) (alignAll fields)

/-- The end of the last field, when the fields are laid out in order from an offset. -/
def endOffset (offset : Nat) : List Ty → Nat
  | [] => offset
  | t :: ts => endOffset (alignTo offset (align t) + size t) ts

end

/-- The offset of a field, when the fields are laid out in order from an offset; past the last
field, the end. -/
def offsetFrom (offset : Nat) : List Ty → Nat → Nat
  | [], _ => offset
  | t :: _, 0 => alignTo offset t.align
  | t :: ts, i + 1 => offsetFrom (alignTo offset t.align + t.size) ts i

/-- The offset of a struct field or array element. -/
def fieldOffset (index : Nat) : Ty → Nat
  | .struct fields => offsetFrom 0 fields index
  | .array t _ => t.size * index
  | _ => 0

end Ty

end Lowering.IR
