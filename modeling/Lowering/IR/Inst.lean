import Lowering.IR.Value

/-!
# Instructions and terminators

An instruction makes at most one value.  The terminator of a block is kept apart from its
instructions, so that a block has at most one.

* `IR.BinaryOp`, `IR.IntPredicate`, `IR.FloatPredicate`, `IR.CastOp` and their mnemonics;
* `IR.InstKind`, `IR.Terminator`.
-/

namespace Lowering.IR

/-- An arithmetic operation. -/
inductive BinaryOp
  | add
  | sub
  | mul
  | sdiv
  | srem
  | and
  | or
  | xor
  | fadd
  | fsub
  | fmul
  | fdiv
  deriving DecidableEq, Repr, Inhabited

namespace BinaryOp

/-- An operation on floating-point numbers. -/
def isFloat : BinaryOp → Bool
  | .fadd | .fsub | .fmul | .fdiv => true
  | _ => false

/-- The word for an operation. -/
def mnemonic : BinaryOp → String
  | .add => "add"
  | .sub => "sub"
  | .mul => "mul"
  | .sdiv => "sdiv"
  | .srem => "srem"
  | .and => "and"
  | .or => "or"
  | .xor => "xor"
  | .fadd => "fadd"
  | .fsub => "fsub"
  | .fmul => "fmul"
  | .fdiv => "fdiv"

/-- All operations. -/
def all : List BinaryOp :=
  [.add, .sub, .mul, .sdiv, .srem, .and, .or, .xor, .fadd, .fsub, .fmul, .fdiv]

end BinaryOp

/-- A comparison of integers. -/
inductive IntPredicate
  | eq
  | ne
  | slt
  | sle
  | sgt
  | sge
  deriving DecidableEq, Repr, Inhabited

namespace IntPredicate

/-- The word for a comparison. -/
def mnemonic : IntPredicate → String
  | .eq => "eq"
  | .ne => "ne"
  | .slt => "slt"
  | .sle => "sle"
  | .sgt => "sgt"
  | .sge => "sge"

/-- All comparisons. -/
def all : List IntPredicate := [.eq, .ne, .slt, .sle, .sgt, .sge]

/-- The comparison of two integers. -/
def holds : IntPredicate → Int → Int → Bool
  | .eq, a, b => decide (a = b)
  | .ne, a, b => decide (a ≠ b)
  | .slt, a, b => decide (a < b)
  | .sle, a, b => decide (a ≤ b)
  | .sgt, a, b => decide (b < a)
  | .sge, a, b => decide (b ≤ a)

end IntPredicate

/-- An ordered comparison of floating-point numbers. -/
inductive FloatPredicate
  | oeq
  | one
  | olt
  | ole
  | ogt
  | oge
  deriving DecidableEq, Repr, Inhabited

namespace FloatPredicate

/-- The word for a comparison. -/
def mnemonic : FloatPredicate → String
  | .oeq => "oeq"
  | .one => "one"
  | .olt => "olt"
  | .ole => "ole"
  | .ogt => "ogt"
  | .oge => "oge"

/-- All comparisons. -/
def all : List FloatPredicate := [.oeq, .one, .olt, .ole, .ogt, .oge]

/-- The comparison of two numbers; it fails when either is missing. -/
def holds : FloatPredicate → Binary64 → Binary64 → Bool
  | .oeq, a, b => a.eq b
  | .one, a, b => !a.eq b && !a.isNaN && !b.isNaN
  | .olt, a, b => a.lt b
  | .ole, a, b => a.le b
  | .ogt, a, b => b.lt a
  | .oge, a, b => b.le a

end FloatPredicate

/-- A change of type. -/
inductive CastOp
  | bitcast
  | intToPtr
  | ptrToInt
  | trunc
  | zext
  | sext
  | intToFloat
  | floatToInt
  | floatExt
  | floatTrunc
  deriving DecidableEq, Repr, Inhabited

namespace CastOp

/-- The word for a change of type. -/
def mnemonic : CastOp → String
  | .bitcast => "bitcast"
  | .intToPtr => "inttoptr"
  | .ptrToInt => "ptrtoint"
  | .trunc => "trunc"
  | .zext => "zext"
  | .sext => "sext"
  | .intToFloat => "sitofp"
  | .floatToInt => "fptosi"
  | .floatExt => "fpext"
  | .floatTrunc => "fptrunc"

/-- All changes of type. -/
def all : List CastOp :=
  [.bitcast, .intToPtr, .ptrToInt, .trunc, .zext, .sext, .intToFloat, .floatToInt, .floatExt,
    .floatTrunc]

end CastOp

/-- What an instruction does. -/
inductive InstKind
  | alloca (type : Ty)
  | load (ptr : Value)
  | store (value ptr : Value)
  /-- An address: the first index counts whole objects, later ones step into fields or
  elements. -/
  | gep (ptr : Value) (indices : List Value)
  | cast (op : CastOp) (value : Value)
  | binary (op : BinaryOp) (lhs rhs : Value)
  | not (value : Value)
  | icmp (pred : IntPredicate) (lhs rhs : Value)
  | fcmp (pred : FloatPredicate) (lhs rhs : Value)
  | select (cond ifTrue ifFalse : Value)
  | phi (incoming : List (Value × BlockId))
  | call (callee : FuncId) (args : List Value)
  | malloc (type : Ty)
  | arrayMalloc (type : Ty) (count : Value)
  | extractValue (aggregate : Value) (index : Nat)
  deriving DecidableEq, Repr, Inhabited

namespace InstKind

/-- The operands, in order. -/
def operands : InstKind → List Value
  | .alloca _ | .malloc _ => []
  | .load ptr => [ptr]
  | .store value ptr => [value, ptr]
  | .gep ptr indices => ptr :: indices
  | .cast _ value | .not value => [value]
  | .binary _ lhs rhs | .icmp _ lhs rhs | .fcmp _ lhs rhs => [lhs, rhs]
  | .select cond ifTrue ifFalse => [cond, ifTrue, ifFalse]
  | .phi incoming => incoming.map Prod.fst
  | .call _ args => args
  | .arrayMalloc _ count => [count]
  | .extractValue aggregate _ => [aggregate]

/-- A phi, which takes the value that belongs to the edge by which its block was entered. -/
def isPhi : InstKind → Bool
  | .phi _ => true
  | _ => false

/-- The word for an instruction. -/
def opcode : InstKind → String
  | .alloca _ => "alloca"
  | .load _ => "load"
  | .store _ _ => "store"
  | .gep _ _ => "getelementptr"
  | .cast op _ => op.mnemonic
  | .binary op _ _ => op.mnemonic
  | .not _ => "not"
  | .icmp _ _ _ => "icmp"
  | .fcmp _ _ _ => "fcmp"
  | .select _ _ _ => "select"
  | .phi _ => "phi"
  | .call _ _ => "call"
  | .malloc _ => "malloc"
  | .arrayMalloc _ _ => "array_malloc"
  | .extractValue _ _ => "extractvalue"

end InstKind

/-- How a block ends. -/
inductive Terminator
  | br (target : BlockId)
  | condBr (cond : Value) (ifTrue ifFalse : BlockId)
  | ret (value : Option Value)
  | unreachable
  deriving DecidableEq, Repr, Inhabited

/-- The blocks that a terminator can lead to, each once. -/
def Terminator.successors : Terminator → List BlockId
  | .br b => [b]
  | .condBr _ a b => if a = b then [a] else [a, b]
  | .ret _ | .unreachable => []

end Lowering.IR
