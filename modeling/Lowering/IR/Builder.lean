import Lowering.IR.Module
import Lowering.Numeric.Power

/-!
# Building modules

A builder holds the module being built, the block at whose end instructions are placed, and the
source position given to them.  What is placed in a block that has a terminator is dropped: code
after a transfer never runs.  Operations on constants are folded, so that what is decided before
the program runs can be told from what is decided while it runs.

* `IR.Builder`, `IR.Build`;
* `IR.Build.appendBlock`, `IR.Build.positionAt`;
* `IR.Build.pushInto`, through which every instruction is placed, and the instructions;
* `IR.Build.terminate`, through which every block is ended, and the terminators.
-/

namespace Lowering.IR

/-- A module being built. -/
structure Builder where
  module : Module
  position : Option (FuncId × BlockId) := none
  location : Option Location := none
  deriving DecidableEq, Repr, Inhabited

namespace Builder

/-- A builder of an empty module. -/
def new (name : String) : Builder := { module := { name } }

/-- Whether a block has a terminator. -/
def blockTerminated (b : Builder) (f : FuncId) (block : BlockId) : Bool :=
  ((b.module.function f).block block).term.isSome

/-- Whether nothing placed now would run. -/
def isTerminated (b : Builder) : Bool :=
  match b.position with
  | some (f, block) => b.blockTerminated f block
  | none => true

/-- The type of an operand in the current function. -/
def typeOf (b : Builder) (v : Value) : Ty :=
  match v, b.position with
  | .const c, _ => c.type
  | .global g, _ => .ptr (b.module.global g).type
  | _, some (f, _) => b.module.typeOf f v
  | _, none => .void

/-- The blocks of the current function that can lead to a block. -/
def predecessors (b : Builder) (block : BlockId) : List BlockId :=
  match b.position with
  | some (f, _) => (b.module.function f).predecessors block
  | none => []

end Builder

/-- A step of building. -/
abbrev Build := StateM Builder

namespace Build

/-! ### Functions and blocks -/

/-- Add a function without blocks. -/
def declareFunction (name : String) (params : List Param) (ret : Ty) (linkage : Linkage)
    (varargs : Bool) : Build FuncId :=
  modifyGet fun b =>
    (b.module.nextFunction,
      { b with module := b.module.addFunction { name, params, ret, linkage, varargs } })

/-- Add a global. -/
def addGlobal (g : Global) : Build GlobalId :=
  modifyGet fun b => (b.module.nextGlobal, { b with module := b.module.addGlobal g })

/-- The name that a new block gets: a name that is taken is followed by the number of blocks. -/
def blockNameIn (f : Function) (name : String) : String :=
  if f.blocks.any (·.name == name) then name ++ toString f.blocks.size else name

/-- Add an empty block to a function. -/
def appendBlock (f : FuncId) (name : String) : Build BlockId :=
  modifyGet fun b =>
    let fn := b.module.function f
    let block : BasicBlock := { name := blockNameIn fn name }
    let extend (fn : Function) : Function := { fn with blocks := fn.blocks.push block }
    (⟨fn.blocks.size⟩, { b with module := b.module.modifyFunction f extend })

/-- Place what follows at the end of a block. -/
def positionAt (f : FuncId) (block : BlockId) : Build Unit :=
  modify fun b => { b with position := some (f, block) }

/-- Give what follows a source position. -/
def setLocation (location : Option Location) : Build Unit :=
  modify fun b => { b with location }

/-- The type of an operand. -/
def typeOf (v : Value) : Build Ty := do return (← get).typeOf v

/-! ### Instructions -/

/-- The function with an instruction at the end of a block. -/
def placed (block : BlockId) (inst : Inst) (fn : Function) : Function :=
  let id : InstId := ⟨fn.insts.size⟩
  { fn with
    insts := fn.insts.push inst
    blocks := fn.blocks.modify block.index fun b => { b with insts := b.insts.push id } }

/-- Place an instruction at the end of a block, unless the block has a terminator. -/
def pushInto (f : FuncId) (block : BlockId) (kind : InstKind) (type : Ty)
    (name : Option String := none) : Build Value :=
  modifyGet fun b =>
    if b.blockTerminated f block then (.undef type, b)
    else
      let inst : Inst := { kind, type, name, location := b.location }
      (.inst ⟨(b.module.function f).insts.size⟩,
        { b with module := b.module.modifyFunction f (placed block inst) })

/-- Place an instruction at the current position, if there is one. -/
def push (kind : InstKind) (type : Ty) (name : Option String := none) : Build Value := do
  match (← get).position with
  | some (f, block) => pushInto f block kind type name
  | none => return .undef type

theorem push_at {f : FuncId} {b : BlockId} {kind : InstKind} {t : Ty} {name : Option String}
    {r : Builder} (h : r.position = some (f, b)) :
    @Eq (Value × Builder) (push kind t name r) (pushInto f b kind t name r) := by
  cases r
  cases h
  rfl

theorem push_nowhere {kind : InstKind} {t : Ty} {name : Option String} {r : Builder}
    (h : r.position = none) : @Eq (Value × Builder) (push kind t name r) (.undef t, r) := by
  cases r
  cases h
  rfl

/-- A stack slot in a block. -/
def allocaAt (f : FuncId) (block : BlockId) (type : Ty) (name : Option String) : Build Value :=
  pushInto f block (.alloca type) (.ptr type) name

/-- Read through a pointer. -/
def load (ptr : Value) (name : Option String := none) : Build Value := do
  push (.load ptr) ((← typeOf ptr).pointee?.getD .void) name

/-- Write through a pointer. -/
def store (value ptr : Value) : Build Unit := do
  let _ ← push (.store value ptr) .void

/-- The type one index further inside. -/
def stepType (type : Option Ty) (index : Value) : Option Ty :=
  match type, index.constInt? with
  | some (.struct fields), some i => if 0 ≤ i then fields[i.toNat]? else none
  | some (.array elem _), _ => some elem
  | _, _ => none

/-- The address reached from a pointer by indices. -/
def gep (ptr : Value) (indices : List Value) : Build Value := do
  let inner := (indices.drop 1).foldl stepType (← typeOf ptr).pointee?
  push (.gep ptr indices) ((inner.map Ty.ptr).getD .void)

/-- The address of a field of the struct that a pointer points to. -/
def structGep (ptr : Value) (index : Nat) : Build Value := gep ptr [.i32 0, .i32 index]

/-- The low bits of an integer, as many as both widths have, as a number that is not negative. -/
def lowBits (bits : Nat) (value : Int) : Int := if 64 ≤ bits then value else value % twoTo bits

/-- What a change of width makes of a constant. -/
def foldIntCast (op : CastOp) (value : Int) (fromBits toBits : Nat) : Int :=
  match op with
  | .trunc | .zext =>
    let v := lowBits (min fromBits toBits) value
    if toBits = 1 then v % 2 else v
  | .sext =>
    if 64 ≤ fromBits ∨ toBits ≤ fromBits then value else Int.bmod value (twoTo fromBits)
  | _ => value

/-- The operand that a change of type comes to without an instruction. -/
def foldCast (op : CastOp) (value : Value) (source target : Ty) : Option Value :=
  match op, value with
  | .bitcast, v =>
    if source = target then some v
    else
      match v with
      | .const (.null _) => some (.null target)
      | .const (.globalAddr g _) | .global g => some (.const (.globalAddr g target))
      | _ => none
  | .intToPtr, v => if v.constInt? = some 0 then some (.null target) else none
  | .ptrToInt, .const (.null _) => some (.int (target.bits?.getD 64) 0)
  | .trunc, v | .zext, v | .sext, v =>
    match v.constInt?, target.bits? with
    | some c, some bits => some (.int bits (foldIntCast op c (source.bits?.getD 64) bits))
    | _, _ => none
  | _, _ => none

/-- Change the type of an operand. -/
def cast (op : CastOp) (value : Value) (target : Ty) : Build Value := do
  match foldCast op value (← typeOf value) target with
  | some v => return v
  | none => push (.cast op value) target

/-- The operand that an operation is folded to, or else the instruction that it places. -/
def orPush (folded : Option Value) (kind : InstKind) (type : Ty) : Build Value :=
  match folded with
  | some v => return v
  | none => push kind type

theorem cast_eq (op : CastOp) (v : Value) (t : Ty) (r : Builder) :
    @Eq (Value × Builder) (cast op v t r)
      (orPush (foldCast op v (r.typeOf v) t) (.cast op v) t r) := rfl

/-- Take a pointer as a pointer of another type. -/
def bitcast (value : Value) (target : Ty) : Build Value := cast .bitcast value target

/-- Take an integer as a pointer. -/
def intToPtr (value : Value) (target : Ty) : Build Value := cast .intToPtr value target

/-- Take a pointer as an integer. -/
def ptrToInt (value : Value) (target : Ty) : Build Value := cast .ptrToInt value target

/-- The operand that a conjunction or disjunction of truth values comes to. -/
def foldTruth (op : BinaryOp) (lhs rhs : Value) : Option Value :=
  match op, lhs.constBool?, rhs.constBool? with
  | .and, some false, _ | .and, _, some false => some (.i1 false)
  | .and, some true, _ => some rhs
  | .and, _, some true => some lhs
  | .or, some true, _ | .or, _, some true => some (.i1 true)
  | .or, some false, _ => some rhs
  | .or, _, some false => some lhs
  | _, _, _ => none

/-- Combine two operands. -/
def binary (op : BinaryOp) (lhs rhs : Value) : Build Value := do
  let type ← typeOf lhs
  match if type = .i1 then foldTruth op lhs rhs else none with
  | some v => return v
  | none => push (.binary op lhs rhs) type

theorem binary_eq (op : BinaryOp) (v u : Value) (r : Builder) :
    @Eq (Value × Builder) (binary op v u r)
      (orPush (if r.typeOf v = .i1 then foldTruth op v u else none) (.binary op v u) (r.typeOf v)
        r) := rfl

/-- The conjunction. -/
def and (lhs rhs : Value) : Build Value := binary .and lhs rhs

/-- The disjunction. -/
def or (lhs rhs : Value) : Build Value := binary .or lhs rhs

/-- The negation. -/
def not (value : Value) : Build Value := do
  match value.constBool? with
  | some b => return .i1 !b
  | none => push (.not value) (← typeOf value)

/-- Compare integers or pointers. -/
def icmp (pred : IntPredicate) (lhs rhs : Value) : Build Value := do
  match lhs.constInt?, rhs.constInt? with
  | some a, some b => return .i1 (pred.holds a b)
  | _, _ => push (.icmp pred lhs rhs) .i1

/-- Compare floating-point numbers. -/
def fcmp (pred : FloatPredicate) (lhs rhs : Value) : Build Value :=
  push (.fcmp pred lhs rhs) .i1

/-- One of two operands. -/
def select (cond ifTrue ifFalse : Value) : Build Value := do
  match cond.constBool? with
  | some true => return ifTrue
  | some false => return ifFalse
  | none => push (.select cond ifTrue ifFalse) (← typeOf ifTrue)

/-- The operand that belongs to the edge by which the block was entered. -/
def phi (type : Ty) (incoming : List (Value × BlockId)) : Build Value := push (.phi incoming) type

/-- Call a function. -/
def call (callee : FuncId) (args : List Value) : Build Value := do
  push (.call callee args) ((← get).module.function callee).ret

/-- A fresh object. -/
def malloc (type : Ty) : Build Value := push (.malloc type) (.ptr type)

/-- A fresh array. -/
def arrayMalloc (type : Ty) (count : Value) : Build Value :=
  push (.arrayMalloc type count) (.ptr type)

/-- A part of an aggregate. -/
def extractValue (aggregate : Value) (index : Nat) (name : Option String) : Build Value := do
  push (.extractValue aggregate index) (((← typeOf aggregate).element index).getD .void) name

/-! ### Terminators -/

/-- The function with a block ended, unless the block has a terminator. -/
def ended (block : BlockId) (term : Terminator) (fn : Function) : Function :=
  { fn with
    blocks := fn.blocks.modify block.index fun b => { b with term := b.term.or (some term) } }

/-- End the current block, unless it has a terminator. -/
def terminate (term : Terminator) : Build Unit :=
  modify fun b =>
    match b.position with
    | some (f, block) => { b with module := b.module.modifyFunction f (ended block term) }
    | none => b

theorem terminate_at {f : FuncId} {b : BlockId} {term : Terminator} {r : Builder}
    (h : r.position = some (f, b)) : @Eq (Unit × Builder) (terminate term r)
      ((), { r with module := r.module.modifyFunction f (ended b term) }) := by
  cases r
  cases h
  rfl

theorem terminate_nowhere {term : Terminator} {r : Builder} (h : r.position = none) :
    @Eq (Unit × Builder) (terminate term r) ((), r) := by
  cases r
  cases h
  rfl

/-- Go on in a block. -/
def br (target : BlockId) : Build Unit := terminate (.br target)

/-- Go on in one of two blocks. -/
def condBr (cond : Value) (ifTrue ifFalse : BlockId) : Build Unit :=
  match cond.constBool? with
  | some true => br ifTrue
  | some false => br ifFalse
  | none => terminate (.condBr cond ifTrue ifFalse)

/-- Return from the function. -/
def ret (value : Option Value) : Build Unit := terminate (.ret value)

/-- Mark the end of code that is never reached. -/
def unreachable : Build Unit := terminate .unreachable

end Build

end Lowering.IR
