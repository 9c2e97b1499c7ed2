import Lowering.Diagnostic
import Lowering.Log
import Lowering.Options
import Lowering.Gen.Layout
import Lowering.IR.Builder
import Lowering.Program.Basic

/-!
# State of a generation

What a `return`, a `break` or a variable sees at a point of the program is its activation: the
variables in scope, the type of the receiver, and where control leaves to.  Inlining a call with
a block parks the caller's activation with the block; a `yield` takes both up again.

* `Gen.Cause`, `Gen.Failure`: why generation stops, and where;
* `Gen.Variable`, `Gen.Activation`, `Gen.BlockFrame`, `Gen.FunctionState`, `Gen.MergeTarget`;
* `Gen.CallSite`: a call in the code, with what it means;
* `Gen.Context`, `Gen.State` and the computations `Gen` over them.
-/

namespace Lowering

open IR (Ty Value FuncId BlockId GlobalId InstId Build)

namespace Gen

/-! ### Failures -/

/-- What typing should have ruled out. -/
inductive Cause
  | noNilType
  | noInsertionPoint
  | undefinedVariable (name : String)
  | notAssignable (name : String)
  | invalidTarget (kind : String)
  | targetCount (values targets : Nat)
  | fieldOutsideMethod
  | fieldOnSelf (type : String)
  | noInstanceVariable (type name : String)
  | pointerOfValue (kind : String)
  | noTarget (call : String)
  | noSelf
  | missingReceiver (name : String)
  | missingArgument (name arg : String)
  | blockUnderflow
  | yieldWithoutBlock
  | breakOutside
  | noReturnSlot
  | noConversion (source target : String)
  | unknownConstant (id : ConstId)
  | unknownSymbol (name : String)
  | noSymbols
  | primitiveOutside
  | noPrimitiveReceiver
  | noArgument (name : String) (index : Nat)
  | returnsNothing (name : String)
  | notPointer (type : String)
  | noField (type field : String)
  | notInteger (type : String)
  | noNumericConversion (source target : String)
  | operandTypes (op : BinaryPrimitive) (lhs rhs : String)
  | notOnFloats (op : BinaryPrimitive)
  | nestingTooDeep
  deriving DecidableEq, Repr

end Gen

/-- The name of an operation on two operands, as messages show it. -/
def BinaryPrimitive.title : BinaryPrimitive → String
  | .add => "Add"
  | .sub => "Sub"
  | .mul => "Mul"
  | .div => "Div"
  | .rem => "Rem"
  | .eq => "Eq"
  | .ne => "Ne"
  | .lt => "Lt"
  | .le => "Le"
  | .gt => "Gt"
  | .ge => "Ge"
  | .and => "And"
  | .or => "Or"

namespace Gen

/-- A name between grave accents, as messages show it. -/
def marked (name : String) : String := "\x60" ++ name ++ "\x60"

/-- A cause in words. -/
def Cause.text : Cause → String
  | .noNilType => "type table has no Nil type"
  | .noInsertionPoint => "no insertion point"
  | .undefinedVariable name => "undefined variable " ++ marked name
  | .notAssignable name => marked name ++ " cannot be assigned"
  | .invalidTarget kind => "cannot assign to " ++ kind
  | .targetCount values targets =>
    "multiple assignment of " ++ toString values ++ " value(s) to " ++ toString targets ++
      " target(s)"
  | .fieldOutsideMethod => "instance variable outside of a method"
  | .fieldOnSelf type => "instance variable on " ++ marked "self" ++ " of type " ++ type
  | .noInstanceVariable type name => type ++ " has no instance variable " ++ marked name
  | .pointerOfValue kind => "pointerof(" ++ kind ++ ")"
  | .noTarget call => "call to " ++ marked call ++ " has no target"
  | .noSelf => "call needs " ++ marked "self" ++ " but none is in scope"
  | .missingReceiver name => "inlined " ++ marked name ++ " is missing its receiver"
  | .missingArgument name arg =>
    "inlined " ++ marked name ++ " is missing argument " ++ marked arg
  | .blockUnderflow => "block stack underflow"
  | .yieldWithoutBlock => "yield without a block"
  | .breakOutside => "break outside of a loop or block"
  | .noReturnSlot => "union return without a return slot"
  | .noConversion source target => "no conversion from " ++ source ++ " to " ++ target
  | .unknownConstant id => "unresolved constant " ++ toString id.index
  | .unknownSymbol name => "symbol :" ++ name ++ " missing from the symbol table"
  | .noSymbols => "program has no symbols"
  | .primitiveOutside => "primitive outside of a definition"
  | .noPrimitiveReceiver => "primitive needs a receiver"
  | .noArgument name index => marked name ++ " has no argument " ++ toString index
  | .returnsNothing name => marked name ++ " returns nothing"
  | .notPointer type => type ++ " is not a pointer type"
  | .noField type field => type ++ " has no field " ++ marked field
  | .notInteger type => type ++ " is not an integer type"
  | .noNumericConversion source target =>
    "no numeric conversion from " ++ source ++ " to " ++ target
  | .operandTypes op lhs rhs => op.title ++ " on " ++ lhs ++ " and " ++ rhs
  | .notOnFloats op => op.title ++ " is not defined on floats"
  | .nestingTooDeep => "inlined calls are nested too deeply"

/-- Why generation stops, and at which position of the program. -/
structure Failure where
  cause : Cause
  location : Option Location := none
  deriving DecidableEq, Repr

namespace Failure

/-- Give a position to a failure that has none. -/
def orAt (f : Failure) (location : Option Location) : Failure :=
  { f with location := f.location.or location }

/-- The failure as a diagnostic. -/
def diagnostic (f : Failure) : Diagnostic := .inconsistency f.cause.text f.location

@[simp] theorem orAt_location (f : Failure) (l : Option Location) :
    (f.orAt l).location = f.location.or l := rfl

theorem diagnostic_orAt (f : Failure) (l : Option Location) :
    (f.orAt l).diagnostic = f.diagnostic.orAt l := rfl

end Failure

/-! ### Activations -/

/-- A variable in scope: the address of its slot, or for a direct one the value itself. -/
structure Variable where
  ptr : Value
  type : TypeId
  direct : Bool := false
  deriving DecidableEq, Repr, Inhabited

/-- Variables by name; a later entry of a name hides an earlier one. -/
abbrev Scope := List (String × Variable)

/-- The position of a merge target. -/
structure TargetId where
  index : Nat
  deriving DecidableEq, Repr, Inhabited

/-- Where a `break` leaves to. -/
inductive BreakTarget
  /-- The end of the innermost loop; loops yield nil. -/
  | loop (exit : BlockId)
  /-- The end of the inlined call that the current block belongs to. -/
  | call (target : TargetId)
  deriving DecidableEq, Repr, Inhabited

/-- What the code at a point sees; without a return target, `return` leaves the function. -/
structure Activation where
  vars : Scope := []
  scope : Option TypeId := none
  returnTarget : Option TargetId := none
  breakTarget : Option BreakTarget := none
  deriving DecidableEq, Repr, Inhabited

/-- A block that waits to be inlined, with the activation it was written in. -/
structure BlockFrame where
  block : Block Node
  caller : Activation

/-- What belongs to the function being generated: its stack slots go into the alloca block, and
an address-held result is put together in the return slot. -/
structure FunctionState where
  func : FuncId
  allocaBlock : BlockId
  entryBlock : BlockId
  returnType : Option TypeId
  returnSlot : Option Value := none
  deriving DecidableEq, Repr, Inhabited

/-- A point reached by several jumps that each carry a value: in a slot, or without one in a
phi. -/
structure MergeTarget where
  block : BlockId
  type : Option TypeId
  slot : Option Value
  incoming : List (Value × BlockId) := []
  deriving DecidableEq, Repr, Inhabited

/-- A call instruction in the code of `caller` that was placed for a call of a definition; where
the definition takes a receiver, `selfType` is the type that it takes it as. -/
structure CallSite where
  caller : FuncId
  inst : InstId
  definition : Def
  selfType : Option TypeId

/-- A value with its static type. -/
structure TypedValue where
  value : Value
  type : Option TypeId
  deriving DecidableEq, Repr, Inhabited

/-! ### Computations -/

/-- What stays the same during a generation. -/
structure Context where
  program : Program
  debugInfo : Bool
  nil : TypeId
  /-- The entry function. -/
  main : FunctionState
  /-- The first block of the chain of constant initializers. -/
  constHead : BlockId
  /-- The symbols in order; the number of a symbol is its position. -/
  symbols : List String

/-- What changes during a generation. -/
structure State where
  builder : IR.Builder
  act : Activation
  fn : FunctionState
  /-- The definition whose function is being generated. -/
  definition : Option Def := none
  /-- The last block of the chain of constant initializers. -/
  constTail : BlockId
  /-- The pending blocks, innermost first. -/
  blocks : List BlockFrame := []
  targets : Array MergeTarget := #[]
  strings : List (String × GlobalId) := []
  symbolTable : Option GlobalId := none
  consts : List (ConstId × GlobalId) := []
  globals : List (String × GlobalId) := []
  runtime : List (String × FuncId) := []
  entryArgs : Option (GlobalId × GlobalId) := none
  /-- The calls of definitions in the code, latest first; they decide nothing. -/
  calls : List CallSite := []
  last : TypedValue
  log : Log := #[]

end Gen

/-- A step of generation, which keeps the state when it fails. -/
abbrev Gen := ReaderT Gen.Context (ExceptT Gen.Failure (StateM Gen.State))

namespace Gen

/-- Stop for a cause that has no position yet. -/
def fail (cause : Cause) : Gen α := throw { cause }

/-- The value, or else stop. -/
def orFail (cause : Cause) : Option α → Gen α
  | some a => return a
  | none => fail cause

/-- The outcome of a step, failure included. -/
def attempt (x : Gen α) : Gen (Except Failure α) := fun c s =>
  let (r, s) := x c s
  (.ok r, s)

/-- Go on with the outcome of an attempted step. -/
def resume : Except Failure α → Gen α
  | .ok a => return a
  | .error f => throw f

/-- A step of building. -/
def emit (b : Build α) : Gen α :=
  modifyGet fun s =>
    let (a, builder) := b.run s.builder
    (a, { s with builder })

instance (priority := low) : MonadLift Build Gen := ⟨emit⟩

/-- Note a record. -/
def note (level : Log.Level) (message : String) : Gen Unit :=
  modify fun s => { s with log := s.log.push ⟨level, message⟩ }

/-! ### Questions -/

/-- The types of the program. -/
def types : Gen TypeTable := return (← read).program.types

/-- The type of the nil value. -/
def nil : Gen TypeId := return (← read).nil

/-- The nil value. -/
def nilValue : Value := .i1 false

/-- The static type of a node; without one it is nil. -/
def typeOf (n : Node) : Gen TypeId := return n.type.getD (← nil)

/-- How values of a type are held. -/
def shape (t : TypeId) : Gen Shape := return (← types).shape t

/-- The type of the representation of a value. -/
def irType (t : TypeId) : Gen Ty := return (← types).irType t

/-- Whether a type is handled through addresses. -/
def isAddressHeld (t : TypeId) : Gen Bool := return (← types).isAddressHeld t

/-- Whether nothing placed now would run. -/
def isTerminated : Gen Bool := return (← get).builder.isTerminated

/-- The name of a type. -/
def typeName (t : TypeId) : Gen String := return (← types).name t

/-- The variable of a name. -/
def lookup? (name : String) : Gen (Option Variable) := return (← get).act.vars.lookup name

/-- The type of a result that has to be carried at all: nil does not. -/
def carried (t : Option TypeId) : Gen (Option TypeId) := do
  let ts ← types
  return t.filter fun t => !ts.isNil t

/-- The value of code that never runs. -/
def deadValue : Option TypeId → Gen Value
  | some t => do
    let ir ← irType t
    return if ← isAddressHeld t then .undef (.ptr ir) else .undef ir
  | none => return nilValue

/-! ### Placing -/

/-- Put a variable in scope. -/
def bind (name : String) (v : Variable) : Gen Unit :=
  modify fun s => { s with act := { s.act with vars := (name, v) :: s.act.vars } }

/-- A stack slot of the current function. -/
def alloca (t : Ty) (name : Option String := none) : Gen Value := do
  let fn := (← get).fn
  emit (Build.allocaAt fn.func fn.allocaBlock t name)

/-- The block where instructions are placed. -/
def currentBlock : Gen BlockId := do
  match (← get).builder.position with
  | some (_, b) => return b
  | none => fail .noInsertionPoint

/-- Add a block to the current function. -/
def appendBlock (name : String) : Gen BlockId := do
  emit (Build.appendBlock (← get).fn.func name)

/-- Go on at the end of a block of the current function. -/
def positionAt (b : BlockId) : Gen Unit := do
  emit (Build.positionAt (← get).fn.func b)

/-- Go back to a position. -/
def restorePosition : Option (FuncId × BlockId) → Gen Unit
  | some (f, b) => emit (Build.positionAt f b)
  | none => return ()

/-- Place something at the end of another block, and go back. -/
def emitIn (f : FuncId) (b : BlockId) (x : Gen α) : Gen α := do
  let saved := (← get).builder.position
  emit (Build.positionAt f b)
  let r ← attempt x
  restorePosition saved
  resume r

/-- Run a step under another activation, and go back to the current one however it ends. -/
def withActivation (act : Activation) (x : Gen α) : Gen α := do
  let saved := (← get).act
  modify fun s => { s with act }
  let r ← attempt x
  modify fun s => { s with act := saved }
  resume r

/-- The foreign function of a name, declared once. -/
def runtimeFunction (name : String) (params : List Ty) (ret : Ty) : Gen FuncId := do
  match (← get).runtime.lookup name with
  | some f => return f
  | none =>
    let params := params.zipIdx.map fun (type, i) =>
      ({ name := "arg" ++ toString i, type } : IR.Param)
    let f ← emit (Build.declareFunction name params ret .external false)
    modify fun s => { s with runtime := (name, f) :: s.runtime }
    return f

/-! ### Debug information -/

/-- Note the debug record of a function, when the module has debug information. -/
def noteSubprogram (name : String) (function : FuncId) (line : Nat) : Gen Unit :=
  emit <| modify fun b =>
    let debug := b.module.debug.map fun d =>
      { d with subprograms := d.subprograms.push { name, function, line } }
    { b with module := { b.module with debug } }

/-- Give the position of a node to what is placed while it is visited. -/
def atLocation (n : Node) (x : Gen α) : Gen α := do
  if (← read).debugInfo then
    let saved := (← get).builder.location
    match n.location.filter Location.isKnown with
    | some l => emit (Build.setLocation (some l))
    | none => pure ()
    let r ← attempt x
    emit (Build.setLocation saved)
    resume r
  else x

end Gen

end Lowering
