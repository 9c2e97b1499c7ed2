import Lowering.Gen.Flow
import Lowering.Gen.Storage

/-!
# Generated functions

A definition becomes one function for each receiver type, made when a call first needs it.  The
function starts with the block of its stack slots; address-held parameters arrive by reference and
are copied, so that a body never writes into the storage of its caller.

* `Gen.selfType?`: the receiver type inside a definition;
* `Gen.parameterScope`: the variables that parameters become;
* `Gen.functionOf`: the function of a definition;
* `Gen.callFunction`: a call of it.
-/

namespace Lowering

open IR (Ty Value FuncId BlockId Build)

namespace Gen

/-- The type that the receiver has inside a definition, unless the definition takes none. -/
def selfType? (ts : TypeTable) (d : Def) (receiver : Option TypeId) : Option TypeId :=
  let held := match ts.kind d.owner with
    | .program => none
    | .heapClass .. | .hierarchy _ | .metaclass _ => some d.owner
    | _ => some (receiver.getD d.owner)
  held.filter ts.passedAsSelf

/-- The definition that a call resolves to. -/
def targetOf (call : String) (id : DefId) : Gen Def := do
  orFail (.noTarget call) ((← read).program.def? id)

/-! ### Parameters -/

/-- A variable that holds a copy of the value at an address. -/
def ownCopy (name : String) (t : TypeId) (addr : Value) : Gen Variable := do
  let slot ← alloca (← irType t) (some name)
  copyHeld slot addr
  return { ptr := slot, type := t }

/-- The variable that a receiver becomes. -/
def receiverVariable (t : TypeId) (value : Value) : Gen Variable := do
  if ← isAddressHeld t then ownCopy "self" t value
  else return { ptr := value, type := t, direct := true }

/-- The variable that an argument becomes. -/
def argumentVariable (name : String) (t : TypeId) (value : Value) : Gen Variable := do
  if ← isAddressHeld t then ownCopy name t value
  else
    let slot ← alloca (← irType t) (some name)
    storeCoerced value slot
    return { ptr := slot, type := t }

/-- The variables of some parameters, on top of those in scope. -/
def argumentScope (d : Def) (vars : Scope) : List Arg → List Value → Gen Scope
  | [], _ => return vars
  | a :: _, [] => fail (.missingArgument d.name a.name)
  | a :: args, value :: values => do
    let v ← argumentVariable a.name a.type value
    argumentScope d ((a.name, v) :: vars) args values

/-- The variables of the parameters of a definition. -/
def parameterScope (d : Def) (selfType : Option TypeId) (values : List Value) : Gen Scope := do
  match selfType, values with
  | some _, [] => fail (.missingReceiver d.name)
  | some t, value :: values => do
    let v ← receiverVariable t value
    argumentScope d [("self", v)] d.args values
  | none, values => argumentScope d [] d.args values

/-- The names and types of the parameters of a definition. -/
def parameters (d : Def) (selfType : Option TypeId) : List (String × TypeId) :=
  (selfType.map fun t => ("self", t)).toList ++ d.args.map fun a => (a.name, a.type)

/-- The variables of a primitive: the parameters themselves. -/
def primitiveScope (d : Def) (selfType : Option TypeId) : Scope :=
  ((parameters d selfType).zipIdx.map fun ((name, t), i) =>
    (name, { ptr := .param i, type := t, direct := true })).reverse

/-- The activation in which the body of a function starts. -/
def functionActivation (d : Def) (selfType : Option TypeId) : Gen Activation := do
  let vars ←
    if d.isPrimitive then pure (primitiveScope d selfType)
    else
      let values := (List.range (parameters d selfType).length).map Value.param
      parameterScope d selfType values
  return { vars, scope := selfType }

/-! ### Functions -/

/-- Generate the body of a definition and return its value. The value of a primitive has the
shape of the return type. -/
def functionBody (visit : Visitor) (d : Def) : Gen Unit := do
  let (value, source) ← operand visit d.body
  if ← isTerminated then return ()
  else returnFromFunction value (if d.isPrimitive then d.type.getD source else source)

/-- Declare the function of a definition. -/
def declareFunction (name : String) (d : Def) (selfType : Option TypeId) : Gen FuncId := do
  let ts ← types
  let params := (parameters d selfType).map fun (name, t) =>
    ({ name, type := ts.argType t } : IR.Param)
  let linkage : IR.Linkage := if d.external.isSome then .external else .internal
  let varargs := d.external.any External.varargs
  let func ← Build.declareFunction name params (ts.returnType d.type) linkage varargs
  noteSubprogram name func ((d.location.filter Location.isKnown).elim 0 Location.line)
  return func

/-- Start a function: nothing of the one around it is in sight. -/
def enterFunction (func : FuncId) (d : Def) : Gen Unit := do
  let allocaBlock ← Build.appendBlock func "alloca"
  let entryBlock ← Build.appendBlock func "entry"
  let fn : FunctionState := { func, allocaBlock, entryBlock, returnType := d.type }
  modify fun s => { s with fn, blocks := [], definition := some d }
  Build.positionAt func entryBlock
  match d.type with
  | some t =>
    if ← isAddressHeld t then
      let slot ← alloca (← irType t) (some "return")
      modify fun s => { s with fn := { s.fn with returnSlot := some slot } }
  | none => return ()

/-- Run a step away from the current function, and go back to it however the step ends. -/
def aside (x : Gen α) : Gen α := do
  let saved ← get
  let r ← attempt x
  modify fun s =>
    { s with fn := saved.fn, blocks := saved.blocks, definition := saved.definition }
  restorePosition saved.builder.position
  resume r

/-- Generate the code of a declared function. -/
def fillFunction (visit : Visitor) (func : FuncId) (d : Def) (selfType : Option TypeId) :
    Gen Unit :=
  aside do
    enterFunction func d
    let fn := (← get).fn
    let r ← attempt do
      let act ← functionActivation d selfType
      withActivation act (functionBody visit d)
    Build.positionAt func fn.allocaBlock
    Build.br fn.entryBlock
    resume r

/-- Make the function of a definition; a foreign one is only declared. -/
def makeFunction (visit : Visitor) (name : String) (d : Def) (selfType : Option TypeId) :
    Gen FuncId := do
  let func ← declareFunction name d selfType
  if d.external.isSome then
    note .debug ("declared external " ++ name)
  else
    note .debug ("generating " ++ name)
    fillFunction visit func d selfType
  return func

/-- The function of a definition for a receiver type. -/
def functionOf (visit : Visitor) (d : Def) (selfType : Option TypeId) : Gen FuncId := do
  let name := d.mangledName (← types) selfType
  match (← get).builder.module.findFunction name with
  | some func => return func
  | none => makeFunction visit name d selfType

/-! ### Calls -/

/-- Arguments coerced to the types of the parameters that there are. -/
def coerceAll : List Ty → List Value → Gen (List Value)
  | t :: ts, value :: values => do
    let value ← coerce value t
    return value :: (← coerceAll ts values)
  | _, values => return values

/-- The result of a call with its type; an address-held one moves into a slot. -/
def callResult (value : Value) : Option TypeId → Gen (Value × TypeId)
  | none => return (nilValue, ← nil)
  | some t => do
    if ← isAddressHeld t then
      let slot ← alloca (← irType t)
      Build.store value slot
      return (slot, t)
    else return (value, t)

/-- Note for which definition a call was placed, unless it never runs and was not placed. -/
def noteCall (d : Def) (selfType : Option TypeId) : Value → Gen Unit
  | .inst inst => modify fun s =>
    { s with calls := ⟨s.fn.func, inst, d, selfType⟩ :: s.calls }
  | _ => return ()

/-- Call the function of a definition with arguments in the shape of its parameters. -/
def callFunction (visit : Visitor) (d : Def) (selfType : Option TypeId) (args : List Value) :
    Gen (Value × TypeId) := do
  let func ← functionOf visit d selfType
  let params := ((← get).builder.module.function func).params.map IR.Param.type
  let args ← coerceAll params args
  let value ← Build.call func args
  noteCall d selfType value
  callResult value d.type

end Gen

end Lowering
