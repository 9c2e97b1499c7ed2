import Lowering.Gen.Conversion

/-!
# Storage

Where the variables of a program live: locals in stack slots of the function, instance variables
in the record of the receiver, globals of the program in globals of the module, made when they are
first named.

* `Gen.declare`, `Gen.readVariable`, `Gen.selfValue?`;
* `Gen.fieldSlot`, `Gen.globalSlot`, `Gen.entryArguments`;
* `Gen.assignTarget`, `Gen.pointerTo`: the storage behind an expression.
-/

namespace Lowering

open IR (Ty Value GlobalId Build)

namespace Gen

/-! ### Locals -/

/-- Give a new slot of a type that admits nil its first value, once for each run of the
function. -/
def clearSlot (slot : Value) (t : TypeId) : Gen Unit := do
  let fn := (← get).fn
  let ts ← types
  match ts.shape t with
  | .tagged _ =>
    if (ts.members t).any ts.isNil then
      emitIn fn.func fn.allocaBlock do assign slot t (← nil) nilValue
    else return ()
  | .nilable _ => emitIn fn.func fn.allocaBlock (Build.store (.null (ts.irType t)) slot)
  | _ => return ()

/-- The variable of a name, with a new slot when there is none. -/
def declare (name : String) (t : TypeId) : Gen Variable := do
  match ← lookup? name with
  | some v => return v
  | none =>
    let slot ← alloca (← irType t) (some name)
    clearSlot slot t
    let v : Variable := { ptr := slot, type := t }
    bind name v
    return v

/-- The value of a variable as it is held. -/
def heldValue (name : String) (v : Variable) : Gen Value := do
  if v.direct || (← isAddressHeld v.type) then return v.ptr else Build.load v.ptr (some name)

/-- Read a variable as a value of a type. -/
def readVariable (name : String) (t : TypeId) : Gen Value := do
  let v ← orFail (.undefinedVariable name) (← lookup? name)
  let held ← heldValue name v
  convert held v.type t

/-- The receiver of the current method as a value of a type. -/
def implicitSelf (t : TypeId) : Gen Value := do
  let v ← orFail .noSelf (← lookup? "self")
  let held ← heldValue "self" v
  convert held v.type t

/-! ### Instance variables -/

/-- The object that the receiver of the current method is, with the type of its record. -/
def selfObject : Gen (Value × TypeId) := do
  let v ← orFail .fieldOutsideMethod (← lookup? "self")
  match ← shape v.type with
  | .boxed base => do
    let object ← convert v.ptr v.type base
    return (object, base)
  | .scalar => do
    let object ← if v.direct then pure v.ptr else Build.load v.ptr (some "self")
    return (object, v.type)
  | _ => fail (.fieldOnSelf (← typeName v.type))

/-- The address of a field of a record, as storage of its type. -/
def fieldOf (object : Value) (owner : TypeId) (name : String) (missing : Cause) :
    Gen (Value × TypeId) := do
  let (index, t) ← orFail missing ((← types).fieldIndex owner name)
  let raw ← Build.structGep object index
  let typed ← Build.bitcast raw (.ptr (← irType t))
  return (typed, t)

/-- The address of an instance variable of the receiver, as storage of its type. -/
def fieldSlot (name : String) : Gen (Value × TypeId) := do
  let (object, owner) ← selfObject
  fieldOf object owner name (.noInstanceVariable (← typeName owner) name)

/-- The value in storage as it is held. -/
def heldIn (ptr : Value) (t : TypeId) (name : String) : Gen Value := do
  if ← isAddressHeld t then return ptr else Build.load ptr (some name)

/-- Read an instance variable as a value of a type. -/
def readField (name : String) (t : TypeId) : Gen Value := do
  let (ptr, source) ← fieldSlot name
  let held ← heldIn ptr source name
  convert held source t

/-! ### Globals -/

/-- A new global with zero bits in it. -/
def zeroGlobal (name : String) (type : Ty) : Gen GlobalId := do
  let name := (← get).builder.module.uniqueGlobalName name
  Build.addGlobal { name, type, init := some (.null type), constant := false, linkage := .internal }

/-- The type of a global of the program; one that is not declared has the type it is used at. -/
def globalType (name : String) (used : TypeId) : Gen TypeId := do
  return ((← read).program.global? name).elim used GlobalDef.type

/-- The global of the module for a global of the program. -/
def globalSlot (name : String) (t : TypeId) : Gen GlobalId := do
  match (← get).globals.lookup name with
  | some g => return g
  | none =>
    let g ← zeroGlobal name (← irType t)
    modify fun s => { s with globals := (name, g) :: s.globals }
    return g

/-- Read a global of the program as a value of a type. -/
def readGlobal (name : String) (t : TypeId) : Gen Value := do
  let source ← globalType name t
  let g ← globalSlot name source
  let held ← heldIn (.global g) source name
  convert held source t

/-- The globals that hold the arguments of the entry function, so that every function can read
them; the entry function fills them before anything else runs. -/
def entryArguments : Gen (GlobalId × GlobalId) := do
  match (← get).entryArgs with
  | some pair => return pair
  | none =>
    let argc ← zeroGlobal "argc" .i32
    let argv ← zeroGlobal "argv" (.ptr .bytePtr)
    let main := (← read).main
    emitIn main.func main.allocaBlock do
      Build.store (.param 0) (.global argc)
      Build.store (.param 1) (.global argv)
    modify fun s => { s with entryArgs := some (argc, argv) }
    return (argc, argv)

/-- The number of arguments of the program. -/
def argumentCount : Gen Value := do
  let (argc, _) ← entryArguments
  Build.load (.global argc) (some "argc")

/-- The arguments of the program. -/
def argumentVector : Gen Value := do
  let (_, argv) ← entryArguments
  Build.load (.global argv) (some "argv")

/-! ### Storage behind an expression -/

/-- The storage that an assignment to an expression writes, with its type. -/
def assignTarget (n : Node) : Gen (Value × TypeId) := do
  match n.kind with
  | .var name =>
    let v ← declare name (← typeOf n)
    if v.direct then fail (.notAssignable name) else return (v.ptr, v.type)
  | .instanceVar name => fieldSlot name
  | .global name =>
    let t ← globalType name (← typeOf n)
    let g ← globalSlot name t
    return (.global g, t)
  | kind => fail (.invalidTarget kind.name)

/-- The slot of a variable; a variable that is a register value moves into one. -/
def slotOf (name : String) (t : TypeId) : Gen Value := do
  let v ← declare name t
  if v.direct then
    let slot ← alloca (← irType v.type) (some name)
    Build.store v.ptr slot
    bind name { ptr := slot, type := v.type }
    return slot
  else return v.ptr

/-- The address of the storage behind an expression. -/
def addressOf (n : Node) : Gen Value := do
  match n.kind with
  | .var name => slotOf name (← typeOf n)
  | .instanceVar name => return (← fieldSlot name).1
  | .global name =>
    let t ← globalType name (← typeOf n)
    return .global (← globalSlot name t)
  | kind => fail (.pointerOfValue kind.name)

/-- The address of the storage behind an expression, as a pointer of a type. -/
def pointerTo (n : Node) (t : TypeId) : Gen Value := do
  let ptr ← addressOf n
  coerce ptr (← irType t)

end Gen

end Lowering
