import Lowering.Gen.Arithmetic
import Lowering.Gen.Interning
import Lowering.Gen.Storage
import Lowering.Text.Quoted

/-!
# Primitive bodies

A primitive body takes the receiver and the arguments straight from the parameters of the function
and makes a value in the shape of the return type.  Fresh memory is zero.

* `Gen.receiver`, `Gen.argument`, `Gen.returned`: what a body works on;
* `Gen.scaled`, `Gen.zeroFill`: sizes and fresh memory;
* `Gen.primitive`: the body of each primitive.
-/

namespace Lowering

open IR (Ty Value Build)

/-- A name with the value of its one field, as records show it. -/
def withField (name field value : String) : String :=
  name ++ " \x7b " ++ field ++ ": " ++ value ++ " \x7d"

/-- The name of a primitive, as records show it. -/
def Primitive.title : Primitive → String
  | .binary op => withField "Binary" "op" op.title
  | .convert => "Convert"
  | .allocate => "Allocate"
  | .structAlloc => "StructAlloc"
  | .structGet field => withField "StructGet" "field" (Text.quoted field)
  | .structSet field => withField "StructSet" "field" (Text.quoted field)
  | .pointerMalloc => "PointerMalloc"
  | .pointerRealloc => "PointerRealloc"
  | .pointerGetValue => "PointerGetValue"
  | .pointerSetValue => "PointerSetValue"
  | .pointerAdd => "PointerAdd"
  | .pointerCast => "PointerCast"
  | .pointerCopyFrom => "PointerCopyFrom"
  | .pointerAddress => "PointerAddress"
  | .symbolToString => "SymbolToS"

namespace Gen

/-! ### Operands -/

/-- The receiver and its type. -/
def receiver : Gen (Value × TypeId) := do
  let v ← orFail .noPrimitiveReceiver (← lookup? "self")
  return (v.ptr, v.type)

/-- An argument and its type. -/
def argument (d : Def) (index : Nat) : Gen (Value × TypeId) := do
  let v ← match d.args[index]? with
    | some a => lookup? a.name
    | none => pure none
  let v ← orFail (.noArgument d.name index) v
  return (v.ptr, v.type)

/-- The return type. -/
def returned (d : Def) : Gen TypeId := orFail (.returnsNothing d.name) d.type

/-- What a pointer type points to. -/
def elementOf (t : TypeId) : Gen TypeId := do
  match (← types).kind t with
  | .pointer elem => return elem
  | _ => fail (.notPointer (← typeName t))

/-- A field of the receiver, as storage of its type. -/
def receiverField (field : String) : Gen (Value × TypeId) := do
  let (object, t) ← receiver
  fieldOf object t field (.noField (← typeName t) field)

/-! ### Memory -/

/-- The bytes that a number of elements takes, at least one for each. -/
def scaled (count : Value) (elem : TypeId) : Gen Value := do
  let size := max (← irType elem).size 1
  Build.binary .mul count (.i64 size)

/-- Make memory zero. -/
def zeroFill (ptr bytes : Value) : Gen Unit := do
  let memset ← runtimeFunction "memset" [.bytePtr, .i8, .i64] .bytePtr
  let raw ← Build.bitcast ptr .bytePtr
  let _ ← Build.call memset [raw, .i8 0, bytes]

/-- A fresh object of the return type. -/
def allocateObject (d : Def) : Gen Value := do
  let body := (← types).recordType (← returned d)
  let object ← Build.malloc body
  zeroFill object (.i64 body.size)
  return object

/-- Fresh memory for a number of elements. -/
def allocateElements (d : Def) : Gen Value := do
  let elem ← elementOf (← returned d)
  let (count, countType) ← argument d 0
  let count ← toInt64 count countType
  let ptr ← Build.arrayMalloc (← irType elem) count
  let bytes ← scaled count elem
  zeroFill ptr bytes
  return ptr

/-- The memory of a pointer in another size. -/
def reallocateElements (d : Def) : Gen Value := do
  let (ptr, t) ← receiver
  let elem ← elementOf t
  let (count, countType) ← argument d 0
  let count ← toInt64 count countType
  let bytes ← scaled count elem
  let realloc ← runtimeFunction "realloc" [.bytePtr, .i64] .bytePtr
  let raw ← Build.bitcast ptr .bytePtr
  let grown ← Build.call realloc [raw, bytes]
  Build.bitcast grown (← irType t)

/-- Copy a number of elements to where the receiver points. -/
def copyElements (d : Def) : Gen Value := do
  let (dest, t) ← receiver
  let elem ← elementOf t
  let (source, _) ← argument d 0
  let (count, countType) ← argument d 1
  let count ← toInt64 count countType
  let bytes ← scaled count elem
  let memcpy ← runtimeFunction "memcpy" [.bytePtr, .bytePtr, .i64] .bytePtr
  let dst ← Build.bitcast dest .bytePtr
  let src ← Build.bitcast source .bytePtr
  let _ ← Build.call memcpy [dst, src, bytes]
  return dest

/-! ### Bodies -/

/-- The body of a primitive. -/
def primitiveBody (d : Def) : Primitive → Gen Value
  | .binary op => do
    let (lhs, lhsType) ← receiver
    let (rhs, rhsType) ← argument d 0
    combine op lhs lhsType rhs rhsType d.type
  | .convert => do
    let (value, source) ← receiver
    numericCast value source (← returned d)
  | .allocate | .structAlloc => allocateObject d
  | .structGet field => do
    let (ptr, t) ← receiverField field
    heldIn ptr t field
  | .structSet field => do
    let (object, owner) ← receiver
    let (value, source) ← argument d 0
    let (ptr, t) ← fieldOf object owner field (.noField (← typeName owner) field)
    assign ptr t source value
    return value
  | .pointerMalloc => allocateElements d
  | .pointerRealloc => reallocateElements d
  | .pointerGetValue => do
    let (ptr, t) ← receiver
    heldIn ptr (← elementOf t) "value"
  | .pointerSetValue => do
    let (ptr, t) ← receiver
    let elem ← elementOf t
    let (value, source) ← argument d 0
    assign ptr elem source value
    return value
  | .pointerAdd => do
    let (ptr, _) ← receiver
    let (offset, offsetType) ← argument d 0
    let offset ← toInt64 offset offsetType
    Build.gep ptr [offset]
  | .pointerCast => do
    let (ptr, _) ← receiver
    Build.bitcast ptr (← irType (← returned d))
  | .pointerCopyFrom => copyElements d
  | .pointerAddress => do
    let (ptr, _) ← receiver
    Build.ptrToInt ptr .i64
  | .symbolToString => do
    let (number, _) ← receiver
    symbolText number

/-- The value of a primitive in the definition whose function is being generated. -/
def primitive (op : Primitive) : Gen Value := do
  let d ← orFail .primitiveOutside (← get).definition
  note .trace ("primitive " ++ op.title ++ " in " ++ d.name)
  primitiveBody d op

end Gen

end Lowering
