import Lowering.IR.Ty
import Lowering.Program.TypeTable

/-!
# Layout of source types

How values of the types of a program are held.  Objects are pointers to their record; inside a
record, a field that holds a single pointer is a pointer to bytes, so that records that refer to
themselves have a finite layout.

* `TypeTable.irType`, `TypeTable.recordType`, `TypeTable.fieldType`;
* `TypeTable.storageSize`, `TypeTable.payloadSize`, which do not look into records;
* `TypeTable.argType`, `TypeTable.returnType`;
* `Shape`, `TypeTable.shape`: the four ways of holding a value.
-/

namespace Lowering

open IR (Ty)

/-- The record of a string: its length and its bytes. -/
def stringRecord : Ty := .struct [.i32, .array .i8 0]

/-- The record of a hierarchy: the type id of the object, and the object. -/
def boxType : Ty := .struct [.i32, .bytePtr]

/-- The record of a tagged union: the type id of the member, and room for any member. -/
def taggedType (payload : Nat) : Ty := .struct [.i32, .array .i8 payload]

namespace TypeTable

variable (t : TypeTable)

/-- A type whose values are a single pointer. -/
def isSinglePointer (id : TypeId) : Bool := t.isPointerLike id || t.isNilable id

/-- The type of a field, given the types of values that are no single pointers. -/
def fieldTypeBy (value : TypeId → Ty) (id : TypeId) : Ty :=
  if t.isSinglePointer id then .bytePtr else value id

/-- The bytes that any of some types takes at most, given the types of values that are no single
pointers; at least one. -/
def payloadBy (value : TypeId → Ty) (members : List TypeId) : Nat :=
  (members.map fun m => if t.isSinglePointer m then Ty.pointerSize else (value m).size).foldl max 1

/-- The type of a value, through at most `n` references. -/
def irTypeWithin : Nat → TypeId → Ty
  | 0, _ => .void
  | n + 1, id =>
    match t.kind id with
    | .program | .nil | .bool => .i1
    | .char => .i8
    | .int bits => .int bits
    | .float double => if double then .double else .float
    | .symbol | .metaclass _ => .i32
    | .string => .ptr stringRecord
    | .heapClass _ _ fields | .record _ fields =>
      .ptr (.struct (fields.map fun f => t.fieldTypeBy (irTypeWithin n) f.type))
    | .pointer elem => .ptr (irTypeWithin n elem)
    | .union members =>
      match t.nilableMember id with
      | some member => irTypeWithin n member
      | none => taggedType (t.payloadBy (irTypeWithin n) members)
    | .hierarchy _ => boxType

/-- The type of a value. A chain of references that does not end at a record is no longer than
the table. -/
def irType (id : TypeId) : Ty := t.irTypeWithin (t.size + 1) id

/-- The type of a record field; a single pointer is a pointer to bytes. -/
def fieldType (id : TypeId) : Ty := t.fieldTypeBy t.irType id

/-- The record behind a type, through at most `n` hierarchies. -/
def recordTypeWithin : Nat → TypeId → Ty
  | 0, _ => .struct []
  | n + 1, id =>
    match t.kind id with
    | .heapClass _ _ fields | .record _ fields => .struct (fields.map fun f => t.fieldType f.type)
    | .string => stringRecord
    | .hierarchy base => recordTypeWithin n base
    | _ => .struct []

/-- The record that an object type points to. -/
def recordType (id : TypeId) : Ty := t.recordTypeWithin (t.size + 1) id

/-- The bytes of a value, found without looking into records. -/
def storageSize (id : TypeId) : Nat :=
  if t.isSinglePointer id then Ty.pointerSize else (t.irType id).size

/-- The bytes that any member of a union takes at most, at least one. -/
def payloadSize (id : TypeId) : Nat := t.payloadBy t.irType (t.members id)

/-- How a value crosses a call: an address-held one by reference. -/
def argType (id : TypeId) : Ty :=
  if t.isAddressHeld id then .ptr (t.irType id) else t.irType id

/-- The type of what a function returns. -/
def returnType : Option TypeId → Ty
  | some id => t.irType id
  | none => .void

end TypeTable

/-! ### Shapes -/

/-- How values of a type are held. -/
inductive Shape
  /-- One register value. -/
  | scalar
  /-- A type id and room for any member, held by address. -/
  | tagged (payload : Nat)
  /-- The pointer of a member, null for nil. -/
  | nilable (member : TypeId)
  /-- A type id and an object, held by address. -/
  | boxed (base : TypeId)
  deriving DecidableEq, Repr, Inhabited

namespace Shape

/-- Whether values are handled through their address. -/
def isAddressHeld : Shape → Bool
  | .tagged _ | .boxed _ => true
  | .scalar | .nilable _ => false

end Shape

/-- How values of a type are held. -/
def TypeTable.shape (t : TypeTable) (id : TypeId) : Shape :=
  match t.kind id with
  | .union _ =>
    match t.nilableMember id with
    | some member => .nilable member
    | none => .tagged (t.payloadSize id)
  | .hierarchy base => .boxed base
  | _ => .scalar

theorem TypeTable.shape_isAddressHeld (t : TypeTable) (id : TypeId) :
    (t.shape id).isAddressHeld = t.isAddressHeld id := by
  unfold shape isAddressHeld isUnion isNilable isHierarchy
  cases h : t.kind id <;> simp [Shape.isAddressHeld]
  cases t.nilableMember id <;> simp

end Lowering
