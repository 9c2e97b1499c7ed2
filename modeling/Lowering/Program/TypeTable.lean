/-!
# Type tables

The resolved types of a program.  The position of a type in the table is its runtime id, so a
member carries the same tag in every union that contains it.

* `TypeId`, `TypeKind`, `TypeInfo`, `TypeTable`;
* shape tests: `TypeTable.isObject`, `TypeTable.nilableMember`, `TypeTable.isAddressHeld`;
* the order of types: `TypeTable.isSubclassOf`, `TypeTable.implements`,
  `TypeTable.concreteSubtypes`, `TypeTable.runtimeIds`;
* `TypeTable.name`, the written name of a type.

Questions that follow references from type to type are bounded by the number of different
questions that can be asked of the table; a longer chain would ask one of them again.
-/

namespace Lowering

/-- The runtime id of a type: its position in the table. -/
structure TypeId where
  index : Nat
  deriving DecidableEq, Repr, Inhabited

/-- The written form of an id. -/
def TypeId.text (id : TypeId) : String := "#" ++ toString id.index

/-- A named field of a record. -/
structure Field where
  name : String
  type : TypeId
  deriving DecidableEq, Repr, Inhabited

/-- What a type is. -/
inductive TypeKind
  /-- The outermost scope, never passed as a receiver. -/
  | program
  | nil
  | bool
  | char
  | int (bits : Nat)
  | float (double : Bool)
  | symbol
  | string
  /-- A heap object referred to by a pointer. -/
  | heapClass (name : String) (parent : Option TypeId) (ivars : List Field)
  /-- A plain record, also referred to by a pointer. -/
  | record (name : String) (fields : List Field)
  | pointer (elem : TypeId)
  | union (members : List TypeId)
  /-- Some concrete subclass of `base`, held as a type id and a pointer. -/
  | hierarchy (base : TypeId)
  | metaclass (instanceType : TypeId)
  deriving DecidableEq, Repr, Inhabited

namespace TypeKind

/-- A class. -/
def isClass : TypeKind → Bool
  | .heapClass .. => true
  | _ => false

/-- A pointer type. -/
def isPointer : TypeKind → Bool
  | .pointer _ => true
  | _ => false

/-- An object type: its values are a single pointer to a record. -/
def isObject : TypeKind → Bool
  | .heapClass .. | .record .. | .string => true
  | _ => false

/-- The ids inside a description: fields first, then the parent of a class. -/
def referenced : TypeKind → List TypeId
  | .heapClass _ parent ivars => ivars.map Field.type ++ parent.toList
  | .record _ fields => fields.map Field.type
  | .pointer elem => [elem]
  | .union members => members
  | .hierarchy base => [base]
  | .metaclass instanceType => [instanceType]
  | _ => []

end TypeKind

/-- A type of the table; a type that is not allocated has no value at this point of the
compilation. -/
structure TypeInfo where
  kind : TypeKind
  allocated : Bool := true
  deriving DecidableEq, Repr, Inhabited

/-- The types of a program. -/
structure TypeTable where
  infos : Array TypeInfo := #[]
  deriving DecidableEq, Repr, Inhabited

namespace TypeTable

variable (t : TypeTable)

/-- The number of types. -/
def size : Nat := t.infos.size

/-- Whether an id belongs to the table. -/
def contains (id : TypeId) : Bool := decide (id.index < t.size)

/-- The ids of the table in order. -/
def ids : List TypeId := (List.range t.size).map TypeId.mk

/-- The table with one more type. -/
def push (info : TypeInfo) : TypeTable := ⟨t.infos.push info⟩

/-- The id that the next type gets. -/
def nextId : TypeId := ⟨t.size⟩

/-- The description of a type. -/
def info (id : TypeId) : TypeInfo := t.infos[id.index]?.getD ⟨.program, true⟩

/-- What a type is. -/
def kind (id : TypeId) : TypeKind := (t.info id).kind

/-- Whether values of the type can exist. -/
def allocated (id : TypeId) : Bool := (t.info id).allocated

/-- Say whether values of the type can exist. -/
def setAllocated (id : TypeId) (value : Bool) : TypeTable :=
  ⟨t.infos.modify id.index fun i => { i with allocated := value }⟩

/-- The first type of a certain kind. -/
def find? (p : TypeKind → Bool) : Option TypeId := t.ids.find? fun id => p (t.kind id)

/-- The first nil type. -/
def nil? : Option TypeId := t.find? (· == .nil)

/-- The first truth type. -/
def bool? : Option TypeId := t.find? (· == .bool)

/-- The first string type. -/
def string? : Option TypeId := t.find? (· == .string)

/-- The first scope type. -/
def program? : Option TypeId := t.find? (· == .program)

/-- The first integer type of a width. -/
def int? (bits : Nat) : Option TypeId := t.find? (· == .int bits)

/-! ### Shapes -/

/-- The nil type. -/
def isNil (id : TypeId) : Bool := t.kind id == .nil

/-- The truth type. -/
def isBool (id : TypeId) : Bool := t.kind id == .bool

/-- A union of types. -/
def isUnion (id : TypeId) : Bool :=
  match t.kind id with
  | .union _ => true
  | _ => false

/-- A class together with its subclasses. -/
def isHierarchy (id : TypeId) : Bool :=
  match t.kind id with
  | .hierarchy _ => true
  | _ => false

/-- A pointer type. -/
def isPointer (id : TypeId) : Bool := (t.kind id).isPointer

/-- An object type. -/
def isObject (id : TypeId) : Bool := (t.kind id).isObject

/-- A type with a distinguishable null state. -/
def isPointerLike (id : TypeId) : Bool := t.isObject id || t.isPointer id

/-- The members of a union; other types have none. -/
def members (id : TypeId) : List TypeId :=
  match t.kind id with
  | .union members => members
  | _ => []

/-- Whether a union has a member of a certain kind. -/
def hasMember (id : TypeId) (p : TypeKind → Bool) : Bool := (t.members id).any fun m => p (t.kind m)

/-- The other member of a union of nil and a type with a null state; such a union is stored
without a tag. -/
def nilableMember (id : TypeId) : Option TypeId :=
  match t.members id with
  | [a, b] =>
    let other := if t.isNil a then some b else if t.isNil b then some a else none
    other.filter t.isPointerLike
  | _ => none

/-- A union stored without a tag. -/
def isNilable (id : TypeId) : Bool := (t.nilableMember id).isSome

/-- A type whose values are handled through their address: a tagged union or a hierarchy. -/
def isAddressHeld (id : TypeId) : Bool := (t.isUnion id && !t.isNilable id) || t.isHierarchy id

/-- Whether a receiver of the type is passed at all. -/
def passedAsSelf (id : TypeId) : Bool :=
  match t.kind id with
  | .program | .metaclass _ => false
  | _ => true

/-! ### Subclasses and inclusion -/

/-- The parent of a class. -/
def parent (id : TypeId) : Option TypeId :=
  match t.kind id with
  | .heapClass _ parent _ => parent
  | _ => none

/-- Whether `ancestor` is among the first `n` types of the parent chain of a type. -/
def isSubclassWithin (ancestor : TypeId) : Nat → TypeId → Bool
  | 0, _ => false
  | n + 1, id => id == ancestor || (t.parent id).any (isSubclassWithin ancestor n)

/-- Whether `ancestor` is reached from a type by following parents. -/
def isSubclassOf (id ancestor : TypeId) : Bool := t.isSubclassWithin ancestor (t.size + 1) id

/-- The part of the question of inclusion that looks into `a`; `ask` answers the smaller ones. -/
def includedByKind (ask : TypeId → TypeId → Bool) (a b : TypeId) : Bool :=
  match t.kind a with
  | .heapClass .. => t.isSubclassOf a b
  | .hierarchy base => ask base b
  | .union members => !members.isEmpty && members.all (ask · b)
  | _ => false

/-- Whether every value of type `a` is a value of type `b`, by at most `n` nested questions. -/
def implementsWithin : Nat → TypeId → TypeId → Bool
  | 0, _, _ => false
  | n + 1, a, b =>
    if a = b then true
    else
      match t.kind b with
      | .hierarchy base => implementsWithin n a base
      | .union members =>
        members.any (implementsWithin n a) || t.includedByKind (implementsWithin n) a b
      | _ => t.includedByKind (implementsWithin n) a b

/-- Whether every value of type `a` is a value of type `b`. -/
def implements (a b : TypeId) : Bool := t.implementsWithin (t.size * t.size + 1) a b

/-- The concrete classes at or below a class, in order of id. -/
def concreteSubtypes (base : TypeId) : List TypeId :=
  t.ids.filter fun id => (t.kind id).isClass && t.isSubclassOf id base

/-- The runtime ids of a type, by at most `n` nested unions. -/
def runtimeIdsWithin : Nat → TypeId → List TypeId
  | 0, _ => []
  | n + 1, id =>
    match t.kind id with
    | .union members => members.flatMap (runtimeIdsWithin n)
    | .hierarchy base => t.concreteSubtypes base
    | _ => [id]

/-- The runtime ids that a value of a type may carry. -/
def runtimeIds (id : TypeId) : List TypeId := t.runtimeIdsWithin (t.size + 1) id

/-! ### Fields and names -/

/-- The position and type of a field of a record, through at most `n` hierarchies. -/
def fieldIndexWithin (name : String) : Nat → TypeId → Option (Nat × TypeId)
  | 0, _ => none
  | n + 1, id =>
    match t.kind id with
    | .heapClass _ _ fields | .record _ fields =>
      (fields.findIdx? (·.name == name)).bind fun i => fields[i]?.map fun f => (i, f.type)
    | .hierarchy base => fieldIndexWithin name n base
    | _ => none

/-- The position and type of a field of a record type. -/
def fieldIndex (id : TypeId) (name : String) : Option (Nat × TypeId) :=
  t.fieldIndexWithin name (t.size + 1) id

/-- The written name of a type, through at most `n` references. -/
def nameWithin : Nat → TypeId → String
  | 0, _ => ""
  | n + 1, id =>
    match t.kind id with
    | .program => "<Program>"
    | .nil => "Nil"
    | .bool => "Bool"
    | .char => "Char"
    | .int bits => "Int" ++ toString bits
    | .float double => if double then "Float64" else "Float32"
    | .symbol => "Symbol"
    | .string => "String"
    | .heapClass name _ _ | .record name _ => name
    | .pointer elem => "Pointer(" ++ nameWithin n elem ++ ")"
    | .union members => "(" ++ " | ".intercalate (members.map (nameWithin n)) ++ ")"
    | .hierarchy base => nameWithin n base ++ "+"
    | .metaclass instanceType => nameWithin n instanceType ++ ":Class"

/-- The written name of a type. -/
def name (id : TypeId) : String := t.nameWithin (t.size + 1) id

/-- The ids inside the description of a type. -/
def referenced (id : TypeId) : List TypeId := (t.kind id).referenced

end TypeTable

end Lowering
