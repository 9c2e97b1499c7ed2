import Lowering.Program.Basic

/-!
# Drafts of programs

A program put together step by step.  A draft begins with the standard types, numbers its nodes in
the order in which they are made, and keeps definitions and constants in order.

* `Draft`, `Draft.new`, `Drafting`;
* the standard types: `Draft.nilType`, `Draft.intType` and others, with `Draft.new_kind`;
* steps that add types, nodes, definitions, constants and globals;
* `Draft.program`: the finished program.
-/

namespace Lowering

/-- A program that is being put together. -/
structure Draft where
  types : TypeTable
  defs : List Def := []
  consts : List ConstDef := []
  globals : List GlobalDef := []
  /-- The number of the next node. -/
  nextNode : Nat := 0

/-- A step of putting a program together. -/
abbrev Drafting := StateM Draft

namespace Draft

/-! ### Standard types -/

/-- The kinds of the types that every draft begins with. -/
def standardKinds : List TypeKind :=
  [.program, .nil, .bool, .char, .int 32, .int 64, .float true, .symbol, .string]

/-- A draft with nothing but the standard types. -/
def new : Draft := { types := ⟨(standardKinds.map fun kind => { kind }).toArray⟩ }

/-- The outermost scope. -/
def programType : TypeId := ⟨0⟩

/-- The type of nil. -/
def nilType : TypeId := ⟨1⟩

/-- The type of truth values. -/
def boolType : TypeId := ⟨2⟩

/-- The type of chars. -/
def charType : TypeId := ⟨3⟩

/-- The type of integers of 32 bits. -/
def intType : TypeId := ⟨4⟩

/-- The type of integers of 64 bits. -/
def longType : TypeId := ⟨5⟩

/-- The type of floating-point numbers. -/
def floatType : TypeId := ⟨6⟩

/-- The type of symbols. -/
def symbolType : TypeId := ⟨7⟩

/-- The type of strings. -/
def stringType : TypeId := ⟨8⟩

/-- The standard types in order. -/
def standardTypes : List TypeId :=
  [programType, nilType, boolType, charType, intType, longType, floatType, symbolType, stringType]

theorem new_kind : standardTypes.map new.types.kind = standardKinds := by decide

/-! ### Types -/

/-- A new type. -/
def addType (kind : TypeKind) : Drafting TypeId :=
  modifyGet fun d => (d.types.nextId, { d with types := d.types.push { kind } })

/-- A union of some types; one that is there already is not made again. -/
def union (members : List TypeId) : Drafting TypeId := do
  let types := (← get).types
  match types.ids.find? fun id => types.isUnion id && types.members id == members with
  | some id => return id
  | none => addType (.union members)

/-- Say whether values of a type can exist. -/
def setAllocated (id : TypeId) (value : Bool) : Drafting Unit :=
  modify fun d => { d with types := d.types.setAllocated id value }

/-! ### Nodes -/

/-- A new node. -/
def node (kind : NodeKind Node) (type : Option TypeId) : Drafting Node :=
  modifyGet fun d =>
    ({ id := d.nextNode, kind, type }, { d with nextNode := d.nextNode + 1 })

/-- Nil. -/
def nil : Drafting Node := node .nilLiteral nilType

/-- A truth value. -/
def bool (value : Bool) : Drafting Node := node (.boolLiteral value) boolType

/-- An integer of 32 bits. -/
def int (value : Int) : Drafting Node := node (.intLiteral value) intType

/-- An integer of 64 bits. -/
def long (value : Int) : Drafting Node := node (.intLiteral value) longType

/-- A floating-point number. -/
def float (value : Binary64) : Drafting Node := node (.floatLiteral value) floatType

/-- A char. -/
def char (value : UInt8) : Drafting Node := node (.charLiteral value) charType

/-- A string. -/
def string (value : String) : Drafting Node := node (.stringLiteral value) stringType

/-- A symbol. -/
def symbol (value : String) : Drafting Node := node (.symbolLiteral value) symbolType

/-- A variable. -/
def var (name : String) (type : TypeId) : Drafting Node := node (.var name) type

/-- An assignment, of the type of its value. -/
def assign (target value : Node) : Drafting Node := node (.assign target value) value.type

/-- An assignment to a variable of a type. -/
def assignVar (name : String) (type : TypeId) (value : Node) : Drafting Node := do
  let target ← var name type
  assign target value

/-- An assignment of several values. -/
def multiAssign (targets values : List Node) : Drafting Node :=
  node (.multiAssign targets values) nilType

/-- A reference to a constant, of the type of its value. -/
def constRef (id : ConstId) : Drafting Node := do
  let type := ((← get).consts[id.index]?).bind fun c => c.value.type
  node (.const id) type

/-- Expressions in sequence, of the type of the last one. -/
def sequence (nodes : List Node) : Drafting Node :=
  node (.expressions nodes) (nodes.getLast?.bind Node.type)

/-- A loop. -/
def loop (cond : Node) (body : Option Node) (runOnce : Bool) : Drafting Node :=
  node (.loop cond body runOnce) nilType

/-- A type test. -/
def isA (value : Node) (target : TypeId) : Drafting Node := node (.isA value target) boolType

/-- A disjunction of truths. -/
def simpleOr (left right : Node) : Drafting Node := node (.simpleOr left right) boolType

/-- The number of arguments of the program. -/
def argc : Drafting Node := node .argc intType

/-! ### Definitions -/

/-- Add a definition. -/
def addDef (def_ : Def) : Drafting DefId :=
  modifyGet fun d => (⟨d.defs.length⟩, { d with defs := d.defs ++ [def_] })

/-- A definition whose body comes later, so that it can call itself. -/
def declare (name : String) (owner : TypeId) (args : List Arg) (type : Option TypeId) :
    Drafting DefId :=
  addDef { name, owner, args, type }

/-- Give a definition its body. -/
def defineBody (id : DefId) (body : Node) : Drafting Unit :=
  modify fun d => { d with defs := d.defs.modify id.index fun f => { f with body := some body } }

/-- A definition with its body. -/
def define (name : String) (owner : TypeId) (args : List Arg) (type : Option TypeId)
    (body : Node) : Drafting DefId := do
  let id ← declare name owner args type
  defineBody id body
  return id

/-- A definition of the outermost scope. -/
def function (name : String) (args : List Arg) (type : Option TypeId) (body : Node) :
    Drafting DefId :=
  define name programType args type body

/-- A definition whose body is a fixed operation. -/
def primitive (name : String) (owner : TypeId) (args : List Arg) (type : Option TypeId)
    (op : Primitive) : Drafting DefId := do
  let body ← node (.primitive op) type
  define name owner args type body

/-- A foreign function. -/
def foreign (name realName : String) (args : List Arg) (type : Option TypeId) (varargs : Bool) :
    Drafting DefId :=
  addDef { name, owner := programType, args, type, external := some { realName, varargs } }

/-- Add a constant. -/
def constant (name : String) (value : Node) : Drafting ConstId :=
  modifyGet fun d => (⟨d.consts.length⟩, { d with consts := d.consts ++ [{ name, value }] })

/-- Add a global. -/
def global (name : String) (type : TypeId) : Drafting Unit :=
  modify fun d => { d with globals := d.globals ++ [{ name, type }] }

/-- The finished program. -/
def program (d : Draft) (root : Node) : Program :=
  { types := d.types, defs := d.defs, consts := d.consts, globals := d.globals, root }

end Draft

end Lowering
