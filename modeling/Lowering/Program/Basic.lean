import Lowering.Diagnostic
import Lowering.Log
import Lowering.Program.Node

/-!
# Programs

A fully typed program: its types, every definition that a call can reach, the constants and
globals, the declared symbols and the root expression.

* `Def`, `Constant`, `GlobalVar`, `Program`;
* `Def.mangledName`, the symbol of a generated function;
* `Program.nodes`, `Program.symbolSet`;
* `Program.review`: every cross reference that generation follows, checked in order, and
  `Program.validate`.
-/

namespace Lowering

/-- A parameter. For a foreign definition an `out` parameter receives the address of the caller's
variable, and its type is the pointer type. -/
structure Arg where
  name : String
  type : TypeId
  out : Bool := false
  deriving DecidableEq, Repr, Inhabited

/-- The foreign function behind a definition. -/
structure External where
  realName : String
  varargs : Bool := false
  deriving DecidableEq, Repr, Inhabited

/-- A definition; without a return type it returns nothing. -/
structure Def where
  name : String
  owner : TypeId
  args : List Arg := []
  type : Option TypeId := none
  body : Option Node := none
  external : Option External := none
  location : Option Location := none
  deriving BEq

/-- A constant of the whole program. -/
structure ConstDef where
  name : String
  value : Node
  deriving BEq

/-- A global variable. -/
structure GlobalDef where
  name : String
  type : TypeId
  deriving DecidableEq, Repr, Inhabited

/-- A typed program. -/
structure Program where
  types : TypeTable
  defs : List Def := []
  consts : List ConstDef := []
  globals : List GlobalDef := []
  symbols : List String := []
  root : Option Node := none
  filename : Option String := none
  deriving BEq

/-! ### Definitions -/

namespace Def

/-- The operation that makes up the body, if the body is one. -/
def primitive? (d : Def) : Option Primitive :=
  match d.body with
  | some ⟨_, .primitive op, _, _⟩ => some op
  | _ => none

/-- Whether the body is a fixed operation. -/
def isPrimitive (d : Def) : Bool := d.primitive?.isSome

/-- The part of a symbol that names the receiver type or the owner. -/
def ownerName (d : Def) (types : TypeTable) (selfType : Option TypeId) : String :=
  match selfType.filter types.passedAsSelf with
  | some t => types.name t ++ "#"
  | none => if types.kind d.owner = .program then "" else types.name d.owner ++ "::"

/-- The symbol of the function generated for a definition and a receiver type. -/
def mangledName (d : Def) (types : TypeTable) (selfType : Option TypeId) : String :=
  match d.external with
  | some e => e.realName
  | none =>
    let base := d.ownerName types selfType ++ d.name
    if d.args.isEmpty then base
    else base ++ "<" ++ ", ".intercalate (d.args.map fun a => types.name a.type) ++ ">"

end Def

/-! ### Symbols -/

/-- A text put in its place in an ascending list, once. -/
def insertSorted (s : String) : List String → List String
  | [] => [s]
  | t :: ts => if s < t then s :: t :: ts else if s = t then t :: ts else t :: insertSorted s ts

namespace Program

/-- A definition by its id. -/
def def? (p : Program) (id : DefId) : Option Def := p.defs[id.index]?

/-- A constant by its id. -/
def const? (p : Program) (id : ConstId) : Option ConstDef := p.consts[id.index]?

/-- The first global of a name. -/
def global? (p : Program) (name : String) : Option GlobalDef := p.globals.find? (·.name == name)

/-- Every node: those of the root, of the bodies, and of the constants. -/
def nodes (p : Program) : List Node :=
  Node.preorderOption p.root ++ p.defs.flatMap (fun d => Node.preorderOption d.body) ++
    p.consts.flatMap (fun c => c.value.preorder)

/-- The text of a symbol literal. -/
def symbolOf? : NodeKind Node → Option String
  | .symbolLiteral value => some value
  | _ => none

/-- The declared symbols and those of the literals, ascending and without repetition. -/
def symbolSet (p : Program) : List String :=
  (p.symbols ++ p.nodes.filterMap fun n => symbolOf? n.kind).foldr insertSorted []

end Program

/-! ### Review -/

/-- A cross reference that leads nowhere, or a union of nothing. -/
inductive Flaw
  | unknownType (subject : String) (type : TypeId) (location : Option Location)
  | emptyUnion (type : TypeId)
  | unknownTarget (call : String) (target : DefId) (location : Option Location)
  | unknownConstant (id : ConstId) (location : Option Location)
  deriving DecidableEq, Repr

namespace Flaw

/-- What is wrong. -/
def text : Flaw → String
  | .unknownType subject type _ => subject ++ " references unknown type " ++ type.text
  | .emptyUnion type => "union " ++ type.text ++ " has no members"
  | .unknownTarget call target _ =>
    "call " ++ call ++ " targets unknown def " ++ toString target.index
  | .unknownConstant id _ => "unresolved constant " ++ toString id.index

/-- Where it is. -/
def location : Flaw → Option Location
  | .unknownType _ _ l => l
  | .emptyUnion _ => none
  | .unknownTarget _ _ l => l
  | .unknownConstant _ l => l

/-- The flaw as a diagnostic. -/
def diagnostic (f : Flaw) : Diagnostic := .inconsistency f.text f.location

end Flaw

/-- What a review notes: something to warn of, or a flaw. -/
inductive Remark
  | warning (text : String)
  | flaw (f : Flaw)
  deriving DecidableEq, Repr

/-- The flaw of a remark. -/
def Remark.flaw? : Remark → Option Flaw
  | .flaw f => some f
  | .warning _ => none

namespace Program

/-- The remark that a type does not exist. -/
def reviewType (p : Program) (subject : String) (location : Option Location) (type : TypeId) :
    List Remark :=
  if p.types.contains type then [] else [.flaw (.unknownType subject type location)]

/-- Remarks on the description of a type. -/
def reviewInfo (p : Program) (id : TypeId) : List Remark :=
  (p.types.referenced id).flatMap (p.reviewType ("type " ++ id.text) none) ++
    (if p.types.kind id = .union [] then [.flaw (.emptyUnion id)] else [])

/-- Remarks on the head of a definition. -/
def reviewDef (p : Program) (d : Def) : List Remark :=
  p.reviewType ("def " ++ d.name) d.location d.owner ++
    d.args.flatMap (fun a =>
      p.reviewType ("argument " ++ a.name ++ " of " ++ d.name) d.location a.type) ++
    d.type.toList.flatMap (p.reviewType ("def " ++ d.name) d.location) ++
    (if d.body.isNone && d.external.isNone && d.type.isSome then
      [.warning ("def " ++ d.name ++ " has a return type but no body")] else [])

/-- Remarks on a call. -/
def reviewCall (p : Program) (location : Option Location) (c : Call Node) : List Remark :=
  c.targets.flatMap (fun t =>
      if t.index < p.defs.length then [] else [.flaw (.unknownTarget c.name t location)]) ++
    c.scope.toList.flatMap (p.reviewType ("call " ++ c.name) location) ++
    ((c.block.map Block.args).getD []).flatMap (fun a =>
      p.reviewType ("block argument " ++ a.name) location a.type)

/-- Remarks on a node, those below it apart. -/
def reviewNode (p : Program) (n : Node) : List Remark :=
  n.type.toList.flatMap (p.reviewType ("node " ++ n.text) n.location) ++
    match n.kind with
    | .call c => p.reviewCall n.location c
    | .const id =>
      if id.index < p.consts.length then [] else [.flaw (.unknownConstant id n.location)]
    | .isA _ target => p.reviewType "is_a target" n.location target
    | _ => []

/-- All remarks on a program, in the order in which it is read. -/
def review (p : Program) : List Remark :=
  p.types.ids.flatMap p.reviewInfo ++ p.defs.flatMap p.reviewDef ++
    p.globals.flatMap (fun g => p.reviewType ("global " ++ g.name) none g.type) ++
    p.nodes.flatMap p.reviewNode

/-- The first flaw of a program. -/
def flaw? (p : Program) : Option Flaw := p.review.findSome? Remark.flaw?

/-- The program has no flaw. -/
def IsValid (p : Program) : Prop := p.flaw? = none

instance (p : Program) : Decidable p.IsValid := inferInstanceAs (Decidable (p.flaw? = none))

/-- The warnings before the first flaw. -/
def warnings (p : Program) : Log :=
  ((p.review.takeWhile fun r => r.flaw?.isNone).filterMap fun
    | .warning text => some ⟨.warn, text⟩
    | .flaw _ => none).toArray

/-- Check every cross reference that generation follows. -/
def validate (p : Program) : Except Diagnostic Unit :=
  match p.flaw? with
  | some f => .error f.diagnostic
  | none => .ok ()

theorem validate_eq_ok_iff {p : Program} : p.validate = .ok () ↔ p.IsValid := by
  unfold validate IsValid; cases p.flaw? <;> simp

end Program

end Lowering
