import Lowering.Location
import Lowering.Numeric.Binary
import Lowering.Program.TypeTable

/-!
# Typed nodes

The expressions of a program.  A node carries the static type that typing found for it; a call
carries its candidate definitions, and a constant reference the constant it resolves to.

* `Node`, `NodeKind`, `Block`, `Primitive`;
* `Node.children`, `Node.preorder`;
* `Node.returns`, `Node.breaks`, `Node.yields`: a transfer that happens on every evaluation.
-/

namespace Lowering

/-- The position of a definition in its program. -/
structure DefId where
  index : Nat
  deriving DecidableEq, Repr, Inhabited

/-- The position of a constant in its program. -/
structure ConstId where
  index : Nat
  deriving DecidableEq, Repr, Inhabited

/-- An operation on two operands. -/
inductive BinaryPrimitive
  | add
  | sub
  | mul
  | div
  | rem
  | eq
  | ne
  | lt
  | le
  | gt
  | ge
  | and
  | or
  deriving DecidableEq, Repr, Inhabited

/-- A fixed low-level operation: the body of a definition, applied to its receiver and arguments
by position. -/
inductive Primitive
  /-- The receiver and the first argument: numbers, chars and truth values. -/
  | binary (op : BinaryPrimitive)
  /-- The receiver as a number of the return type. -/
  | convert
  /-- A zeroed object of the return type. -/
  | allocate
  | structAlloc
  | structGet (field : String)
  | structSet (field : String)
  | pointerMalloc
  | pointerRealloc
  | pointerGetValue
  | pointerSetValue
  /-- The receiver moved by a number of elements. -/
  | pointerAdd
  | pointerCast
  | pointerCopyFrom
  | pointerAddress
  /-- The text of a symbol. -/
  | symbolToString
  deriving DecidableEq, Repr, Inhabited

/-- A parameter of a block. -/
structure BlockArg where
  name : String
  type : TypeId
  deriving DecidableEq, Repr, Inhabited

/-- A block attached to a call; its body is generated in place at every `yield`. -/
structure Block (α : Type) where
  args : List BlockArg
  body : Option α
  deriving DecidableEq, BEq

/-- A call: its candidates are in order of preference, and `scope` is the type of the receiver
when none is written. -/
structure Call (α : Type) where
  receiver : Option α
  name : String
  args : List α
  targets : List DefId
  block : Option (Block α)
  scope : Option TypeId
  deriving DecidableEq, BEq

/-- What an expression is, over expressions of type `α`. -/
inductive NodeKind (α : Type)
  /-- A declaration, which emits no code. -/
  | nop
  | nilLiteral
  | boolLiteral (value : Bool)
  | intLiteral (value : Int)
  | floatLiteral (value : Binary64)
  | charLiteral (value : UInt8)
  | stringLiteral (value : String)
  | symbolLiteral (value : String)
  | typeLiteral
  | var (name : String)
  | assign (target value : α)
  | multiAssign (targets values : List α)
  | instanceVar (name : String)
  | global (name : String)
  | const (id : ConstId)
  | expressions (nodes : List α)
  | branch (cond : α) (whenTrue whenFalse : Option α)
  | loop (cond : α) (body : Option α) (runOnce : Bool)
  | return (value : Option α)
  | break (value : Option α)
  | yield (values : List α)
  | call (call : Call α)
  | isA (value : α) (target : TypeId)
  | simpleOr (left right : α)
  | pointerOf (target : α)
  | nilPointer
  | argc
  | argv
  | primitive (op : Primitive)
  deriving DecidableEq, BEq

/-- An expression with its number, its static type and its position. -/
structure Node where
  id : Nat
  kind : NodeKind Node
  type : Option TypeId := none
  location : Option Location := none
  deriving BEq

namespace NodeKind

variable {α : Type}

/-- The name of a kind of expression. -/
def name : NodeKind α → String
  | .nop => "nop"
  | .nilLiteral => "nil_literal"
  | .boolLiteral _ => "bool_literal"
  | .intLiteral _ => "int_literal"
  | .floatLiteral _ => "float_literal"
  | .charLiteral _ => "char_literal"
  | .stringLiteral _ => "string_literal"
  | .symbolLiteral _ => "symbol_literal"
  | .typeLiteral => "type_literal"
  | .var _ => "var"
  | .assign _ _ => "assign"
  | .multiAssign _ _ => "multi_assign"
  | .instanceVar _ => "instance_var"
  | .global _ => "global"
  | .const _ => "const"
  | .expressions _ => "expressions"
  | .branch _ _ _ => "if"
  | .loop _ _ _ => "while"
  | .return _ => "return"
  | .break _ => "break"
  | .yield _ => "yield"
  | .call _ => "call"
  | .isA _ _ => "is_a"
  | .simpleOr _ _ => "simple_or"
  | .pointerOf _ => "pointer_of"
  | .nilPointer => "nil_pointer"
  | .argc => "argc"
  | .argv => "argv"
  | .primitive _ => "primitive"

/-- The expressions directly below, the body of an attached block included. -/
def children : NodeKind α → List α
  | .assign target value => [target, value]
  | .multiAssign targets values => targets ++ values
  | .expressions nodes => nodes
  | .branch cond whenTrue whenFalse => cond :: whenTrue.toList ++ whenFalse.toList
  | .loop cond body _ => cond :: body.toList
  | .return value | .break value => value.toList
  | .yield values => values
  | .call c => c.receiver.toList ++ c.args ++ (c.block.bind Block.body).toList
  | .isA value _ => [value]
  | .simpleOr left right => [left, right]
  | .pointerOf target => [target]
  | _ => []

/-- A `return`. -/
def isReturn : NodeKind α → Bool
  | .return _ => true
  | _ => false

/-- A `break`. -/
def isBreak : NodeKind α → Bool
  | .break _ => true
  | _ => false

/-- A `yield`. -/
def isYield : NodeKind α → Bool
  | .yield _ => true
  | _ => false

end NodeKind

namespace Node

/-- The expressions directly below. -/
def children (n : Node) : List Node := n.kind.children

/-- The written form of a node: its kind, number and position. -/
def text (n : Node) : String :=
  n.kind.name ++ "#" ++ toString n.id ++
    match n.location with
    | some l => " at " ++ l.text
    | none => ""

/-- The node moved to a position. -/
def movedTo (n : Node) (location : Location) : Node := { n with location := some location }

/-! ### All nodes below -/

mutual

/-- The node and all below it, each before those below it. -/
def preorder : Node → List Node
  | n@⟨_, kind, _, _⟩ => n :: preorderKind kind

/-- All nodes below an expression. -/
def preorderKind : NodeKind Node → List Node
  | .assign target value => preorder target ++ preorder value
  | .multiAssign targets values => preorderList targets ++ preorderList values
  | .expressions nodes => preorderList nodes
  | .branch cond whenTrue whenFalse =>
    preorder cond ++ preorderOption whenTrue ++ preorderOption whenFalse
  | .loop cond body _ => preorder cond ++ preorderOption body
  | .return value | .break value => preorderOption value
  | .yield values => preorderList values
  | .call c => preorderCall c
  | .isA value _ => preorder value
  | .simpleOr left right => preorder left ++ preorder right
  | .pointerOf target => preorder target
  | _ => []

/-- All nodes of a call. -/
def preorderCall : Call Node → List Node
  | ⟨receiver, _, args, _, block, _⟩ =>
    preorderOption receiver ++ preorderList args ++ preorderBlock block

/-- All nodes of a block. -/
def preorderBlock : Option (Block Node) → List Node
  | some ⟨_, body⟩ => preorderOption body
  | none => []

/-- All nodes of a list. -/
def preorderList : List Node → List Node
  | [] => []
  | n :: ns => preorder n ++ preorderList ns

/-- All nodes of an optional expression. -/
def preorderOption : Option Node → List Node
  | some n => preorder n
  | none => []

end

/-! ### Heights -/

mutual

/-- The number of nodes on the longest way down. -/
def height : Node → Nat
  | ⟨_, kind, _, _⟩ => heightKind kind + 1

/-- The greatest height below an expression. -/
def heightKind : NodeKind Node → Nat
  | .assign target value => max (height target) (height value)
  | .multiAssign targets values => max (heightList targets) (heightList values)
  | .expressions nodes => heightList nodes
  | .branch cond whenTrue whenFalse =>
    max (height cond) (max (heightOption whenTrue) (heightOption whenFalse))
  | .loop cond body _ => max (height cond) (heightOption body)
  | .return value | .break value => heightOption value
  | .yield values => heightList values
  | .call c => heightCall c
  | .isA value _ => height value
  | .simpleOr left right => max (height left) (height right)
  | .pointerOf target => height target
  | _ => 0

/-- The greatest height in a call. -/
def heightCall : Call Node → Nat
  | ⟨receiver, _, args, _, block, _⟩ =>
    max (heightOption receiver) (max (heightList args) (heightBlock block))

/-- The height of a block. -/
def heightBlock : Option (Block Node) → Nat
  | some ⟨_, body⟩ => heightOption body
  | none => 0

/-- The greatest height in a list. -/
def heightList : List Node → Nat
  | [] => 0
  | n :: ns => max (height n) (heightList ns)

/-- The height of an optional expression. -/
def heightOption : Option Node → Nat
  | some n => height n
  | none => 0

end

/-! ### Unconditional transfers -/

mutual

/-- Whether every evaluation of the node reaches a node of the kind in question. -/
def always (leaf : NodeKind Node → Bool) : Node → Bool
  | ⟨_, kind, _, _⟩ => leaf kind || alwaysKind leaf kind

/-- Whether every evaluation reaches such a node below. -/
def alwaysKind (leaf : NodeKind Node → Bool) : NodeKind Node → Bool
  | .expressions nodes => alwaysAny leaf nodes
  | .branch cond whenTrue whenFalse =>
    always leaf cond || (alwaysOption leaf whenTrue && alwaysOption leaf whenFalse)
  | .loop cond _ _ => always leaf cond
  | .assign _ value => always leaf value
  | .multiAssign _ values => alwaysAny leaf values
  | .return value | .break value => alwaysOption leaf value
  | .yield values => alwaysAny leaf values
  | .call c => alwaysCall leaf c
  | .isA value _ => always leaf value
  | .simpleOr left right => always leaf left || always leaf right
  | _ => false

/-- Whether the receiver or an argument always reaches such a node. -/
def alwaysCall (leaf : NodeKind Node → Bool) : Call Node → Bool
  | ⟨receiver, _, args, _, _, _⟩ => alwaysOption leaf receiver || alwaysAny leaf args

/-- Whether some node of a list always reaches such a node. -/
def alwaysAny (leaf : NodeKind Node → Bool) : List Node → Bool
  | [] => false
  | n :: ns => always leaf n || alwaysAny leaf ns

/-- Whether an optional expression is there and always reaches such a node. -/
def alwaysOption (leaf : NodeKind Node → Bool) : Option Node → Bool
  | some n => always leaf n
  | none => false

end

/-- Whether every evaluation ends in a `return`. -/
def returns (n : Node) : Bool := n.always NodeKind.isReturn

/-- Whether every evaluation ends in a `break`. -/
def breaks (n : Node) : Bool := n.always NodeKind.isBreak

/-- Whether every evaluation reaches a `yield`. -/
def yields (n : Node) : Bool := n.always NodeKind.isYield

end Node

end Lowering
