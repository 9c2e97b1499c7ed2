import Lowering.IR.Inst
import Lowering.Location

/-!
# Modules

A module is plain data: functions, globals and debug records.  Functions, blocks, instructions
and globals are named by their positions.

* `IR.Inst`, `IR.BasicBlock`, `IR.Function`, `IR.Global`, `IR.DebugInfo`, `IR.Module`;
* `IR.Function.predecessors`, `IR.Module.findFunction`, `IR.Module.uniqueGlobalName`;
* `IR.Module.typeOf`, the type of an operand in a function.
-/

namespace Lowering.IR

/-- The name of the function where a program starts. -/
def entryName : String := "basalt_main"

/-- Who can see a function or global. -/
inductive Linkage
  | internal
  | external
  | hidden
  deriving DecidableEq, Repr, Inhabited

/-- The word for a linkage. -/
def Linkage.text : Linkage → String
  | .internal => "internal"
  | .external => "external"
  | .hidden => "private"

/-- A parameter of a function. -/
structure Param where
  name : String
  type : Ty
  deriving DecidableEq, Repr, Inhabited

/-- An instruction with the type of its value and its position in the source. -/
structure Inst where
  kind : InstKind
  type : Ty
  name : Option String := none
  location : Option Location := none
  deriving DecidableEq, Repr, Inhabited

/-- A straight run of instructions, complete once it has a terminator. -/
structure BasicBlock where
  name : String
  insts : Array InstId := #[]
  term : Option Terminator := none
  deriving DecidableEq, Repr, Inhabited

/-- A function; its first block is where it is entered. -/
structure Function where
  name : String
  params : List Param
  ret : Ty
  linkage : Linkage
  varargs : Bool := false
  blocks : Array BasicBlock := #[]
  insts : Array Inst := #[]
  deriving DecidableEq, Repr, Inhabited

/-- A global variable. -/
structure Global where
  name : String
  type : Ty
  init : Option Constant
  constant : Bool
  linkage : Linkage
  deriving DecidableEq, Repr, Inhabited

/-- The debug record of a function. -/
structure Subprogram where
  name : String
  function : FuncId
  line : Nat
  deriving DecidableEq, Repr, Inhabited

/-- The debug records of a module. -/
structure DebugInfo where
  file : String
  producer : String
  subprograms : Array Subprogram := #[]
  deriving DecidableEq, Repr, Inhabited

/-- A module. -/
structure Module where
  name : String
  functions : Array Function := #[]
  globals : Array Global := #[]
  debug : Option DebugInfo := none
  deriving DecidableEq, Repr, Inhabited

/-! ### Functions -/

namespace Function

/-- A function without blocks is a declaration; its body is found elsewhere. -/
def isDeclaration (f : Function) : Bool := f.blocks.isEmpty

/-- A block by its id. -/
def block (f : Function) (id : BlockId) : BasicBlock := f.blocks[id.index]?.getD default

/-- An instruction by its id. -/
def inst (f : Function) (id : InstId) : Inst := f.insts[id.index]?.getD default

/-- The ids of the blocks in order. -/
def blockIds (f : Function) : List BlockId := (List.range f.blocks.size).map BlockId.mk

/-- The first block of a name. -/
def findBlock (f : Function) (name : String) : Option BlockId :=
  (f.blocks.findIdx? (·.name == name)).map BlockId.mk

/-- The blocks whose terminator can lead to a block. -/
def predecessors (f : Function) (target : BlockId) : List BlockId :=
  f.blockIds.filter fun b => (f.block b).term.any fun t => t.successors.contains target

/-- The instructions in blocks, terminators included. -/
def instructionCount (f : Function) : Nat :=
  f.blocks.foldl (fun n b => n + b.insts.size + (if b.term.isSome then 1 else 0)) 0

end Function

/-! ### Modules -/

/-- The position of the last element that satisfies a test. -/
def lastIdx? (p : α → Bool) (xs : Array α) : Option Nat :=
  (List.range xs.size).reverse.find? fun i => xs[i]?.any p

namespace Module

/-- A function by its id. -/
def function (m : Module) (id : FuncId) : Function := m.functions[id.index]?.getD default

/-- A global by its id. -/
def global (m : Module) (id : GlobalId) : Global := m.globals[id.index]?.getD default

/-- The id that the next function gets. -/
def nextFunction (m : Module) : FuncId := ⟨m.functions.size⟩

/-- The id that the next global gets. -/
def nextGlobal (m : Module) : GlobalId := ⟨m.globals.size⟩

/-- The module with one more function. -/
def addFunction (m : Module) (f : Function) : Module :=
  { m with functions := m.functions.push f }

/-- The module with one more global. -/
def addGlobal (m : Module) (g : Global) : Module := { m with globals := m.globals.push g }

/-- The module with a function changed. -/
def modifyFunction (m : Module) (id : FuncId) (change : Function → Function) : Module :=
  { m with functions := m.functions.modify id.index change }

/-- The module with a global changed. -/
def modifyGlobal (m : Module) (id : GlobalId) (change : Global → Global) : Module :=
  { m with globals := m.globals.modify id.index change }

/-- The function that a name stands for: the last one added under it. -/
def findFunction (m : Module) (name : String) : Option FuncId :=
  (lastIdx? (·.name == name) m.functions).map FuncId.mk

/-- The global that a name stands for: the last one added under it. -/
def findGlobal (m : Module) (name : String) : Option GlobalId :=
  (lastIdx? (·.name == name) m.globals).map GlobalId.mk

/-- Whether a global has a name. -/
def hasGlobal (m : Module) (name : String) : Bool := m.globals.any (·.name == name)

/-- The base when it is free, else the base with the least number that makes it free. One of the
first numbers is free, because there are more of them than globals. -/
def uniqueGlobalName (m : Module) (base : String) : String :=
  if m.hasGlobal base then
    let numbered := (List.range (m.globals.size + 1)).map fun n => base ++ "." ++ toString (n + 1)
    (numbered.find? fun s => !m.hasGlobal s).getD base
  else base

/-- The type of an operand in a function. -/
def typeOf (m : Module) (f : FuncId) : Value → Ty
  | .const c => c.type
  | .inst id => ((m.function f).inst id).type
  | .param i => (((m.function f).params[i]?).map Param.type).getD .void
  | .global g => .ptr (m.global g).type

end Module

end Lowering.IR
