import Lowering.Diagnostic
import Lowering.Log
import Lowering.IR.Module

/-!
# Structural verification

Every defined function is gone through and each defect is noted, so that a rejected module comes
back with the full list.

* `IR.Defect`, `IR.Finding` and their texts;
* `IR.Module.findings`, in the order of functions, blocks and instructions, globals last;
* `IR.Module.verify`.
-/

namespace Lowering.IR

/-- What can be wrong with a block. -/
inductive Defect
  | undefinedOperand (id : InstId)
  | voidOperand (id : InstId)
  | unknownParam (index : Nat)
  | unknownGlobal (id : GlobalId)
  | latePhi (id : InstId)
  | phiEdges (id : InstId) (listed predecessors : Nat)
  | phiType (id : InstId) (found expected : Ty)
  | loadFrom (type : Ty)
  | storeMismatch (value pointee : Ty)
  | storeThrough (type : Ty)
  | malformedGep (type : Ty)
  | extractRange (index : Nat) (type : Ty)
  | operandTypes (lhs rhs : Ty)
  | malformedSelect
  | unknownCallee (id : FuncId)
  | callArity (callee : String) (given expected : Nat)
  | argumentType (param callee : String) (found expected : Ty)
  | noTerminator
  | unknownBlock (id : BlockId)
  | branchCondition (type : Ty)
  | returnType (found expected : Ty)
  | missingReturn (expected : Ty)
  deriving DecidableEq, Repr

/-- A defect in words. -/
def Defect.text : Defect → String
  | .undefinedOperand id =>
    "operand %" ++ toString id.index ++ " is not defined in this function"
  | .voidOperand id => "operand %" ++ toString id.index ++ " has no value"
  | .unknownParam index => "parameter " ++ toString index ++ " out of range"
  | .unknownGlobal id => "global " ++ toString id.index ++ " out of range"
  | .latePhi id => "phi %" ++ toString id.index ++ " does not lead its block"
  | .phiEdges id listed predecessors =>
    "phi %" ++ toString id.index ++ " lists " ++ toString listed ++
      " incoming block(s) but the block has " ++ toString predecessors ++ " predecessor(s)"
  | .phiType id found expected =>
    "phi %" ++ toString id.index ++ " incoming value of type " ++ found.text ++ " is not " ++
      expected.text
  | .loadFrom type => "load from non-pointer " ++ type.text
  | .storeMismatch value pointee =>
    "store of " ++ value.text ++ " into " ++ pointee.text ++ "*"
  | .storeThrough type => "store through non-pointer " ++ type.text
  | .malformedGep type => "malformed getelementptr on " ++ type.text
  | .extractRange index type =>
    "extractvalue " ++ toString index ++ " out of range for " ++ type.text
  | .operandTypes lhs rhs => "operand types differ: " ++ lhs.text ++ " and " ++ rhs.text
  | .malformedSelect => "malformed select"
  | .unknownCallee id => "call to unknown function " ++ toString id.index
  | .callArity callee given expected =>
    "call to @" ++ callee ++ " with " ++ toString given ++ " argument(s), expected " ++
      toString expected
  | .argumentType param callee found expected =>
    "argument " ++ param ++ " to @" ++ callee ++ " has type " ++ found.text ++ ", expected " ++
      expected.text
  | .noTerminator => "block has no terminator"
  | .unknownBlock id => "branch to unknown block " ++ toString id.index
  | .branchCondition type => "branch condition has type " ++ type.text
  | .returnType found expected =>
    "returns " ++ found.text ++ " from a function returning " ++ expected.text
  | .missingReturn expected => "missing return value of type " ++ expected.text

/-- A defect and where it is. -/
inductive Finding
  | inBlock (function block : String) (defect : Defect)
  | initializer (global : String) (found expected : Ty)
  deriving DecidableEq, Repr

/-- A finding in words. -/
def Finding.text : Finding → String
  | .inBlock function block defect => "@" ++ function ++ " %" ++ block ++ ": " ++ defect.text
  | .initializer global found expected =>
    "global @" ++ global ++ ": initializer type " ++ found.text ++ " does not match " ++
      expected.text

namespace Module

variable (m : Module)

/-- Whether an instruction is placed in a block of a function. -/
def isPlaced (f : Function) (id : InstId) : Bool := f.blocks.any fun b => b.insts.contains id

/-- Defects of an operand. -/
def operandDefects (f : FuncId) : Value → List Defect
  | .inst id =>
    let fn := m.function f
    if fn.insts.size ≤ id.index ∨ !isPlaced fn id then [.undefinedOperand id]
    else if (fn.inst id).type = .void then [.voidOperand id]
    else []
  | .param i => if (m.function f).params.length ≤ i then [.unknownParam i] else []
  | .global g | .const (.globalAddr g _) => if m.globals.size ≤ g.index then [.unknownGlobal g] else []
  | _ => []

/-- Defects of a phi, given whether it comes after another instruction. -/
def phiDefects (f : FuncId) (block : BlockId) (id : InstId) (type : Ty) (late : Bool)
    (incoming : List (Value × BlockId)) : List Defect :=
  let sources := incoming.map Prod.snd
  let expected := (m.function f).predecessors block
  let exact := sources.Nodup ∧ (∀ b ∈ sources, b ∈ expected) ∧ ∀ b ∈ expected, b ∈ sources
  (if late then [.latePhi id] else []) ++
    (if exact then [] else [.phiEdges id sources.length expected.length]) ++
    incoming.filterMap fun (v, _) =>
      let found := m.typeOf f v
      if found = type then none else some (.phiType id found type)

/-- Defects of a call. -/
def callDefects (f : FuncId) (callee : FuncId) (args : List Value) : List Defect :=
  if m.functions.size ≤ callee.index then [.unknownCallee callee]
  else
    let target := m.function callee
    let expected := target.params.length
    let fits := if target.varargs then expected ≤ args.length else args.length = expected
    if fits then
      (args.zip target.params).filterMap fun (a, p) =>
        let found := m.typeOf f a
        if found = p.type then none else some (.argumentType p.name target.name found p.type)
    else [.callArity target.name args.length expected]

/-- Defects of an instruction other than a phi, its operands apart. -/
def kindDefects (f : FuncId) (type : Ty) : InstKind → List Defect
  | .load ptr => if (m.typeOf f ptr).isPtr then [] else [.loadFrom (m.typeOf f ptr)]
  | .store value ptr =>
    match (m.typeOf f ptr).pointee? with
    | some p => if p = m.typeOf f value then [] else [.storeMismatch (m.typeOf f value) p]
    | none => [.storeThrough (m.typeOf f ptr)]
  | .gep ptr _ =>
    if !(m.typeOf f ptr).isPtr || type == .void then [.malformedGep (m.typeOf f ptr)] else []
  | .extractValue aggregate index =>
    if type = .void then [.extractRange index (m.typeOf f aggregate)] else []
  | .binary _ lhs rhs | .icmp _ lhs rhs | .fcmp _ lhs rhs =>
    if m.typeOf f lhs = m.typeOf f rhs then []
    else [.operandTypes (m.typeOf f lhs) (m.typeOf f rhs)]
  | .select cond ifTrue ifFalse =>
    if m.typeOf f cond = .i1 ∧ m.typeOf f ifTrue = m.typeOf f ifFalse then []
    else [.malformedSelect]
  | .call callee args => m.callDefects f callee args
  | _ => []

/-- Defects of the instructions of a block, given whether an instruction other than a phi came
before. -/
def instDefects (f : FuncId) (block : BlockId) : Bool → List InstId → List Defect
  | _, [] => []
  | late, id :: ids =>
    let inst := (m.function f).inst id
    inst.kind.operands.flatMap (m.operandDefects f) ++
      match inst.kind with
      | .phi incoming =>
        m.phiDefects f block id inst.type late incoming ++ instDefects f block late ids
      | kind => m.kindDefects f inst.type kind ++ instDefects f block true ids

/-- Defects of a terminator. -/
def termDefects (f : FuncId) (t : Terminator) : List Defect :=
  let fn := m.function f
  (t.successors.filterMap fun b =>
      if fn.blocks.size ≤ b.index then some (.unknownBlock b) else none) ++
    match t with
    | .condBr cond _ _ =>
      if m.typeOf f cond = .i1 then [] else [.branchCondition (m.typeOf f cond)]
    | .ret (some v) =>
      if m.typeOf f v = fn.ret then [] else [.returnType (m.typeOf f v) fn.ret]
    | .ret none => if fn.ret = .void then [] else [.missingReturn fn.ret]
    | _ => []

/-- Defects of a block. -/
def blockDefects (f : FuncId) (id : BlockId) : List Defect :=
  let block := (m.function f).block id
  m.instDefects f id false block.insts.toList ++
    match block.term with
    | some t => m.termDefects f t
    | none => [.noTerminator]

/-- Findings in a function. -/
def functionFindings (f : FuncId) : List Finding :=
  let fn := m.function f
  fn.blockIds.flatMap fun b =>
    (m.blockDefects f b).map (.inBlock fn.name (fn.block b).name)

/-- The finding that an initializer does not have the type of its global. -/
def globalFindings (g : Global) : List Finding :=
  match g.init with
  | some c => if c.type = g.type then [] else [.initializer g.name c.type g.type]
  | none => []

/-- Every structural defect. -/
def findings : List Finding :=
  (List.range m.functions.size).flatMap (fun i => m.functionFindings ⟨i⟩) ++
    m.globals.toList.flatMap globalFindings

/-- The records of a verification. -/
def verifyLog : Log :=
  let n := m.findings.length
  if n = 0 then #[]
  else #[⟨.debug, "verifier rejected module with " ++ toString n ++ " finding(s)"⟩]

/-- Refuse a module that has defects. -/
def verify : Except Diagnostic Unit :=
  if m.findings.isEmpty then .ok ()
  else .error (.invalidModule (m.findings.map Finding.text))

end Module

end Lowering.IR
