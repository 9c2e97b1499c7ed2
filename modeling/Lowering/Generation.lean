import Lowering.Gen.Visit
import Lowering.IR.Render
import Lowering.IR.Verify

/-!
# Generation of a module

The entry function runs three blocks in order before it leaves: the one with its stack slots, the
first of the chain of constant initializers, and the one where the root starts.

* `Gen.start?`, `Gen.whole`, `Gen.run?`: a generation from its first to its last step;
* `Program.nestingBound`: how deeply the expressions of a program can be nested in each other;
* `Program.generate`: the module of a program, generated and verified.
-/

namespace Lowering

open IR (Ty Value FuncId BlockId Build)

/-! ### Nesting -/

namespace Program

/-- The greatest height of an expression of a program. -/
def height (p : Program) : Nat :=
  max (Node.heightOption p.root)
    (max (Node.heightList (p.defs.filterMap Def.body))
      (Node.heightList (p.consts.map ConstDef.value)))

/-- A depth that the nesting of expressions stays below, when no definition reaches itself through
calls with a block.

A nested function or initializer is one that was not begun before, so there are at most as many as
the first factor says. Inside one, count `(h + 1) * (height + 2) ^ r` for an expression of height
`h` in a definition from which a chain of `r` calls with a block can start, and as much for each
pending block. The count falls with each step inside: to an expression below, into an inlined body,
and into a block by a `yield`. -/
def nestingBound (p : Program) : Nat :=
  (p.defs.length * (p.types.size + 1) + p.consts.length + 2) *
    Nat.pow (p.height + 2) (p.defs.length + 2)

end Program

namespace Gen

/-! ### The entry function -/

/-- The type of what the entry function returns; an address-held result has no register form. -/
def entryResult (p : Program) : Option TypeId :=
  (p.root.bind Node.type).filter fun t => !p.types.isAddressHeld t

/-- Begin the entry function, and give it with the first block of the chain of initializers. -/
def beginEntry (p : Program) : Build (FunctionState × BlockId) := do
  let returnType := entryResult p
  let params : List IR.Param := [⟨"argc", .i32⟩, ⟨"argv", .ptr .bytePtr⟩]
  let ret := p.types.returnType returnType
  let func ← Build.declareFunction IR.entryName params ret .external false
  let allocaBlock ← Build.appendBlock func "alloca"
  let constHead ← Build.appendBlock func "const"
  let entryBlock ← Build.appendBlock func "entry"
  Build.positionAt func entryBlock
  return ({ func, allocaBlock, entryBlock, returnType }, constHead)

/-- End the entry function with the value of the root, and connect its first blocks. -/
def finish (value : Value) : Gen Unit := do
  let c ← read
  modify fun s => { s with fn := c.main }
  if !(← isTerminated) then
    match c.main.returnType with
    | some t =>
      let source := (← get).last.type.getD c.nil
      let value ← convertExactly value source t
      Build.ret (some value)
    | none => Build.ret none
  positionAt (← get).constTail
  Build.br c.main.entryBlock
  positionAt c.main.allocaBlock
  Build.br c.constHead
  let m := (← get).builder.module
  note .debug <| "entry function done: " ++ toString m.functions.size ++ " function(s), " ++
    toString m.globals.size ++ " global(s)"

/-! ### A whole generation -/

/-- The debug record of the module of a program, when it is to have one. -/
def debugRecord (p : Program) (o : Options) (entry : FuncId) : Option IR.DebugInfo :=
  if o.debugInfo then
    let line := ((p.root.bind Node.location).map Location.line).getD 1
    some
      { file := (o.filename.or p.filename).getD "main"
        producer := "basalt"
        subprograms := #[{ name := IR.entryName, function := entry, line }] }
  else none

/-- What a generation starts with, when the program has a nil type. -/
def start? (p : Program) (o : Options) : Option (Context × State) := do
  let nil ← p.types.nil?
  let ((main, constHead), builder) := (beginEntry p).run (.new (p.filename.getD "main"))
  let debug := debugRecord p o main.func
  some
    ({ program := p, debugInfo := o.debugInfo, nil, main, constHead, symbols := p.symbolSet },
      { builder := { builder with module := { builder.module with debug } }
        act := { scope := p.types.program? }
        fn := main
        constTail := constHead
        last := ⟨nilValue, some nil⟩ })

/-- All steps of a generation. -/
def whole (p : Program) : Gen Unit := do
  prepareSymbols
  let value ← match p.root with
    | some root => visit p.nestingBound root
    | none => pure nilValue
  finish value

/-- How the generation of a program ends, and the state it leaves; without a nil type it does not
start. -/
def run? (p : Program) (o : Options) : Option (Except Failure Unit × State) :=
  (start? p o).map fun (c, s) => whole p c s

end Gen

/-! ### Modules of programs -/

/-- What a generation comes to: the module or why there is none, what there is to tell, and a
partly built module that has to be kept in a directory. -/
structure Generation where
  result : Except Diagnostic IR.Module
  log : Log
  kept : Option (String × IR.Module) := none

namespace Generation

/-- A generation that stopped with a partly built module. -/
def failed (o : Options) (log : Log) (m : IR.Module) (d : Diagnostic) : Generation :=
  if o.dumpOnError then
    match o.dumpDir with
    | some dir => { result := .error d, log, kept := some (dir, m) }
    | none => { result := .error d, log := log.push ⟨.error, "partial module:\n" ++ m.text⟩ }
  else { result := .error d, log }

/-- A generation that came to its end. -/
def finished (log : Log) (m : IR.Module) : Generation :=
  let functions := toString m.functions.size ++ " function(s), "
  let globals := toString m.globals.size ++ " global(s)"
  { result := .ok m, log := log.push ⟨.info, "generated " ++ functions ++ globals⟩ }

/-- The last stage: a module is verified if that is asked for. -/
def verified (o : Options) (log : Log) (m : IR.Module) : Generation :=
  if o.verify then
    match m.verify with
    | .error d => failed o (log ++ m.verifyLog) m d
    | .ok () => finished (log ++ m.verifyLog) m
  else finished log m

end Generation

namespace Program

/-- The file that positions without one are in. -/
def sourceFile (p : Program) (o : Options) : Option String := o.filename.or p.filename

/-- The module of a program. -/
def generate (p : Program) (o : Options) : Generation :=
  match p.validate with
  | .error d => { result := .error (d.inFile (p.sourceFile o)), log := p.warnings }
  | .ok () =>
    match Gen.run? p o with
    | none => { result := .error (Gen.Failure.diagnostic ⟨.noNilType, none⟩), log := p.warnings }
    | some (.error f, s) =>
      let d := f.diagnostic.inFile (p.sourceFile o)
      .failed o (p.warnings ++ s.log) s.builder.module d
    | some (.ok (), s) => .verified o (p.warnings ++ s.log) s.builder.module

end Program

end Lowering
