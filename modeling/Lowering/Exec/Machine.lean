import Lowering.IR.Module
import Lowering.Exec.Arith

/-!
# Running a module

A module is interpreted directly.  Each instruction and each terminator is one step; the phis of
a block are read together when the block is entered, and are no steps.  A run is bounded by its
number of steps, and every block that is entered and every call that is made takes at least one,
so the steps that are left bound both.

* `Exec.State`, with the initial state `Exec.State.initial`;
* `Exec.Run`: a computation that keeps the state when it fails;
* `Exec.Run.operand`, `Exec.Run.instruction`, `Exec.Run.blocks`, `Exec.Run.callWithin`;
* `Exec.Run.call` and `Exec.Run.entry`.
-/

namespace Lowering.Exec

open IR (Ty Constant Value InstId BlockId FuncId InstKind Module entryName)

/-- The state of a running program; `slots` are the stack slots of the innermost call. -/
structure State where
  memory : Memory := {}
  globals : Array Nat := #[]
  slots : List Nat := []
  steps : Nat := 0
  stepLimit : Nat := 10000000
  output : String := ""
  deriving DecidableEq, Repr, Inhabited

/-! ### Constants -/

mutual

/-- The value of a constant, given the addresses of the globals. -/
def constantValue (globals : Array Nat) : Constant → RtValue
  | .int bits value => .int bits (wrap bits value)
  | .float double value => if double then .f64 value else .f32 value.narrow
  | .null t | .undef t => zeroOf t
  | .array elem values => .bytes (elementBytes globals elem values)
  | .globalAddr g _ => .ptr (globals[g.index]?.getD 0)

/-- The bytes of the elements of a constant array. -/
def elementBytes (globals : Array Nat) (elem : Ty) : List Constant → List UInt8
  | [] => []
  | c :: cs => encode (constantValue globals c) elem ++ elementBytes globals elem cs

end

/-- The bytes of a constant. -/
def constantBytes (globals : Array Nat) (c : Constant) : List UInt8 :=
  match c with
  | .array elem values => elementBytes globals elem values
  | c => encode (constantValue globals c) c.type

namespace State

/-- Memory with an allocation for each global, and their addresses. -/
def allocateGlobals (m : Module) : Memory × Array Nat :=
  m.globals.foldl (fun (memory, addresses) g =>
    let (address, memory) := memory.allocate g.type.size
    (memory, addresses.push address)) ({}, #[])

/-- Memory with the initializer of a global written to its allocation. -/
def writeInitializer (globals : Array Nat) (memory : Memory) (g : IR.Global) (address : Nat) : Memory :=
  match g.init with
  | some c => (memory.write address (constantBytes globals c)).toOption.getD memory
  | none => memory

/-- The state before a module runs. -/
def initial (m : Module) : State :=
  let (memory, globals) := allocateGlobals m
  let memory := (m.globals.zip globals).foldl
    (fun memory (g, address) => writeInitializer globals memory g address) memory
  { memory, globals }

end State

/-! ### Runs -/

/-- A computation on the state of a program, which may fail and then keeps the state. -/
abbrev Run := ExceptT Fault (StateM State)

namespace Run

/-- Lift an access to memory. -/
def access (f : Memory → Except Fault α) : Run α := do
  match f (← get).memory with
  | .ok a => return a
  | .error e => throw e

/-- Change memory where a check leads, unless the check fails. -/
def change (check : Memory → Except Fault α) (update : Memory → α → Memory) : Run Unit := do
  let place ← access check
  modify fun s => { s with memory := update s.memory place }

/-- Replace the bytes at an address. -/
def write (address : Nat) (bs : List UInt8) : Run Unit :=
  change (fun m => m.locate address bs.length) fun m => m.put bs

/-- A fresh allocation. -/
def allocate (size : Nat) : Run Nat :=
  modifyGet fun s =>
    let (address, memory) := s.memory.allocate size
    (address, { s with memory })

/-- Count a step. -/
def tick : Run Unit := do
  modify fun s => { s with steps := s.steps + 1 }
  let s ← get
  if s.stepLimit < s.steps then throw (.stepLimit s.stepLimit)

/-- The arguments and the values computed so far by an activation. -/
structure Frame where
  args : List RtValue
  values : Array (Option RtValue)
  deriving Inhabited

/-- The frame with the value of an instruction. -/
def Frame.set (fr : Frame) (id : InstId) (v : RtValue) : Frame :=
  { fr with values := fr.values.setIfInBounds id.index (some v) }

/-- The value of an operand. -/
def operand (fr : Frame) : Value → Run RtValue
  | .const c => do return constantValue (← get).globals c
  | .inst id =>
    match (fr.values[id.index]?).join with
    | some v => return v
    | none => throw (.badOperand ("%" ++ toString id.index ++ " used before definition"))
  | .param i =>
    match fr.args[i]? with
    | some v => return v
    | none => throw (.badOperand ("parameter " ++ toString i ++ " missing"))
  | .global g => do return .ptr ((← get).globals[g.index]?.getD 0)

/-- The value of an operand as an integer. -/
def intOperand (fr : Frame) (v : Value) : Run Int := do
  match ← operand fr v with
  | .int _ value => return value
  | .ptr p => return ofWord p
  | other => throw (.badOperand ("expected integer, found " ++ other.text))

/-- The value of an operand as an address. -/
def ptrOperand (fr : Frame) (v : Value) : Run Nat := do
  match ← operand fr v with
  | .ptr p => return p
  | other => throw (.badOperand ("expected pointer, found " ++ other.text))

/-! ### Foreign functions -/

/-- An argument of a foreign function as an integer; zero when it is none. -/
def intArg (args : List RtValue) (i : Nat) : Int :=
  match args[i]? with
  | some (.int _ value) => value
  | some (.ptr p) => ofWord p
  | _ => 0

/-- An argument of a foreign function as an address; null when it is none. -/
def ptrArg (args : List RtValue) (i : Nat) : Nat := (args[i]?.bind RtValue.ptr?).getD 0

/-- A fresh object that takes over what an old one held. -/
def reallocate (old size : Nat) : Run RtValue := do
  let fresh ← allocate size
  if old ≠ 0 then
    let (index, offset) ← access fun m => m.locate old 0
    let kept := min (((← get).memory.allocation index).size - offset) size
    let bs ← access fun m => m.read old kept
    write fresh bs
    modify fun s => { s with memory := s.memory.release old }
  return .ptr fresh

/-- Call a foreign function: only a few are known. -/
def builtin (name : String) (args : List RtValue) : Run RtValue := do
  match name with
  | "malloc" => return .ptr (← allocate (intArg args 0).toNat)
  | "realloc" => reallocate (ptrArg args 0) (intArg args 1).toNat
  | "memset" =>
    let b := UInt8.ofNat (intArg args 1 % 256).toNat
    let length := (intArg args 2).toNat
    change (fun m => m.locate (ptrArg args 0) length) fun m => m.fill b length
    return .ptr (ptrArg args 0)
  | "memcpy" =>
    let bs ← access fun m => m.read (ptrArg args 1) (intArg args 2).toNat
    write (ptrArg args 0) bs
    return .ptr (ptrArg args 0)
  | "puts" =>
    let line ← access fun m => m.readTerminated (ptrArg args 0)
    modify fun s => { s with output := s.output ++ line ++ "\n" }
    return .int 32 0
  | name => throw (.unknownExternal name)

/-! ### Instructions -/

/-- The offset that indices after the first lead to, one field or element at a time. A negative
index counts as zero, and the offset of a part is read as a signed word. -/
def stepIndices (fr : Frame) (overflow : Fault) : Ty → Int → List Value → Run Int
  | _, offset, [] => return offset
  | t, offset, v :: vs => do
    let i := (← intOperand fr v).toNat
    match addOffsets? offset (ofWord (t.fieldOffset i)) with
    | some offset => stepIndices fr overflow ((t.element i).getD .void) offset vs
    | none => throw overflow

/-- The address that indices lead to from a pointer to a type. -/
def address (fr : Frame) (base : Nat) (t : Ty) (indices : List Value) : Run RtValue := do
  let overflow : Fault := .outOfBounds base 0
  let offset ← match indices with
    | [] => pure 0
    | v :: vs =>
      match firstStep? t (← intOperand fr v) with
      | some offset => stepIndices fr overflow t offset vs
      | none => throw overflow
  if base = 0 then return .ptr 0
  else
    match moved? base offset with
    | some p => return .ptr p
    | none => throw overflow

/-- The part of an aggregate at a field. -/
def extract (v : RtValue) (source target : Ty) (index : Nat) : Run RtValue :=
  match v with
  | .bytes bs =>
    let start := source.fieldOffset index
    let stop := min (start + target.size) bs.length
    return decode ((bs.take stop).drop (min start stop)) target
  | other => throw (.badOperand ("extractvalue on " ++ other.text))

/-- Run an instruction; `call` runs a call. -/
def instruction (m : Module) (call : FuncId → List RtValue → Run RtValue) (f : FuncId) (fr : Frame)
    (kind : InstKind) (t : Ty) : Run RtValue := do
  match kind with
  | .alloca slot =>
    let p ← allocate slot.size
    modify fun s => { s with slots := p :: s.slots }
    return .ptr p
  | .load ptr =>
    let p ← ptrOperand fr ptr
    access fun memory => memory.load p t
  | .store value ptr =>
    let p ← ptrOperand fr ptr
    let v ← operand fr value
    write p (encode v (m.typeOf f value))
    return .void
  | .gep ptr indices =>
    let base ← ptrOperand fr ptr
    address fr base ((m.typeOf f ptr).pointee?.getD .void) indices
  | .cast op value =>
    let v ← operand fr value
    return castValue op v (m.typeOf f value) t
  | .binary op lhs rhs =>
    let a ← operand fr lhs
    let b ← operand fr rhs
    match binaryValue op a b t with
    | .ok v => return v
    | .error e => throw e
  | .not value =>
    let v ← intOperand fr value
    let width := t.bits?.getD 1
    return .int width (wrap width (-v - 1))
  | .icmp pred lhs rhs =>
    let a ← intOperand fr lhs
    let b ← intOperand fr rhs
    return .int 1 (if pred.holds a b then 1 else 0)
  | .fcmp pred lhs rhs =>
    let a := (← operand fr lhs).float?.getD .defaultNaN
    let b := (← operand fr rhs).float?.getD .defaultNaN
    return .int 1 (if pred.holds a b then 1 else 0)
  | .select cond ifTrue ifFalse =>
    if (← operand fr cond).isTruthy then operand fr ifTrue else operand fr ifFalse
  | .phi _ => throw (.badOperand "phi after non-phi")
  | .call callee args =>
    let values ← args.mapM (operand fr)
    call callee values
  | .malloc elem => return .ptr (← allocate elem.size)
  | .arrayMalloc elem count =>
    let n := (← intOperand fr count).toNat
    let size := elem.size * n
    if size < offsetRange then return .ptr (← allocate size)
    else throw (.outOfBounds 0 n)
  | .extractValue aggregate index =>
    let v ← operand fr aggregate
    extract v (m.typeOf f aggregate) t index

/-! ### Blocks -/

/-- The values of the phis of a block that was entered from `source`, all read in the frame as
it was on entry. -/
def phiValues (fn : IR.Function) (fr : Frame) (source : Option BlockId) :
    List InstId → Run (List (InstId × RtValue))
  | [] => return []
  | id :: ids =>
    match (fn.inst id).kind with
    | .phi incoming =>
      match source with
      | none => throw (.badOperand "phi in entry block")
      | some b =>
        match incoming.find? (·.2 == b) with
        | none =>
          throw (.badOperand ("phi %" ++ toString id.index ++ " has no edge from %" ++
            (fn.block b).name))
        | some (v, _) => do
          let value ← operand fr v
          let rest ← phiValues fn fr source ids
          return (id, value) :: rest
    | _ => phiValues fn fr source ids

/-- Run the instructions of a block that are no phis. -/
def instructions (m : Module) (call : FuncId → List RtValue → Run RtValue) (f : FuncId)
    (fn : IR.Function) (fr : Frame) : List InstId → Run Frame
  | [] => return fr
  | id :: ids =>
    let inst := fn.inst id
    if inst.kind.isPhi then instructions m call f fn fr ids
    else do
      tick
      let v ← instruction m call f fr inst.kind inst.type
      instructions m call f fn (fr.set id v) ids

/-- Where a block goes on: in another block, or to its caller with a value. -/
inductive Exit
  | goto (block : BlockId)
  | ret (value : RtValue)

/-- Run the terminator of a block. -/
def terminator (fn : IR.Function) (block : IR.BasicBlock) (fr : Frame) : Run Exit := do
  tick
  match block.term with
  | some (.br b) => return .goto b
  | some (.condBr cond ifTrue ifFalse) =>
    return .goto (if (← operand fr cond).isTruthy then ifTrue else ifFalse)
  | some (.ret (some v)) => return .ret (← operand fr v)
  | some (.ret none) => return .ret .void
  | some .unreachable | none => throw (.unreachable fn.name block.name)

/-- Run a block that was entered from `source`. -/
def block (m : Module) (call : FuncId → List RtValue → Run RtValue) (f : FuncId) (fr : Frame)
    (source : Option BlockId) (current : BlockId) : Run (Frame × Exit) := do
  let fn := m.function f
  let b := fn.block current
  let resolved ← phiValues fn fr source b.insts.toList
  let fr := resolved.foldl (fun fr (id, v) => fr.set id v) fr
  let fr ← instructions m call f fn fr b.insts.toList
  let exit ← terminator fn b fr
  return (fr, exit)

/-- Run at most `n` blocks of an activation. -/
def blocks (m : Module) (call : FuncId → List RtValue → Run RtValue) (f : FuncId) :
    Nat → Frame → Option BlockId → BlockId → Run RtValue
  | 0, _, _, _ => do throw (.stepLimit (← get).stepLimit)
  | n + 1, fr, source, current => do
    match ← block m call f fr source current with
    | (_, .ret v) => return v
    | (fr, .goto next) => blocks m call f n fr (some current) next

/-- Run `body` with stack slots of its own, which are released however it ends. -/
def withSlots (body : Run α) : Run α := fun s =>
  let outer := s.slots
  let (result, inner) := body { s with slots := [] }
  let memory := inner.slots.reverse.foldl Memory.release inner.memory
  (result, { inner with memory, slots := outer })

/-- Call a function, with at most `n` calls and blocks nested in each other. -/
def callWithin (m : Module) : Nat → FuncId → List RtValue → Run RtValue
  | 0, _, _ => do throw (.stepLimit (← get).stepLimit)
  | n + 1, f, args =>
    let fn := m.function f
    if fn.isDeclaration then builtin fn.name args
    else
      withSlots <|
        blocks m (callWithin m n) f (n + 1) ⟨args, Array.replicate fn.insts.size none⟩ none ⟨0⟩

/-- Call a function. The steps that are left bound the calls and blocks. -/
def call (m : Module) (f : FuncId) (args : List RtValue) : Run RtValue := do
  let s ← get
  callWithin m (s.stepLimit - s.steps + 1) f args

/-- Write the argument texts of a program from an address of the argument vector on. -/
def writeArgs (vector : Nat) : List String → Run Unit
  | [] => return ()
  | a :: as => do
    let bs := Utf8.bytes a ++ [0]
    let p ← allocate bs.length
    write p bs
    write vector (littleEndian 8 p)
    writeArgs (vector + 8) as

/-- Run a program from its entry with an argument vector. -/
def entry (m : Module) (args : List String) : Run RtValue := do
  match m.findFunction entryName with
  | none => throw (.missingEntry entryName)
  | some f =>
    let vector ← allocate (8 * args.length)
    writeArgs vector args
    call m f [.int 32 args.length, .ptr vector]

end Run

/-! ### Whole runs -/

/-- The outcome of a program and the state it leaves. -/
def runMain (m : Module) (args : List String) (stepLimit : Nat) : Except Fault RtValue × State :=
  (Run.entry m args).run.run { State.initial m with stepLimit }

/-- The result of a program and what it wrote. -/
def runMainWithOutput (m : Module) (args : List String) : Except Fault (RtValue × String) :=
  let (result, s) := (Run.entry m args).run.run (State.initial m)
  result.map fun v => (v, s.output)

end Lowering.Exec
