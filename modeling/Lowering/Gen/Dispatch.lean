import Lowering.Gen.Call

/-!
# Calls with several candidates

The operands are evaluated once.  The candidates are tested in order: each test compares what the
operands are at run time with the owner and the parameter types, and the first candidate that
admits them runs.  The candidates cover whatever the static types allow, so the end of the chain
is never reached.

* `Gen.Operand`, `Gen.admits`, `Gen.guard`;
* `Gen.candidate`, `Gen.dispatch`.
-/

namespace Lowering

open IR (Value BlockId Build)

namespace Gen

/-- An evaluated operand; its tag is what tells its type at run time: for a nilable the pointer
itself, for a register value nothing. -/
structure Operand where
  value : Value
  type : TypeId
  tag : Option Value
  deriving DecidableEq, Repr, Inhabited

/-- A value as an operand. -/
def Operand.of (value : Value) (t : TypeId) : Gen Operand := do
  match ← shape t with
  | .tagged _ | .boxed _ => return ⟨value, t, some (← loadTag value)⟩
  | .nilable _ => return ⟨value, t, some value⟩
  | .scalar => return ⟨value, t, none⟩

/-! ### Tests -/

/-- Whether an operand is at run time of a type. -/
def admits (want : TypeId) (o : Operand) : Gen Value := do
  match o.tag, ← shape o.type with
  | none, _ => return .i1 true
  | some tag, .nilable _ =>
    if (← types).isNil want then isNull tag else isNotNull tag
  | some tag, _ => tagBelongs want tag

/-- Whether all operands are of the types asked of them, besides what is known already. -/
def admitsAll (known : Value) (wanted : List (Operand × TypeId)) : Gen Value :=
  wanted.foldlM (fun guard (o, want) => do
    let admitted ← admits want o
    Build.and guard admitted) known

/-- What a candidate asks of the operands; the outermost scope asks nothing of a receiver. -/
def wantedBy (ts : TypeTable) (d : Def) (self : Option Operand) (args : List Operand) :
    List (Operand × TypeId) :=
  let owner := if ts.kind d.owner = .program then [] else self.toList.map (·, d.owner)
  owner ++ args.zip (d.args.map Arg.type)

/-- Whether a candidate is the one that the operands ask for. -/
def guard (d : Def) (self : Option Operand) (args : List Operand) : Gen Value := do
  admitsAll (.i1 true) (wantedBy (← types) d self args)

/-- Whether values of the owner and of all parameter types can exist. -/
def isInstantiated (ts : TypeTable) (d : Def) : Bool :=
  ts.allocated d.owner && d.args.all fun a => ts.allocated a.type

/-! ### Operands of a call -/

/-- The receiver of a call: the one written, or the current one where the scope passes one. -/
def receiverOperand (visit : Visitor) (c : Call Node) : Gen (Option Operand) := do
  match c.receiver with
  | some r => do
    let value ← visit r
    return some (← Operand.of value (← typeOf r))
  | none => do
    let ts ← types
    match ← lookup? "self" with
    | some v =>
      if c.scope.any ts.passedAsSelf then
        let held ← heldValue "self" v
        return some (← Operand.of held v.type)
      else return none
    | none => return none

/-- The arguments of a call, as far as they are reached. -/
def argumentOperands (visit : Visitor) : List Node → Gen (List Operand)
  | [] => return []
  | n :: rest => do
    let value ← visit n
    let o ← Operand.of value (← typeOf n)
    if ← isTerminated then return [o] else return o :: (← argumentOperands visit rest)

/-! ### Candidates -/

/-- The operands in the shape of the parameters of a candidate. -/
def shaped (d : Def) (selfType : Option TypeId) (self : Option Operand) (args : List Operand) :
    Gen (List Value) := do
  let passed ← match selfType, self with
    | some t, some o => do pure [← convert o.value o.type t]
    | some t, none => do pure [← implicitSelf t]
    | none, _ => pure []
  let args ← (args.zip d.args).mapM fun (o, p) => convert o.value o.type p.type
  return passed ++ args

/-- Call a candidate and carry its result to where the results meet. -/
def callCandidate (visit : Visitor) (n : Node) (block : Option (Block Node)) (exit : BlockId)
    (slot : Option Value) (self : Option Operand) (args : List Operand) (d : Def) :
    Gen (List (Value × BlockId)) := do
  let selfType := selfType? (← types) d (some d.owner)
  let passed ← shaped d selfType self args
  let (value, source) ← resolvedCall visit n block d selfType passed
  deliver exit slot n.type value source

/-- Test a candidate and call it, then go on where the test fails. A candidate of which no value
can exist is never called. -/
def candidate (visit : Visitor) (n : Node) (c : Call Node) (exit : BlockId) (slot : Option Value)
    (self : Option Operand) (args : List Operand) (id : DefId) :
    Gen (List (Value × BlockId)) := do
  let d ← targetOf c.name id
  let admitted ← guard d self args
  let current ← appendBlock "current_def"
  let next ← appendBlock "next_def"
  Build.condBr admitted current next
  positionAt current
  let incoming ←
    if isInstantiated (← types) d then callCandidate visit n c.block exit slot self args d
    else do
      let owner ← typeName d.owner
      note .warn (marked d.name ++ " on " ++ owner ++ " is never instantiated, skipping")
      Build.unreachable
      pure []
  positionAt next
  return incoming

/-- A call with several candidates. -/
def dispatch (visit : Visitor) (n : Node) (c : Call Node) : Gen Value := do
  let count := toString c.targets.length
  note .debug ("dispatch chain for " ++ marked c.name ++ " over " ++ count ++ " candidate(s)")
  let self ← receiverOperand visit c
  let args ← argumentOperands visit c.args
  if ← isTerminated then deadValue n.type
  else
    let exit ← appendBlock "exit"
    let slot ← mergeSlot n.type
    let incoming ← c.targets.mapM (candidate visit n c exit slot self args)
    Build.unreachable
    merge exit slot n.type incoming.flatten

/-- A call. -/
def call (visit : Visitor) (n : Node) (c : Call Node) : Gen Value := do
  match c.targets with
  | [] => fail (.noTarget c.name)
  | [id] => staticCall visit n c id
  | _ => dispatch visit n c

end Gen

end Lowering
