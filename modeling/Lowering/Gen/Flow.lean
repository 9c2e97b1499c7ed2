import Lowering.Gen.Merge
import Lowering.Gen.TypeTest

/-!
# Control flow

Sequences, branches, loops and the transfers that leave them.  Code after a transfer is not
generated; an arm of a branch that has left carries nothing to the end of the branch.

Each rule takes the visitor that generates the expressions inside.

* `Gen.sequence`, `Gen.branch`, `Gen.loop`;
* `Gen.leave`: `return`; `Gen.returnFromFunction`; `Gen.exit`: `break`;
* `Gen.membership`, `Gen.either`.
-/

namespace Lowering

open IR (Value BlockId Build)

namespace Gen

/-- What generates an expression and gives its value. -/
abbrev Visitor := Node → Gen Value

/-- The value of an optional operand with its type; a missing one is nil. -/
def operand (visit : Visitor) : Option Node → Gen (Value × TypeId)
  | some n => do
    let value ← visit n
    return (value, ← typeOf n)
  | none => return (nilValue, ← nil)

/-- The value of the last of some expressions that is reached. -/
def sequence (visit : Visitor) (last : Value) : List Node → Gen Value
  | [] => return last
  | n :: rest => do
    let value ← visit n
    if ← isTerminated then return value else sequence visit value rest

/-! ### Branches -/

/-- An arm of a branch, which ends where the arms meet. -/
def arm (visit : Visitor) (block exit : BlockId) (slot : Option Value) (t : Option TypeId)
    (n : Option Node) : Gen (List (Value × BlockId)) := do
  positionAt block
  let (value, source) ← operand visit n
  deliver exit slot t value source

/-- A branch whose condition is decided at run time. -/
def branchOn (visit : Visitor) (t : Option TypeId) (cond : Value)
    (whenTrue whenFalse : Option Node) : Gen Value := do
  let thenBlock ← appendBlock "then"
  let elseBlock ← appendBlock "else"
  let exit ← appendBlock "exit"
  Build.condBr cond thenBlock elseBlock
  let slot ← mergeSlot t
  let fromThen ← arm visit thenBlock exit slot t whenTrue
  let fromElse ← arm visit elseBlock exit slot t whenFalse
  merge exit slot t (fromThen ++ fromElse)

/-- A branch; an arm that is never taken is not generated. -/
def branch (visit : Visitor) (t : Option TypeId) (cond : Node) (whenTrue whenFalse : Option Node) :
    Gen Value := do
  let value ← visit cond
  if ← isTerminated then deadValue t
  else
    match ← knownTruth? cond value with
    | some taken =>
      let (value, source) ← operand visit (if taken then whenTrue else whenFalse)
      if ← isTerminated then deadValue t else asResult t value source
    | none =>
      let cond ← truth value (← typeOf cond)
      branchOn visit t cond whenTrue whenFalse

/-! ### Loops -/

/-- Run a step with another goal of `break`, and go back to the current one however it ends. -/
def withBreakTarget (b : BreakTarget) (x : Gen α) : Gen α := do
  let saved := (← get).act.breakTarget
  let aim (b : Option BreakTarget) (s : State) : State :=
    { s with act := { s.act with breakTarget := b } }
  modify (aim (some b))
  let r ← attempt x
  modify (aim saved)
  resume r

/-- A loop, entered at its test or at its body. -/
def loop (visit : Visitor) (cond : Node) (body : Option Node) (runOnce : Bool) : Gen Value := do
  let head ← appendBlock "while"
  let bodyBlock ← appendBlock "body"
  let exit ← appendBlock "exit"
  Build.br (if runOnce then bodyBlock else head)
  positionAt head
  let value ← visit cond
  let test ← truth value (← typeOf cond)
  Build.condBr test bodyBlock exit
  positionAt bodyBlock
  let _ ← withBreakTarget (.loop exit) (operand visit body)
  Build.br head
  positionAt exit
  if ((← get).builder.predecessors exit).isEmpty then Build.unreachable
  return nilValue

/-! ### Transfers -/

/-- Return a value from the function; an address-held one is put together in the return slot. -/
def returnFromFunction (value : Value) (source : TypeId) : Gen Unit := do
  let fn := (← get).fn
  match fn.returnType with
  | none => Build.ret none
  | some t =>
    if ← isAddressHeld t then
      let slot ← orFail .noReturnSlot fn.returnSlot
      assign slot t source value
      let whole ← Build.load slot
      Build.ret (some whole)
    else
      let value ← convertExactly value source t
      Build.ret (some value)

/-- Leave the body that a `return` is written in: its inlined call ends, or the function
returns. -/
def leave (visit : Visitor) (value : Option Node) : Gen Value := do
  let (value, source) ← operand visit value
  if ← isTerminated then return nilValue
  else
    match (← get).act.returnTarget with
    | some target => jumpToTarget target value source
    | none => returnFromFunction value source
    return nilValue

/-- Leave the loop, or the call that the block belongs to. -/
def exit (visit : Visitor) (value : Option Node) : Gen Value := do
  let (value, source) ← operand visit value
  match (← get).act.breakTarget with
  | some (.loop exit) => Build.br exit
  | some (.call target) => jumpToTarget target value source
  | none => fail .breakOutside
  return nilValue

/-! ### Tests -/

/-- Whether the value of an expression is of a type. -/
def membership (visit : Visitor) (n : Node) (target : TypeId) : Gen Value := do
  let value ← visit n
  isA value (← typeOf n) target

/-- The truth of the value of an expression. -/
def truthOf (visit : Visitor) (n : Node) : Gen Value := do
  let value ← visit n
  truth value (← typeOf n)

/-- Whether one of two expressions is true; both are evaluated. -/
def either (visit : Visitor) (left right : Node) : Gen Value := do
  let l ← truthOf visit left
  let r ← truthOf visit right
  Build.or l r

end Gen

end Lowering
