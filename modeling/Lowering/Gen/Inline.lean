import Lowering.Gen.Function

/-!
# Inlined calls

A call with a block is no call at run time: the body of the definition is generated in place,
under an activation of its own whose `return` leads to the end of the inlined code.  Each `yield`
inside generates the block in place, under the activation that the block was written in: there a
`return` leaves the caller, and a `break` leaves the call.

* `Gen.inlineCall`;
* `Gen.inlineBlock`, `Gen.yield`.
-/

namespace Lowering

open IR (Value Build)

namespace Gen

/-! ### Calls -/

/-- Park the caller with its block, and go on under another activation. -/
def pushFrame (block : Block Node) (act : Activation) : Gen Unit :=
  modify fun s => { s with act, blocks := { block, caller := s.act } :: s.blocks }

/-- Go back to the caller that was parked last. -/
def popFrame : Gen Unit := do
  match (← get).blocks with
  | frame :: rest => modify fun s => { s with act := frame.caller, blocks := rest }
  | [] => fail .blockUnderflow

/-- Generate the body of a definition up to its end, a merge point. -/
def inlineBody (visit : Visitor) (d : Def) (target : TargetId) : Gen Unit := do
  let (value, source) ← operand visit d.body
  jumpToTarget target value source

/-- Generate a call with a block in place, with arguments in the shape of the parameters. -/
def inlineCall (visit : Visitor) (n : Node) (block : Block Node) (d : Def)
    (selfType : Option TypeId) (args : List Value) : Gen (Value × TypeId) := do
  note .debug ("inlining " ++ d.name ++ " with a block")
  let exit ← appendBlock "return"
  let slot ← mergeSlot n.type
  let target ← addTarget exit n.type slot
  let vars ← parameterScope d selfType args
  let scope := selfType.or (← get).act.scope
  pushFrame block { vars, scope, returnTarget := some target }
  let r ← attempt (inlineBody visit d target)
  popFrame
  resume r
  let incoming ← takeIncoming target
  let value ← merge exit slot n.type incoming
  return (value, ← typeOf n)

/-! ### Blocks -/

/-- The variables of the parameters of a block, on top of those in scope, unless the code here
never runs. A parameter without a value is nil. -/
def blockScope (visit : Visitor) (vars : Scope) : List BlockArg → List Node → Gen (Option Scope)
  | [], _ => return some vars
  | a :: args, values => do
    let (value, source) ← operand visit values.head?
    if ← isTerminated then return none
    else
      let slot ← alloca (← irType a.type) (some a.name)
      assign slot a.type source value
      blockScope visit ((a.name, { ptr := slot, type := a.type }) :: vars) args values.tail

/-- Generate expressions whose values are not used. -/
def discard (visit : Visitor) : List Node → Gen Unit
  | [] => return ()
  | n :: rest => do
    let _ ← visit n
    discard visit rest

/-- Generate a block in place with the values given to it. -/
def inlineBlock (visit : Visitor) (n : Node) (values : List Node) (frame : BlockFrame) :
    Gen Value := do
  match ← blockScope visit frame.caller.vars frame.block.args values with
  | none => deadValue n.type
  | some vars =>
    discard visit (values.drop frame.block.args.length)
    if ← isTerminated then deadValue n.type
    else
      let breakTarget := (← get).act.returnTarget.map BreakTarget.call
      let act : Activation :=
        { vars, scope := frame.caller.scope, returnTarget := frame.caller.returnTarget, breakTarget }
      let (value, source) ← withActivation act (operand visit frame.block.body)
      if ← isTerminated then deadValue n.type else asResult n.type value source

/-- Generate the innermost pending block; meanwhile it is not pending. -/
def yield (visit : Visitor) (n : Node) (values : List Node) : Gen Value := do
  match (← get).blocks with
  | [] => fail .yieldWithoutBlock
  | frame :: rest =>
    modify fun s => { s with blocks := rest }
    let r ← attempt (inlineBlock visit n values frame)
    modify fun s => { s with blocks := frame :: s.blocks }
    resume r

end Gen

end Lowering
