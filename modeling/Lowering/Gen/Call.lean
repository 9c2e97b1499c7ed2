import Lowering.Gen.Inline

/-!
# Calls of one definition

* `Gen.resolvedCall`: a call of a definition with evaluated arguments;
* `Gen.staticCall`: a call with one candidate.
-/

namespace Lowering

open IR (Value Build)

namespace Gen

/-- A call of a definition with arguments in the shape of its parameters: inlined when it has a
block. -/
def resolvedCall (visit : Visitor) (n : Node) (block : Option (Block Node)) (d : Def)
    (selfType : Option TypeId) (args : List Value) : Gen (Value × TypeId) :=
  match block with
  | some block => inlineCall visit n block d selfType args
  | none => callFunction visit d selfType args

/-- The receiver of a call in the shape that the definition takes, if it takes one. A receiver
that is written is evaluated in any case. -/
def receiverArgument (visit : Visitor) (c : Call Node) (selfType : Option TypeId) :
    Gen (List Value) := do
  match c.receiver, selfType with
  | some r, some t => do
    let value ← visit r
    return [← convert value (← typeOf r) t]
  | some r, none => do
    let _ ← visit r
    return []
  | none, some t => return [← implicitSelf t]
  | none, none => return []

/-- An argument in the shape of its parameter; the parameter of a foreign function may take the
address of a variable. -/
def passedArgument (visit : Visitor) (n : Node) (param : Option Arg) : Gen Value := do
  let byValue : Gen Value := do
    let value ← visit n
    match param with
    | some p => convert value (← typeOf n) p.type
    | none => return value
  match n.kind, param.any Arg.out with
  | .var name, true => return (← declare name (← typeOf n)).ptr
  | _, _ => byValue

/-- The arguments of a call in the shape of the parameters, as far as they are reached. -/
def passedArguments (visit : Visitor) : List Arg → List Node → Gen (List Value)
  | _, [] => return []
  | params, n :: rest => do
    if ← isTerminated then return []
    else
      let value ← passedArgument visit n params.head?
      return value :: (← passedArguments visit params.tail rest)

/-- The type of the receiver of a call, when it has one. -/
def receiverType (c : Call Node) : Gen (Option TypeId) := do
  match c.receiver with
  | some r => return some (← typeOf r)
  | none => return c.scope

/-- A call with one candidate. -/
def staticCall (visit : Visitor) (n : Node) (c : Call Node) (id : DefId) : Gen Value := do
  let d ← targetOf c.name id
  let selfType := selfType? (← types) d (← receiverType c)
  let self ← receiverArgument visit c selfType
  let args ← passedArguments visit d.args c.args
  if ← isTerminated then deadValue n.type
  else
    let (value, source) ← resolvedCall visit n c.block d selfType (self ++ args)
    if ← isTerminated then deadValue n.type else asResult n.type value source

end Gen

end Lowering
