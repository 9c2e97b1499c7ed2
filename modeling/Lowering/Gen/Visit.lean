import Lowering.Gen.Dispatch
import Lowering.Gen.Hoist
import Lowering.Gen.Primitive

/-!
# Expressions

The value of each kind of expression.  Definitions are generated and inlined from the expressions
that call them, so that the nesting of expressions is not bounded by the height of any one: the
depth of nesting is given, and nothing is generated below it.

* `Gen.intLiteral`, `Gen.floatLiteral`, `Gen.typeLiteral`;
* `Gen.assignment`, `Gen.multiAssignment`;
* `Gen.visitWith`: the value of an expression, given those of the expressions below;
* `Gen.visit`: an expression nested at most so deep.
-/

namespace Lowering

open IR (Value Build)

namespace Gen

/-! ### Literals -/

/-- An integer as a value of a type: of 32 bits unless the type says otherwise. -/
def intLiteral (ts : TypeTable) (t : Option TypeId) (value : Int) : Value :=
  match t.map ts.kind with
  | some (.int bits) => .int bits value
  | some (.float double) => .const (.float double (.ofInt value))
  | _ => .i32 value

/-- A floating-point number as a value of a type: of the wide format unless the type is the
narrow one. -/
def floatLiteral (ts : TypeTable) (t : Option TypeId) (value : Binary64) : Value :=
  .const (.float (t.map ts.kind != some (.float false)) value)

/-- A type as a value: the runtime id of what a metaclass makes. -/
def typeLiteral (ts : TypeTable) (t : Option TypeId) : Value :=
  match t with
  | some t =>
    match ts.kind t with
    | .metaclass made => tagOf made
    | _ => tagOf t
  | none => .i32 0

/-! ### Assignments -/

/-- Store the value of an expression. -/
def assignment (visit : Visitor) (n target value : Node) : Gen Value := do
  let v ← visit value
  let source ← typeOf value
  if ← isTerminated then return v
  else
    let (ptr, t) ← assignTarget target
    assign ptr t source v
    convert v source (← typeOf n)

/-- The value of an expression, out of reach of later stores: an address-held one is copied. -/
def detached (visit : Visitor) (n : Node) : Gen (Value × TypeId) := do
  let value ← visit n
  let t ← typeOf n
  if ← isAddressHeld t then
    let copy ← alloca (← irType t)
    assign copy t t value
    return (copy, t)
  else return (value, t)

/-- Store values in order, as far as that is reached. -/
def storeAll : List (Node × Value × TypeId) → Gen Unit
  | [] => return ()
  | (target, value, source) :: rest => do
    if ← isTerminated then return ()
    else
      let (ptr, t) ← assignTarget target
      assign ptr t source value
      storeAll rest

/-- Store the values of several expressions, all of them computed before the first is stored. -/
def multiAssignment (visit : Visitor) (targets values : List Node) : Gen Value := do
  if targets.length ≠ values.length then
    fail (.targetCount values.length targets.length)
  else
    let values ← values.mapM (detached visit)
    storeAll (targets.zip values)
    return nilValue

/-! ### Expressions -/

/-- The value of an expression, given the visitor of the expressions below. -/
def visitWith (visit : Visitor) (n : Node) : Gen Value := do
  match n.kind with
  | .nop | .nilLiteral => return nilValue
  | .boolLiteral value => return .i1 value
  | .intLiteral value => return intLiteral (← types) n.type value
  | .floatLiteral value => return floatLiteral (← types) n.type value
  | .charLiteral value => return .i8 value.toNat
  | .stringLiteral value => stringValue value
  | .symbolLiteral value => symbolValue value
  | .typeLiteral => return typeLiteral (← types) n.type
  | .var name => readVariable name (← typeOf n)
  | .assign target value => assignment visit n target value
  | .multiAssign targets values => multiAssignment visit targets values
  | .instanceVar name => readField name (← typeOf n)
  | .global name => readGlobal name (← typeOf n)
  | .const id => constant visit id
  | .expressions nodes => sequence visit nilValue nodes
  | .branch cond whenTrue whenFalse => branch visit n.type cond whenTrue whenFalse
  | .loop cond body runOnce => loop visit cond body runOnce
  | .return value => leave visit value
  | .break value => exit visit value
  | .yield values => yield visit n values
  | .call c => call visit n c
  | .isA value target => membership visit value target
  | .simpleOr left right => either visit left right
  | .pointerOf target => pointerTo target (← typeOf n)
  | .nilPointer => return .null (← irType (← typeOf n))
  | .argc => argumentCount
  | .argv => argumentVector
  | .primitive op => primitive op

/-- Record the value of an expression as the last one. -/
def record (n : Node) (value : Value) : Gen Unit :=
  modify fun s => { s with last := { value, type := n.type } }

/-- Run the step that generates an expression; a failure inside that has no position yet gets
that of the expression. -/
def located (n : Node) (x : Gen α) : Gen α := do
  match ← attempt (atLocation n x) with
  | .ok a => return a
  | .error f => throw (f.orAt n.location)

/-- The value of an expression nested at most so deep. -/
def visit : Nat → Visitor
  | 0, _ => fail .nestingTooDeep
  | depth + 1, n => do
    note .trace ("visit " ++ n.text)
    let value ← located n (visitWith (visit depth) n)
    record n value
    return value

end Gen

end Lowering
