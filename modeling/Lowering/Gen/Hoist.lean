import Lowering.Gen.Function

/-!
# Hoisted constants

A constant is initialised when the program starts, before any code of the root.  Its initializer
is generated at the first reference into a block of the entry function, which is put at the end of
the chain of initializers; every reference reads the global behind the constant.  A reference from
inside the initializer finds the global already there and reads zero bits.

* `Gen.settle`: the value of an initializer, kept in the global itself where it is known;
* `Gen.hoist`: the initializer in the chain;
* `Gen.constant`: a reference.
-/

namespace Lowering

open IR (Constant Ty Value GlobalId BlockId Build)

namespace Gen

/-- The content that a global of a type can have from the start to hold a value. -/
def knownContent? (type : Ty) : Value → Option Constant
  | .const (.undef _) => none
  | .const c => if c.type = type then some c else none
  | _ => none

/-- Give a global the value of an initializer of type `t`: as its content when the value is known
before the program runs. -/
def settle (g : GlobalId) (t : TypeId) (value : Value) : Gen Unit := do
  match knownContent? (← irType t) value with
  | some c =>
    let fix (g : IR.Global) : IR.Global := { g with init := some c, constant := true }
    emit <| modify fun b => { b with module := b.module.modifyGlobal g fix }
  | none => assign (.global g) t t value

/-- Generate an initializer from the start of a block of the entry function, and give the block
where it ends. -/
def initializer (visit : Visitor) (g : GlobalId) (d : ConstDef) (t : TypeId) : Gen BlockId := do
  withActivation { vars := [], scope := (← types).program? } do
    let value ← visit d.value
    settle g t value
    currentBlock

/-- Put an initializer at the end of the chain of initializers. -/
def hoist (visit : Visitor) (g : GlobalId) (d : ConstDef) (t : TypeId) : Gen Unit := do
  note .debug ("hoisting initializer of constant " ++ d.name)
  aside do
    let main := (← read).main
    modify fun s => { s with fn := main, blocks := [] }
    let block ← Build.appendBlock main.func ("const_" ++ d.name)
    Build.positionAt main.func block
    let tail ← initializer visit g d t
    Build.positionAt main.func (← get).constTail
    Build.br block
    modify fun s => { s with constTail := tail }

/-- The global behind a constant. -/
def constantGlobal (visit : Visitor) (id : ConstId) (d : ConstDef) (t : TypeId) :
    Gen GlobalId := do
  match (← get).consts.lookup id with
  | some g => return g
  | none =>
    let g ← zeroGlobal d.name (← irType t)
    modify fun s => { s with consts := (id, g) :: s.consts }
    hoist visit g d t
    return g

/-- The value of a constant. -/
def constant (visit : Visitor) (id : ConstId) : Gen Value := do
  let d ← orFail (.unknownConstant id) ((← read).program.const? id)
  let t ← typeOf d.value
  let g ← constantGlobal visit id d t
  heldIn (.global g) t d.name

end Gen

end Lowering
