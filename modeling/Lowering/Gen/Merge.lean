import Lowering.Gen.Conversion

/-!
# Merge points

A point reached by several jumps that each carry a value of one static type.  An address-held
value is written into a slot by every jump; other values meet in a phi.  Jumps that never run
carry nothing, and a point that no jump reaches is the end of code that never runs.

* `Gen.deliver`: a jump to a merge point;
* `Gen.merge`: what follows the point, with the value that arrived;
* `Gen.addTarget`, `Gen.jumpToTarget`: merge points that `return` and `break` lead to.
-/

namespace Lowering

open IR (Value BlockId Build)

namespace Gen

/-- The slot in which values of a type meet, when they are address-held. -/
def mergeSlot : Option TypeId → Gen (Option Value)
  | some t => do
    if ← isAddressHeld t then return some (← alloca (← irType t)) else return none
  | none => return none

/-- What a jump carries to a merge point of a type: the operand of a phi and the block it comes
from, or nothing when the value is written into a slot or need not be carried. -/
def carry (slot : Option Value) (t : Option TypeId) (value : Value) (source : TypeId) :
    Gen (List (Value × BlockId)) := do
  match slot, t with
  | some slot, some t =>
    assign slot t source value
    return []
  | none, some t =>
    if (← types).isNil t then return []
    else
      let value ← convertExactly value source t
      return [(value, ← currentBlock)]
  | _, none => return []

/-- Jump to a merge point with a value, unless the code here never runs. -/
def deliver (point : BlockId) (slot : Option Value) (t : Option TypeId) (value : Value)
    (source : TypeId) : Gen (List (Value × BlockId)) := do
  if ← isTerminated then return []
  else
    let incoming ← carry slot t value source
    Build.br point
    return incoming

/-- The value that arrived at a merge point that is reached. -/
def arrived (slot : Option Value) (t : Option TypeId) (incoming : List (Value × BlockId)) :
    Gen Value := do
  match slot, ← carried t with
  | some slot, _ => return slot
  | none, some t =>
    match incoming with
    | [(value, _)] => return value
    | _ => Build.phi (← irType t) incoming
  | none, none => return nilValue

/-- Go on at a merge point, with the value that arrived. -/
def merge (point : BlockId) (slot : Option Value) (t : Option TypeId)
    (incoming : List (Value × BlockId)) : Gen Value := do
  positionAt point
  if ((← get).builder.predecessors point).isEmpty then
    Build.unreachable
    deadValue t
  else arrived slot t incoming

/-- The value of a part of the program seen as its result; without a result to carry it is
nil. -/
def asResult (t : Option TypeId) (value : Value) (source : TypeId) : Gen Value := do
  match ← carried t with
  | some t => convert value source t
  | none => return nilValue

/-! ### Targets of jumps -/

/-- A new merge point for jumps. -/
def addTarget (block : BlockId) (type : Option TypeId) (slot : Option Value) : Gen TargetId :=
  modifyGet fun s =>
    (⟨s.targets.size⟩, { s with targets := s.targets.push { block, type, slot } })

/-- A merge point by its id. -/
def target (id : TargetId) : Gen MergeTarget := return ((← get).targets[id.index]?).getD default

/-- Jump to a merge point with a value, unless the code here never runs. -/
def jumpToTarget (id : TargetId) (value : Value) (source : TypeId) : Gen Unit := do
  let t ← target id
  let incoming ← deliver t.block t.slot t.type value source
  let extend (t : MergeTarget) : MergeTarget := { t with incoming := t.incoming ++ incoming }
  modify fun s => { s with targets := s.targets.modify id.index extend }

/-- Take what jumps carried to a merge point. -/
def takeIncoming (id : TargetId) : Gen (List (Value × BlockId)) := do
  let t ← target id
  let clear (t : MergeTarget) : MergeTarget := { t with incoming := [] }
  modify fun s => { s with targets := s.targets.modify id.index clear }
  return t.incoming

end Gen

end Lowering
