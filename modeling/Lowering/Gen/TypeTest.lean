import Lowering.Gen.Conversion

/-!
# Type tests

What a value is at run time, told from its tag, or decided before the program runs when its static
type leaves one answer.

* `Gen.isA`: whether a value belongs to a type;
* `Gen.tagBelongs`: whether a tag is that of a value of a type;
* `Gen.truth`: whether a value counts as true;
* `Gen.knownTruth?`: the truth that the static type or a constant value decides.
-/

namespace Lowering

open IR (Value Build)

namespace Gen

/-! ### Membership -/

/-- Whether a tag is one of some types. -/
def tagIsAny (tag : Value) (ids : List TypeId) : Gen Value :=
  ids.foldlM (fun found id => do
    let same ← Build.icmp .eq tag (tagOf id)
    Build.or found same) (Value.i1 false)

/-- The tags of the values of a type: its own, those of its members, and its runtime ids, each
once. -/
def tagsOf (ts : TypeTable) (t : TypeId) : List TypeId :=
  (ts.members t ++ ts.runtimeIds t).foldl
    (fun ids id => if ids.contains id then ids else ids ++ [id]) [t]

/-- Whether a tag is that of a value of a type. -/
def tagBelongs (t : TypeId) (tag : Value) : Gen Value := do
  tagIsAny tag (tagsOf (← types) t)

/-- Whether the value of a tagged union is of a type that belongs to another. -/
def unionIsA (value : Value) (source target : TypeId) : Gen Value := do
  let ts ← types
  let members := ts.members source
  let matching := members.filter fun m => ts.implements m target
  if matching.isEmpty then return .i1 false
  else if matching.length = members.length then return .i1 true
  else
    let tag ← loadTag value
    tagIsAny tag matching

/-- Whether a value is at run time of a type. -/
def isA (value : Value) (source target : TypeId) : Gen Value := do
  let ts ← types
  match ts.shape source with
  | .tagged _ => unionIsA value source target
  | .nilable member =>
    if ts.isNil target then isNull value
    else if ts.implements member target then isNotNull value
    else return .i1 false
  | .boxed _ | .scalar => return .i1 (ts.implements source target)

/-! ### Truth -/

/-- Whether a tag is not that of nil. -/
def isNotNilTag (tag : Value) (nil : TypeId) : Gen Value := Build.icmp .ne tag (tagOf nil)

/-- Whether a tagged union with a truth member holds anything but `false` or nil. -/
def unionTruth (value : Value) (source bool : TypeId) (nil : Option TypeId) : Gen Value := do
  let tag ← loadTag value
  let isBool ← Build.icmp .eq tag (tagOf bool)
  let bit ← convert value source bool
  let isFalse ← Build.icmp .eq bit (.i1 false)
  let falsy ← Build.and isBool isFalse
  let falsy ← match nil with
    | some nil => do
      let isNil ← Build.icmp .eq tag (tagOf nil)
      Build.or isNil falsy
    | none => pure falsy
  Build.not falsy

/-- Whether a value counts as true: nil, `false` and null pointers do not, all else does. -/
def truth (value : Value) (t : TypeId) : Gen Value := do
  let ts ← types
  match ts.kind t with
  | .nil => return .i1 false
  | .bool => Build.icmp .ne value (.i1 false)
  | .union members =>
    if ts.isNilable t then isNotNull value
    else
      match members.find? ts.isNil, members.find? ts.isBool with
      | none, none => return .i1 true
      | some nil, none => do
        let tag ← loadTag value
        isNotNilTag tag nil
      | nil, some bool => unionTruth value t bool nil
  | .pointer _ => isNotNull value
  | _ => return .i1 true

/-- The truth of all values of a type, where they agree. -/
def truthByType? (ts : TypeTable) (t : TypeId) : Option Bool :=
  match ts.kind t with
  | .nil => some false
  | .bool | .pointer _ => none
  | .union members =>
    if ts.isNilable t || members.any fun m => ts.isNil m || ts.isBool m then none else some true
  | _ => some true

/-- The truth of a condition that its type or a constant value decides; a condition that yields
is never decided. -/
def knownTruth? (cond : Node) (value : Value) : Gen (Option Bool) := do
  if cond.yields then return none
  else return (truthByType? (← types) (← typeOf cond)).or value.constBool?

end Gen

end Lowering
