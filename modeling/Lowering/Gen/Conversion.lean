import Lowering.Gen.State

/-!
# Conversions

A value of one static type seen as a value of another.  Each pair of shapes has one rule; a pair
that typing never produces is a failure, not a reinterpretation.  Address-held values are given
by the address of their storage, all others by a register value.

A tag is the runtime id of a type, the same in every union, so the bytes of a union can be copied
to or read as another union that has the member at hand.

* `Gen.coerce`: between types of the representation that differ in what they point to;
* `Gen.storeInUnion`, `Gen.fillBox`: writing into address-held storage;
* `Gen.convert`: the view of a value as another type;
* `Gen.assign`: storing a value into a slot of another type.
-/

namespace Lowering

open IR (Ty Value Build)

namespace Gen

/-! ### Parts of address-held values -/

/-- The operand that stands for a type at run time. -/
def tagOf (t : TypeId) : Value := .i32 t.index

/-- The tag of an address-held value. -/
def loadTag (addr : Value) : Gen Value := do
  let tag ← Build.structGep addr 0
  Build.load tag (some "type_id")

/-- Write the tag of an address-held value. -/
def storeTag (addr tag : Value) : Gen Unit := do
  let slot ← Build.structGep addr 0
  Build.store tag slot

/-- The address of what an address-held value carries besides its tag. -/
def payload (addr : Value) (as : Ty) : Gen Value := do
  let bytes ← Build.structGep addr 1
  Build.bitcast bytes (.ptr as)

/-- Whether a pointer is null. -/
def isNull (value : Value) : Gen Value := do
  let address ← Build.ptrToInt value .i64
  Build.icmp .eq address (.i64 0)

/-- Whether a pointer is not null. -/
def isNotNull (value : Value) : Gen Value := do
  let address ← Build.ptrToInt value .i64
  Build.icmp .ne address (.i64 0)

/-! ### Coercion -/

/-- The value as a value of another type of the representation: a pointer to something else, or
an integer that stands for nil as a pointer. All other values stay as they are. -/
def coerce (value : Value) (target : Ty) : Gen Value := do
  let source ← Build.typeOf value
  if source = target then return value
  else if source.isPtr && target.isPtr then Build.bitcast value target
  else if source.isInt && target.isPtr then Build.intToPtr value target
  else return value

/-- Write a value through a pointer, coerced to what the pointer points to. -/
def storeCoerced (value ptr : Value) : Gen Unit := do
  let value ← match (← Build.typeOf ptr).pointee? with
    | some target => coerce value target
    | none => pure value
  Build.store value ptr

/-! ### Writing into storage -/

/-- Write the type and the address of an object into a box. -/
def fillBox (slot : Value) (t : TypeId) (value : Value) : Gen Unit := do
  storeTag slot (tagOf t)
  let object ← Build.bitcast value .bytePtr
  let ptr ← Build.structGep slot 1
  Build.store object ptr

/-- An object in a box of its own. -/
def boxed (t : TypeId) (value : Value) : Gen Value := do
  let slot ← alloca boxType (some "box")
  fillBox slot t value
  return slot

/-- The first member of a union of types that is a hierarchy and admits a type that is not a
member itself. -/
def admittingHierarchy? (ts : TypeTable) (members : List TypeId) (t : TypeId) : Option TypeId :=
  if members.contains t then none
  else members.find? fun m => ts.isHierarchy m && ts.implements t m

/-- Write a register value into a tagged union, in a box when a hierarchy admits it. -/
def storeScalarInUnion (ptr : Value) (target source : TypeId) (value : Value) : Gen Unit := do
  let ts ← types
  match admittingHierarchy? ts (ts.members target) source with
  | some h =>
    storeTag ptr (tagOf h)
    let room ← payload ptr boxType
    fillBox room source value
  | none =>
    storeTag ptr (tagOf source)
    let room ← payload ptr (ts.irType source)
    storeCoerced value room

/-- Write a hierarchy value into a tagged union: as a whole when its type is a member, else its
tag and object. -/
def storeBoxInUnion (ptr : Value) (target source : TypeId) (value : Value) : Gen Unit := do
  if ((← types).members target).contains source then
    storeTag ptr (tagOf source)
    let box ← Build.load value
    let room ← payload ptr boxType
    Build.store box room
  else
    let tag ← loadTag value
    let objectPtr ← Build.structGep value 1
    let object ← Build.load objectPtr
    storeTag ptr tag
    let room ← payload ptr .bytePtr
    Build.store object room

/-- Write a nilable value into a tagged union; its tag tells null from an object. -/
def storeNilableInUnion (ptr : Value) (source member : TypeId) (value : Value) : Gen Unit := do
  let null ← isNull value
  let tag ← Build.select null (tagOf (← nil)) (tagOf member)
  storeTag ptr tag
  let room ← payload ptr (← irType source)
  Build.store value room

/-- Copy the bytes of a tagged union to another one, as many as both have. -/
def copyUnion (ptr : Value) (target source : TypeId) (value : Value) : Gen Unit := do
  let wide ← irType source
  let room ← irType target
  let copied := if wide.size ≤ room.size then wide else room
  let src ← Build.bitcast value (.ptr copied)
  let bytes ← Build.load src
  let dst ← Build.bitcast ptr (.ptr copied)
  Build.store bytes dst

/-- Write a value into the tagged union at an address. -/
def storeInUnion (ptr : Value) (target source : TypeId) (value : Value) : Gen Unit := do
  match ← shape source with
  | .tagged _ => copyUnion ptr target source value
  | .nilable member => storeNilableInUnion ptr source member value
  | .boxed _ => storeBoxInUnion ptr target source value
  | .scalar => storeScalarInUnion ptr target source value

/-! ### Views -/

/-- Whether the storage of one union can be read as another one: it has all its members. -/
def isNarrowing (ts : TypeTable) (source target : TypeId) : Bool :=
  (ts.members target).all fun m => (ts.members source).contains m

/-- A value in a tagged union of its own. -/
def inUnion (value : Value) (source target : TypeId) : Gen Value := do
  let slot ← alloca (← irType target)
  storeInUnion slot target source value
  return slot

/-- The hierarchy value in a tagged union: the member itself, else a box of the tag and object. -/
def boxOfUnion (value : Value) (source target : TypeId) : Gen Value := do
  if ((← types).members source).contains target then payload value boxType
  else
    let slot ← alloca boxType (some "box")
    let tag ← loadTag value
    let objectPtr ← payload value .bytePtr
    let object ← Build.load objectPtr
    storeTag slot tag
    let ptr ← Build.structGep slot 1
    Build.store object ptr
    return slot

/-- The pointer in a tagged union, null when the tag is that of nil. -/
def nilableOfUnion (value : Value) (target : Ty) : Gen Value := do
  let tag ← loadTag value
  let isNil ← Build.icmp .eq tag (tagOf (← nil))
  let objectPtr ← payload value target
  let object ← Build.load objectPtr
  Build.select isNil (.null target) object

/-- The object of a hierarchy value. -/
def objectOfBox (value : Value) (target : Ty) : Gen Value := do
  let ptr ← Build.structGep value 1
  let object ← Build.load ptr
  Build.bitcast object target

/-- The register value in a tagged union. -/
def scalarOfUnion (value : Value) (target : Ty) : Gen Value := do
  let room ← payload value target
  Build.load room

/-- A register value as one of another type: the same representation, or another pointer. -/
def scalarOfScalar (value : Value) (source target : TypeId) : Gen Value := do
  let given ← irType source
  let want ← irType target
  if given = want then return value
  else if given.isPtr && want.isPtr then Build.bitcast value want
  else fail (.noConversion (← typeName source) (← typeName target))

/-- The view of a value of one type as a value of another. -/
def convert (value : Value) (source target : TypeId) : Gen Value := do
  if source = target then return value
  let ts ← types
  let want := ts.irType target
  match ts.shape target, ts.shape source with
  | .tagged _, .tagged _ =>
    if isNarrowing ts source target then Build.bitcast value (.ptr want)
    else inUnion value source target
  | .tagged _, _ => inUnion value source target
  | .boxed _, .boxed _ => return value
  | .boxed _, .scalar => boxed source value
  | .boxed _, .nilable member => boxed member value
  | .boxed _, .tagged _ => boxOfUnion value source target
  | .nilable _, .tagged _ => nilableOfUnion value want
  | .nilable _, .boxed _ | .scalar, .boxed _ => objectOfBox value want
  | .nilable _, _ => if ts.isNil source then return .null want else coerce value want
  | .scalar, held =>
    if ts.isNil target then return nilValue
    else
      match held with
      | .tagged _ => scalarOfUnion value want
      | .scalar => scalarOfScalar value source target
      | _ => coerce value want

/-- The view of a value as another type, in the representation of that type. -/
def convertExactly (value : Value) (source target : TypeId) : Gen Value := do
  let value ← convert value source target
  coerce value (← irType target)

/-! ### Assignment -/

/-- Copy an address-held value. -/
def copyHeld (ptr value : Value) : Gen Unit := do
  let held ← Build.load value
  Build.store held ptr

/-- Store a value of type `source` into the slot of type `target` at an address. -/
def assign (ptr : Value) (target source : TypeId) (value : Value) : Gen Unit := do
  if target = source then
    if ← isAddressHeld target then copyHeld ptr value else storeCoerced value ptr
  else
    match ← shape target with
    | .tagged _ => storeInUnion ptr target source value
    | .boxed _ =>
      if (← shape source) = .scalar then fillBox ptr source value
      else
        let box ← convert value source target
        copyHeld ptr box
    | .nilable _ | .scalar =>
      let value ← convert value source target
      storeCoerced value ptr

end Gen

end Lowering
