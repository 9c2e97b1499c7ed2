import Lowering.Program.Basic
import Lowering.Program.Vocabulary
import Lowering.Json.Printer

/-!
# Programs as documents

Every field is written, a missing one as null.  The fields of a kind stand beside those of the
node or type that has the kind.

* `Node.toJson`, `TypeInfo.toJson`, `Program.toJson`;
* `Program.write`, the text of a program.
-/

namespace Lowering

/-- A location as a document. -/
def Location.toJson (l : Location) : Json :=
  .object [("file", .string l.file), ("line", .nat l.line), ("column", .nat l.column)]

/-- A type id as a document. -/
def TypeId.toJson (id : TypeId) : Json := .nat id.index

/-- A field as a document. -/
def Field.toJson (f : Field) : Json :=
  .object [("name", .string f.name), ("type", f.type.toJson)]

/-- The fields that a kind of type adds. -/
def TypeKind.fields : TypeKind → List (String × Json)
  | .int bits => [("bits", .nat bits)]
  | .float double => [("double", .bool double)]
  | .heapClass name parent ivars =>
    [("name", .string name), ("parent", .ofOption TypeId.toJson parent),
      ("ivars", .array (ivars.map Field.toJson))]
  | .record name fields => [("name", .string name), ("fields", .array (fields.map Field.toJson))]
  | .pointer elem => [("elem", elem.toJson)]
  | .union members => [("members", .array (members.map TypeId.toJson))]
  | .hierarchy base => [("base", base.toJson)]
  | .metaclass instanceType => [("instance", instanceType.toJson)]
  | _ => []

/-- A type as a document. -/
def TypeInfo.toJson (i : TypeInfo) : Json :=
  .object (("kind", .string i.kind.word) :: i.kind.fields ++ [("allocated", .bool i.allocated)])

/-- A table of types as a document. -/
def TypeTable.toJson (t : TypeTable) : Json := .array (t.infos.toList.map TypeInfo.toJson)

/-- The fields that a fixed operation adds. -/
def Primitive.fields : Primitive → List (String × Json)
  | .binary op => [("op", .string op.word)]
  | .structGet field | .structSet field => [("field", .string field)]
  | _ => []

/-- A fixed operation as a document. -/
def Primitive.toJson (p : Primitive) : Json := .object (("prim", .string p.word) :: p.fields)

/-- A block parameter as a document. -/
def BlockArg.toJson (a : BlockArg) : Json :=
  .object [("name", .string a.name), ("type", a.type.toJson)]

namespace Node

mutual

/-- A node as a document. -/
def toJson : Node → Json
  | ⟨id, kind, type, location⟩ =>
    .object (("id", .nat id) :: ("node", .string kind.name) :: kindFields kind ++
      [("type", .ofOption TypeId.toJson type), ("location", .ofOption Location.toJson location)])

/-- The fields that a kind of expression adds. -/
def kindFields : NodeKind Node → List (String × Json)
  | .nop | .nilLiteral | .typeLiteral | .nilPointer | .argc | .argv => []
  | .boolLiteral value => [("value", .bool value)]
  | .intLiteral value => [("value", .int value)]
  | .floatLiteral value => [("value", .number (.float value))]
  | .charLiteral value => [("value", .nat value.toNat)]
  | .stringLiteral value | .symbolLiteral value => [("value", .string value)]
  | .var name | .instanceVar name | .global name => [("name", .string name)]
  | .assign target value => [("target", toJson target), ("value", toJson value)]
  | .multiAssign targets values =>
    [("targets", .array (listJson targets)), ("values", .array (listJson values))]
  | .const id => [("id", .nat id.index)]
  | .expressions nodes => [("expressions", .array (listJson nodes))]
  | .branch cond whenTrue whenFalse =>
    [("cond", toJson cond), ("then", optionJson whenTrue), ("else", optionJson whenFalse)]
  | .loop cond body runOnce =>
    [("cond", toJson cond), ("body", optionJson body), ("run_once", .bool runOnce)]
  | .return value | .break value => [("value", optionJson value)]
  | .yield values => [("values", .array (listJson values))]
  | .call c => callFields c
  | .isA value target => [("obj", toJson value), ("target", target.toJson)]
  | .simpleOr left right => [("left", toJson left), ("right", toJson right)]
  | .pointerOf target => [("target", toJson target)]
  | .primitive op => [("op", op.toJson)]

/-- The fields of a call. -/
def callFields : Call Node → List (String × Json)
  | ⟨receiver, name, args, targets, block, scope⟩ =>
    [("obj", optionJson receiver), ("name", .string name), ("args", .array (listJson args)),
      ("targets", .array (targets.map fun t => .nat t.index)), ("block", blockJson block),
      ("scope", .ofOption TypeId.toJson scope)]

/-- An optional block. -/
def blockJson : Option (Block Node) → Json
  | some ⟨args, body⟩ =>
    .object [("args", .array (args.map BlockArg.toJson)), ("body", optionJson body)]
  | none => .null

/-- A list of nodes. -/
def listJson : List Node → List Json
  | [] => []
  | n :: ns => toJson n :: listJson ns

/-- An optional node. -/
def optionJson : Option Node → Json
  | some n => toJson n
  | none => .null

end

end Node

/-- A parameter as a document. -/
def Arg.toJson (a : Arg) : Json :=
  .object [("name", .string a.name), ("type", a.type.toJson), ("out", .bool a.out)]

/-- A foreign function as a document. -/
def External.toJson (e : External) : Json :=
  .object [("real_name", .string e.realName), ("varargs", .bool e.varargs)]

/-- A definition as a document. -/
def Def.toJson (d : Def) : Json :=
  .object
    [("name", .string d.name), ("owner", d.owner.toJson), ("args", .array (d.args.map Arg.toJson)),
      ("type", .ofOption TypeId.toJson d.type), ("body", Node.optionJson d.body),
      ("external", .ofOption External.toJson d.external),
      ("location", .ofOption Location.toJson d.location)]

/-- A constant as a document. -/
def ConstDef.toJson (c : ConstDef) : Json :=
  .object [("name", .string c.name), ("value", c.value.toJson)]

/-- A global as a document. -/
def GlobalDef.toJson (g : GlobalDef) : Json :=
  .object [("name", .string g.name), ("type", g.type.toJson)]

namespace Program

/-- A program as a document. -/
def toJson (p : Program) : Json :=
  .object
    [("types", p.types.toJson), ("defs", .array (p.defs.map Def.toJson)),
      ("consts", .array (p.consts.map ConstDef.toJson)),
      ("globals", .array (p.globals.map GlobalDef.toJson)),
      ("symbols", .array (p.symbols.map .string)), ("root", Node.optionJson p.root),
      ("filename", .ofOption .string p.filename)]

/-- The text of a program. -/
def write (p : Program) : String := p.toJson.pretty

end Program

end Lowering
