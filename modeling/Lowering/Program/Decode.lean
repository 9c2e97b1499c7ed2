import Lowering.Json.Parser
import Lowering.Program.Basic
import Lowering.Program.Vocabulary

/-!
# Programs from documents

Lists, texts and numbers that may be missing have defaults; only what is optional may be null.

* `Node.ofJson?`, `TypeTable.ofJson?`, `Program.ofJson?`;
* `Program.decode`, which reads a text, and `Program.load`, which also checks the references.

Nodes are read to a bounded depth, which a document that was read from a text cannot exceed.
-/

namespace Lowering

/-- A location of a document. -/
def Location.ofJson? (j : Json) : Option Location := do
  match ← j.record? ["file", "line", "column"] with
  | [file, line, column] =>
    some
      { file := ← Json.default "" Json.string? file
        line := ← Json.required (Json.natOf? 64) line
        column := ← Json.default 0 (Json.natOf? 64) column }
  | _ => none

/-- A location of a text. -/
def Location.decode? (text : String) : Option Location := (Json.parse? text).bind ofJson?

/-- A type id of a document. -/
def TypeId.ofJson? (j : Json) : Option TypeId := (j.natOf? 32).map TypeId.mk

/-- A named type of a document. -/
def Field.ofJson? (j : Json) : Option Field := do
  match ← j.record? ["name", "type"] with
  | [name, type] =>
    some
      { name := ← Json.required Json.string? name
        type := ← Json.required TypeId.ofJson? type }
  | _ => none

/-- The kind of a type: its word, and the fields that the word calls for. -/
def TypeKind.ofFields? (word : String) (fields : List (String × Json)) : Option TypeKind := do
  match word with
  | "program" => some .program
  | "nil" => some .nil
  | "bool" => some .bool
  | "char" => some .char
  | "int" => some (.int (← Json.required (Json.natOf? 32) (← Json.slot? fields "bits")))
  | "float" => some (.float (← Json.default false Json.bool? (← Json.slot? fields "double")))
  | "symbol" => some .symbol
  | "str" => some .string
  | "class" =>
    some (.heapClass (← Json.required Json.string? (← Json.slot? fields "name"))
      (← Json.optional TypeId.ofJson? (← Json.slot? fields "parent"))
      (← Json.default [] (Json.list? Field.ofJson?) (← Json.slot? fields "ivars")))
  | "struct" =>
    some (.record (← Json.required Json.string? (← Json.slot? fields "name"))
      (← Json.default [] (Json.list? Field.ofJson?) (← Json.slot? fields "fields")))
  | "pointer" => some (.pointer (← Json.required TypeId.ofJson? (← Json.slot? fields "elem")))
  | "union" =>
    some (.union (← Json.required (Json.list? TypeId.ofJson?) (← Json.slot? fields "members")))
  | "hierarchy" => some (.hierarchy (← Json.required TypeId.ofJson? (← Json.slot? fields "base")))
  | "metaclass" =>
    some (.metaclass (← Json.required TypeId.ofJson? (← Json.slot? fields "instance")))
  | _ => none

/-- The kind of a type of a document. -/
def TypeKind.ofJson? (j : Json) : Option TypeKind := do
  let (word, rest) ← Json.tagged? "kind" TypeKind.words (← j.object?)
  TypeKind.ofFields? word rest

/-- A type of a document. -/
def TypeInfo.ofJson? (j : Json) : Option TypeInfo := do
  let fields ← j.object?
  let allocated ← Json.slot? fields "allocated"
  let rest := Json.others fields ["allocated"]
  if Json.allFieldsReadable rest then
    some
      { kind := ← TypeKind.ofJson? (.object rest)
        allocated := ← Json.default true Json.bool? allocated }
  else none

/-- A table of types of a document. -/
def TypeTable.ofJson? (j : Json) : Option TypeTable :=
  (j.list? TypeInfo.ofJson?).map fun infos => ⟨infos.toArray⟩

/-- A table of types of a text. -/
def TypeTable.decode? (text : String) : Option TypeTable := (Json.parse? text).bind ofJson?

/-- A word alone, or as the only field of an object, whose value is empty. -/
def BinaryPrimitive.ofJson? : Json → Option BinaryPrimitive
  | .string s => ofWord? s
  | .object [(s, .null)] | .object [(s, .object [])] => ofWord? s
  | _ => none

/-- A fixed operation: its word, and an object or list of what the word calls for. -/
def Primitive.ofParts? (word : String) (rest : Json) : Option Primitive := do
  let field (name : String) : Option Json.Slot := do (← rest.record? [name]).head?
  let plain (op : Primitive) : Option Primitive :=
    match rest with
    | .array (_ :: _) => none
    | _ => some op
  match word with
  | "binary" => some (.binary (← Json.required BinaryPrimitive.ofJson? (← field "op")))
  | "convert" => plain .convert
  | "allocate" => plain .allocate
  | "struct_alloc" => plain .structAlloc
  | "struct_get" => some (.structGet (← Json.required Json.string? (← field "field")))
  | "struct_set" => some (.structSet (← Json.required Json.string? (← field "field")))
  | "pointer_malloc" => plain .pointerMalloc
  | "pointer_realloc" => plain .pointerRealloc
  | "pointer_get_value" => plain .pointerGetValue
  | "pointer_set_value" => plain .pointerSetValue
  | "pointer_add" => plain .pointerAdd
  | "pointer_cast" => plain .pointerCast
  | "pointer_copy_from" => plain .pointerCopyFrom
  | "pointer_address" => plain .pointerAddress
  | "symbol_to_s" => plain .symbolToString
  | _ => none

/-- A fixed operation of a document: an object with its word, or a list that starts with it. -/
def Primitive.ofJson? : Json → Option Primitive
  | .object fields => do
    let (word, rest) ← Json.tagged? "prim" Primitive.words fields
    Primitive.ofParts? word (.object rest)
  | .array (tag :: rest) => do
    Primitive.ofParts? (← Json.variant? Primitive.words tag) (.array rest)
  | _ => none

/-- A block parameter of a document. -/
def BlockArg.ofJson? (j : Json) : Option BlockArg :=
  (Field.ofJson? j).map fun f => ⟨f.name, f.type⟩

/-- A definition id of a document. -/
def DefId.ofJson? (j : Json) : Option DefId := (j.natOf? 32).map DefId.mk

namespace NodeKind

variable {α : Type}

/-- A block of a document, given a reader of what it holds. -/
def block? (read : Json → Option α) (j : Json) : Option (Block α) := do
  match ← j.record? ["args", "body"] with
  | [args, body] =>
    some
      { args := ← Json.default [] (Json.list? BlockArg.ofJson?) args
        body := ← Json.optional read body }
  | _ => none

/-- A call of a document. -/
def call? (read : Json → Option α) (fields : List (String × Json)) : Option (Call α) := do
  match ← Json.slots? fields ["obj", "name", "args", "targets", "block", "scope"] with
  | [receiver, name, args, targets, block, scope] =>
    some
      { receiver := ← Json.optional read receiver
        name := ← Json.required Json.string? name
        args := ← Json.default [] (Json.list? read) args
        targets := ← Json.default [] (Json.list? DefId.ofJson?) targets
        block := ← Json.optional (block? read) block
        scope := ← Json.optional TypeId.ofJson? scope }
  | _ => none

/-- The kind of an expression: its word, and the fields that the word calls for. -/
def ofFields? (read : Json → Option α) (word : String) (fields : List (String × Json)) :
    Option (NodeKind α) := do
  let text (name : String) := do Json.required Json.string? (← Json.slot? fields name)
  let below (name : String) := do Json.required read (← Json.slot? fields name)
  let perhaps (name : String) := do Json.optional read (← Json.slot? fields name)
  let many (name : String) := do Json.required (Json.list? read) (← Json.slot? fields name)
  match word with
  | "nop" => some .nop
  | "nil_literal" => some .nilLiteral
  | "bool_literal" =>
    some (.boolLiteral (← Json.required Json.bool? (← Json.slot? fields "value")))
  | "int_literal" =>
    some (.intLiteral (← Json.required Json.int64? (← Json.slot? fields "value")))
  | "float_literal" =>
    some (.floatLiteral (← Json.required Json.float? (← Json.slot? fields "value")))
  | "char_literal" =>
    some (.charLiteral (.ofNat (← Json.required (Json.natOf? 8) (← Json.slot? fields "value"))))
  | "string_literal" => some (.stringLiteral (← text "value"))
  | "symbol_literal" => some (.symbolLiteral (← text "value"))
  | "type_literal" => some .typeLiteral
  | "var" => some (.var (← text "name"))
  | "assign" => some (.assign (← below "target") (← below "value"))
  | "multi_assign" => some (.multiAssign (← many "targets") (← many "values"))
  | "instance_var" => some (.instanceVar (← text "name"))
  | "global" => some (.global (← text "name"))
  | "const" => some (.const ⟨← Json.required (Json.natOf? 32) (← Json.slot? fields "id")⟩)
  | "expressions" => some (.expressions (← many "expressions"))
  | "if" => some (.branch (← below "cond") (← perhaps "then") (← perhaps "else"))
  | "while" =>
    some (.loop (← below "cond") (← perhaps "body")
      (← Json.default false Json.bool? (← Json.slot? fields "run_once")))
  | "return" => some (.return (← perhaps "value"))
  | "break" => some (.break (← perhaps "value"))
  | "yield" =>
    some (.yield (← Json.default [] (Json.list? read) (← Json.slot? fields "values")))
  | "call" => some (.call (← call? read fields))
  | "is_a" =>
    some (.isA (← below "obj") (← Json.required TypeId.ofJson? (← Json.slot? fields "target")))
  | "simple_or" => some (.simpleOr (← below "left") (← below "right"))
  | "pointer_of" => some (.pointerOf (← below "target"))
  | "nil_pointer" => some .nilPointer
  | "argc" => some .argc
  | "argv" => some .argv
  | "primitive" =>
    some (.primitive (← Json.required Primitive.ofJson? (← Json.slot? fields "op")))
  | _ => none

end NodeKind

namespace Node

/-- A node of a document, to a depth of `n` nodes. The fields of the node itself are taken
first, so that a kind has no field named `id`, `type` or `location`. -/
def readWithin : Nat → Json → Option Node
  | 0, _ => none
  | n + 1, j => do
    let fields ← j.object?
    let rest := Json.others fields ["id", "type", "location"]
    match ← Json.slots? fields ["id", "type", "location"] with
    | [id, type, location] =>
      if Json.allFieldsReadable rest then
        let (word, rest) ← Json.tagged? "node" NodeKind.words rest
        some
          { id := ← Json.default 0 (Json.natOf? 64) id
            kind := ← NodeKind.ofFields? (readWithin n) word rest
            type := ← Json.optional TypeId.ofJson? type
            location := ← Json.optional Location.ofJson? location }
      else none
    | _ => none

/-- A node of a document. -/
def ofJson? (j : Json) : Option Node := readWithin (Json.depthLimit + 1) j

/-- A node of a text. -/
def decode? (text : String) : Option Node := (Json.parse? text).bind ofJson?

end Node

/-- A parameter of a document. -/
def Arg.ofJson? (j : Json) : Option Arg := do
  match ← j.record? ["name", "type", "out"] with
  | [name, type, out] =>
    some
      { name := ← Json.required Json.string? name
        type := ← Json.required TypeId.ofJson? type
        out := ← Json.default false Json.bool? out }
  | _ => none

/-- A foreign function of a document. -/
def External.ofJson? (j : Json) : Option External := do
  match ← j.record? ["real_name", "varargs"] with
  | [realName, varargs] =>
    some
      { realName := ← Json.required Json.string? realName
        varargs := ← Json.default false Json.bool? varargs }
  | _ => none

/-- A definition of a document. -/
def Def.ofJson? (j : Json) : Option Def := do
  match ← j.record? ["name", "owner", "args", "type", "body", "external", "location"] with
  | [name, owner, args, type, body, external, location] =>
    some
      { name := ← Json.required Json.string? name
        owner := ← Json.required TypeId.ofJson? owner
        args := ← Json.default [] (Json.list? Arg.ofJson?) args
        type := ← Json.optional TypeId.ofJson? type
        body := ← Json.optional Node.ofJson? body
        external := ← Json.optional External.ofJson? external
        location := ← Json.optional Location.ofJson? location }
  | _ => none

/-- A constant of a document. -/
def ConstDef.ofJson? (j : Json) : Option ConstDef := do
  match ← j.record? ["name", "value"] with
  | [name, value] =>
    some
      { name := ← Json.required Json.string? name
        value := ← Json.required Node.ofJson? value }
  | _ => none

/-- A global of a document. -/
def GlobalDef.ofJson? (j : Json) : Option GlobalDef :=
  (Field.ofJson? j).map fun f => ⟨f.name, f.type⟩

namespace Program

/-- A program of a document. -/
def ofJson? (j : Json) : Option Program := do
  match ← j.record? ["types", "defs", "consts", "globals", "symbols", "root", "filename"] with
  | [types, defs, consts, globals, symbols, root, filename] =>
    some
      { types := ← Json.required TypeTable.ofJson? types
        defs := ← Json.default [] (Json.list? Def.ofJson?) defs
        consts := ← Json.default [] (Json.list? ConstDef.ofJson?) consts
        globals := ← Json.default [] (Json.list? GlobalDef.ofJson?) globals
        symbols := ← Json.default [] (Json.list? Json.string?) symbols
        root := ← Json.optional Node.ofJson? root
        filename := ← Json.optional Json.string? filename }
  | _ => none

/-- The program of a text, its references unchecked. -/
def decode (text : String) : Except Diagnostic Program :=
  match (Json.parse? text).bind ofJson? with
  | some p => .ok p
  | none => .error (.input "parse program:")

/-- The program of a text, with the warnings of its review. -/
def load (text : String) : Log × Except Diagnostic Program :=
  match decode text with
  | .error d => (#[], .error d)
  | .ok p => (p.warnings, p.validate.map fun _ => p)

end Program

end Lowering
