import Lowering.Json.Record
import Lowering.Program.Node

/-!
# Words of the written program

The words that stand for kinds of types, expressions and operations in a written program, in
one fixed order.  A reader takes a word, or its position in the list.

* `Json.variant?`, `Json.tagged?`;
* `BinaryPrimitive.word`, `Primitive.word`, `TypeKind.word` and the lists of words.
-/

namespace Lowering

/-- The word that a value stands for: one of `words`, or its position. -/
def Json.variant? (words : List String) : Json → Option String
  | .string s => if words.contains s then some s else none
  | .number (.integer n) => if 0 ≤ n then words[n.toNat]? else none
  | _ => none

/-- The word under the field `tag`, and the other fields. -/
def Json.tagged? (tag : String) (words : List String) (fields : List (String × Json)) :
    Option (String × List (String × Json)) := do
  let value ← Json.slot? fields tag
  let word ← Json.required (Json.variant? words) value
  some (word, Json.others fields [tag])

/-- The word for an operation on two operands. -/
def BinaryPrimitive.word : BinaryPrimitive → String
  | .add => "add"
  | .sub => "sub"
  | .mul => "mul"
  | .div => "div"
  | .rem => "rem"
  | .eq => "eq"
  | .ne => "ne"
  | .lt => "lt"
  | .le => "le"
  | .gt => "gt"
  | .ge => "ge"
  | .and => "and"
  | .or => "or"

/-- All operations on two operands, in the order of their words. -/
def BinaryPrimitive.all : List BinaryPrimitive :=
  [.add, .sub, .mul, .div, .rem, .eq, .ne, .lt, .le, .gt, .ge, .and, .or]

/-- The operation of a word. -/
def BinaryPrimitive.ofWord? (s : String) : Option BinaryPrimitive :=
  BinaryPrimitive.all.find? (·.word == s)

theorem BinaryPrimitive.ofWord?_word (op : BinaryPrimitive) : ofWord? op.word = some op := by
  cases op <;> decide

/-- The word for a fixed operation. -/
def Primitive.word : Primitive → String
  | .binary _ => "binary"
  | .convert => "convert"
  | .allocate => "allocate"
  | .structAlloc => "struct_alloc"
  | .structGet _ => "struct_get"
  | .structSet _ => "struct_set"
  | .pointerMalloc => "pointer_malloc"
  | .pointerRealloc => "pointer_realloc"
  | .pointerGetValue => "pointer_get_value"
  | .pointerSetValue => "pointer_set_value"
  | .pointerAdd => "pointer_add"
  | .pointerCast => "pointer_cast"
  | .pointerCopyFrom => "pointer_copy_from"
  | .pointerAddress => "pointer_address"
  | .symbolToString => "symbol_to_s"

/-- The words for fixed operations. -/
def Primitive.words : List String :=
  ["binary", "convert", "allocate", "struct_alloc", "struct_get", "struct_set",
    "pointer_malloc", "pointer_realloc", "pointer_get_value", "pointer_set_value",
    "pointer_add", "pointer_cast", "pointer_copy_from", "pointer_address", "symbol_to_s"]

/-- The word for a kind of type. -/
def TypeKind.word : TypeKind → String
  | .program => "program"
  | .nil => "nil"
  | .bool => "bool"
  | .char => "char"
  | .int _ => "int"
  | .float _ => "float"
  | .symbol => "symbol"
  | .string => "str"
  | .heapClass .. => "class"
  | .record .. => "struct"
  | .pointer _ => "pointer"
  | .union _ => "union"
  | .hierarchy _ => "hierarchy"
  | .metaclass _ => "metaclass"

/-- The words for kinds of types. -/
def TypeKind.words : List String :=
  ["program", "nil", "bool", "char", "int", "float", "symbol", "str", "class", "struct",
    "pointer", "union", "hierarchy", "metaclass"]

/-- The words for kinds of expressions. -/
def NodeKind.words : List String :=
  ["nop", "nil_literal", "bool_literal", "int_literal", "float_literal", "char_literal",
    "string_literal", "symbol_literal", "type_literal", "var", "assign", "multi_assign",
    "instance_var", "global", "const", "expressions", "if", "while", "return", "break",
    "yield", "call", "is_a", "simple_or", "pointer_of", "nil_pointer", "argc", "argv",
    "primitive"]

end Lowering
