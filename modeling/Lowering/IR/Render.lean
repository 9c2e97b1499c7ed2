import Lowering.IR.Module
import Lowering.Numeric.Decimal

/-!
# Listings

The written form of a module, in the manner of an assembly listing.

* `IR.Module.constantText`, `IR.Module.valueText`, `IR.Module.typedText`;
* `IR.Module.instText`, `IR.Module.termText`;
* `IR.Module.render`, the lines of a module, and `IR.Module.text`.
-/

namespace Lowering.IR

/-- A hexadecimal digit, in upper case. -/
def upperHexDigit (n : Nat) : Char :=
  if n < 10 then Char.ofNat ('0'.toNat + n) else Char.ofNat ('A'.toNat + (n - 10))

/-- A byte of a quoted array: itself when it is a blank or a plain visible character, else its
two hexadecimal digits. -/
def byteText (b : Nat) : List Char :=
  if 0x20 ≤ b ∧ b ≤ 0x7E ∧ b ≠ 0x22 ∧ b ≠ 0x5C then [Char.ofNat b]
  else ['\\', upperHexDigit (b / 16), upperHexDigit (b % 16)]

/-- The byte that a constant of a quoted array stands for. -/
def constantByte : Constant → Nat
  | .int _ value => (value % 256).toNat
  | _ => 0

/-- The written name of an instruction's value. -/
def Function.instName (f : Function) (id : InstId) : String :=
  match (f.inst id).name with
  | some n => "%" ++ n ++ "." ++ toString id.index
  | none => "%" ++ toString id.index

namespace Module

variable (m : Module)

mutual

/-- The written form of a constant, without its type. -/
def constantText : Constant → String
  | .int _ value => toString value
  | .float _ value => value.text .listing
  | .null t => if t.isPtr then "null" else "zeroinitializer"
  | .undef _ => "undef"
  | .array elem values =>
    if elem = .i8 then
      "c\"" ++ String.ofList (values.flatMap fun v => byteText (constantByte v)) ++ "\""
    else "[" ++ ", ".intercalate (constantTexts values) ++ "]"
  | .globalAddr id t =>
    let g := m.global id
    if Ty.ptr g.type = t then "@" ++ g.name
    else "bitcast (" ++ g.type.text ++ "* @" ++ g.name ++ " to " ++ t.text ++ ")"

/-- The written forms of a list of constants, each with its type. -/
def constantTexts : List Constant → List String
  | [] => []
  | c :: cs => (c.type.text ++ " " ++ constantText c) :: constantTexts cs

end

/-- The written form of an operand, without its type. -/
def valueText (f : FuncId) : Value → String
  | .const c => m.constantText c
  | .inst id => (m.function f).instName id
  | .param i =>
    match (m.function f).params[i]? with
    | some p => "%" ++ p.name
    | none => "%arg" ++ toString i
  | .global g => "@" ++ (m.global g).name

/-- The written form of an operand with its type. -/
def typedText (f : FuncId) (v : Value) : String := (m.typeOf f v).text ++ " " ++ m.valueText f v

/-- The name of a block. -/
def blockName (f : FuncId) (b : BlockId) : String := ((m.function f).block b).name

/-- What an instruction does, without the name of its value. -/
def kindText (f : FuncId) (type : Ty) : InstKind → String
  | .alloca t => "alloca " ++ t.text
  | .load ptr => "load " ++ type.text ++ ", " ++ m.typedText f ptr
  | .store value ptr => "store " ++ m.typedText f value ++ ", " ++ m.typedText f ptr
  | .gep ptr indices =>
    "getelementptr " ++ m.typedText f ptr ++ ", " ++
      ", ".intercalate (indices.map (m.typedText f))
  | .cast op value => op.mnemonic ++ " " ++ m.typedText f value ++ " to " ++ type.text
  | .binary op lhs rhs => op.mnemonic ++ " " ++ m.typedText f lhs ++ ", " ++ m.valueText f rhs
  | .not value => "xor " ++ m.typedText f value ++ ", true"
  | .icmp pred lhs rhs =>
    "icmp " ++ pred.mnemonic ++ " " ++ m.typedText f lhs ++ ", " ++ m.valueText f rhs
  | .fcmp pred lhs rhs =>
    "fcmp " ++ pred.mnemonic ++ " " ++ m.typedText f lhs ++ ", " ++ m.valueText f rhs
  | .select cond ifTrue ifFalse =>
    "select " ++ m.typedText f cond ++ ", " ++ m.typedText f ifTrue ++ ", " ++
      m.typedText f ifFalse
  | .phi incoming =>
    "phi " ++ type.text ++ " " ++ ", ".intercalate (incoming.map fun (v, b) =>
      "[ " ++ m.valueText f v ++ ", %" ++ m.blockName f b ++ " ]")
  | .call callee args =>
    "call " ++ type.text ++ " @" ++ (m.function callee).name ++ "(" ++
      ", ".intercalate (args.map (m.typedText f)) ++ ")"
  | .malloc t => "malloc " ++ t.text
  | .arrayMalloc t count => "malloc " ++ t.text ++ ", " ++ m.typedText f count
  | .extractValue aggregate index =>
    "extractvalue " ++ m.typedText f aggregate ++ ", " ++ toString index

/-- The line of an instruction. -/
def instText (f : FuncId) (id : InstId) : String :=
  let inst := (m.function f).inst id
  let body := m.kindText f inst.type inst.kind
  let line := if inst.type = .void then body else (m.function f).instName id ++ " = " ++ body
  match inst.location with
  | some l =>
    line ++ ", !dbg !\x7bline: " ++ toString l.line ++ ", column: " ++ toString l.column ++ "\x7d"
  | none => line

/-- The line of a terminator. -/
def termText (f : FuncId) : Terminator → String
  | .br b => "br label %" ++ m.blockName f b
  | .condBr cond ifTrue ifFalse =>
    "br " ++ m.typedText f cond ++ ", label %" ++ m.blockName f ifTrue ++ ", label %" ++
      m.blockName f ifFalse
  | .ret (some v) => "ret " ++ m.typedText f v
  | .ret none => "ret void"
  | .unreachable => "unreachable"

/-- The lines of a block. -/
def blockLines (f : FuncId) (b : BasicBlock) : List String :=
  (b.name ++ ":") :: b.insts.toList.map (fun id => "  " ++ m.instText f id) ++
    [match b.term with
      | some t => "  " ++ m.termText f t
      | none => "  ; <missing terminator>"]

/-- The line of a global. -/
def globalLine (g : Global) : String :=
  "@" ++ g.name ++ " = " ++ g.linkage.text ++ " " ++ (if g.constant then "constant" else "global") ++
    " " ++ g.type.text ++ " " ++ (g.init.map m.constantText).getD "zeroinitializer"

/-- The reference of a function to its debug record. -/
def subprogramMark (f : FuncId) : String :=
  match m.debug.bind fun d => d.subprograms.findIdx? (·.function == f) with
  | some n => " !dbg !" ++ toString (n + 1)
  | none => ""

/-- The lines of a function, after an empty one. -/
def functionLines (id : FuncId) : List String :=
  let f := m.function id
  let params := f.params.map fun p =>
    if f.isDeclaration then p.type.text else p.type.text ++ " %" ++ p.name
  let params := ", ".intercalate (if f.varargs then params ++ ["..."] else params)
  if f.isDeclaration then
    ["", "declare " ++ f.ret.text ++ " @" ++ f.name ++ "(" ++ params ++ ")"]
  else
    ["", "define " ++ f.linkage.text ++ " " ++ f.ret.text ++ " @" ++ f.name ++ "(" ++ params ++ ")" ++
      m.subprogramMark id ++ " \x7b"] ++
      f.blocks.toList.flatMap (m.blockLines id) ++ ["\x7d"]

/-- The lines of the debug records, after an empty one. -/
def debugLines (d : DebugInfo) : List String :=
  ["", "!0 = !DICompileUnit(file: \"" ++ d.file ++ "\", producer: \"" ++ d.producer ++ "\")"] ++
    d.subprograms.toList.zipIdx.map fun (s, n) =>
      "!" ++ toString (n + 1) ++ " = !DISubprogram(name: \"" ++ s.name ++ "\", line: " ++
        toString s.line ++ ", unit: !0)"

/-- The lines of a module. A name that holds a line end spreads over several lines of text. -/
def render : List String :=
  ["; ModuleID = '" ++ m.name ++ "'"] ++ m.globals.toList.map m.globalLine ++
    (List.range m.functions.size).flatMap (fun i => m.functionLines ⟨i⟩) ++
    (m.debug.map debugLines).getD []

/-- The text of a module, every line ended. -/
def text : String := String.join (m.render.map (· ++ "\n"))

end Module

end Lowering.IR
