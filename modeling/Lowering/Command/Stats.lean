import Lowering.IR.Module
import Lowering.Json.Printer
import Lowering.Text.Table

/-!
# Counts of a module

* `IR.Module.statsJson`: the functions and globals of a module as a document;
* `IR.Module.statsText`: the same as two tables.
-/

namespace Lowering.IR

/-- What there is to tell about a function. -/
def Function.statsJson (f : Function) : Json :=
  .object
    [("name", .string f.name), ("linkage", .string f.linkage.text),
      ("blocks", .nat f.blocks.size), ("instructions", .nat f.instructionCount)]

/-- What there is to tell about a global. -/
def Global.statsJson (g : Global) : Json :=
  .object
    [("name", .string g.name), ("linkage", .string g.linkage.text), ("ty", .string g.type.text),
      ("constant", .bool g.constant)]

namespace Module

/-- The functions and globals of a module as a document. -/
def statsJson (m : Module) : Json :=
  .object
    [("functions", .array (m.functions.toList.map Function.statsJson)),
      ("globals", .array (m.globals.toList.map Global.statsJson))]

/-- The columns of the table of functions. -/
def functionColumns : List Text.Column :=
  [⟨"function", false⟩, ⟨"linkage", false⟩, ⟨"blocks", true⟩, ⟨"instructions", true⟩]

/-- The columns of the table of globals. -/
def globalColumns : List Text.Column :=
  [⟨"global", false⟩, ⟨"linkage", false⟩, ⟨"type", false⟩, ⟨"constant", false⟩]

/-- The row of a function. -/
def functionRow (f : Function) : List String :=
  [f.name, f.linkage.text, toString f.blocks.size, toString f.instructionCount]

/-- The row of a global. -/
def globalRow (g : Global) : List String :=
  [g.name, g.linkage.text, g.type.text, if g.constant then "true" else "false"]

/-- The functions and globals of a module as two tables. -/
def statsText (m : Module) : List String :=
  Text.table functionColumns (m.functions.toList.map functionRow) ++
    Text.table globalColumns (m.globals.toList.map globalRow)

end Module

end Lowering.IR
