import Lowering.Diagnostic
import Lowering.Json.Parser
import Lowering.Json.Record

/-!
# Options of a generation

* `Options`, with the defaults of an ordinary run;
* `Options.parse`: the options of a document, missing fields at their defaults;
* `Options.overlay`: the settings of an environment on top.
-/

namespace Lowering

/-- What a generation is asked to do besides producing the module. -/
structure Options where
  /-- Attach source positions and subprogram records to the module. -/
  debugInfo : Bool := false
  /-- The source name recorded in debug information, instead of the program's. -/
  filename : Option String := none
  /-- Keep the partially built module when generation fails. -/
  dumpOnError : Bool := true
  /-- The directory of kept modules; without one they go to the log. -/
  dumpDir : Option String := none
  /-- Verify the finished module. -/
  verify : Bool := true
  deriving DecidableEq, Repr, Inhabited

namespace Options

/-- The options of a document tree. -/
def ofJson? (j : Json) : Option Options := do
  let slots ← j.record? ["debug_info", "filename", "dump_on_error", "dump_dir", "verify"]
  match slots with
  | [debugInfo, filename, dumpOnError, dumpDir, verify] =>
    let base : Options := {}
    some
      { debugInfo := ← Json.default base.debugInfo Json.bool? debugInfo
        filename := ← Json.optional Json.string? filename
        dumpOnError := ← Json.default base.dumpOnError Json.bool? dumpOnError
        dumpDir := ← Json.optional Json.string? dumpDir
        verify := ← Json.default base.verify Json.bool? verify }
  | _ => none

/-- The options as a document tree. -/
def toJson (o : Options) : Json :=
  .object
    [("debug_info", .bool o.debugInfo), ("filename", .ofOption .string o.filename),
      ("dump_on_error", .bool o.dumpOnError), ("dump_dir", .ofOption .string o.dumpDir),
      ("verify", .bool o.verify)]

/-- The options of a text. -/
def parse (text : String) : Except Diagnostic Options :=
  match (Json.parse? text).bind ofJson? with
  | some o => .ok o
  | none => .error (.input "bad options file:")

/-- Settings given by the environment of a run. -/
structure Environment where
  debugInfo : Option String := none
  dumpDir : Option String := none
  deriving DecidableEq, Repr

/-- The words that switch a setting on, whatever the case of their letters. -/
def isAffirmative (s : String) : Bool :=
  ["1", "true", "yes", "on"].contains (s.map Char.toLower)

/-- The settings of an environment on top: an affirmative word asks for debug information, any
other word for none, and a directory that is not empty asks for kept modules. -/
def overlay (o : Options) (e : Environment) : Options :=
  let o := match e.debugInfo with
    | some s => { o with debugInfo := isAffirmative s }
    | none => o
  match e.dumpDir with
  | some dir => if dir.isEmpty then o else { o with dumpDir := some dir, dumpOnError := true }
  | none => o

end Options

end Lowering
