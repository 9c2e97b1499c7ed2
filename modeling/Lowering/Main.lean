import Lowering.Command.Perform

/-!
# The program

Carries out the command line on the files around it.  The report of a failure and the records that
were asked for go to the error output.
-/

namespace Lowering.Command

/-- The fault that an error of the system stands for. -/
def faultOf : IO.Error → FileFault
  | .noFileOrDirectory .. => .missing
  | .inappropriateType .. => .isFolder
  | e => .other e.toString

/-- Turn an error of the system into a fault. -/
def guarded (x : IO α) : IO (Except FileFault α) := do
  try
    return .ok (← x)
  catch e =>
    return .error (faultOf e)

/-- Keep a text in a folder, under a name made from the time. -/
def keepIn (folder text : String) : IO Unit := do
  let stamp ← IO.monoMsNow
  let base := if folder.isEmpty then "" else folder ++ "/"
  try
    if !folder.isEmpty then IO.FS.createDirAll folder
    IO.FS.writeFile (base ++ "basalt-" ++ toString stamp ++ ".ll") text
  catch _ =>
    IO.eprintln ("could not keep the module in " ++ folder)

/-- The files around the program. -/
def realFiles : FileAccess IO where
  read path := guarded (IO.FS.readFile path)
  write path text := guarded (IO.FS.writeFile path text)
  keep := keepIn

/-- The level of the records to show after some wishes for more. -/
def shownLevel : Nat → Log.Level
  | 0 => .warn
  | 1 => .info
  | 2 => .debug
  | _ => .trace

end Lowering.Command

open Lowering Command in
/-- Carry out the command line. -/
def main (args : List String) : IO UInt32 := do
  let env : Options.Environment :=
    { debugInfo := ← IO.getEnv "BASALT_DEBUG_INFO", dumpDir := ← IO.getEnv "BASALT_DUMP_DIR" }
  let (outcome, verbosity) ← performLine realFiles env args
  for r in outcome.log.upTo (shownLevel verbosity) do
    IO.eprintln ("[" ++ r.level.text ++ "] " ++ r.message)
  IO.print outcome.output
  match outcome.report with
  | some line => IO.eprintln line
  | none => pure ()
  return outcome.code.toUInt32
