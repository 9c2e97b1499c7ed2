import Lowering.Command.Files
import Lowering.Command.Line
import Lowering.Command.Stats
import Lowering.Exec.Machine
import Lowering.Generation
import Lowering.Program.Decode

/-!
# Commands carried out

* `Command.Outcome`;
* `Command.options`, `Command.generation`: what every command begins with;
* `Command.perform`, and `Command.performLine` for a whole command line.
-/

namespace Lowering.Command

/-- What a command leaves besides files. -/
structure Outcome where
  code : Nat := 0
  output : String := ""
  report : Option String := none
  log : Log := #[]

/-- A command that ended well and wrote a text. -/
def Outcome.done (log : Log) (output : String) : Outcome := { output, log }

/-- A command that failed. -/
def Outcome.failed (log : Log) (r : Report) : Outcome := { code := 1, report := some r.line, log }

/-- The text of some lines. -/
def unlines (ls : List String) : String := String.join (ls.map (· ++ "\n"))

variable {m : Type → Type} [Monad m]

/-- The options of a run: those of a file if one is named, under those of the environment. -/
def options (files : FileAccess m) (env : Options.Environment) :
    Option String → m (Except Diagnostic Options)
  | none => return .ok (({} : Options).overlay env)
  | some path => do
    match ← files.read path with
    | .error fault => return .error (.input ("cannot read " ++ path ++ ": " ++ fault.text))
    | .ok text => return (Options.parse text).map fun o => o.overlay env

/-- The program of a file; without a source name of its own it has that of the file. -/
def program (files : FileAccess m) (path : String) : m (Log × Except Diagnostic Program) := do
  match ← files.read path with
  | .error fault => return (#[], .error (.input ("read program " ++ path ++ ": " ++ fault.text)))
  | .ok text =>
    let (log, p) := Program.load text
    return (log, p.map fun p => { p with filename := p.filename.or (some path) })

/-- The generation of the program of a file; what it keeps is kept. -/
def generation (files : FileAccess m) (path : String) (o : Options) :
    m (Log × Except Diagnostic IR.Module) := do
  match ← program files path with
  | (log, .error d) => return (log, .error d)
  | (log, .ok p) =>
    let g := p.generate o
    match g.kept with
    | some (folder, part) => files.keep folder part.text
    | none => pure ()
    return (log ++ g.log, g.result)

/-- Generate the program of a file with the options of a run, and go on with the module. -/
def withModule (files : FileAccess m) (env : Options.Environment) (path : String)
    (config : Option String) (change : Options → Options) (next : Log → IR.Module → m Outcome) :
    m Outcome := do
  match ← options files env config with
  | .error d => return .failed #[] d.report
  | .ok o =>
    match ← generation files path (change o) with
    | (log, .error d) => return .failed log d.report
    | (log, .ok module) => next log module

/-- Write a module to a file, or else show it. -/
def writeModule (files : FileAccess m) (output : Option String) (log : Log) (module : IR.Module) :
    m Outcome := do
  match output with
  | none => return .done log module.text
  | some path =>
    match ← files.write path module.text with
    | .ok () => return .done log ("wrote " ++ path ++ "\n")
    | .error fault =>
      let d := Diagnostic.input ("cannot write " ++ path ++ ": " ++ fault.text)
      return .failed log d.report

/-- Run a module and show what it wrote, then its result. -/
def runModule (args : List String) (log : Log) (module : IR.Module) : Outcome :=
  match Exec.runMainWithOutput module args with
  | .ok (value, output) => .done log (output ++ value.text ++ "\n")
  | .error fault => .failed log fault.report

/-- Show the counts of a module. -/
def showStats (json : Bool) (log : Log) (module : IR.Module) : Outcome :=
  .done log (if json then module.statsJson.pretty ++ "\n" else unlines module.statsText)

/-- The words about the commands that there are. -/
def usage : String :=
  unlines
    ["Generate and run IR modules from typed programs", "",
      "Usage: basalt [OPTIONS] [COMMAND]", "", "Commands:",
      "  build  Generate the IR module for a typed program",
      "  run    Generate a typed program and execute it",
      "  stats  Summarize the functions and globals of the generated module"]

/-- Carry out a command. -/
def perform (files : FileAccess m) (env : Options.Environment) : Command → m Outcome
  | .build file config output debugInfo noVerify =>
    let change (o : Options) : Options :=
      { o with debugInfo := o.debugInfo || debugInfo, verify := o.verify && !noVerify }
    withModule files env file config change (writeModule files output)
  | .run file config args =>
    withModule files env file config id fun log module => return runModule args log module
  | .stats file config json =>
    withModule files env file config id fun log module => return showStats json log module
  | .nothing =>
    return .done #[] "No valid subcommand was used. Use --help for more information.\n"
  | .help => return .done #[] usage
  | .version => return .done #[] "basalt 0.1.0\n"

/-- Carry out a command line, and give the number of wishes for more records. -/
def performLine (files : FileAccess m) (env : Options.Environment) (words : List String) :
    m (Outcome × Nat) := do
  match parse words with
  | .ok (c, verbosity) => return (← perform files env c, verbosity)
  | .error _ => return ({ code := 2 }, 0)

end Lowering.Command
