/-!
# Command lines

The words of a command line, read one after another.  An option is a flag or a setting with a
value; after a lone `--` all words are operands, and so are all words after the first argument
that is meant for the program to be run.

* `Command`, what a command line asks for; `Refusal`, why it asks for nothing;
* `Command.Grammar`, `Command.Reading`, `Command.Reading.word`;
* `Command.parse`.
-/

namespace Lowering

/-- What a command line asks for. -/
inductive Command
  /-- Write the module of a program. -/
  | build (file : String) (config output : Option String) (debugInfo noVerify : Bool)
  /-- Run a program. -/
  | run (file : String) (config : Option String) (args : List String)
  /-- Count what is in the module of a program. -/
  | stats (file : String) (config : Option String) (json : Bool)
  | nothing
  | help
  | version
  deriving DecidableEq, Repr

namespace Command

/-- The options without a value. -/
inductive Flag
  | verbose
  | debugInfo
  | noVerify
  | json
  | help
  deriving DecidableEq, Repr

/-- The options with a value. -/
inductive Setting
  | config
  | output
  deriving DecidableEq, Repr

/-- What the words after a command can be. -/
structure Grammar where
  flags : List Flag
  settings : List Setting
  /-- Whether operands after the first are meant for the program. -/
  passesArgs : Bool := false

/-- The words read so far. -/
structure Reading where
  flags : List Flag := []
  settings : List (Setting × String) := []
  operands : List String := []
  /-- A setting whose value comes next. -/
  pending : Option Setting := none
  /-- Whether all words to come are operands. -/
  literal : Bool := false

/-- Why a word cannot be read: it asks for help, or it has no place. -/
inductive Refusal
  | help
  | misplaced
  deriving DecidableEq, Repr

/-- The long name of a flag. -/
def Flag.name : Flag → String
  | .verbose => "verbose"
  | .debugInfo => "debug-info"
  | .noVerify => "no-verify"
  | .json => "json"
  | .help => "help"

/-- The letter of a flag. -/
def Flag.letter? : Flag → Option Char
  | .verbose => some 'v'
  | .help => some 'h'
  | _ => none

/-- The long name of a setting. -/
def Setting.name : Setting → String
  | .config => "config"
  | .output => "output"

/-- The letter of a setting. -/
def Setting.letter : Setting → Char
  | .config => 'c'
  | .output => 'o'

namespace Reading

/-- Whether a word is written as an option. -/
def isOption (w : String) : Bool := w.startsWith "-" && w != "-"

/-- Take a flag; only the wish for more records can be repeated. -/
def flag (r : Reading) : Flag → Except Refusal Reading
  | .help => .error .help
  | .verbose => .ok { r with flags := .verbose :: r.flags }
  | f => if r.flags.contains f then .error .misplaced else .ok { r with flags := f :: r.flags }

/-- Take a setting with its value, once. -/
def setting (r : Reading) (s : Setting) (value : String) : Except Refusal Reading :=
  if (r.settings.lookup s).isSome then .error .misplaced
  else .ok { r with settings := (s, value) :: r.settings, pending := none }

/-- Take a long option, given with the text after its name and an equals sign, if any. -/
def long (g : Grammar) (r : Reading) (name : String) (value : Option String) :
    Except Refusal Reading :=
  match g.flags.find? (·.name == name), g.settings.find? (·.name == name), value with
  | some f, _, none => r.flag f
  | none, some s, some v => r.setting s v
  | none, some s, none => .ok { r with pending := some s }
  | _, _, _ => .error .misplaced

/-- Take the letters of short options; what follows the letter of a setting is its value. -/
def short (g : Grammar) : Reading → List Char → Except Refusal Reading
  | r, [] => .ok r
  | r, c :: rest =>
    match g.flags.find? (·.letter? == some c), g.settings.find? (·.letter == c) with
    | some f, _ => do short g (← r.flag f) rest
    | none, some s =>
      match rest with
      | [] => .ok { r with pending := some s }
      | '=' :: value => r.setting s (String.ofList value)
      | value => r.setting s (String.ofList value)
    | none, none => .error .misplaced

/-- Take an operand. -/
def operand (g : Grammar) (r : Reading) (w : String) : Except Refusal Reading :=
  match r.operands with
  | [] => .ok { r with operands := [w] }
  | ws =>
    if g.passesArgs then .ok { r with operands := ws ++ [w], literal := true }
    else .error .misplaced

/-- The name of a long option, and the value that is written with it. -/
def splitLong (w : String) : String × Option String :=
  let body := w.toList.drop 2
  match body.dropWhile (· != '=') with
  | [] => (String.ofList body, none)
  | _ :: value => (String.ofList (body.takeWhile (· != '=')), some (String.ofList value))

/-- Take a word. -/
def word (g : Grammar) (r : Reading) (w : String) : Except Refusal Reading :=
  match r.pending with
  | some s => if isOption w then .error .misplaced else r.setting s w
  | none =>
    if r.literal then r.operand g w
    else if w = "--" then .ok { r with literal := true }
    else if w.startsWith "--" then r.long g (splitLong w).1 (splitLong w).2
    else if isOption w then short g r (w.toList.drop 1)
    else r.operand g w

/-- Take words to the end. A setting without its value has no place. -/
def words (g : Grammar) (ws : List String) : Except Refusal Reading := do
  let r ← ws.foldlM (word g) {}
  if r.pending.isSome then .error .misplaced else .ok r

end Reading

/-! ### Commands -/

/-- What can follow the word `build`. -/
def buildGrammar : Grammar := ⟨[.verbose, .debugInfo, .noVerify, .help], [.config, .output], false⟩

/-- What can follow the word `run`. -/
def runGrammar : Grammar := ⟨[.verbose, .help], [.config], true⟩

/-- What can follow the word `stats`. -/
def statsGrammar : Grammar := ⟨[.verbose, .json, .help], [.config], false⟩

/-- A command made of the words after its name; a wish for help comes first. -/
def ofWords (g : Grammar) (make : Reading → String → List String → Command) (ws : List String) :
    Except Refusal (Command × Nat) := do
  match Reading.words g ws with
  | .error .help => .ok (.help, 0)
  | .error .misplaced => .error .misplaced
  | .ok r =>
    match r.operands with
    | [] => .error .misplaced
    | file :: args => .ok (make r file args, r.flags.count .verbose)

/-- The command of a name and the words after it. -/
def named? (name : String) (ws : List String) : Option (Except Refusal (Command × Nat)) :=
  let has (f : Flag) (r : Reading) : Bool := r.flags.contains f
  let value (s : Setting) (r : Reading) : Option String := r.settings.lookup s
  match name with
  | "build" =>
    let make (r : Reading) (file : String) (_ : List String) : Command :=
      .build file (value .config r) (value .output r) (has .debugInfo r) (has .noVerify r)
    some (ofWords buildGrammar make ws)
  | "run" => some (ofWords runGrammar (fun r file args => .run file (value .config r) args) ws)
  | "stats" =>
    let make (r : Reading) (file : String) (_ : List String) : Command :=
      .stats file (value .config r) (has .json r)
    some (ofWords statsGrammar make ws)
  | "help" =>
    match ws with
    | [] | ["build"] | ["run"] | ["stats"] | ["help"] => some (.ok (.help, 0))
    | _ => some (.error .misplaced)
  | _ => none

/-- What short options before the name of a command ask for: a command of their own, or more
records. -/
def lettersBefore : Nat → List Char → Except Refusal (Option Command × Nat)
  | verbosity, [] => .ok (none, verbosity)
  | verbosity, 'v' :: rest => lettersBefore (verbosity + 1) rest
  | _, 'h' :: _ => .ok (some .help, 0)
  | _, 'V' :: _ => .ok (some .version, 0)
  | _, _ => .error .misplaced

/-- The command of a line after some wishes for more records, with the number of all of these. -/
def parseFrom (verbosity : Nat) : List String → Except Refusal (Command × Nat)
  | [] => .ok (.nothing, verbosity)
  | w :: ws =>
    match named? w ws with
    | some r => r.map fun (c, n) => (c, verbosity + n)
    | none =>
      match w with
      | "--verbose" => parseFrom (verbosity + 1) ws
      | "--help" => .ok (.help, 0)
      | "--version" => .ok (.version, 0)
      | "--" => if ws.isEmpty then .ok (.nothing, verbosity) else .error .misplaced
      | w =>
        if w.startsWith "--" || !Reading.isOption w then .error .misplaced
        else
          match lettersBefore verbosity (w.toList.drop 1) with
          | .ok (some c, n) => .ok (c, n)
          | .ok (none, n) => parseFrom n ws
          | .error e => .error e

/-- The command of a line, with the number of wishes for more records. -/
def parse (ws : List String) : Except Refusal (Command × Nat) := parseFrom 0 ws

end Command

end Lowering
