import Lowering.Location

/-!
# Diagnostics

What a failed stage reports: the kind of failure, how severe it is, the text, who raised it
and where.

* `Severity`, `Diagnostic`, and the three ways a diagnostic arises:
  `Diagnostic.inconsistency`, `Diagnostic.invalidModule`, `Diagnostic.input`;
* `Report`: what any kind of failure says about itself, with its one-line forms;
* `Diagnostic.inFile`, `Diagnostic.orAt`: completing a location.
-/

namespace Lowering

/-- How severe a reported failure is. -/
inductive Severity
  | info
  | warning
  | error
  | critical
  deriving DecidableEq, Repr

/-- The written name of a severity. -/
def Severity.text : Severity → String
  | .info => "INFO"
  | .warning => "WARNING"
  | .error => "ERROR"
  | .critical => "CRITICAL"

/-- What a failure of any kind says about itself. -/
structure Report where
  severity : Severity
  message : String
  issuer : String
  location : Option Location
  deriving DecidableEq, Repr

namespace Report

/-- The line shown to a user. -/
def line (r : Report) : String :=
  "BASALT | " ++ r.severity.text ++ " | " ++
    (r.location.map Location.text).getD "unknown location" ++ " | " ++ r.message

/-- The line that also names who raised the failure. -/
def detailed (r : Report) : String :=
  "BASALT | " ++ r.severity.text ++ " | " ++ (r.location.map Location.text).getD "unknown" ++
    " | " ++ r.issuer ++ " | " ++ r.message

end Report

/-- The stage whose promise was broken. -/
inductive Diagnostic.Kind
  /-- The typed input broke an invariant that typing is to guarantee. -/
  | inconsistency
  /-- The produced module failed structural verification. -/
  | invalidModule
  /-- The typed program could not be read. -/
  | input
  deriving DecidableEq, Repr

/-- The written name of a kind. -/
def Diagnostic.Kind.text : Diagnostic.Kind → String
  | .inconsistency => "internal inconsistency"
  | .invalidModule => "invalid generated module"
  | .input => "input error"

/-- A failure of reading, generating or verifying a program. -/
structure Diagnostic where
  kind : Diagnostic.Kind
  severity : Severity
  text : String
  issuer : String
  location : Option Location
  deriving DecidableEq, Repr

namespace Diagnostic

/-- The generator met something that typing should have ruled out. -/
def inconsistency (text : String) (location : Option Location := none) : Diagnostic :=
  ⟨.inconsistency, .critical, text, "codegen", location⟩

/-- The finished module has structural defects. -/
def invalidModule (findings : List String) : Diagnostic :=
  ⟨.invalidModule, .critical, "module failed verification: " ++ "; ".intercalate findings,
    "verifier", none⟩

/-- The input could not be read. -/
def input (text : String) : Diagnostic :=
  ⟨.input, .error, text, "program", none⟩

/-- The message: the kind, then what happened. -/
def message (d : Diagnostic) : String := d.kind.text ++ ": " ++ d.text

/-- The message with its location, when there is one. -/
def display (d : Diagnostic) : String :=
  match d.location with
  | some l => d.message ++ " (at " ++ l.text ++ ")"
  | none => d.message

/-- What the diagnostic says about itself. -/
def report (d : Diagnostic) : Report := ⟨d.severity, d.message, d.issuer, d.location⟩

/-- Name the file of a location that does not name one. -/
def inFile (d : Diagnostic) (file : Option String) : Diagnostic :=
  match d.location, file with
  | some l, some f => { d with location := some (l.fillFile f) }
  | _, _ => d

/-- Give a location to a diagnostic that has none. -/
def orAt (d : Diagnostic) (location : Option Location) : Diagnostic :=
  { d with location := d.location.or location }

@[simp] theorem orAt_location (d : Diagnostic) (l : Option Location) :
    (d.orAt l).location = d.location.or l := rfl

theorem inFile_none (d : Diagnostic) : d.inFile none = d := by
  unfold inFile; split <;> simp_all

end Diagnostic

end Lowering
