/-!
# Records of a run

What a stage has to tell besides its result is kept as a list of records, oldest first.

* `Log.Level`, ordered by severity; `Log.Record`;
* `Log.upTo`: the records at least as severe as a level.
-/

namespace Lowering

namespace Log

/-- How severe a record is. -/
inductive Level
  | error
  | warn
  | info
  | debug
  | trace
  deriving DecidableEq, Repr

namespace Level

/-- The rank of a level, the most severe first. -/
def rank : Level → Nat
  | .error => 0
  | .warn => 1
  | .info => 2
  | .debug => 3
  | .trace => 4

/-- The written name of a level. -/
def text : Level → String
  | .error => "ERROR"
  | .warn => "WARN"
  | .info => "INFO"
  | .debug => "DEBUG"
  | .trace => "TRACE"

/-- The level with a given name, in lower case. -/
def ofName? : String → Option Level
  | "error" => some .error
  | "warn" => some .warn
  | "info" => some .info
  | "debug" => some .debug
  | "trace" => some .trace
  | _ => none

end Level

/-- One message with its severity. -/
structure Record where
  level : Level
  message : String
  deriving DecidableEq, Repr

end Log

/-- Records in the order in which they were made. -/
abbrev Log := Array Log.Record

namespace Log

/-- The records at least as severe as `level`. -/
def upTo (log : Log) (level : Level) : Log :=
  log.filter fun r => decide (r.level.rank ≤ level.rank)

end Log

end Lowering
