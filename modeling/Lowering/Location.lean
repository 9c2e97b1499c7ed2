/-!
# Source positions

A node often records only a line and a column, and the file is named once for the whole
program.  A position whose `file` is empty picks that name up when it is reported.

* `Location`, `Location.text`;
* `Location.fillFile`: naming the file of a position that does not name one.
-/

namespace Lowering

/-- A position in a source text; a line or column of zero is unknown, an empty file is unnamed. -/
structure Location where
  file : String := ""
  line : Nat := 0
  column : Nat := 0
  deriving DecidableEq, Repr, Inhabited

namespace Location

/-- A position is known when it names an actual line. -/
def isKnown (l : Location) : Bool := 0 < l.line

/-- Name the file of a position that does not name one. -/
def fillFile (l : Location) (file : String) : Location :=
  if l.file.isEmpty then { l with file } else l

/-- The written form leaves out what is unknown: the file when unnamed, the column when zero. -/
def text (l : Location) : String :=
  (if l.file.isEmpty then "" else l.file ++ ":") ++ toString l.line ++
    (if 0 < l.column then ":" ++ toString l.column else "")

theorem fillFile_of_named {l : Location} (h : l.file.isEmpty = false) (file : String) :
    l.fillFile file = l := by
  simp [fillFile, h]

@[simp] theorem fillFile_line (l : Location) (file : String) :
    (l.fillFile file).line = l.line := by
  unfold fillFile; split <;> rfl

@[simp] theorem fillFile_column (l : Location) (file : String) :
    (l.fillFile file).column = l.column := by
  unfold fillFile; split <;> rfl

end Location

end Lowering
