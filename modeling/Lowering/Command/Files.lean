/-!
# Files

What a command needs of the files around it, so that it can be run on real files or on a folder
that is a value.

* `FileFault`, `FileAccess`;
* `Folder`: files and folders below one folder, with `Folder.read?`, `Folder.write?` and
  `Folder.keep`; `Folder.access`.
-/

namespace Lowering

/-- Why a file cannot be read or written. -/
inductive FileFault
  | missing
  | isFolder
  | notFolder
  | other (text : String)
  deriving DecidableEq, Repr

/-- The words of the system. -/
def FileFault.text : FileFault → String
  | .missing => "No such file or directory (os error 2)"
  | .isFolder => "Is a directory (os error 21)"
  | .notFolder => "Not a directory (os error 20)"
  | .other text => text

/-- What can be done with files. -/
structure FileAccess (m : Type → Type) where
  read : String → m (Except FileFault String)
  write : String → String → m (Except FileFault Unit)
  /-- Keep a text under a name of its own in a folder, which is made if it is not there. -/
  keep : String → String → m Unit

/-- A path below a folder, as its names in order. -/
abbrev FolderPath := List String

/-- Files and folders below one folder. -/
structure Folder where
  files : List (FolderPath × String) := []
  folders : List FolderPath := []
  deriving Repr

namespace Folder

/-- The text of the file at a path. -/
def file? (d : Folder) (p : FolderPath) : Option String := d.files.lookup p

/-- Whether there is a folder at a path. -/
def hasFolder (d : Folder) (p : FolderPath) : Bool :=
  p.isEmpty || d.folders.contains p ||
    d.files.any fun f => p.isPrefixOf f.1 && decide (p.length < f.1.length)

/-- Why a path cannot be passed through. -/
def passFault? (d : Folder) (p : FolderPath) : Option FileFault :=
  if d.hasFolder p then none else if (d.file? p).isSome then some .notFolder else some .missing

/-- Follow names from a path on. Only a folder can be passed through, and nothing lies outside. -/
def walk (d : Folder) : FolderPath → List String → Except FileFault FolderPath
  | p, [] => .ok p
  | p, name :: rest =>
    match d.passFault? p with
    | some fault => .error fault
    | none =>
      if name = "" ∨ name = "." then d.walk p rest
      else if name = ".." then if p.isEmpty then .error .missing else d.walk p.dropLast rest
      else d.walk (p ++ [name]) rest

/-- The path that a text names. -/
def resolve (d : Folder) (path : String) : Except FileFault FolderPath :=
  if path = "" ∨ path.startsWith "/" then .error .missing
  else do
    let names := path.splitOn "/"
    let p ← d.walk [] names
    match if names.getLast? = some "" then d.passFault? p else none with
    | some fault => .error fault
    | none => .ok p

/-- The text of a file. -/
def read? (d : Folder) (path : String) : Except FileFault String := do
  let p ← d.resolve path
  match d.file? p with
  | some text => .ok text
  | none => .error (if d.hasFolder p then .isFolder else .missing)

/-- The folder with a text in a file. -/
def put (d : Folder) (p : FolderPath) (text : String) : Folder :=
  { d with files := d.files.filter (fun f => f.1 != p) ++ [(p, text)] }

/-- The folder with a text in a file of a folder that is there. -/
def write? (d : Folder) (path text : String) : Except FileFault Folder := do
  let p ← d.resolve path
  if d.hasFolder p then .error .isFolder
  else
    match d.passFault? p.dropLast with
    | some fault => .error fault
    | none => .ok (d.put p text)

/-- The folder with the folders of a path made. -/
def makeFolders (d : Folder) : FolderPath → List String → Option (Folder × FolderPath)
  | p, [] => some (d, p)
  | p, name :: rest =>
    if name = "" ∨ name = "." then d.makeFolders p rest
    else if name = ".." then if p.isEmpty then none else d.makeFolders p.dropLast rest
    else
      let q := p ++ [name]
      if (d.file? q).isSome then none
      else if d.hasFolder q then d.makeFolders q rest
      else makeFolders { d with folders := d.folders ++ [q] } q rest

/-- The folder with a text kept under a name, where the folder for it can be made. -/
def keep (d : Folder) (name path text : String) : Folder :=
  if path.startsWith "/" then d
  else
    match d.makeFolders [] (path.splitOn "/") with
    | some (d, p) => d.put (p ++ [name]) text
    | none => d

/-- A folder as files that commands can use; kept texts have the given name. -/
def access (keptName : String) : FileAccess (StateM Folder) where
  read path := do return (← get).read? path
  write path text := do
    match (← get).write? path text with
    | .ok d =>
      set d
      return .ok ()
    | .error fault => return .error fault
  keep path text := modify fun d => d.keep keptName path text

end Folder

end Lowering
