import Lowering.Gen.State

/-!
# Interned strings and symbols

Each text of a program is in the module once.  Symbols are numbered in ascending order, so their
numbers depend on nothing but the set of symbols; a table of their texts, in the same order, is
found through the number.

* `Gen.stringGlobal`, `Gen.stringValue`;
* `Gen.prepareSymbols`: the table of symbols;
* `Gen.symbolValue`, `Gen.symbolText`.
-/

namespace Lowering

open IR (Constant Ty Value GlobalId Build)

namespace Gen

/-- The bytes of a number of 32 bits, the lowest first. -/
def lengthBytes (n : Nat) : List UInt8 :=
  [.ofNat n, .ofNat (n / 0x100), .ofNat (n / 0x10000), .ofNat (n / 0x1000000)]

/-- The bytes of an interned string: the number of bytes of its text, these bytes, and a zero. -/
def stringBytes (s : String) : List UInt8 :=
  let text := s.toUTF8.toList
  lengthBytes text.length ++ text ++ [0]

theorem lengthBytes_length (n : Nat) : (lengthBytes n).length = 4 := rfl

/-- The global of an interned string. -/
def stringGlobal (s : String) : Gen GlobalId := do
  match (← get).strings.lookup s with
  | some g => return g
  | none =>
    let content := Constant.bytes (stringBytes s)
    let name := (← get).builder.module.uniqueGlobalName "str"
    let g ← Build.addGlobal
      { name, type := content.type, init := some content, constant := true, linkage := .hidden }
    modify fun st => { st with strings := (s, g) :: st.strings }
    return g

/-- A global as the address of a string. -/
def stringAt (g : GlobalId) : Constant := .globalAddr g (.ptr stringRecord)

/-- The value of a string. -/
def stringValue (s : String) : Gen Value := return .const (stringAt (← stringGlobal s))

/-- Make the table of the symbols, unless there are none. -/
def prepareSymbols : Gen Unit := do
  let symbols := (← read).symbols
  if symbols.isEmpty then return ()
  else
    let texts ← symbols.mapM fun s => return stringAt (← stringGlobal s)
    let content := Constant.array (.ptr stringRecord) texts
    let name := (← get).builder.module.uniqueGlobalName "symbol_table"
    let g ← Build.addGlobal
      { name, type := content.type, init := some content, constant := true, linkage := .internal }
    modify fun s => { s with symbolTable := some g }
    note .debug ("symbol table with " ++ toString symbols.length ++ " entrie(s)")

/-- The number of a symbol as a value. -/
def symbolValue (name : String) : Gen Value := do
  let index ← orFail (.unknownSymbol name) ((← read).symbols.findIdx? (· == name))
  return .i32 index

/-- The text of the symbol of a number. -/
def symbolText (number : Value) : Gen Value := do
  let table ← orFail .noSymbols (← get).symbolTable
  let index ← Build.cast .sext number .i64
  let slot ← Build.gep (.global table) [.i32 0, index]
  Build.load slot (some "symbol_name")

end Gen

end Lowering
