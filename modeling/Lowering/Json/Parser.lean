import Lowering.Json.Token

/-!
# From tokens to documents

The tokens are taken one by one with a stack of the arrays and objects that are still open.

* `Json.Frame`, `Json.Need`, `Json.Partial`: an open document;
* `Json.Partial.push?`: one token;
* `Json.parse?`: the document of a text.  Nothing may follow the document.
-/

namespace Lowering.Json

/-- An array or object that is still open; what it holds so far is kept in reverse. A key that
cannot be read has no value. -/
inductive Frame
  | array (items : List Json)
  | object (fields : List (Option String × Json)) (key : Option String)

/-- What may come next. -/
inductive Need
  | value
  | itemOrClose
  | keyOrClose
  | key
  | colon
  | separator
  deriving DecidableEq, Repr

/-- A document of which some tokens have been taken. -/
structure Partial where
  frames : List Frame
  need : Need
  root : Option Json

/-- How many arrays and objects may be open around a value that is read. -/
def depthLimit : Nat := 127

namespace Partial

/-- Nothing taken yet. -/
def empty : Partial := ⟨[], .value, none⟩

/-- A value is complete: it goes to the innermost open container, or is the document. -/
def deliver (p : Partial) (v : Json) : Partial :=
  match p.frames with
  | [] => ⟨[], .separator, some v⟩
  | .array items :: fs => ⟨.array (v :: items) :: fs, .separator, p.root⟩
  | .object fields key :: fs => ⟨.object ((key, v) :: fields) none :: fs, .separator, p.root⟩

/-- The value of an object, given its fields in reverse. -/
def objectValue (fields : List (Option String × Json)) : Json :=
  match fields.reverse.mapM fun (k, v) => k.map (·, v) with
  | some fs => .object fs
  | none => .unreadable

/-- The innermost container is complete; one nested beyond the limit cannot be read. -/
def close (p : Partial) (v : Json) : Partial :=
  { p with frames := p.frames.tail }.deliver
    (if p.frames.length ≤ depthLimit then v else .unreadable)

/-- The token starts or makes up a value. -/
def value? (p : Partial) : Token → Option Partial
  | .openArray => some { p with frames := .array [] :: p.frames, need := .itemOrClose }
  | .openObject => some { p with frames := .object [] none :: p.frames, need := .keyOrClose }
  | .null => some (p.deliver .null)
  | .bool b => some (p.deliver (.bool b))
  | .number n => some (p.deliver ((n.map Json.number).getD .unreadable))
  | .string s => some (p.deliver ((s.map Json.string).getD .unreadable))
  | _ => none

/-- The token is a key. -/
def key? (p : Partial) : Token → Option Partial
  | .string s =>
    match p.frames with
    | .object fields _ :: fs => some { p with frames := .object fields s :: fs, need := .colon }
    | _ => none
  | _ => none

/-- The token closes the innermost container. -/
def close? (p : Partial) (t : Token) : Option Partial :=
  match t, p.frames with
  | .closeArray, .array items :: _ => some (p.close (.array items.reverse))
  | .closeObject, .object fields _ :: _ => some (p.close (objectValue fields))
  | _, _ => none

/-- The token follows a complete value. -/
def separator? (p : Partial) (t : Token) : Option Partial :=
  match t, p.frames with
  | .comma, .array _ :: _ => some { p with need := .value }
  | .comma, .object _ _ :: _ => some { p with need := .key }
  | t, _ => p.close? t

/-- Take one token. -/
def push? (p : Partial) (t : Token) : Option Partial :=
  match p.need with
  | .value => p.value? t
  | .itemOrClose => if t = .closeArray then p.close? t else p.value? t
  | .keyOrClose => if t = .closeObject then p.close? t else p.key? t
  | .key => p.key? t
  | .colon => if t = .colon then some { p with need := .value } else none
  | .separator => p.separator? t

/-- The document, when it is complete. -/
def document? (p : Partial) : Option Json :=
  if p.frames.isEmpty then p.root else none

end Partial

/-- The document of a text. -/
def parse? (s : String) : Option Json := do
  let tokens ← tokens? s
  let p ← tokens.foldlM Partial.push? .empty
  p.document?

end Lowering.Json
