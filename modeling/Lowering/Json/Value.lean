import Lowering.Numeric.Binary

/-!
# Documents

The tree of a JSON document.  Fields keep their order and may repeat; it is for the reader of
a record to refuse a repetition.  A value that a reader may skip but not read (a text with half
of a surrogate pair, a number out of range, a nesting beyond the limit) is `unreadable`.

* `Json.Number`, `Json`;
* `Json.isReadable`: no part of the tree is unreadable.
-/

namespace Lowering

/-- A number of a document: an integer of at most 64 bits, signed or not, or a binary number. -/
inductive Json.Number
  | integer (n : Int)
  | float (x : Binary64)
  deriving DecidableEq, Repr

/-- The tree of a document. -/
inductive Json
  | null
  | bool (b : Bool)
  | number (n : Json.Number)
  | string (s : String)
  | array (items : List Json)
  | object (fields : List (String × Json))
  | unreadable
  deriving Inhabited

namespace Json

/-- An integer as a document. -/
def int (n : Int) : Json := .number (.integer n)

/-- A natural number as a document. -/
def nat (n : Nat) : Json := .int n

mutual

/-- Whether no part of the tree is unreadable. -/
def isReadable : Json → Bool
  | .unreadable => false
  | .array items => allReadable items
  | .object fields => allFieldsReadable fields
  | _ => true

/-- Whether every item is readable. -/
def allReadable : List Json → Bool
  | [] => true
  | j :: rest => j.isReadable && allReadable rest

/-- Whether the value of every field is readable. -/
def allFieldsReadable : List (String × Json) → Bool
  | [] => true
  | (_, j) :: rest => j.isReadable && allFieldsReadable rest

end

/-- Any value but null, as an optional one. -/
def nonNull? : Json → Option Json
  | .null => none
  | j => some j

/-- The value itself when there is one, else null. -/
def ofOption (f : α → Json) : Option α → Json
  | some a => f a
  | none => .null

end Json

end Lowering
