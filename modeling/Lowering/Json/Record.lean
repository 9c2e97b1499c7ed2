import Lowering.Json.Value
import Lowering.Numeric.Power

/-!
# Reading records

A record is written as an object whose known fields appear at most once, or, where a reader
allows it, as an array of the fields in order.  Unknown fields are passed over.

* `Json.object?`, `Json.slots?`: the known fields of an object, each a slot that may be empty;
* `Json.record?`: the same, arrays allowed;
* `Json.required`, `Json.default`, `Json.optional`: what a slot must hold;
* readers of the scalars.
-/

namespace Lowering.Json

/-- A field that may be missing. -/
abbrev Slot := Option Json

/-- The fields of an object. -/
def object? : Json → Option (List (String × Json))
  | .object fields => some fields
  | _ => none

/-- The value of the field `name`, which may be missing but not repeated. -/
def slot? (fields : List (String × Json)) (name : String) : Option Slot :=
  match fields.filter (fun f => f.1 == name) with
  | [] => some none
  | [f] => some (some f.2)
  | _ => none

/-- The values of the known fields, in the order of `names`. -/
def slots? (fields : List (String × Json)) (names : List String) : Option (List Slot) :=
  names.mapM (slot? fields)

/-- The values of the known fields of an object, or the items of an array in their place. -/
def record? (names : List String) : Json → Option (List Slot)
  | .object fields => slots? fields names
  | .array items =>
    if items.length ≤ names.length then
      some (items.map some ++ List.replicate (names.length - items.length) none)
    else none
  | _ => none

/-- The fields of an object that are not among `names`. -/
def others (fields : List (String × Json)) (names : List String) : List (String × Json) :=
  fields.filter fun f => !names.contains f.1

/-- The field must be there. -/
def required (read : Json → Option α) (s : Slot) : Option α := s.bind read

/-- A missing field stands for `a`. -/
def default (a : α) (read : Json → Option α) : Slot → Option α
  | none => some a
  | some j => read j

/-- A missing field or null stands for nothing. -/
def optional (read : Json → Option α) : Slot → Option (Option α)
  | none => some none
  | some .null => some none
  | some j => (read j).map some

/-! ### Scalars -/

/-- A truth value. -/
def bool? : Json → Option Bool
  | .bool b => some b
  | _ => none

/-- A text. -/
def string? : Json → Option String
  | .string s => some s
  | _ => none

/-- An integer in a range. -/
def intIn? (low high : Int) : Json → Option Int
  | .number (.integer n) => if low ≤ n ∧ n ≤ high then some n else none
  | _ => none

/-- A natural number of at most `bits` bits. -/
def natOf? (bits : Nat) (j : Json) : Option Nat :=
  (intIn? 0 (twoTo bits - 1) j).map Int.toNat

/-- A signed integer of 64 bits. -/
def int64? : Json → Option Int := intIn? (-twoTo 63) (twoTo 63 - 1)

/-- A binary number; an integer stands for the nearest one. -/
def float? : Json → Option Binary64
  | .number (.float x) => some x
  | .number (.integer n) => some (if 0 ≤ n then .ofNat n.toNat else .ofInt n)
  | _ => none

/-- A list of values. -/
def list? (read : Json → Option α) : Json → Option (List α)
  | .array items => items.mapM read
  | _ => none

end Lowering.Json
