import Lowering.IR.Ty
import Lowering.Numeric.Decimal
import Lowering.Numeric.Power

/-!
# Runtime values and their bytes

* `Exec.wrap`: an integer reduced to a width;
* `Exec.RtValue` and its written form;
* `Exec.encode`, `Exec.decode`: the bytes of a value of a type, least byte first.
-/

namespace Lowering.Exec

open IR (Ty)

/-! ### Integers -/

/-- An integer reduced to a width: one bit holds zero or one, more bits hold a signed number, and
no width holds more than 64 bits. -/
def wrap (bits : Nat) (value : Int) : Int :=
  if bits = 1 then value % 2 else Int.bmod value (twoTo (min bits 64))

/-- An integer as an unsigned word of 64 bits. -/
def toWord (value : Int) : Nat := (value % twoTo 64).toNat

/-- An unsigned word of 64 bits as a signed integer. -/
def ofWord (word : Nat) : Int := Int.bmod word (twoTo 64)

/-- The low `n` bytes of a number, least byte first. -/
def littleEndian : Nat → Nat → List UInt8
  | 0, _ => []
  | n + 1, v => UInt8.ofNat v :: littleEndian n (v / 256)

/-- The number that bytes stand for, least byte first. -/
def ofLittleEndian : List UInt8 → Nat
  | [] => 0
  | b :: bs => b.toNat + 256 * ofLittleEndian bs

/-! ### Values -/

/-- A value of a running program; aggregates are their bytes. -/
inductive RtValue
  | void
  | int (bits : Nat) (value : Int)
  | f32 (x : Binary32)
  | f64 (x : Binary64)
  | ptr (address : Nat)
  | bytes (bs : List UInt8)
  deriving DecidableEq, Repr, Inhabited

namespace RtValue

/-- The integer. -/
def int? : RtValue → Option Int
  | .int _ value => some value
  | _ => none

/-- The floating-point number, with 64 bits. -/
def float? : RtValue → Option Binary64
  | .f32 x => some x.widen
  | .f64 x => some x
  | _ => none

/-- The address. -/
def ptr? : RtValue → Option Nat
  | .ptr address => some address
  | _ => none

/-- Whether a branch on the value goes to its first block. -/
def isTruthy : RtValue → Bool
  | .int _ value => value != 0
  | .ptr address => address != 0
  | _ => false

/-- The written form of an address: its allocation and offset. -/
def addressText (address : Nat) : String :=
  if address = 0 then "null"
  else
    "ptr(" ++ toString ((address / twoTo 32 + (twoTo 64 - 1)) % twoTo 64) ++ "+" ++
      toString (address % twoTo 32) ++ ")"

/-- The written form of a value. -/
def text : RtValue → String
  | .void => "void"
  | .int bits value =>
    if bits = 1 then (if value = 0 then "false" else "true") else toString value
  | .f32 x => x.text .plain
  | .f64 x => x.text .plain
  | .ptr address => addressText address
  | .bytes bs => "bytes[" ++ ", ".intercalate (bs.map fun b => toString b.toNat) ++ "]"

end RtValue

/-! ### Bytes -/

/-- The zero of a type. -/
def zeroOf (t : Ty) : RtValue :=
  match t with
  | .void => .void
  | .int bits => .int bits 0
  | .float => .f32 .zero
  | .double => .f64 .zero
  | .ptr _ => .ptr 0
  | .array _ _ | .struct _ => .bytes (List.replicate t.size 0)

/-- Exactly `n` bytes: cut, or filled up with zeros. -/
def resize (n : Nat) (bs : List UInt8) : List UInt8 :=
  bs.take n ++ List.replicate (n - bs.length) 0

/-- The bytes of a value of a type. -/
def encode (value : RtValue) (t : Ty) : List UInt8 :=
  resize t.size <|
    match value with
    | .void => []
    | .int _ v => littleEndian 8 (toWord v)
    | .f32 x => littleEndian 4 x.word.toNat
    | .f64 x => littleEndian 8 x.word.toNat
    | .ptr address => littleEndian 8 address
    | .bytes bs => bs

/-- The value of a type that bytes stand for. -/
def decode (bs : List UInt8) (t : Ty) : RtValue :=
  match t with
  | .void => .void
  | .int bits => .int bits (wrap bits (ofLittleEndian (bs.take 8)))
  | .float => .f32 ⟨UInt32.ofNat (ofLittleEndian (bs.take 4))⟩
  | .double => .f64 ⟨UInt64.ofNat (ofLittleEndian (bs.take 8))⟩
  | .ptr _ => .ptr (ofLittleEndian (bs.take 8))
  | .array _ _ | .struct _ => .bytes bs

end Lowering.Exec
