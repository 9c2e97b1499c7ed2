import Lowering.Diagnostic
import Lowering.Exec.Word
import Lowering.Text.Utf8

/-!
# Memory of a running program

Every stack slot, heap object and global is an allocation of its own.  An address is the number
of the allocation, counted from one, followed by an offset of 32 bits; the null address is zero.

* `Exec.Fault`: why a run stops, with its text;
* `Exec.Allocation`: bytes past the last one that is not zero need not be kept, so that a large
  object costs no more than what is put into it;
* `Exec.Memory`, `Exec.Memory.allocate`, `Exec.Memory.release`;
* `Exec.Memory.locate`, through which every access is checked, `Exec.Memory.read` and
  `Exec.Memory.write`.
-/

namespace Lowering.Exec

/-! ### Faults -/

/-- Why a run stops. -/
inductive Fault
  | missingEntry (name : String)
  | unreachable (function block : String)
  | nullDereference
  | outOfBounds (address length : Nat)
  | useAfterFree (address : Nat)
  | divisionByZero
  | unknownExternal (name : String)
  | badOperand (reason : String)
  | stepLimit (limit : Nat)
  deriving DecidableEq, Repr

/-- A number in hexadecimal. -/
def hexText (n : Nat) : String := "0x" ++ String.ofList (Nat.toDigits 16 n)

namespace Fault

/-- The reason in words. -/
def text : Fault → String
  | .missingEntry name => "module has no function @" ++ name
  | .unreachable function block =>
    "reached unreachable in @" ++ function ++ " %" ++ block
  | .nullDereference => "null pointer dereference"
  | .outOfBounds address length =>
    "access of " ++ toString length ++ " byte(s) at " ++ hexText address ++ " is out of bounds"
  | .useAfterFree address => "access through released pointer " ++ hexText address
  | .divisionByZero => "integer division by zero"
  | .unknownExternal name => "no built-in for external @" ++ name
  | .badOperand reason => "bad operand: " ++ reason
  | .stepLimit limit => "step limit of " ++ toString limit ++ " exceeded"

/-- What a fault says about itself. -/
def report (f : Fault) : Report := ⟨.error, f.text, "exec", none⟩

end Fault

/-! ### Allocations -/

/-- A block of bytes, all zero until they are written; once released it is never used again. -/
structure Allocation where
  size : Nat
  /-- The bytes up to the last one that is not zero, at least. -/
  written : Array UInt8 := #[]
  live : Bool := true
  deriving DecidableEq, Repr, Inhabited

namespace Allocation

/-- A byte of an allocation. -/
def byte (a : Allocation) (i : Nat) : UInt8 := a.written[i]?.getD 0

/-- Some bytes of an allocation. -/
def slice (a : Allocation) (offset length : Nat) : List UInt8 :=
  (List.range length).map fun i => a.byte (offset + i)

/-- The bytes from an offset up to the first zero. -/
def terminated (a : Allocation) (offset : Nat) : List UInt8 :=
  (a.written.extract offset a.written.size).toList.takeWhile (· != 0)

/-- The written bytes after one more is put at a position; those skipped are zero, and a zero past
the written bytes is there already. -/
def put (written : Array UInt8) (i : Nat) (b : UInt8) : Array UInt8 :=
  if i < written.size then written.setIfInBounds i b
  else if b = 0 then written
  else (written ++ Array.replicate (i - written.size) 0).push b

/-- The written bytes after more of them are put in from an offset on. -/
def overwrite (written : Array UInt8) (offset : Nat) : List UInt8 → Array UInt8
  | [] => written
  | b :: bs => overwrite (put written offset b) (offset + 1) bs

/-- The written bytes after one byte is put in again and again from an offset on. -/
def fill (written : Array UInt8) (offset : Nat) (b : UInt8) : Nat → Array UInt8
  | 0 => written
  | n + 1 => fill (put written offset b) (offset + 1) b n

theorem fill_eq_overwrite (written : Array UInt8) (offset : Nat) (b : UInt8) (n : Nat) :
    fill written offset b n = overwrite written offset (List.replicate n b) := by
  induction n generalizing written offset with
  | zero => rfl
  | succ n ih => simp [fill, overwrite, List.replicate_succ, ih]

end Allocation

/-- All allocations, oldest first. -/
structure Memory where
  allocations : Array Allocation := #[]
  deriving DecidableEq, Repr, Inhabited

/-- The number of offsets of an allocation. -/
def offsetRange : Nat := 0x100000000

/-- The address of the first byte of an allocation. -/
def baseAddress (index : Nat) : Nat := (index + 1) * offsetRange

namespace Memory

/-- A fresh allocation of zero bytes, at least one. -/
def allocate (m : Memory) (size : Nat) : Nat × Memory :=
  (baseAddress m.allocations.size,
    ⟨m.allocations.push { size := max size 1 }⟩)

/-- The position of the allocation of an address. -/
def indexOf (address : Nat) : Option Nat :=
  if address < offsetRange then none else some (address / offsetRange - 1)

/-- Mark the allocation of an address as released. -/
def release (m : Memory) (address : Nat) : Memory :=
  match indexOf address with
  | some i => ⟨m.allocations.modify i fun a => { a with live := false }⟩
  | none => m

/-- The allocation and offset of an access of `length` bytes. -/
def locate (m : Memory) (address length : Nat) : Except Fault (Nat × Nat) :=
  if address = 0 then .error .nullDereference
  else
    match (indexOf address).bind fun i => m.allocations[i]?.map fun a => (i, a) with
    | none => .error (.outOfBounds address length)
    | some (i, a) =>
      if !a.live then .error (.useAfterFree address)
      else if a.size < address % offsetRange + length then
        .error (.outOfBounds address length)
      else .ok (i, address % offsetRange)

/-- The allocation of a position. -/
def allocation (m : Memory) (index : Nat) : Allocation := m.allocations[index]?.getD default

/-- The bytes at an address. -/
def read (m : Memory) (address length : Nat) : Except Fault (List UInt8) := do
  let (i, offset) ← m.locate address length
  return (m.allocation i).slice offset length

/-- Memory with bytes put into an allocation from an offset on. -/
def put (m : Memory) (bs : List UInt8) : Nat × Nat → Memory
  | (i, offset) => ⟨m.allocations.modify i fun a =>
    { a with written := Allocation.overwrite a.written offset bs }⟩

/-- Memory with one byte put into an allocation again and again from an offset on. -/
def fill (m : Memory) (b : UInt8) (length : Nat) : Nat × Nat → Memory
  | (i, offset) => ⟨m.allocations.modify i fun a =>
    { a with written := Allocation.fill a.written offset b length }⟩

theorem fill_eq_put (m : Memory) (b : UInt8) (length : Nat) (place : Nat × Nat) :
    m.fill b length place = m.put (List.replicate length b) place := by
  simp [fill, put, Allocation.fill_eq_overwrite]

/-- Replace the bytes at an address. -/
def write (m : Memory) (address : Nat) (bs : List UInt8) : Except Fault Memory := do
  return m.put bs (← m.locate address bs.length)

/-- The text at an address up to a zero byte or the end of the allocation. -/
def readTerminated (m : Memory) (address : Nat) : Except Fault String := do
  let (i, offset) ← m.locate address 0
  return Utf8.decodeLossy ((m.allocation i).terminated offset)

/-- The value of a type at an address. -/
def load (m : Memory) (address : Nat) (t : IR.Ty) : Except Fault RtValue := do
  return decode (← m.read address t.size) t

/-- The text of a string object: its length, then its bytes. -/
def readString (m : Memory) (address : Nat) : Except Fault String := do
  let length := ((decode (← m.read address 4) .i32).int?.getD 0).toNat
  return Utf8.decodeLossy (← m.read (address + 4) length)

end Memory

end Lowering.Exec
