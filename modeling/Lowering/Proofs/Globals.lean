import Lowering.Proofs.Access
import Lowering.Proofs.Folding

/-!
# Globals before a program runs

A global whose initializer has its type begins with what the initializer says: arrays element by
element, zeros where nothing else is said, and the addresses of other globals wherever these come.

* `IR.Constant.isTyped`, `IR.Module.isTyped`: initializers that have the types of their globals;
* `Exec.Denotes`: what a constant says about a value, and `Exec.Denotes.field`;
* `Exec.denotes_decode`: what is read back from the bytes of a constant;
* `Exec.Begins`, `Exec.globals_begin`: where globals are, and what they hold.
-/

namespace Lowering

open IR (Ty Constant Global GlobalId Module)

/-! ### Types of initializers -/

namespace IR

namespace Constant

mutual

/-- Whether the elements of arrays have the types of elements, and addresses those of pointers. -/
def isTyped : Constant → Bool
  | .array elem cs => areTyped elem cs
  | .globalAddr _ t => t.isPtr
  | _ => true

/-- Whether constants are of a type, their own elements as well. -/
def areTyped (t : Ty) : List Constant → Bool
  | [] => true
  | c :: cs => decide (c.type = t) && c.isTyped && areTyped t cs

end

end Constant

/-- Whether the initializers of a module have the types of their globals. -/
def Module.isTyped (m : Module) : Bool :=
  m.globals.toList.all fun g => g.init.all fun c => decide (c.type = g.type) && c.isTyped

theorem Module.isTyped_init {m : Module} (h : m.isTyped) {i : Nat} {g : Global} {c : Constant}
    (hg : m.globals[i]? = some g) (hc : g.init = some c) : c.type = g.type ∧ c.isTyped := by
  have hall := List.all_eq_true.mp h g (Array.mem_def.mp (Array.mem_of_getElem? hg))
  rw [hc, Option.all_some, Bool.and_eq_true, decide_eq_true_eq] at hall
  exact hall

end IR

namespace Exec

/-! ### Meaning of constants -/

/-- The value of a type that is all zero bits. -/
def zeroBits (t : Ty) : RtValue := decode (List.replicate t.size 0) t

mutual

/-- A value is what a constant says, given the addresses of the globals. An address is a word of 64
bits. -/
def Denotes (globals : Array Nat) : Constant → RtValue → Prop
  | .int bits value, x => x = .int bits (wrap bits value)
  | .float double value, x => x = if double then .f64 value else .f32 value.narrow
  | .null t, x | .undef t, x => x = zeroBits t
  | .array elem cs, x => ∃ bs, x = .bytes bs ∧ DenoteAll globals elem cs bs
  | .globalAddr g _, x => ∀ p, globals[g.index]? = some p → p < 2 ^ 64 → x = .ptr p

/-- Bytes are those of as many elements as there are constants, each what its constant says. -/
def DenoteAll (globals : Array Nat) (elem : Ty) : List Constant → List UInt8 → Prop
  | [], bs => bs = []
  | c :: cs, bs => elem.size ≤ bs.length ∧ Denotes globals c (decode (bs.take elem.size) elem) ∧
    DenoteAll globals elem cs (bs.drop elem.size)

end

variable {globals : Array Nat} {elem t : Ty} {c : Constant} {cs : List Constant} {x : RtValue}
  {bs : List UInt8} {i : Nat}

theorem denoteAll_getElem? (h : DenoteAll globals elem cs bs) (hc : cs[i]? = some c) :
    Denotes globals c (decode ((bs.drop (elem.size * i)).take elem.size) elem) := by
  induction cs generalizing bs i with
  | nil => cases hc
  | cons d cs ih =>
    obtain ⟨-, hd, hcs⟩ := h
    cases i with
    | zero =>
      obtain rfl := Option.some.inj hc
      exact hd
    | succ i =>
      rw [Nat.mul_succ, Nat.add_comm, ← List.drop_drop]
      exact ih hcs hc

/-- The elements of an array are what their constants say. -/
theorem Denotes.field (h : Denotes globals (.array elem cs) x) (hc : cs[i]? = some c) :
    Denotes globals c (x.field (.array elem cs.length) i) := by
  obtain ⟨bs, rfl, hbs⟩ := h
  exact denoteAll_getElem? hbs hc

/-! ### Constants in memory -/

theorem littleEndian_zero (n : Nat) : littleEndian n 0 = List.replicate n 0 := by
  induction n with
  | zero => rfl
  | succ n ih => rw [littleEndian, Nat.zero_div, ih, List.replicate_succ]; rfl

theorem resize_replicate (n k : Nat) :
    resize n (List.replicate k 0) = List.replicate n 0 := by
  rw [resize, List.take_replicate, List.length_replicate, ← List.replicate_add]
  congr 1
  omega

theorem encode_zeroOf (t : Ty) : encode (zeroOf t) t = List.replicate t.size 0 := by
  cases t with
  | void => rfl
  | int bits => rw [zeroOf, encode, show toWord 0 = 0 from rfl, littleEndian_zero, resize_replicate]
  | float =>
    rw [zeroOf, encode, show Binary32.zero.word.toNat = 0 from rfl, littleEndian_zero, resize_replicate]
  | double =>
    rw [zeroOf, encode, show Binary64.zero.word.toNat = 0 from rfl, littleEndian_zero, resize_replicate]
  | ptr s => rw [zeroOf, encode, littleEndian_zero, resize_replicate]
  | array elem n => rw [zeroOf, encode, resize_replicate]
  | struct fields => rw [zeroOf, encode, resize_replicate]

theorem encode_array (globals : Array Nat) (elem : Ty) (cs : List Constant) :
    encode (constantValue globals (.array elem cs)) (.array elem cs.length) =
      elementBytes globals elem cs := by
  have hlength : (elementBytes globals elem cs).length = (Ty.array elem cs.length).size := by
    rw [length_elementBytes, Ty.size]
  rw [constantValue, encode, ← hlength, resize_self]

theorem constantBytes_eq (globals : Array Nat) (c : Constant) :
    constantBytes globals c = encode (constantValue globals c) c.type := by
  cases c with
  | array elem cs => exact (encode_array globals elem cs).symm
  | _ => rfl

mutual

/-- A constant is read back from its bytes. -/
theorem denotes_decode : ∀ c : Constant, c.isTyped →
    Denotes globals c (decode (encode (constantValue globals c) c.type) c.type)
  | .int bits value, _ => by
    rw [Denotes, constantValue, Constant.type, decode_encode_int, wrap_wrap_of_le le_rfl]
  | .float true value, _ => (RtValue.Of.double value).decode_encode
  | .float false value, _ => (RtValue.Of.float value.narrow).decode_encode
  | .null t, _ | .undef t, _ => by
    rw [Denotes, constantValue, Constant.type, encode_zeroOf, zeroBits]
  | .array elem cs, h => by
    rw [Denotes, Constant.type, encode_array, decode]
    rw [Constant.isTyped] at h
    exact ⟨_, rfl, denoteAll_elementBytes elem cs h⟩
  | .globalAddr g t, h => by
    rw [Denotes]
    intro p hp hlt
    obtain ⟨s, rfl⟩ : ∃ s, t = .ptr s := by
      cases t with
      | ptr s => exact ⟨s, rfl⟩
      | _ => cases h
    rw [constantValue, hp, Option.getD_some]
    exact (RtValue.Of.ptr hlt).decode_encode

theorem denoteAll_elementBytes : ∀ (elem : Ty) (cs : List Constant), Constant.areTyped elem cs →
    DenoteAll globals elem cs (elementBytes globals elem cs)
  | elem, [], _ => rfl
  | elem, c :: cs, h => by
    simp only [Constant.areTyped, Bool.and_eq_true, decide_eq_true_eq] at h
    obtain ⟨⟨ht, hc⟩, hcs⟩ := h
    have hlength : (encode (constantValue globals c) elem).length = elem.size := length_encode _ _
    -- an element is laid out at the type of elements, which is its own
    have hfirst := denotes_decode c hc
    rw [ht] at hfirst
    rw [DenoteAll, elementBytes, List.take_left' hlength, List.drop_left' hlength]
    refine ⟨?_, hfirst, denoteAll_elementBytes elem cs hcs⟩
    rw [List.length_append, hlength]
    exact Nat.le_add_right _ _

end

/-! ### Globals in memory -/

variable {m : Module} {g : Global}

/-- What a global holds before a run. -/
def Starts (globals : Array Nat) (g : Global) (x : RtValue) : Prop :=
  match g.init with
  | some c => Denotes globals c x
  | none => x = zeroBits g.type

/-- Where a global is before a run, and what it holds. -/
structure Begins (m : Module) (i : Nat) (g : Global) : Prop where
  address : (State.initial m).globals[i]? = some (baseAddress i)
  /-- Accesses to it reach its own allocation, which is in use. -/
  place : ∀ o n, o < offsetRange → o + n ≤ max g.type.size 1 →
    (State.initial m).memory.locate (baseAddress i + o) n = .ok (i, o)
  value : ∃ x, (State.initial m).memory.load (baseAddress i) g.type = .ok x ∧
    Starts (State.initial m).globals g x

theorem held_initial {init : Constant} (hg : m.globals[i]? = some g) (hinit : g.init = some init)
    (ht : init.type = g.type) : (State.initial m).memory.held i 0 g.type.size =
      encode (constantValue (State.initial m).globals init) init.type := by
  have hlength : (constantBytes (State.initial m).globals init).length = g.type.size := by
    rw [constantBytes_eq, length_encode, ht]
  have hslice := slice_initialAllocation (State.initial m).globals hinit
    (hlength.le.trans (le_max_left _ _))
  rw [Memory.held, Memory.allocation, State.allocations_initial m hg, Option.getD_some, ← hlength,
    hslice, constantBytes_eq]

theorem held_initial_none (hg : m.globals[i]? = some g) (hinit : g.init = none) :
    (State.initial m).memory.held i 0 g.type.size = List.replicate g.type.size 0 := by
  have hfresh : initialAllocation (State.initial m).globals g = freshAllocation g := by
    rw [initialAllocation, hinit]
  rw [Memory.held, Memory.allocation, State.allocations_initial m hg, Option.getD_some, hfresh,
    freshAllocation, Allocation.slice_fresh]

theorem begins_initial (h : m.isTyped) (hg : m.globals[i]? = some g) : Begins m i g where
  address := State.address_initial m (g := ⟨i⟩) (Array.getElem?_eq_some_iff.mp hg).1
  place o n ho hn := by
    refine Memory.locate_inside (State.allocations_initial m hg) (live_initialAllocation _ _) ho ?_
    rwa [size_initialAllocation]
  value := by
    refine ⟨decode ((State.initial m).memory.held i 0 g.type.size) g.type, ?_, ?_⟩
    · have hread := (Memory.inside_initial hg).read
      rw [Nat.add_zero] at hread
      rw [Memory.load, hread]
      rfl
    · unfold Starts
      cases hinit : g.init with
      | some init =>
        obtain ⟨ht, hc⟩ := Module.isTyped_init h hg hinit
        dsimp only
        rw [held_initial hg hinit ht, ← ht]
        exact denotes_decode init hc
      | none =>
        dsimp only
        rw [held_initial_none hg hinit, zeroBits]

/-- Addresses of different globals are apart. -/
theorem baseAddress_add_inj {j o o' : Nat} (ho : o < offsetRange) (ho' : o' < offsetRange)
    (h : baseAddress i + o = baseAddress j + o') : i = j ∧ o = o' := by
  have hi := Memory.indexOf_inside (i := i) ho
  rw [h, Memory.indexOf_inside ho'] at hi
  obtain rfl := Option.some.inj hi
  exact ⟨rfl, Nat.add_left_cancel h⟩

/-- In a module whose initializers have the types of their globals, each global begins with what
its initializer says, in an allocation of its own. -/
theorem globals_begin (h : m.isTyped) : (∀ i g, m.globals[i]? = some g → Begins m i g) ∧
    ∀ i j o o', o < offsetRange → o' < offsetRange →
      baseAddress i + o = baseAddress j + o' → i = j ∧ o = o' :=
  ⟨fun _ _ hg => begins_initial h hg, fun _ _ _ _ ho ho' heq => baseAddress_add_inj ho ho' heq⟩

/-- Rows of pointers. -/
def pointerRows : Ty := .array (.array .bytePtr 2) 2

/-- Two globals that refer to each other, and the first one to itself. -/
def cyclicModule : Module where
  name := ""
  globals := #[
    { name := "rows", type := pointerRows, constant := true, linkage := .internal
      init := some (.array (.array .bytePtr 2)
        [.array .bytePtr [.globalAddr ⟨1⟩ .bytePtr, .globalAddr ⟨0⟩ .bytePtr],
          .null (.array .bytePtr 2)]) },
    { name := "back", type := .bytePtr, constant := true, linkage := .internal
      init := some (.globalAddr ⟨0⟩ .bytePtr) }]

/-- Addresses of a later, the same and an earlier global. -/
theorem globals_begin_cyclic : cyclicModule.isTyped ∧
    (∃ x, (State.initial cyclicModule).memory.load (baseAddress 0) pointerRows = .ok x ∧
      (x.field pointerRows 0).field (.array .bytePtr 2) 0 = .ptr (baseAddress 1) ∧
      (x.field pointerRows 0).field (.array .bytePtr 2) 1 = .ptr (baseAddress 0)) ∧
    (State.initial cyclicModule).memory.load (baseAddress 1) .bytePtr =
      .ok (.ptr (baseAddress 0)) := by
  have htyped : cyclicModule.isTyped := by decide
  obtain ⟨hall, -⟩ := globals_begin htyped
  have hfirst := hall 0 (cyclicModule.global ⟨0⟩) rfl
  have hsecond := hall 1 (cyclicModule.global ⟨1⟩) rfl
  obtain ⟨x, hx, hrows⟩ := hfirst.value
  obtain ⟨y, hy, hback⟩ := hsecond.value
  have hrow := Denotes.field (i := 0) hrows rfl
  refine ⟨htyped, ⟨x, hx, ?_, ?_⟩, ?_⟩
  · exact hrow.field (i := 0) rfl (baseAddress 1) hsecond.address (by decide)
  · exact hrow.field (i := 1) rfl (baseAddress 0) hfirst.address (by decide)
  · rw [hback (baseAddress 0) hfirst.address (by decide)] at hy
    exact hy

end Exec

end Lowering
