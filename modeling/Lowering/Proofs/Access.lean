import Lowering.Proofs.Addressing
import Lowering.Proofs.Initial

/-!
# Access to parts of values in memory

What is stored at an address is loaded from it, and what is not covered by a store stays.  A part
of a value in memory is loaded from its own address as it would be taken out of the whole, and a
store there replaces this part and nothing else.

* `Exec.Memory.Inside`, `Exec.Memory.Edits`: bytes inside of an allocation, and memory before and
  after a change of them;
* `Exec.Memory.held_put_self`, `Exec.Memory.held_put`: bytes read after a store;
* `Exec.Run.Whole`, `Exec.Run.Part`: what accesses to a value and to a part of it come to;
* `Exec.Run.access_coherent`: they do so at every type and along every path.
-/

namespace Lowering.Exec

open IR (Ty Value FuncId Module Builder Build)

variable {i o k n : Nat} {bs : List UInt8}

/-! ### Bytes inside of an allocation -/

namespace Allocation

variable {a : Allocation}

theorem slice_add (o k n : Nat) : a.slice o (k + n) = a.slice o k ++ a.slice (o + k) n := by
  simp [slice, List.range_add, Nat.add_assoc]

/-- Bytes put inside of others. -/
theorem slice_overwrite (h : k + bs.length ≤ n) :
    ({ a with written := overwrite a.written (o + k) bs } : Allocation).slice o n =
      splice k bs (a.slice o n) := by
  obtain ⟨r, rfl⟩ := Nat.exists_eq_add_of_le h
  -- what comes before, what is put in, and what comes after
  have hkeep (b : Allocation) : (b.slice o (k + bs.length + r)) =
      b.slice o k ++ (b.slice (o + k) bs.length ++ b.slice (o + k + bs.length) r) := by
    rw [slice_add, slice_add, List.append_assoc, Nat.add_assoc o]
  rw [hkeep, hkeep, slice_overwrite_apart (.inl le_rfl), slice_overwrite_self,
    slice_overwrite_apart (.inr le_rfl), splice, List.take_left' length_slice, ← List.append_assoc,
    ← List.append_assoc, List.drop_left' (by simp)]

end Allocation

namespace Memory

variable {μ μ' : Memory}

/-- Some bytes are inside of an allocation that is in use. -/
structure Inside (μ : Memory) (i o n : Nat) : Prop where
  offset : o < offsetRange
  room : ∃ a, μ.allocations[i]? = some a ∧ a.live = true ∧ o + n ≤ a.size

/-- The bytes of an allocation from an offset on. -/
def held (μ : Memory) (i o n : Nat) : List UInt8 := (μ.allocation i).slice o n

theorem length_held : (μ.held i o n).length = n := Allocation.length_slice

theorem held_sub {l : Nat} (h : k + l ≤ n) :
    μ.held i (o + k) l = ((μ.held i o n).drop k).take l := Allocation.slice_sub h

/-- Memory in which no more than some bytes of an allocation changed. -/
structure Edits (μ μ' : Memory) (i o n : Nat) : Prop where
  count : μ'.allocations.size = μ.allocations.size
  others : ∀ j ≠ i, μ'.allocations[j]? = μ.allocations[j]?
  size : (μ'.allocation i).size = (μ.allocation i).size
  live : (μ'.allocation i).live = (μ.allocation i).live
  bytes : ∀ k, k < o ∨ o + n ≤ k → (μ'.allocation i).byte k = (μ.allocation i).byte k

namespace Inside

theorem sub (h : μ.Inside i o n) {l : Nat} (hk : k + l ≤ n) (ho : o + k < offsetRange) :
    μ.Inside i (o + k) l := by
  obtain ⟨-, a, ha, hl, hs⟩ := h
  exact ⟨ho, a, ha, hl, by omega⟩

theorem allocation (h : μ.Inside i o n) : μ.allocations[i]? = some (μ.allocation i) := by
  obtain ⟨-, a, ha, -, -⟩ := h
  rw [Memory.allocation, ha]
  rfl

theorem locate (h : μ.Inside i o n) : μ.locate (baseAddress i + o) n = .ok (i, o) := by
  obtain ⟨ho, a, ha, hl, hs⟩ := h
  exact locate_inside ha hl ho hs

theorem read (h : μ.Inside i o n) : μ.read (baseAddress i + o) n = .ok (μ.held i o n) := by
  rw [Memory.read, h.locate]
  rfl

theorem put (h : μ.Inside i o n) (bs : List UInt8) (k : Nat) : (μ.put bs (i, k)).Inside i o n := by
  obtain ⟨ho, a, ha, hl, hs⟩ := h
  refine ⟨ho, { a with written := Allocation.overwrite a.written k bs }, ?_, hl, hs⟩
  rw [getElem?_put, if_pos rfl, ha]
  rfl

theorem allocation_put (h : μ.Inside i o n) (k : Nat) : (μ.put bs (i, k)).allocation i =
    { μ.allocation i with written := Allocation.overwrite (μ.allocation i).written k bs } := by
  rw [Memory.allocation, getElem?_put, if_pos rfl, h.allocation]
  rfl

end Inside

/-- Bytes that were put inside of others. -/
theorem held_put (h : μ.Inside i o n) (hk : k + bs.length ≤ n) :
    (μ.put bs (i, o + k)).held i o n = splice k bs (μ.held i o n) := by
  rw [held, h.allocation_put, Allocation.slice_overwrite hk]
  rfl

theorem held_put_self (h : μ.Inside i o bs.length) : (μ.put bs (i, o)).held i o bs.length = bs := by
  rw [held, h.allocation_put, Allocation.slice_overwrite_self]

theorem edits_put (h : μ.Inside i o bs.length) : μ.Edits (μ.put bs (i, o)) i o bs.length where
  count := by simp [put]
  others j hj := by rw [getElem?_put, if_neg hj.symm]
  size := by rw [h.allocation_put]
  live := by rw [h.allocation_put]
  bytes k hk := by
    rw [h.allocation_put, Allocation.byte, Allocation.getD_overwrite, if_neg (by omega)]
    rfl

/-- Each global has room for a value of its type. -/
theorem inside_initial {m : Module} {g : IR.Global} (h : m.globals[i]? = some g) :
    (State.initial m).memory.Inside i 0 g.type.size := by
  refine ⟨offsetRange_pos, _, State.allocations_initial m h, live_initialAllocation _ _, ?_⟩
  rw [size_initialAllocation]
  omega

end Memory

/-! ### Loads and stores -/

namespace Run

variable {m : Module} {call : FuncId → List RtValue → Run RtValue} {f : FuncId} {fr : Frame}
  {σ : State} {T S t : Ty} {p q v z : Value} {x : RtValue} {vs : List Value} {path : List Nat}

/-- An operand of a type and its value. -/
structure Operand (m : Module) (f : FuncId) (fr : Frame) (globals : Array Nat) (v : Value) (t : Ty)
    (x : RtValue) : Prop where
  type : m.typeOf f v = t
  value : fr.value? globals v = some x

/-- An operand that points to a value of a type at an offset of an allocation. -/
abbrev Points (m : Module) (f : FuncId) (fr : Frame) (globals : Array Nat) (p : Value) (t : Ty)
    (i o : Nat) : Prop :=
  Operand m f fr globals p (.ptr t) (.ptr (baseAddress i + o))

theorem returns_load_inside (hp : Points m f fr σ.globals p T i o)
    (h : σ.memory.Inside i o T.size) :
    Returns (instruction m call f fr (.load p) T) σ (decode (σ.memory.held i o T.size) T) σ := by
  refine (returns_ptrOperand hp.value).bind (returns_access ?_)
  rw [Memory.load, h.read]
  rfl

theorem returns_load_after (call : FuncId → List RtValue → Run RtValue) {μ : Memory}
    (hp : Points m f fr σ.globals p T i o) (h : μ.Inside i o T.size) :
    Returns (instruction m call f fr (.load p) T) { σ with memory := μ }
      (decode (μ.held i o T.size) T) { σ with memory := μ } :=
  returns_load_inside (σ := { σ with memory := μ }) hp h

theorem returns_store_inside (hp : Points m f fr σ.globals p T i o)
    (hv : Operand m f fr σ.globals v T x) (h : σ.memory.Inside i o T.size) :
    Returns (instruction m call f fr (.store v p) t) σ .void
      { σ with memory := σ.memory.put (encode x T) (i, o) } := by
  have hlocate : σ.memory.locate (baseAddress i + o) (encode x T).length = .ok (i, o) := by
    rw [length_encode]
    exact h.locate
  have hwrite : Returns (write (baseAddress i + o) (encode x T)) σ ()
      { σ with memory := σ.memory.put (encode x T) (i, o) } :=
    (returns_access (g := fun m => m.locate (baseAddress i + o) _) hlocate).bind rfl
  refine (returns_ptrOperand hp.value).bind ((returns_operand hv.value).bind ?_)
  rw [hv.type]
  exact hwrite.bind rfl

/-- One index of an aggregate. -/
theorem returns_extractValue (hv : Operand m f fr σ.globals v T (decode bs T))
    (hl : bs.length = T.size) (h : T.part? [k] = some S) :
    Returns (instruction m call f fr (.extractValue v k) S) σ ((decode bs T).component [k] T) σ := by
  obtain ⟨u, hu, hS⟩ := Ty.part?_cons h
  obtain rfl := Option.some.inj hS
  have hin := Ty.fieldOffset_add_size_le hu
  have hfield : (decode bs T).component [k] T =
      decode ((bs.drop (T.fieldOffset k)).take u.size) u := by
    rw [RtValue.component, RtValue.component, field_decode hu]
  refine (returns_operand hv.value).bind ?_
  rw [hv.type, decode_of_field? hu, extract, min_eq_left (by omega), min_eq_left (by omega),
    List.drop_take, Nat.add_sub_cancel_left, ← decode_of_field? hu, hfield]
  exact returns_pure _ σ

/-! ### Coherence -/

/-- What accesses to a whole value in memory come to. -/
structure Whole (m : Module) (call : FuncId → List RtValue → Run RtValue) (f : FuncId) (fr : Frame)
    (σ : State) (T : Ty) (p : Value) (i o : Nat) : Prop where
  /-- What is stored is loaded, and bytes outside of it stay. -/
  store : ∀ v x t, Operand m f fr σ.globals v T x → RtValue.Of T x →
    ∃ μ, Returns (instruction m call f fr (.store v p) t) σ .void { σ with memory := μ } ∧
      σ.memory.Edits μ i o T.size ∧
      Returns (instruction m call f fr (.load p) T) { σ with memory := μ } x { σ with memory := μ }
  load : Returns (instruction m call f fr (.load p) T) σ
    (decode (σ.memory.held i o T.size) T) σ

/-- What accesses to a part of a value in memory come to: the part is at a path, and its address
is computed by a list of operands. -/
structure Part (m : Module) (call : FuncId → List RtValue → Run RtValue) (f : FuncId) (fr : Frame)
    (σ : State) (T : Ty) (p : Value) (i o : Nat) (path : List Nat) (S : Ty) (indices : List Value) :
    Prop where
  /-- The address is placed as a pointer to the type of the part. -/
  type : ∀ b : Builder, b.typeOf p = .ptr T → @Eq (Value × Builder) (Build.gep p indices b)
    (Build.push (.gep p indices) (.ptr S) none b)
  address : Returns (instruction m call f fr (.gep p indices) (.ptr S)) σ
    (.ptr (baseAddress i + (o + T.offsetOf path))) σ
  inside : T.offsetOf path + S.size ≤ T.size
  load : ∀ q, Points m f fr σ.globals q S i (o + T.offsetOf path) →
    Returns (instruction m call f fr (.load q) S) σ
      ((decode (σ.memory.held i o T.size) T).component path T) σ
  extract : ∀ v k, path = [k] →
    Operand m f fr σ.globals v T (decode (σ.memory.held i o T.size) T) →
      Returns (instruction m call f fr (.extractValue v k) S) σ
        ((decode (σ.memory.held i o T.size) T).component path T) σ
  /-- The whole is loaded with the part replaced, and with the parts apart from it as they were. -/
  store : ∀ q v x t, Points m f fr σ.globals q S i (o + T.offsetOf path) →
    Operand m f fr σ.globals v S x → RtValue.Of S x →
      ∃ μ y, Returns (instruction m call f fr (.store v q) t) σ .void { σ with memory := μ } ∧
        σ.memory.Edits μ i (o + T.offsetOf path) S.size ∧
        Returns (instruction m call f fr (.load p) T) { σ with memory := μ } y
          { σ with memory := μ } ∧
        y.component path T = x ∧
        ∀ other S', T.part? other = some S' → ¬ path <+: other → ¬ other <+: path →
          y.component other T = (decode (σ.memory.held i o T.size) T).component other T

section

variable (hp : Points m f fr σ.globals p T i o) (h : σ.memory.Inside i o T.size)

include hp h

theorem whole : Whole m call f fr σ T p i o where
  store v x t hv hof := by
    have hlength : (encode x T).length = T.size := length_encode x T
    have hin : σ.memory.Inside i o (encode x T).length := by rwa [hlength]
    refine ⟨_, returns_store_inside hp hv h, hlength ▸ Memory.edits_put hin, ?_⟩
    have hload := returns_load_after call hp (h.put (encode x T) o)
    have hheld : (σ.memory.put (encode x T) (i, o)).held i o T.size = encode x T := by
      have hself := Memory.held_put_self hin
      rwa [hlength] at hself
    rwa [hheld, hof.decode_encode] at hload
  load := returns_load_inside hp h

theorem part (hS : T.part? path = some S) (hz : IR.Numeral z 0) (hvs : IR.Path vs path)
    (ho : o + T.offsetOf path < offsetRange) :
    Part m call f fr σ T p i o path S (z :: vs) where
  type b hb := Build.gep_part hb hvs hS
  address := by
    obtain ⟨bits, hzero⟩ := hz.value? fr σ.globals
    have hrange : offsetRange = 4294967296 := rfl
    exact returns_gep_exact hp.value hp.type h.offset (returns_intOperand hzero)
      (indices_of_path hvs) (by omega) (by simp [target]) ho
  inside := Ty.offsetOf_add_size_le hS
  load q hq := by
    have hin := Ty.offsetOf_add_size_le hS
    rw [component_decode hS Memory.length_held, ← Memory.held_sub hin]
    exact returns_load_inside hq (h.sub hin ho)
  extract v k hk hv := by
    subst hk
    exact returns_extractValue hv Memory.length_held hS
  store q v x t hq hv hof := by
    have hin := Ty.offsetOf_add_size_le hS
    have hlength : (encode x S).length = S.size := length_encode x S
    have hpart : σ.memory.Inside i (o + T.offsetOf path) (encode x S).length := by
      rw [hlength]
      exact h.sub hin ho
    have hheld : (σ.memory.put (encode x S) (i, o + T.offsetOf path)).held i o T.size =
        splice (T.offsetOf path) (encode x S) (σ.memory.held i o T.size) :=
      Memory.held_put h (by omega)
    have hload := returns_load_after call hp (h.put (encode x S) (o + T.offsetOf path))
    rw [hheld] at hload
    refine ⟨_, _, returns_store_inside hq hv (h.sub hin ho), hlength ▸ Memory.edits_put hpart,
      hload, ?_, fun other S' hS' hne hne' => ?_⟩
    · rw [component_splice_self hS Memory.length_held hlength, hof.decode_encode]
    · exact component_splice_apart hS hS' hne hne' Memory.length_held hlength

end

/-- Accesses through a pointer to a value with room for it are coherent: to the whole value, and to
any part of it that is at an offset of the allocation. -/
theorem access_coherent (call : FuncId → List RtValue → Run RtValue)
    (hp : Points m f fr σ.globals p T i o) (h : σ.memory.Inside i o T.size) :
    Whole m call f fr σ T p i o ∧
      ∀ path S z vs, T.part? path = some S → IR.Numeral z 0 → IR.Path vs path →
        o + T.offsetOf path < offsetRange → Part m call f fr σ T p i o path S (z :: vs) :=
  ⟨whole hp h, fun _ _ _ _ hS hz hvs ho => part hp h hS hz hvs ho⟩

/-- A module with a global of a type, and a function that has a pointer to a number. -/
def globalModule (t : Ty) : Module where
  name := ""
  globals := #[{ name := "g", type := t, init := none, constant := false, linkage := .internal }]
  functions := #[{ name := "f", params := [⟨"q", .ptr .i32⟩], ret := .void, linkage := .internal }]

/-- A byte and two numbers. -/
def numbers : Ty := .struct [.i8, .array .i32 2]

/-- The second of two numbers is changed, and the first one stays. -/
theorem access_coherent_numbers :
    let m := globalModule numbers
    let σ := State.initial m
    let fr : Frame := ⟨[.ptr (baseAddress 0 + 8)], #[]⟩
    let run := instruction m (fun _ _ => pure .void) ⟨0⟩ fr
    Points m ⟨0⟩ fr σ.globals (.global ⟨0⟩) numbers 0 0 ∧
      σ.memory.Inside 0 0 numbers.size ∧ numbers.part? [1, 1] = some .i32 ∧
      0 + numbers.offsetOf [1, 1] < offsetRange ∧
      ∃ μ y, Returns (run (.store (.i32 7) (.param 0)) .void) σ .void { σ with memory := μ } ∧
        Returns (run (.load (.global ⟨0⟩)) numbers) { σ with memory := μ } y
          { σ with memory := μ } ∧
        y.component [1, 1] numbers = .int 32 7 ∧
        y.component [1, 0] numbers =
          (decode (σ.memory.held 0 0 numbers.size) numbers).component [1, 0] numbers := by
  intro m σ fr run
  have hp : Points m ⟨0⟩ fr σ.globals (.global ⟨0⟩) numbers 0 0 := ⟨rfl, rfl⟩
  have hin : σ.memory.Inside 0 0 numbers.size :=
    Memory.inside_initial (m := m) (i := 0) (g := m.global ⟨0⟩) rfl
  have hbound : 0 + numbers.offsetOf [1, 1] < offsetRange := by decide
  have hpart := (access_coherent (fun _ _ => pure .void) hp hin).2 [1, 1] .i32 (.i32 0)
    [.i32 1, .i32 1] (by decide) (.int (by decide))
    (.cons (.int (by decide)) (.cons (.int (by decide)) .nil)) hbound
  obtain ⟨μ, y, hstore, -, hload, hself, hother⟩ := hpart.store (.param 0) (.i32 7) (.int 32 7) .void
    ⟨rfl, rfl⟩ ⟨rfl, by decide⟩ (.int (by decide) (by decide))
  exact ⟨hp, hin, by decide, hbound, μ, y, hstore, hload, hself,
    hother [1, 0] .i32 (by decide) (by decide) (by decide)⟩

/-- Beyond the offsets of an allocation there are no addresses of parts. -/
theorem not_part_large :
    let large : Ty := .array .i8 4294967297
    let m := globalModule large
    let σ := State.initial m
    let call := fun _ _ => pure .void
    Points m ⟨0⟩ ⟨[], #[]⟩ σ.globals (.global ⟨0⟩) large 0 0 ∧ σ.memory.Inside 0 0 large.size ∧
      large.part? [4294967296] = some .i8 ∧ IR.Numeral (.i64 0) 0 ∧
      IR.Path [.i64 4294967296] [4294967296] ∧
      Stops (instruction m call ⟨0⟩ ⟨[], #[]⟩ (.gep (.global ⟨0⟩) [.i64 0, .i64 4294967296])
        (.ptr .i8)) σ (.outOfBounds (baseAddress 0) 0) σ ∧
      ¬ Part m call ⟨0⟩ ⟨[], #[]⟩ σ large (.global ⟨0⟩) 0 0 [4294967296] .i8
        [.i64 0, .i64 4294967296] := by
  intro large m σ call
  have hp : Points m ⟨0⟩ ⟨[], #[]⟩ σ.globals (.global ⟨0⟩) large 0 0 := ⟨rfl, rfl⟩
  have hin : σ.memory.Inside 0 0 large.size :=
    Memory.inside_initial (m := m) (i := 0) (g := m.global ⟨0⟩) rfl
  have hzero : IR.Numeral (.i64 0) 0 := .int (by decide)
  have hpath : IR.Path [.i64 4294967296] [4294967296] := .cons (.int (by decide)) .nil
  have hread : Returns (intOperand ⟨[], #[]⟩ (.i64 0)) σ 0 σ := rfl
  have hstops : Stops (instruction m call ⟨0⟩ ⟨[], #[]⟩
      (.gep (.global ⟨0⟩) [.i64 0, .i64 4294967296]) (.ptr .i8)) σ
      (.outOfBounds (baseAddress 0) 0) σ :=
    stops_gep_exact hp.value hp.type hin.offset hread (indices_of_path hpath) (by decide) (by decide)
  exact ⟨hp, hin, by decide, hzero, hpath, hstops, fun hpart => by
    have heq := hstops.symm.trans hpart.address
    cases heq⟩

end Run

end Lowering.Exec
