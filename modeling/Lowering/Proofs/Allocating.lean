import Lowering.Proofs.Lifetime

/-!
# Allocations and the functions of the runtime

What the runtime's own functions do to memory, told from the allocation that an address is in: its
size, its bytes and whether it is in use decide what an access comes to.

* `Exec.Memory.locate_inside`, `Exec.Memory.locate_outside`, `Exec.Memory.room_inside`: accesses to
  an allocation;
* `Exec.Allocation.slice_overwrite_self`, `Exec.Allocation.slice_overwrite_apart`: its bytes after a
  write;
* `Exec.Run.returns_arrayMalloc`, `Exec.Run.returns_element`, `Exec.Run.stops_element` and the rules
  for the runtime's functions.
-/

namespace Lowering.Exec

open IR (Ty Value InstId FuncId InstKind Module)

variable {i o n : Nat}

/-! ### Addresses in an allocation -/

theorem baseAddress_add_div (h : o < offsetRange) :
    (baseAddress i + o) / offsetRange = i + 1 := by
  unfold baseAddress offsetRange at *
  omega

theorem baseAddress_add_mod (h : o < offsetRange) : (baseAddress i + o) % offsetRange = o := by
  unfold baseAddress offsetRange at *
  omega

theorem offsetRange_le_baseAddress : offsetRange ≤ baseAddress i + o := by
  unfold baseAddress offsetRange
  omega

theorem offsetRange_pos : 0 < offsetRange := by decide

theorem baseAddress_add_ne_zero : baseAddress i + o ≠ 0 := by
  unfold baseAddress offsetRange
  omega

/-! ### Bytes of an allocation -/

namespace Allocation

variable {a : Allocation} {bs : List UInt8} {x : Nat}

@[simp] theorem length_slice : (a.slice o n).length = n := by simp [slice]

theorem getElem?_slice (h : i < n) : (a.slice o n)[i]? = some (a.byte (o + i)) := by
  simp [slice, List.getElem?_range h]

theorem slice_overwrite_self :
    ({ a with written := overwrite a.written o bs } : Allocation).slice o bs.length = bs := by
  apply List.ext_getElem?
  intro j
  by_cases hj : j < bs.length
  · rw [getElem?_slice hj, byte, getD_overwrite, if_pos ⟨Nat.le_add_right _ _, by omega⟩,
      Nat.add_sub_cancel_left, List.getElem?_eq_getElem hj]
    rfl
  · rw [List.getElem?_eq_none (by simpa using not_lt.mp hj),
      List.getElem?_eq_none (not_lt.mp hj)]

theorem slice_overwrite_apart (h : x + n ≤ o ∨ o + bs.length ≤ x) :
    ({ a with written := overwrite a.written o bs } : Allocation).slice x n = a.slice x n := by
  refine List.map_congr_left fun j hj => ?_
  have hj := List.mem_range.mp hj
  rw [byte, getD_overwrite, if_neg (by omega), byte]

/-- Part of some bytes. -/
theorem slice_sub {k l : Nat} (h : k + l ≤ n) : a.slice (o + k) l = ((a.slice o n).drop k).take l := by
  apply List.ext_getElem?
  intro j
  by_cases hj : j < l
  · rw [getElem?_slice hj, List.getElem?_take_of_lt hj, List.getElem?_drop,
      getElem?_slice (by omega), Nat.add_assoc]
  · rw [List.getElem?_eq_none (by simpa using not_lt.mp hj),
      List.getElem?_eq_none (by simp; omega)]

/-- All bytes of a fresh allocation are zero. -/
theorem slice_fresh {size : Nat} :
    ({ size : Allocation }).slice o n = List.replicate n 0 := by
  rw [slice, List.eq_replicate_iff]
  refine ⟨by simp, fun b hb => ?_⟩
  obtain ⟨j, -, rfl⟩ := List.mem_map.mp hb
  simp [byte]

/-- Zeros that are put into a fresh allocation change nothing. -/
theorem fill_zero : fill #[] o 0 n = #[] := by
  induction n generalizing o with
  | zero => rfl
  | succ n ih => simpa [fill, put] using ih

end Allocation

/-! ### Accesses to an allocation -/

namespace Memory

variable {m m' : Memory} {a : Allocation} {bs : List UInt8} {size : Nat}

theorem indexOf_inside (h : o < offsetRange) : indexOf (baseAddress i + o) = some i := by
  rw [indexOf, if_neg (not_lt.mpr offsetRange_le_baseAddress), baseAddress_add_div h]
  rfl

theorem place_inside (h : o < offsetRange) : place (baseAddress i + o) = (i, o) := by
  rw [place, baseAddress_add_div h, baseAddress_add_mod h, Nat.add_sub_cancel]

theorem locate_inside (ha : m.allocations[i]? = some a) (hl : a.live = true) (ho : o < offsetRange)
    (hs : o + n ≤ a.size) : m.locate (baseAddress i + o) n = .ok (i, o) := by
  simp only [locate, if_neg baseAddress_add_ne_zero, indexOf_inside ho, Option.bind_some, ha,
    Option.map_some, hl, Bool.not_true, Bool.false_eq_true, if_false, baseAddress_add_mod ho,
    if_neg (not_lt.mpr hs)]

theorem locate_start (ha : m.allocations[i]? = some a) (hl : a.live = true) (hs : n ≤ a.size) :
    m.locate (baseAddress i) n = .ok (i, 0) := by
  have h := locate_inside (o := 0) (n := n) ha hl offsetRange_pos (by omega)
  rwa [Nat.add_zero] at h

theorem locate_outside (ha : m.allocations[i]? = some a) (hl : a.live = true) (ho : o < offsetRange)
    (hs : a.size < o + n) :
    m.locate (baseAddress i + o) n = .error (.outOfBounds (baseAddress i + o) n) := by
  simp only [locate, if_neg baseAddress_add_ne_zero, indexOf_inside ho, Option.bind_some, ha,
    Option.map_some, hl, Bool.not_true, Bool.false_eq_true, if_false, baseAddress_add_mod ho,
    if_pos hs]

theorem locate_released (ha : m.allocations[i]? = some a) (hl : a.live = false)
    (ho : o < offsetRange) :
    m.locate (baseAddress i + o) n = .error (.useAfterFree (baseAddress i + o)) :=
  Dead.locate ⟨a, ha, hl⟩ (indexOf_inside ho) n

theorem read_inside (ha : m.allocations[i]? = some a) (hl : a.live = true) (ho : o < offsetRange)
    (hs : o + n ≤ a.size) : m.read (baseAddress i + o) n = .ok (a.slice o n) := by
  rw [read, locate_inside ha hl ho hs]
  show Except.ok ((m.allocation i).slice o n) = _
  rw [allocation, ha]
  rfl

theorem room_inside (ha : m.allocations[i]? = some a) (hl : a.live = true) (ho : o < offsetRange)
    (hs : o + n ≤ a.size) (hn : o + n ≤ offsetRange) : m.Room (baseAddress i + o) n := by
  refine ⟨offsetRange_le_baseAddress, ?_, a, ?_, hl, ?_⟩
  · rwa [baseAddress_add_mod ho]
  · rwa [baseAddress_add_div ho, Nat.add_sub_cancel]
  · rwa [baseAddress_add_mod ho]

theorem bytes_inside (ha : m.allocations[i]? = some a) (hn : o + n ≤ offsetRange) :
    m.bytes (baseAddress i + o) n = a.slice o n := by
  refine List.map_congr_left fun j hj => ?_
  have hj := List.mem_range.mp hj
  have hlt : o + j < offsetRange := by omega
  rw [byteAt, Nat.add_assoc, baseAddress_add_div hlt, baseAddress_add_mod hlt, allocation,
    Nat.add_sub_cancel, ha]
  rfl

/-! ### Changed allocations -/

theorem getElem?_put {p : Nat × Nat} : (m.put bs p).allocations[i]? =
    if p.1 = i then (m.allocations[i]?).map fun a =>
      { a with written := Allocation.overwrite a.written p.2 bs }
    else m.allocations[i]? := by
  simp only [put, Array.getElem?_modify]

theorem getElem?_allocate_self :
    (m.allocate size).2.allocations[m.allocations.size]? = some { size := max size 1 } := by
  simp [allocate]

theorem getElem?_allocate_of_lt (h : i < m.allocations.size) :
    (m.allocate size).2.allocations[i]? = m.allocations[i]? :=
  (Array.getElem?_push_lt h).trans (Array.getElem?_eq_getElem h).symm

theorem lt_of_getElem? (h : m.allocations[i]? = some a) : i < m.allocations.size :=
  (Array.getElem?_eq_some_iff.mp h).1

/-- Zeros put into a fresh allocation leave memory as it is. -/
theorem fill_fresh (h : m.allocations[i]? = some { size }) : m.fill 0 n (i, o) = m := by
  have hmodify : m.allocations.modify i (fun a =>
      { a with written := Allocation.fill a.written o 0 n }) = m.allocations := by
    apply Array.ext_getElem?
    intro j
    rw [Array.getElem?_modify]
    split
    · rename_i hj
      subst hj
      rw [h, Option.map_some, Allocation.fill_zero]
    · rfl
  exact congrArg Memory.mk hmodify

end Memory

/-! ### Instructions and functions of the runtime -/

namespace Run

variable {σ σ' : State} {fr : Frame} {v w : Value} {m : Module} {f : FuncId} {t : Ty}
  {call : FuncId → List RtValue → Run RtValue} {a : Allocation} {bs : List UInt8}

/-- A computation stops after its first step. -/
theorem Stops.after {α β : Type} {x : Run α} {g : α → Run β} {b : α} {σ₁ : State} {e : Fault}
    (h : Returns x σ b σ₁) (h' : Stops (g b) σ₁ e σ') : Stops (x >>= g) σ e σ' :=
  (bind_eq h).trans h'

theorem stops_throw {α : Type} (e : Fault) : Stops (throw e : Run α) σ e σ := rfl

theorem stops_access {α : Type} {g : Memory → Except Fault α} {e : Fault}
    (h : g σ.memory = .error e) : Stops (access g) σ e σ := by
  have hget : Returns (get : Run State) σ σ σ := rfl
  refine .after hget ?_
  rw [h]
  exact stops_throw e

theorem stops_load {p : Nat} {e : Fault} (hp : fr.value? σ.globals v = some (.ptr p))
    (hr : σ.memory.locate p t.size = .error e) :
    Stops (instruction m call f fr (.load v) t) σ e σ := by
  have hload : Stops (access fun memory => memory.load p t) σ e σ := by
    refine stops_access ?_
    rw [Memory.load, Memory.read, hr]
    rfl
  exact .after (returns_ptrOperand hp) hload

theorem stops_store {p : Nat} {e : Fault} {x : RtValue}
    (hp : fr.value? σ.globals w = some (.ptr p)) (hv : fr.value? σ.globals v = some x)
    (hr : σ.memory.locate p (m.typeOf f v).size = .error e) :
    Stops (instruction m call f fr (.store v w) t) σ e σ := by
  have hwrite : Stops (write p (encode x (m.typeOf f v))) σ e σ := by
    refine (stops_access (g := fun m => m.locate p _) ?_).bind
    rwa [length_encode]
  exact .after (returns_ptrOperand hp) (.after (returns_operand hv) hwrite.bind)

/-- The type of an operand that is cast. -/
theorem returns_cast {op : IR.CastOp} {x : RtValue} (hv : fr.value? σ.globals v = some x) :
    Returns (instruction m call f fr (.cast op v) t) σ (castValue op x (m.typeOf f v) t) σ :=
  (returns_operand hv).bind rfl

theorem returns_arrayMalloc {elem : Ty} {bits : Nat} {count : Int}
    (hv : fr.value? σ.globals v = some (.int bits count))
    (h : elem.size * count.toNat < offsetRange) :
    Returns (instruction m call f fr (.arrayMalloc elem v) t) σ
      (.ptr (baseAddress σ.memory.allocations.size))
      { σ with memory := (σ.memory.allocate (elem.size * count.toNat)).2 } := by
  refine (returns_intOperand hv).bind ?_
  dsimp only
  rw [if_pos h]
  exact Returns.bind (a := baseAddress σ.memory.allocations.size) rfl (returns_pure _ _)

/-- The address of an element, counted from a pointer to one. -/
theorem returns_element {p q : Nat} {ty : Ty} {bits : Nat} {k step : Int}
    (hty : m.typeOf f v = .ptr ty) (hp : fr.value? σ.globals v = some (.ptr p)) (h0 : p ≠ 0)
    (hw : fr.value? σ.globals w = some (.int bits k)) (hstep : firstStep? ty k = some step)
    (hq : moved? p step = some q) :
    Returns (instruction m call f fr (.gep v [w]) t) σ (.ptr q) σ := by
  refine (returns_ptrOperand hp).bind ?_
  rw [hty]
  exact returns_address (returns_intOperand hw) hstep (returns_pure step σ) h0 hq

/-- Beyond the addresses of an allocation there is no element. -/
theorem stops_element {p : Nat} {ty : Ty} {bits : Nat} {k : Int} (hty : m.typeOf f v = .ptr ty)
    (hp : fr.value? σ.globals v = some (.ptr p)) (h0 : p ≠ 0)
    (hw : fr.value? σ.globals w = some (.int bits k))
    (h : ∀ step, firstStep? ty k = some step → moved? p step = none) :
    Stops (instruction m call f fr (.gep v [w]) t) σ (.outOfBounds p 0) σ := by
  have haddress : Stops (address fr p ty [w]) σ (.outOfBounds p 0) σ := by
    refine .after (returns_intOperand hw) ?_
    cases hstep : firstStep? ty k with
    | none => exact (stops_throw _).bind
    | some step =>
      refine .after (returns_pure step σ) ?_
      dsimp only
      rw [if_neg h0, h step hstep]
      exact stops_throw _
  refine .after (returns_ptrOperand hp) ?_
  rw [hty]
  exact haddress

/-- Operands one after the other. -/
theorem returns_operands {vs : List Value} {xs : List RtValue}
    (h : List.Forall₂ (fun v x => fr.value? σ.globals v = some x) vs xs) :
    Returns (vs.mapM (operand fr)) σ xs σ := by
  induction h with
  | nil => exact returns_pure [] σ
  | cons hv _ ih =>
    rw [List.mapM_cons]
    exact (returns_operand hv).bind (ih.bind (returns_pure _ σ))

theorem returns_call {g : FuncId} {vs : List Value} {xs : List RtValue} {x : RtValue}
    (h : List.Forall₂ (fun v x => fr.value? σ.globals v = some x) vs xs)
    (hx : Returns (call g xs) σ x σ') :
    Returns (instruction m call f fr (.call g vs) t) σ x σ' :=
  (returns_operands h).bind hx

theorem stops_call {g : FuncId} {vs : List Value} {xs : List RtValue} {e : Fault}
    (h : List.Forall₂ (fun v x => fr.value? σ.globals v = some x) vs xs)
    (hx : Stops (call g xs) σ e σ') :
    Stops (instruction m call f fr (.call g vs) t) σ e σ' :=
  .after (returns_operands h) hx

/-! ### Functions of the runtime -/

section

variable {p q size : Nat} {place : Nat × Nat} {bits bits' : Nat}

theorem returns_memset (h : σ.memory.locate p n = .ok place) :
    Returns (builtin "memset" [.ptr p, .int bits 0, .int bits' n]) σ (.ptr p)
      { σ with memory := σ.memory.fill 0 n place } := by
  have hlen : (intArg [.ptr p, .int bits 0, .int bits' n] 2).toNat = n := rfl
  exact Returns.bind (a := ()) ((returns_access h).bind rfl) (returns_pure _ _)

theorem returns_memcpy (hread : σ.memory.read q n = .ok bs)
    (h : σ.memory.locate p bs.length = .ok place) :
    Returns (builtin "memcpy" [.ptr p, .ptr q, .int bits n]) σ (.ptr p)
      { σ with memory := σ.memory.put bs place } :=
  (returns_access hread).bind (Returns.bind (a := ()) ((returns_access h).bind rfl)
    (returns_pure _ _))

/-- An allocation is moved to a fresh one of another size, from an offset on. -/
theorem returns_reallocate (ha : σ.memory.allocations[i]? = some a) (hl : a.live = true)
    (ho : o < offsetRange) (hs : o ≤ a.size) :
    Returns (reallocate (baseAddress i + o) size) σ (.ptr (baseAddress σ.memory.allocations.size))
      { σ with memory := (((σ.memory.allocate size).2.put (a.slice o (min (a.size - o) size))
        (σ.memory.allocations.size, 0)).release (baseAddress i + o)) } := by
  let σ₁ : State := { σ with memory := (σ.memory.allocate size).2 }
  have hi := Memory.lt_of_getElem? ha
  have ha₁ : σ₁.memory.allocations[i]? = some a := (Memory.getElem?_allocate_of_lt hi).trans ha
  have hlocate : σ₁.memory.locate (baseAddress i + o) 0 = .ok (i, o) :=
    Memory.locate_inside ha₁ hl ho hs
  have hsize : (σ₁.memory.allocation i).size = a.size := by rw [Memory.allocation, ha₁]; rfl
  have hread : σ₁.memory.read (baseAddress i + o) (min (a.size - o) size) =
      .ok (a.slice o (min (a.size - o) size)) :=
    Memory.read_inside ha₁ hl ho (by omega)
  have hplace : σ₁.memory.locate (baseAddress σ.memory.allocations.size)
      (a.slice o (min (a.size - o) size)).length = .ok (σ.memory.allocations.size, 0) := by
    have hfresh : σ₁.memory.allocations[σ.memory.allocations.size]? = some { size := max size 1 } :=
      Memory.getElem?_allocate_self
    refine Memory.locate_start hfresh rfl ?_
    rw [Allocation.length_slice]
    exact (min_le_right _ _).trans (le_max_left _ _)
  unfold reallocate
  have hfresh : Returns (allocate size) σ (baseAddress σ.memory.allocations.size) σ₁ := rfl
  refine hfresh.bind ?_
  rw [if_pos baseAddress_add_ne_zero]
  refine (returns_access hlocate).bind (Returns.bind (a := σ₁) rfl ?_)
  dsimp only
  rw [hsize]
  exact (returns_access hread).bind (Returns.bind (a := ()) ((returns_access hplace).bind rfl)
    (Returns.bind (a := ()) rfl (returns_pure _ _)))

theorem returns_realloc (ha : σ.memory.allocations[i]? = some a) (hl : a.live = true)
    (ho : o < offsetRange) (hs : o ≤ a.size) :
    Returns (builtin "realloc" [.ptr (baseAddress i + o), .int bits size]) σ
      (.ptr (baseAddress σ.memory.allocations.size))
      { σ with memory := (((σ.memory.allocate size).2.put (a.slice o (min (a.size - o) size))
        (σ.memory.allocations.size, 0)).release (baseAddress i + o)) } :=
  returns_reallocate ha hl ho hs

/-- What cannot be read cannot be moved: only the fresh allocation was made. -/
theorem stops_realloc {e : Fault} (h0 : p ≠ 0)
    (h : (σ.memory.allocate size).2.locate p 0 = .error e) :
    Stops (builtin "realloc" [.ptr p, .int bits size]) σ e
      { σ with memory := (σ.memory.allocate size).2 } := by
  let σ₁ : State := { σ with memory := (σ.memory.allocate size).2 }
  have hstop : Stops (access fun m => m.locate p 0) σ₁ e σ₁ := stops_access h
  show Stops (reallocate p size) _ _ _
  have hfresh : Returns (allocate size) σ (baseAddress σ.memory.allocations.size) σ₁ := rfl
  refine .after hfresh ?_
  rw [if_pos h0]
  exact hstop.bind

end

end Run

end Lowering.Exec
