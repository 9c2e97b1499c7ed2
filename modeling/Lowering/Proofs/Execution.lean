import Lowering.Exec.Machine
import Lowering.Proofs.Growth
import Lowering.Proofs.Storage

/-!
# Execution of instructions

What single instructions and lists of them do to the frame and the memory of a run that has steps
left.

* `Exec.Run.Returns`: a computation comes to an end with a value;
* `Exec.Run.Frame.value?`: operands without the monad, and `Exec.Run.Frame.Agrees`;
* `Exec.Run.returns_load` and the rules for other instructions;
* `Exec.Run.instructions_append`, `Exec.Run.returns_instructions_cons`.
-/

namespace Lowering.Exec

open IR (Ty Constant Value InstId BlockId FuncId GlobalId InstKind Module)

/-- An operand that names no instruction from a number on. -/
def Before (n : Nat) : Value → Prop
  | .inst id => id.index < n
  | _ => True

/-- The state after a step. -/
def State.ticked (σ : State) : State := { σ with steps := σ.steps + 1 }

namespace Run

variable {α β : Type} {σ σ₁ σ' : State} {a : α} {b : β}

/-! ### Ends of computations -/

/-- A computation comes to an end with a value. -/
def Returns (x : Run α) (σ : State) (a : α) (σ' : State) : Prop :=
  @Eq (Except Fault α × State) (x σ) (.ok a, σ')

/-- A computation stops with a fault. -/
def Stops (x : Run α) (σ : State) (e : Fault) (σ' : State) : Prop :=
  @Eq (Except Fault α × State) (x σ) (.error e, σ')

theorem returns_pure (a : α) (σ : State) : Returns (pure a) σ a σ := rfl

/-- How a computation goes on after an outcome. -/
def goOn (f : α → Run β) : Except Fault α × State → Except Fault β × State
  | (.ok a, s) => f a s
  | (.error e, s) => (.error e, s)

theorem bind_outcome (x : Run α) (f : α → Run β) (σ : State) :
    @Eq (Except Fault β × State) ((x >>= f) σ) (goOn f (x σ)) := by
  show (ExceptT.bindCont f (x σ).1) (x σ).2 = goOn f ((x σ).1, (x σ).2)
  cases (x σ).1 <;> rfl

/-- A computation goes on with the value of its first step. -/
theorem bind_eq {x : Run α} {f : α → Run β} (h : Returns x σ a σ₁) :
    @Eq (Except Fault β × State) ((x >>= f) σ) (f a σ₁) := by
  rw [bind_outcome, show @Eq (Except Fault α × State) (x σ) (.ok a, σ₁) from h]
  rfl

theorem Returns.bind {x : Run α} {f : α → Run β} (h : Returns x σ a σ₁)
    (h' : Returns (f a) σ₁ b σ') : Returns (x >>= f) σ b σ' :=
  (bind_eq h).trans h'

theorem Stops.bind {x : Run α} {f : α → Run β} {e : Fault} (h : Stops x σ e σ') :
    Stops (x >>= f) σ e σ' := by
  rw [Stops, bind_outcome, show @Eq (Except Fault α × State) (x σ) (.error e, σ') from h]
  rfl

/-- A computation that comes to an end does so in its first step and in the rest. -/
theorem Returns.of_bind {x : Run α} {f : α → Run β} (h : Returns (x >>= f) σ b σ') :
    ∃ a σ₁, Returns x σ a σ₁ ∧ Returns (f a) σ₁ b σ' := by
  obtain ⟨r, hr⟩ : ∃ r, @Eq (Except Fault α × State) (x σ) r := ⟨_, rfl⟩
  rw [Returns, bind_outcome, hr] at h
  obtain ⟨e | a, σ₁⟩ := r
  · cases h
  · exact ⟨a, σ₁, hr, h⟩

/-! ### Steps -/

theorem returns_tick (h : σ.steps < σ.stepLimit) : Returns tick σ () σ.ticked := by
  have hcount : Returns (modify State.ticked : Run Unit) σ () σ.ticked := rfl
  refine hcount.bind (Returns.bind (a := σ.ticked) rfl ?_)
  rw [if_neg (by simp [State.ticked]; omega)]
  exact returns_pure () _

/-! ### Operands -/

/-- The value of an operand, given the addresses of the globals. -/
def Frame.value? (fr : Frame) (globals : Array Nat) : Value → Option RtValue
  | .const c => some (constantValue globals c)
  | .inst id => (fr.values[id.index]?).join
  | .param i => fr.args[i]?
  | .global g => some (.ptr (globals[g.index]?.getD 0))

variable {fr fr' fr₁ : Frame} {v w : Value} {x y : RtValue}

theorem returns_operand (h : fr.value? σ.globals v = some x) : Returns (operand fr v) σ x σ := by
  cases v with
  | const c =>
    cases h
    rfl
  | inst id =>
    simp only [Frame.value?] at h
    simp only [Returns, operand, h]
    rfl
  | param i =>
    simp only [Frame.value?] at h
    simp only [Returns, operand, h]
    rfl
  | global g =>
    cases h
    rfl

theorem returns_ptrOperand {p : Nat} (h : fr.value? σ.globals v = some (.ptr p)) :
    Returns (ptrOperand fr v) σ p σ :=
  (returns_operand h).bind (returns_pure p σ)

theorem returns_intOperand {bits : Nat} {i : Int}
    (h : fr.value? σ.globals v = some (.int bits i)) : Returns (intOperand fr v) σ i σ :=
  (returns_operand h).bind (returns_pure i σ)

/-! ### Single instructions -/

section

variable {m : Module} {call : FuncId → List RtValue → Run RtValue} {f : FuncId} {t : Ty}

theorem returns_access {g : Memory → Except Fault α} (h : g σ.memory = .ok a) :
    Returns (access g) σ a σ := by
  refine Returns.bind (a := σ) rfl ?_
  rw [h]
  exact returns_pure a σ

theorem returns_load {p : Nat} (hp : fr.value? σ.globals v = some (.ptr p))
    (hr : σ.memory.Room p t.size) :
    Returns (instruction m call f fr (.load v) t) σ (decode (σ.memory.bytes p t.size) t) σ := by
  refine (returns_ptrOperand hp).bind (returns_access ?_)
  rw [Memory.load, hr.read]
  rfl

theorem returns_store {p : Nat} (hp : fr.value? σ.globals w = some (.ptr p))
    (hv : fr.value? σ.globals v = some x) (hr : σ.memory.Room p (m.typeOf f v).size) :
    Returns (instruction m call f fr (.store v w) t) σ .void
      { σ with memory := σ.memory.put (encode x (m.typeOf f v)) (Memory.place p) } := by
  have hloc : σ.memory.locate p (encode x (m.typeOf f v)).length = .ok (Memory.place p) := by
    rw [length_encode]
    exact hr.locate
  have hw : Returns (write p (encode x (m.typeOf f v))) σ ()
      { σ with memory := σ.memory.put (encode x (m.typeOf f v)) (Memory.place p) } :=
    (returns_access (g := fun m => m.locate p _) hloc).bind rfl
  exact (returns_ptrOperand hp).bind ((returns_operand hv).bind (hw.bind rfl))

theorem returns_bitcast {p : Nat} (hv : fr.value? σ.globals v = some (.ptr p)) :
    Returns (instruction m call f fr (.cast .bitcast v) t) σ (.ptr p) σ :=
  (returns_operand hv).bind rfl

theorem returns_ptrToInt {p : Nat} (hv : fr.value? σ.globals v = some (.ptr p)) :
    Returns (instruction m call f fr (.cast .ptrToInt v) t) σ
      (.int (t.bits?.getD 64) (wrap (t.bits?.getD 64) (ofWord p))) σ :=
  (returns_operand hv).bind rfl

theorem returns_icmp {pred : IR.IntPredicate} {bits bits' : Nat} {i j : Int}
    (hv : fr.value? σ.globals v = some (.int bits i))
    (hw : fr.value? σ.globals w = some (.int bits' j)) :
    Returns (instruction m call f fr (.icmp pred v w) t) σ
      (.int 1 (if pred.holds i j then 1 else 0)) σ :=
  (returns_intOperand hv).bind ((returns_intOperand hw).bind rfl)

theorem returns_binary {op : IR.BinaryOp} {r : RtValue} (hv : fr.value? σ.globals v = some x)
    (hw : fr.value? σ.globals w = some y) (hr : binaryValue op x y t = .ok r) :
    Returns (instruction m call f fr (.binary op v w) t) σ r σ := by
  refine (returns_operand hv).bind ((returns_operand hw).bind ?_)
  rw [hr]
  exact returns_pure r σ

theorem returns_not {bits : Nat} {i : Int} (hv : fr.value? σ.globals v = some (.int bits i)) :
    Returns (instruction m call f fr (.not v) t) σ
      (.int (t.bits?.getD 1) (wrap (t.bits?.getD 1) (-i - 1))) σ :=
  (returns_intOperand hv).bind rfl

theorem returns_select {cond : Value} {z : RtValue} (hc : fr.value? σ.globals cond = some z)
    (hv : fr.value? σ.globals v = some x) (hw : fr.value? σ.globals w = some y) :
    Returns (instruction m call f fr (.select cond v w) t) σ (if z.isTruthy then x else y) σ := by
  refine (returns_operand hc).bind ?_
  cases z.isTruthy with
  | true => exact returns_operand hv
  | false => exact returns_operand hw

theorem wrap_small {k : Nat} (h : k < 2 ^ 31) : wrap 32 k = k := by
  rw [wrap, if_neg (by decide), twoTo_eq, show min 32 64 = 32 from rfl]
  exact Int.bmod_eq_of_le (by norm_num) (by norm_num; omega)

theorem value?_i32 {k : Nat} (h : k < 2 ^ 31) (globals : Array Nat) :
    fr.value? globals (.i32 k) = some (.int 32 k) := by
  show some (RtValue.int 32 (wrap 32 k)) = _
  rw [wrap_small h]

theorem firstStep?_zero (t : Ty) : firstStep? t 0 = some 0 := by
  rw [firstStep?, Int.zero_mul]
  rfl

/-- A number of 63 bits is the same as a signed word. -/
theorem ofWord_of_lt {k : Nat} (h : k < 2 ^ 63) : ofWord k = k := by
  rw [ofWord, twoTo_eq]
  exact Int.bmod_eq_of_le (by omega) (by omega)

theorem addOffsets?_zero {k : Nat} (h : k < offsetRange) :
    addOffsets? 0 (ofWord k) = some (k : Int) := by
  have hk : k < 4294967296 := h
  rw [ofWord_of_lt (by omega), addOffsets?, zero_add, if_pos]
  exact decide_eq_true ⟨by omega, by omega⟩

/-- One index after the first. -/
theorem returns_stepIndices {overflow : Fault} {ty : Ty} {i start stop : Int}
    (hi : Returns (intOperand fr v) σ i σ)
    (h : addOffsets? start (ofWord (ty.fieldOffset i.toNat)) = some stop) :
    Returns (stepIndices fr overflow ty start [v]) σ stop σ := by
  refine hi.bind ?_
  dsimp only
  rw [h]
  exact returns_pure stop σ

/-- The address that indices lead to. -/
theorem returns_address {ty : Ty} {p q : Nat} {i start stop : Int} {vs : List Value}
    (hi : Returns (intOperand fr v) σ i σ) (hstart : firstStep? ty i = some start)
    (hstop : Returns (stepIndices fr (.outOfBounds p 0) ty start vs) σ stop σ) (h0 : p ≠ 0)
    (hq : moved? p stop = some q) : Returns (address fr p ty (v :: vs)) σ (.ptr q) σ := by
  refine hi.bind ?_
  rw [hstart]
  refine hstop.bind ?_
  dsimp only
  rw [if_neg h0, hq]
  exact returns_pure (RtValue.ptr q) σ

/-- The address of a part of an aggregate that an operand counts. -/
theorem returns_part {p k bits : Nat} {ty : Ty} (hty : m.typeOf f v = .ptr ty)
    (hp : fr.value? σ.globals v = some (.ptr p)) (h0 : p ≠ 0)
    (hw : fr.value? σ.globals w = some (.int bits k))
    (hk : p % offsetRange + ty.fieldOffset k < offsetRange) :
    Returns (instruction m call f fr (.gep v [.i32 0, w]) t) σ (.ptr (p + ty.fieldOffset k)) σ := by
  have hzero : Returns (intOperand fr (.i32 0)) σ 0 σ :=
    returns_intOperand (value?_i32 (k := 0) (by norm_num) _)
  refine (returns_ptrOperand hp).bind ?_
  rw [hty]
  refine returns_address hzero (firstStep?_zero ty) ?_ h0 (moved?_of_lt hk)
  exact returns_stepIndices (returns_intOperand hw)
    (addOffsets?_zero (lt_of_le_of_lt (Nat.le_add_left _ _) hk))

/-- The address of a field. -/
theorem returns_field {p k : Nat} {ty : Ty} (hty : m.typeOf f v = .ptr ty)
    (hp : fr.value? σ.globals v = some (.ptr p)) (h0 : p ≠ 0)
    (hk : p % offsetRange + ty.fieldOffset k < offsetRange) (hk' : k < 2 ^ 31) :
    Returns (instruction m call f fr (.gep v [.i32 0, .i32 k]) t) σ
      (.ptr (p + ty.fieldOffset k)) σ :=
  returns_part hty hp h0 (value?_i32 hk' _) hk

end

/-! ### Lists of instructions -/

section

variable {m : Module} {call : FuncId → List RtValue → Run RtValue} {f : FuncId}
  {fn : IR.Function} {id : InstId} {ids ids' : List InstId}

theorem instructions_append : instructions m call f fn fr (ids ++ ids') =
    (do let fr' ← instructions m call f fn fr ids; instructions m call f fn fr' ids') := by
  induction ids generalizing fr with
  | nil => rfl
  | cons id ids ih =>
    rw [List.cons_append, instructions, instructions]
    split
    · exact ih
    · simp only [ih, bind_assoc]

theorem returns_instructions_cons {x : RtValue} (hphi : (fn.inst id).kind.isPhi = false)
    (hs : σ.steps < σ.stepLimit)
    (hx : Returns (instruction m call f fr (fn.inst id).kind (fn.inst id).type) σ.ticked x σ₁)
    (hrest : Returns (instructions m call f fn (fr.set id x) ids) σ₁ fr' σ') :
    Returns (instructions m call f fn fr (id :: ids)) σ fr' σ' := by
  rw [instructions, if_neg (by simp [hphi])]
  exact (returns_tick hs).bind (hx.bind hrest)

end

/-! ### Frames -/

namespace Frame

variable {fr fr₁ fr₂ fr₃ : Frame} {n n' : Nat}

/-- A frame that has the arguments and the values of the first instructions of another one. -/
structure Agrees (n : Nat) (fr fr' : Frame) : Prop where
  args : fr'.args = fr.args
  size : fr'.values.size = fr.values.size
  values : ∀ i < n, fr'.values[i]? = fr.values[i]?

theorem Agrees.refl (n : Nat) (fr : Frame) : Agrees n fr fr := ⟨rfl, rfl, fun _ _ => rfl⟩

theorem Agrees.trans (h : Agrees n fr₁ fr₂) (h' : Agrees n' fr₂ fr₃) (hn : n ≤ n') :
    Agrees n fr₁ fr₃ :=
  ⟨h'.args.trans h.args, h'.size.trans h.size,
    fun i hi => (h'.values i (lt_of_lt_of_le hi hn)).trans (h.values i hi)⟩

theorem agrees_set {id : InstId} {x : RtValue} (h : n ≤ id.index) : Agrees n fr (fr.set id x) :=
  ⟨rfl, Array.size_setIfInBounds, fun i hi => by
    rw [set, Array.getElem?_setIfInBounds_ne (by omega)]⟩

theorem Agrees.value? {globals : Array Nat} {v : Value} (h : Agrees n fr fr₁) (hv : Before n v) :
    fr₁.value? globals v = fr.value? globals v := by
  cases v with
  | inst id => simp only [Frame.value?, h.values id.index hv]
  | param i => simp only [Frame.value?, h.args]
  | _ => rfl

theorem value?_set_self {globals : Array Nat} {id : InstId} {x : RtValue}
    (h : id.index < fr.values.size) : (fr.set id x).value? globals (.inst id) = some x := by
  simp [Frame.value?, set, h]

end Frame

end Run

end Lowering.Exec
