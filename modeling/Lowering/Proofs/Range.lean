import Lowering.Proofs.Budget

/-!
# Integers in the range of their width

Whatever integers a run computes with, each is a number of its width: constants are reduced when
they are read, and so is what an instruction computes or reads from memory.

* `Exec.Signed`, `Exec.RtValue.InRange`: numbers of a width, and values that are such numbers;
* `Exec.Run.Yields`: what the values of a computation have in common;
* `Exec.Run.callValues`: the values that a call works with, in their order;
* `Exec.Run.inRange_callValues`: all of them are in range when the arguments are.
-/

namespace Lowering.Exec

open IR (Ty Constant Value InstId BlockId FuncId InstKind Module)

/-! ### Numbers of a width -/

/-- A number of a width of two bits or more: half of these numbers are negative. -/
def Signed (bits : Nat) (i : Int) : Prop := -2 ^ (bits - 1) ≤ i ∧ i < 2 ^ (bits - 1)

theorem Signed.mono {a b : Nat} {i : Int} (h : Signed a i) (hab : a ≤ b) : Signed b i := by
  have hpow : (2 : Int) ^ (a - 1) ≤ 2 ^ (b - 1) :=
    pow_le_pow_right₀ (by norm_num) (Nat.sub_le_sub_right hab 1)
  obtain ⟨hlow, hhigh⟩ := h
  exact ⟨by omega, hhigh.trans_le hpow⟩

theorem twice_half {bits : Nat} (h : 2 ≤ bits) : (2 : Int) ^ bits = 2 * 2 ^ (bits - 1) := by
  rw [← pow_succ', Nat.sub_add_cancel (by omega)]

theorem signed_bmod {bits : Nat} (h : 2 ≤ bits) (i : Int) :
    Signed bits (Int.bmod i (2 ^ bits)) := by
  have hhalf := twice_half h
  have hpos : 0 < 2 ^ bits := Nat.two_pow_pos bits
  have hlow := Int.le_bmod (x := i) hpos
  have hhigh := Int.bmod_lt (x := i) hpos
  rw [Signed]
  push_cast at hlow hhigh
  omega

/-- A number of a width is the only one that stands for its residue. -/
theorem bmod_of_signed {bits : Nat} {i : Int} (h : 2 ≤ bits) (hi : Signed bits i) :
    Int.bmod i (2 ^ bits) = i := by
  have hhalf := twice_half h
  obtain ⟨hlow, hhigh⟩ := hi
  refine Int.bmod_eq_of_le_mul_two ?_ ?_ <;> push_cast <;> omega

theorem wrap_eq {bits : Nat} (h : 2 ≤ bits) (h' : bits ≤ 64) (i : Int) :
    wrap bits i = Int.bmod i (2 ^ bits) := by
  rw [wrap, if_neg (by omega), min_eq_left h', twoTo_eq]

theorem signed_wrap {bits : Nat} (h : 2 ≤ bits) (i : Int) : Signed bits (wrap bits i) := by
  rw [wrap, if_neg (by omega), twoTo_eq]
  exact (signed_bmod (by omega) i).mono (min_le_left _ _)

/-- An integer of two bits or more is a number of its width. -/
def RtValue.InRange : RtValue → Prop
  | .int bits i => 2 ≤ bits → Signed bits i
  | _ => True

theorem inRange_wrap (bits : Nat) (i : Int) : (RtValue.int bits (wrap bits i)).InRange :=
  fun h => signed_wrap h i

theorem inRange_truth (b : Bool) : (RtValue.int 1 (if b then 1 else 0)).InRange :=
  fun h => absurd h (by decide)

theorem inRange_zeroOf (t : Ty) : (zeroOf t).InRange := by
  cases t with
  | int bits => exact fun _ => ⟨by simp, by positivity⟩
  | _ => trivial

theorem inRange_decode (bs : List UInt8) (t : Ty) : (decode bs t).InRange := by
  cases t with
  | int bits => exact inRange_wrap _ _
  | _ => trivial

theorem inRange_constantValue (globals : Array Nat) (a : Constant) :
    (constantValue globals a).InRange := by
  cases a with
  | int bits i => exact inRange_wrap bits i
  | float double x => cases double <;> trivial
  | null t => exact inRange_zeroOf t
  | undef t => exact inRange_zeroOf t
  | _ => trivial

theorem inRange_castValue {op : IR.CastOp} {v : RtValue} (h : v.InRange) (source target : Ty) :
    (castValue op v source target).InRange := by
  unfold castValue
  dsimp only
  split
  · trivial
  · exact inRange_decode _ _
  · trivial
  · exact inRange_wrap _ _
  · exact inRange_wrap _ _
  · exact inRange_wrap _ _
  · exact inRange_wrap _ _
  · split <;> trivial
  · exact inRange_wrap _ _
  · trivial
  · trivial
  · exact h

theorem inRange_binaryValue {op : IR.BinaryOp} {a b r : RtValue} {t : Ty}
    (h : binaryValue op a b t = .ok r) : r.InRange := by
  unfold binaryValue at h
  dsimp only at h
  split at h
  · split at h <;> cases h <;> trivial
  · split at h
    · rename_i x y _ _
      cases hi : integerOp op x y with
      | ok i =>
        rw [hi] at h
        cases h
        exact inRange_wrap _ _
      | error e =>
        rw [hi] at h
        cases h
    · cases h

namespace Run

variable {α β : Type}

/-! ### Values of computations -/

/-- Every value that a computation comes to has a property. -/
def Yields (x : Run α) (P : α → Prop) : Prop := ∀ σ a σ', Returns x σ a σ' → P a

theorem yields_pure {a : α} {P : α → Prop} (h : P a) : Yields (pure a) P := by
  intro σ b σ' hb
  cases hb
  exact h

theorem yields_throw (e : Fault) (P : α → Prop) : Yields (throw e : Run α) P := nofun

theorem yields_trivial (x : Run α) : Yields x fun _ => True := fun _ _ _ _ => trivial

theorem Yields.bind {x : Run α} {f : α → Run β} {P : α → Prop} {Q : β → Prop} (hx : Yields x P)
    (hf : ∀ a, P a → Yields (f a) Q) : Yields (x >>= f) Q := by
  intro σ b σ' h
  obtain ⟨a, σ₁, ha, hb⟩ := h.of_bind
  exact hf a (hx σ a σ₁ ha) σ₁ b σ' hb

/-- Of the first step nothing is needed. -/
theorem Yields.after {x : Run α} {f : α → Run β} {Q : β → Prop} (hf : ∀ a, Yields (f a) Q) :
    Yields (x >>= f) Q :=
  (yields_trivial x).bind fun a _ => hf a

theorem Yields.withSlots {x : Run α} {P : α → Prop} (h : Yields x P) : Yields (withSlots x) P := by
  intro σ a σ' hout
  refine h { σ with slots := [] } a (outcome x { σ with slots := [] }).2 ?_
  have hfst : (outcome x { σ with slots := [] }).1 = .ok a :=
    congrArg Prod.fst ((outcome_withSlots x σ).symm.trans hout)
  exact Prod.ext hfst rfl

/-- A frame with arguments and values in range. -/
structure Frame.InRange (fr : Frame) : Prop where
  args : ∀ x ∈ fr.args, x.InRange
  values : ∀ (i : Nat) (x : RtValue), (fr.values[i]?).join = some x → x.InRange

theorem Frame.InRange.set {fr : Frame} {x : RtValue} (h : fr.InRange) (id : InstId)
    (hx : x.InRange) : (fr.set id x).InRange := by
  refine ⟨h.args, fun i y hy => ?_⟩
  rw [Frame.set, Array.getElem?_setIfInBounds] at hy
  split at hy
  · split at hy
    · cases hy
      exact hx
    · cases hy
  · exact h.values i y hy

theorem Frame.inRange_start {xs : List RtValue} (h : ∀ x ∈ xs, x.InRange) (n : Nat) :
    Frame.InRange ⟨xs, Array.replicate n none⟩ := by
  refine ⟨h, fun i x hx => ?_⟩
  rw [Array.getElem?_replicate] at hx
  split at hx <;> cases hx

theorem Frame.InRange.foldl {resolved : List (InstId × RtValue)} {fr : Frame} (h : fr.InRange)
    (hr : ∀ p ∈ resolved, p.2.InRange) :
    (resolved.foldl (fun fr (id, v) => fr.set id v) fr).InRange := by
  induction resolved generalizing fr with
  | nil => exact h
  | cons p resolved ih =>
    obtain ⟨hp, hr⟩ := List.forall_mem_cons.mp hr
    exact ih (h.set p.1 hp) hr

section

variable {fr : Frame} (h : fr.InRange)
include h

theorem inRange_operand (v : Value) : Yields (operand fr v) RtValue.InRange := by
  cases v with
  | const a => exact .after fun s => yields_pure (inRange_constantValue _ a)
  | inst id =>
    unfold operand
    dsimp only
    split
    · rename_i x hx
      exact yields_pure (h.values _ _ hx)
    · exact yields_throw _ _
  | param i =>
    unfold operand
    dsimp only
    split
    · rename_i x hx
      exact yields_pure (h.args _ (List.mem_of_getElem? hx))
    · exact yields_throw _ _
  | global g => exact .after fun s => yields_pure trivial

theorem inRange_operands (vs : List Value) :
    Yields (vs.mapM (operand fr)) fun xs => ∀ x ∈ xs, x.InRange := by
  induction vs with
  | nil => exact yields_pure fun x hx => absurd hx List.not_mem_nil
  | cons v vs ih =>
    rw [List.mapM_cons]
    exact (inRange_operand h v).bind fun x hx => ih.bind fun xs hxs =>
      yields_pure (List.forall_mem_cons.mpr ⟨hx, hxs⟩)

end

/-! ### Values of instructions -/

section

variable {m : Module} {call : FuncId → List RtValue → Run RtValue} {f : FuncId} {fr : Frame}

omit fr in
theorem inRange_moved (base : Nat) (offset : Int) :
    Yields (if base = 0 then return .ptr 0 else
      match moved? base offset with
      | some p => return .ptr p
      | none => throw (.outOfBounds base 0)) RtValue.InRange := by
  split
  · exact yields_pure trivial
  · split
    · exact yields_pure trivial
    · exact yields_throw _ _

theorem inRange_address (base : Nat) (t : Ty) (indices : List Value) :
    Yields (address fr base t indices) RtValue.InRange := by
  unfold address
  cases indices with
  | nil => exact .after fun offset => inRange_moved base offset
  | cons v vs =>
    refine .after fun i => ?_
    dsimp only
    split
    · exact .after fun offset => inRange_moved base offset
    · exact .after fun offset => inRange_moved base offset

theorem inRange_extract (v : RtValue) (source target : Ty) (index : Nat) :
    Yields (extract v source target index) RtValue.InRange := by
  unfold extract
  split
  · exact yields_pure (inRange_decode _ _)
  · exact yields_throw _ _

theorem inRange_load (p : Nat) (t : Ty) :
    Yields (access fun memory => memory.load p t) RtValue.InRange := by
  refine .after fun s => ?_
  split
  · rename_i v hv
    obtain ⟨bs, -, rfl⟩ : ∃ bs, s.memory.read p t.size = .ok bs ∧ decode bs t = v := by
      simp only [Memory.load] at hv
      cases hread : s.memory.read p t.size with
      | error e =>
        rw [hread] at hv
        cases hv
      | ok bs =>
        rw [hread] at hv
        exact ⟨bs, rfl, Except.ok.inj hv⟩
    exact yields_pure (inRange_decode bs t)
  · exact yields_throw _ _

theorem inRange_builtin (name : String) (xs : List RtValue) :
    Yields (builtin name xs) RtValue.InRange := by
  unfold builtin
  split
  · exact .after fun p => yields_pure trivial
  · unfold reallocate
    refine .after fun fresh => ?_
    dsimp only
    split
    · exact .after fun _ => .after fun _ => .after fun _ => .after fun _ => .after fun _ =>
        yields_pure trivial
    · exact yields_pure trivial
  · exact .after fun _ => yields_pure trivial
  · exact .after fun _ => .after fun _ => yields_pure trivial
  · exact .after fun _ => .after fun _ => yields_pure fun _ => ⟨by norm_num, by norm_num⟩
  · exact yields_throw _ _

/-- An instruction gives a value in range when calls do. -/
theorem inRange_instruction (h : fr.InRange)
    (hcall : ∀ g xs, (∀ x ∈ xs, RtValue.InRange x) → Yields (call g xs) RtValue.InRange)
    (kind : InstKind) (t : Ty) : Yields (instruction m call f fr kind t) RtValue.InRange := by
  cases kind with
  | alloca slot => exact .after fun p => .after fun _ => yields_pure trivial
  | load ptr => exact .after fun p => inRange_load p t
  | store value ptr => exact .after fun _ => .after fun _ => .after fun _ => yields_pure trivial
  | gep ptr indices => exact .after fun base => inRange_address base _ indices
  | cast op value =>
    exact (inRange_operand h value).bind fun v hv => yields_pure (inRange_castValue hv _ t)
  | binary op lhs rhs =>
    refine .after fun a => .after fun b => ?_
    split
    · rename_i v hv
      exact yields_pure (inRange_binaryValue hv)
    · exact yields_throw _ _
  | not value => exact .after fun v => yields_pure (inRange_wrap _ _)
  | icmp pred lhs rhs => exact .after fun a => .after fun b => yields_pure (inRange_truth _)
  | fcmp pred lhs rhs => exact .after fun a => .after fun b => yields_pure (inRange_truth _)
  | select cond ifTrue ifFalse =>
    refine .after fun c => ?_
    split
    · exact inRange_operand h ifTrue
    · exact inRange_operand h ifFalse
  | phi incoming => exact yields_throw _ _
  | call callee args => exact (inRange_operands h args).bind fun xs hxs => hcall callee xs hxs
  | malloc elem => exact .after fun p => yields_pure trivial
  | arrayMalloc elem count =>
    refine .after fun n => ?_
    dsimp only
    split
    · exact .after fun p => yields_pure trivial
    · exact yields_throw _ _
  | extractValue aggregate index => exact .after fun v => inRange_extract v _ t index

theorem inRange_phiValues (h : fr.InRange) (fn : IR.Function) (source : Option BlockId)
    (ids : List InstId) :
    Yields (phiValues fn fr source ids) fun resolved => ∀ p ∈ resolved, p.2.InRange := by
  induction ids with
  | nil => exact yields_pure fun p hp => absurd hp List.not_mem_nil
  | cons id ids ih =>
    unfold phiValues
    split
    · split
      · exact yields_throw _ _
      · split
        · exact yields_throw _ _
        · exact (inRange_operand h _).bind fun x hx => ih.bind fun resolved hr =>
            yields_pure (List.forall_mem_cons.mpr ⟨hx, hr⟩)
    · exact ih

end

/-! ### The values of a call -/

/-- The values of what comes after a computation: none when it fails. -/
def onward (x : Run α) (next : α → State → List RtValue) (σ : State) : List RtValue :=
  match outcome x σ with
  | (.ok a, σ) => next a σ
  | (.error _, _) => []

section

variable (m : Module) (call : FuncId → List RtValue → Run RtValue)
  (calling : FuncId → List RtValue → State → List RtValue) (f : FuncId)

/-- The values that an instruction works with before it gives its own: its operands, and the values
of the call that it makes. -/
def instructionValues (fr : Frame) (kind : InstKind) (σ : State) : List RtValue :=
  kind.operands.filterMap (fr.value? σ.globals) ++
    match kind with
    | .call callee args => onward (args.mapM (operand fr)) (calling callee) σ
    | _ => []

/-- The values of the instructions of a block. -/
def instructionsValues (fn : IR.Function) (fr : Frame) : List InstId → State → List RtValue
  | [] => fun _ => []
  | id :: ids =>
    let inst := fn.inst id
    if inst.kind.isPhi then instructionsValues fn fr ids
    else onward tick fun _ σ =>
      instructionValues calling fr inst.kind σ ++
        onward (instruction m call f fr inst.kind inst.type)
          (fun v σ => v :: instructionsValues fn (fr.set id v) ids σ) σ

/-- The values of a block that was entered from `source`, without that of its terminator. -/
def blockValues (fr : Frame) (source : Option BlockId) (b : BlockId) : State → List RtValue :=
  let ids := ((m.function f).block b).insts.toList
  onward (phiValues (m.function f) fr source ids) fun resolved σ =>
    resolved.map Prod.snd ++ instructionsValues m call calling f (m.function f)
      (resolved.foldl (fun fr (id, v) => fr.set id v) fr) ids σ

/-- The values of at most `n` blocks of an activation. -/
def blocksValues : Nat → Frame → Option BlockId → BlockId → State → List RtValue
  | 0, _, _, _ => fun _ => []
  | n + 1, fr, source, b => fun σ =>
    blockValues m call calling f fr source b σ ++
      onward (block m call f fr source b) (fun
        | (_, .ret v) => fun _ => [v]
        | (fr, .goto next) => blocksValues n fr (some b) next) σ

end

/-- The values of a call, with at most `n` calls and blocks nested in each other. -/
def callValues (m : Module) : Nat → FuncId → List RtValue → State → List RtValue
  | 0, _, _ => fun _ => []
  | n + 1, f, xs =>
    let fn := m.function f
    if fn.isDeclaration then onward (builtin fn.name xs) fun v _ => [v]
    else fun σ =>
      blocksValues m (callWithin m n) (callValues m n) f (n + 1)
        ⟨xs, Array.replicate fn.insts.size none⟩ none ⟨0⟩ { σ with slots := [] }

/-! ### Runs in range -/

theorem forall_mem_onward {x : Run α} {next : α → State → List RtValue} {P : α → Prop}
    {Q : RtValue → Prop} (hx : Yields x P) (hnext : ∀ a, P a → ∀ σ, ∀ v ∈ next a σ, Q v) (σ : State) :
    ∀ v ∈ onward x next σ, Q v := by
  intro v hv
  unfold onward at hv
  obtain ⟨r, hr⟩ : ∃ r, outcome x σ = r := ⟨_, rfl⟩
  obtain ⟨e | a, σ'⟩ := r
  · rw [hr] at hv
    exact absurd hv List.not_mem_nil
  · rw [hr] at hv
    exact hnext a (hx σ a σ' hr) σ' v hv

theorem Frame.InRange.value? {fr : Frame} (h : fr.InRange) {globals : Array Nat} {v : Value}
    {x : RtValue} (hx : fr.value? globals v = some x) : x.InRange := by
  have hreturns : Returns (operand fr v) { globals } x { globals } := returns_operand hx
  exact inRange_operand h v _ _ _ hreturns

section

variable {m : Module} {call : FuncId → List RtValue → Run RtValue}
  {calling : FuncId → List RtValue → State → List RtValue} {f : FuncId} {fr : Frame}
  (hcall : ∀ g xs, (∀ x ∈ xs, RtValue.InRange x) → Yields (call g xs) RtValue.InRange)

include hcall in
theorem inRange_instructions (h : fr.InRange) (fn : IR.Function) (ids : List InstId) :
    Yields (instructions m call f fn fr ids) Frame.InRange := by
  induction ids generalizing fr with
  | nil => exact yields_pure h
  | cons id ids ih =>
    unfold instructions
    dsimp only
    split
    · exact ih h
    · exact .after fun _ => (inRange_instruction h hcall _ _).bind fun v hv => ih (h.set id hv)

/-- What a block is left with is in range. -/
def Exit.InRange : Frame × Exit → Prop
  | (_, .ret v) => v.InRange
  | (fr, .goto _) => fr.InRange

theorem inRange_terminator (h : fr.InRange) (fn : IR.Function) (b : IR.BasicBlock) :
    Yields (terminator fn b fr) fun exit => Exit.InRange (fr, exit) := by
  unfold terminator
  refine .after fun _ => ?_
  split
  · exact yields_pure h
  · exact .after fun c => yields_pure h
  · exact (inRange_operand h _).bind fun v hv => yields_pure hv
  · exact yields_pure trivial
  · exact yields_throw _ _
  · exact yields_throw _ _

include hcall

theorem inRange_block (h : fr.InRange) (source : Option BlockId) (b : BlockId) :
    Yields (block m call f fr source b) Exit.InRange := by
  unfold block
  refine (inRange_phiValues h _ source _).bind fun resolved hr => ?_
  refine (inRange_instructions hcall (h.foldl hr) _ _).bind fun fr' h' => ?_
  exact (inRange_terminator h' _ _).bind fun exit he => yields_pure he

theorem inRange_blocks (n : Nat) (h : fr.InRange) (source : Option BlockId) (b : BlockId) :
    Yields (blocks m call f n fr source b) RtValue.InRange := by
  induction n generalizing fr source b with
  | zero => exact .after fun s => yields_throw _ _
  | succ n ih =>
    refine (inRange_block hcall h source b).bind fun p hp => ?_
    obtain ⟨fr', exit⟩ := p
    cases exit with
    | ret v => exact yields_pure hp
    | goto next => exact ih hp _ _

variable (hcalling : ∀ g xs, (∀ x ∈ xs, RtValue.InRange x) → ∀ σ, ∀ v ∈ calling g xs σ, v.InRange)
include hcalling

omit hcall in
theorem inRange_instructionValues (h : fr.InRange) (kind : InstKind) (σ : State) :
    ∀ v ∈ instructionValues calling fr kind σ, v.InRange := by
  refine List.forall_mem_append.mpr ⟨fun x hx => ?_, ?_⟩
  · obtain ⟨v, -, hv⟩ := List.mem_filterMap.mp hx
    exact h.value? hv
  · cases kind with
    | call callee args => exact forall_mem_onward (inRange_operands h args) (hcalling callee) σ
    | _ => exact fun v hv => absurd hv List.not_mem_nil

theorem inRange_instructionsValues (h : fr.InRange) (fn : IR.Function) (ids : List InstId)
    (σ : State) : ∀ v ∈ instructionsValues m call calling f fn fr ids σ, v.InRange := by
  induction ids generalizing fr σ with
  | nil => exact fun v hv => absurd hv List.not_mem_nil
  | cons id ids ih =>
    unfold instructionsValues
    dsimp only
    split
    · exact ih h σ
    · refine forall_mem_onward (yields_trivial tick) (fun _ _ σ => ?_) σ
      refine List.forall_mem_append.mpr ⟨inRange_instructionValues hcalling h _ σ, ?_⟩
      refine forall_mem_onward (inRange_instruction h hcall _ _) (fun v hv σ => ?_) σ
      exact List.forall_mem_cons.mpr ⟨hv, ih (h.set id hv) σ⟩

theorem inRange_blockValues (h : fr.InRange) (source : Option BlockId) (b : BlockId) (σ : State) :
    ∀ v ∈ blockValues m call calling f fr source b σ, v.InRange := by
  refine forall_mem_onward (inRange_phiValues h _ source _) (fun resolved hr σ => ?_) σ
  refine List.forall_mem_append.mpr ⟨List.forall_mem_map.mpr hr, ?_⟩
  exact inRange_instructionsValues hcall hcalling (h.foldl hr) _ _ σ

theorem inRange_blocksValues (n : Nat) (h : fr.InRange) (source : Option BlockId) (b : BlockId)
    (σ : State) : ∀ v ∈ blocksValues m call calling f n fr source b σ, v.InRange := by
  induction n generalizing fr source b σ with
  | zero => exact fun v hv => absurd hv List.not_mem_nil
  | succ n ih =>
    refine List.forall_mem_append.mpr ⟨inRange_blockValues hcall hcalling h source b σ, ?_⟩
    refine forall_mem_onward (inRange_block hcall h source b) (fun p hp σ => ?_) σ
    obtain ⟨fr', exit⟩ := p
    cases exit with
    | ret v => exact List.forall_mem_singleton.mpr hp
    | goto next => exact ih hp _ _ σ

end

variable {m : Module} {f : FuncId} {xs : List RtValue}

/-- A call with arguments in range gives a value in range. -/
theorem inRange_callWithin (n : Nat) (h : ∀ x ∈ xs, x.InRange) :
    Yields (callWithin m n f xs) RtValue.InRange := by
  induction n generalizing f xs with
  | zero => exact .after fun s => yields_throw _ _
  | succ n ih =>
    unfold callWithin
    dsimp only
    split
    · exact inRange_builtin _ _
    · exact Yields.withSlots (inRange_blocks (fun g ys hys => ih hys) (n + 1)
        (Frame.inRange_start h _) none ⟨0⟩)

/-- In a call with arguments in range every value that is worked with is in range. -/
theorem inRange_callValues (n : Nat) (h : ∀ x ∈ xs, x.InRange) (σ : State) :
    ∀ v ∈ callValues m n f xs σ, v.InRange := by
  induction n generalizing f xs σ with
  | zero => exact fun v hv => absurd hv List.not_mem_nil
  | succ n ih =>
    unfold callValues
    dsimp only
    split
    · exact forall_mem_onward (inRange_builtin _ _) (fun v hv _ => List.forall_mem_singleton.mpr hv) σ
    · exact inRange_blocksValues (fun g ys hys => inRange_callWithin n hys) (fun g ys hys => ih hys)
        (n + 1) (Frame.inRange_start h _) none ⟨0⟩ _

end Run

end Lowering.Exec
