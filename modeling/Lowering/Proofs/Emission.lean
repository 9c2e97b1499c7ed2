import Lowering.Proofs.Adding
import Lowering.Proofs.Execution
import Lowering.Proofs.Invariant

/-!
# Running code as it is emitted

A run can be followed while the code is emitted that it goes through.  A spot is a place in the
emission together with the frame and the state of a run that has come there; a step of generation
leads from spot to spot, and operands keep the values that they have at a spot.

* `Gen.Setting`, `Gen.Spot`, `Gen.Spot.Open`: the code in which a run is, and how far it has come;
* `Gen.Spot.Runs`, `Gen.Spot.Keeps`: what was emitted between two spots leads from one to the other;
  what a run keeps of one, also in another block;
* `Gen.Spot.Holds`: an operand has a type and a value, which it keeps;
* `Gen.Performs`: steps of generation, with their rules;
* `Gen.Spot.start`, `Gen.exists_run`: runs of what is emitted from its beginning;
* `Gen.performs_push` and the rules for instructions.
-/

namespace Lowering.Gen

open IR (Ty Constant Value FuncId BlockId GlobalId InstId InstKind Inst Build Module)
open Exec (RtValue)
open Exec.Run (Frame)

variable {α β : Type} {c : Context} {s s₁ s' : State}

/-! ### Spots -/

/-- The module that is run, what its calls do, and the function and the block in which code is
emitted. -/
structure Setting where
  module : Module
  call : FuncId → List RtValue → Exec.Run RtValue
  func : FuncId
  block : BlockId

/-- A place in the emission of code, with the frame and the state of a run that has come there. -/
structure Spot where
  gen : State
  frame : Frame
  run : Exec.State

namespace Spot

variable {w : Setting} {k k₁ k₂ k' : Spot}

/-- More can be emitted in the block and be run: the block is open, and the run has steps left for
all of the block. -/
structure Open (w : Setting) (k : Spot) : Prop where
  position : k.gen.builder.position = some (w.func, w.block)
  inside : k.gen.Has w.func w.block
  isOpen : (k.gen.block w.func w.block).term = none
  under : k.gen.builder.module.Grows w.module
  size : k.frame.values.size = (w.module.function w.func).insts.size
  fuel : k.run.steps + ((w.module.function w.func).block w.block).insts.size ≤
    k.run.stepLimit + (k.gen.block w.func w.block).insts.size

/-- What was emitted in the block between two spots leads from one to the other. -/
structure Runs (w : Setting) (k k' : Spot) : Prop where
  grows : k.gen.builder.module.Grows k'.gen.builder.module
  code : ∃ ids, (k'.gen.block w.func w.block).insts.toList =
      (k.gen.block w.func w.block).insts.toList ++ ids ∧
    Exec.Run.Returns (Exec.Run.instructions w.module w.call w.func (w.module.function w.func)
      k.frame ids) k.run k'.frame k'.run
  agrees : k.frame.Agrees (k.gen.func w.func).insts.size k'.frame
  globals : k'.run.globals = k.run.globals

/-- What a run keeps between two spots of a function. -/
structure Keeps (w : Setting) (k k' : Spot) : Prop where
  grows : k.gen.builder.module.Grows k'.gen.builder.module
  agrees : k.frame.Agrees (k.gen.func w.func).insts.size k'.frame
  globals : k'.run.globals = k.run.globals

theorem Runs.keeps (h : k.Runs w k') : k.Keeps w k' := ⟨h.grows, h.agrees, h.globals⟩

theorem Runs.refl (w : Setting) (k : Spot) : k.Runs w k :=
  ⟨.refl _, ⟨[], (List.append_nil _).symm, rfl⟩, .refl _ _, rfl⟩

theorem Open.index_lt (h : k.Open w) : w.func.index < k.gen.builder.module.functions.size :=
  index_lt_of_hasBlock h.inside

theorem Runs.trans (h₁ : k.Runs w k₁) (h₂ : k₁.Runs w k₂) (ho : k.Open w) : k.Runs w k₂ := by
  obtain ⟨ids, he, hr⟩ := h₁.code
  obtain ⟨ids', he', hr'⟩ := h₂.code
  refine ⟨h₁.grows.trans h₂.grows, ⟨ids ++ ids', ?_, ?_⟩, ?_, h₂.globals.trans h₁.globals⟩
  · rw [he', he, List.append_assoc]
  · rw [Exec.Run.instructions_append]
    exact hr.bind hr'
  · exact h₁.agrees.trans h₂.agrees (h₁.grows.function w.func ho.index_lt).insts_size

/-! ### Operands -/

/-- An operand that stands for the same later on. -/
def Knows (w : Setting) (k : Spot) : Value → Prop
  | .inst id => id.index < (k.gen.func w.func).insts.size
  | .global g => g.index < k.gen.builder.module.globals.size
  | _ => True

/-- An operand has a type and a value. -/
structure Holds (w : Setting) (k : Spot) (v : Value) (t : Ty) (x : RtValue) : Prop where
  known : k.Knows w v
  type : k.gen.builder.typeOf v = t
  value : k.frame.value? k.run.globals v = some x

variable {v : Value} {t : Ty} {x : RtValue}

theorem typeOf_eq (hp : k.gen.builder.position = some (w.func, w.block)) (v : Value) :
    k.gen.builder.typeOf v = k.gen.builder.module.typeOf w.func v := by
  cases v <;> simp [IR.Builder.typeOf, Module.typeOf, hp]

/-- An operand has the same type in a later module. -/
theorem Knows.typeOf (h : k.Knows w v) (ho : k.Open w) {m : Module}
    (hm : k.gen.builder.module.Grows m) :
    m.typeOf w.func v = k.gen.builder.module.typeOf w.func v := by
  have hf := hm.function w.func ho.index_lt
  cases v with
  | const c => rfl
  | inst id =>
    show ((m.function w.func).inst id).type = _
    rw [hf.inst_eq h]
    rfl
  | param i =>
    show (((m.function w.func).params[i]?).map _).getD _ = _
    rw [hf.params]
    rfl
  | global g => exact congrArg Ty.ptr (hm.types g h)

theorem Holds.typeOf (h : k.Holds w v t x) (ho : k.Open w) : w.module.typeOf w.func v = t := by
  rw [h.known.typeOf ho ho.under, ← typeOf_eq ho.position, h.type]

theorem Knows.keeps (h : k.Knows w v) (ho : k.Open w) (hk : k.Keeps w k') : k'.Knows w v := by
  cases v with
  | inst id =>
    exact Nat.lt_of_lt_of_le h (hk.grows.function w.func ho.index_lt).insts_size
  | global g => exact Nat.lt_of_lt_of_le h hk.grows.globals
  | _ => trivial

/-- What an operand holds it holds wherever the run comes in the function. -/
theorem Holds.keeps {b : BlockId} (h : k.Holds w v t x) (ho : k.Open w) (hk : k.Keeps w k')
    (hp : k'.gen.builder.position = some (w.func, b)) : k'.Holds { w with block := b } v t x := by
  refine ⟨?_, ?_, ?_⟩
  · have hknown := h.known.keeps ho hk
    cases v <;> exact hknown
  · rw [typeOf_eq (w := { w with block := b }) hp, h.known.typeOf ho hk.grows,
      ← typeOf_eq ho.position, h.type]
  · rw [hk.globals, hk.agrees.value? (v := v) ?_, h.value]
    have hk := h.known
    cases v with
    | inst id => exact hk
    | _ => trivial

/-- What an operand holds it holds later on. -/
theorem Holds.along (h : k.Holds w v t x) (ho : k.Open w) (hr : k.Runs w k') (ho' : k'.Open w) :
    k'.Holds w v t x :=
  h.keeps ho hr.keeps ho'.position

end Spot

/-! ### Steps of generation -/

/-- When a step of generation gives a value, what it emitted leads to a spot of which something
holds. -/
def Performs (w : Setting) (c : Context) (k : Spot) (x : Gen α) (post : Spot → α → Prop) : Prop :=
  k.Open w → ∀ a s', Gives x c k.gen a s' → s'.builder.module.Grows w.module →
    ∃ k' : Spot, k'.gen = s' ∧ k.Runs w k' ∧ k'.Open w ∧ post k' a

namespace Performs

variable {w : Setting} {k : Spot} {x y : Gen α} {f : α → Gen β} {P P' : Spot → α → Prop}
  {Q : Spot → β → Prop}

theorem pure {a : α} (h : P k a) : Performs w c k (pure a) P := by
  intro ho b s' hg _
  obtain ⟨rfl, rfl⟩ := gives_pure.mp hg
  exact ⟨k, rfl, .refl w k, ho, h⟩

theorem fail {cause : Cause} : Performs w c k (Gen.fail cause) P :=
  fun _ _ _ hg => absurd hg not_gives_fail

theorem bind (hf : ∀ a, Grow (f a)) (hx : Performs w c k x P)
    (h : ∀ k₁ a, k.Runs w k₁ → k₁.Open w → P k₁ a → Performs w c k₁ (f a) Q) :
    Performs w c k (x >>= f) Q := by
  intro ho b s' hg hm
  obtain ⟨a, s₁, h₁, h₂⟩ := gives_bind.mp hg
  obtain ⟨k₁, rfl, hr₁, ho₁, hp⟩ := hx ho a s₁ h₁ ((hf a c s₁ b s' h₂).trans hm)
  obtain ⟨k₂, rfl, hr₂, ho₂, hq⟩ := h k₁ a hr₁ ho₁ hp ho₁ b s' h₂ hm
  exact ⟨k₂, rfl, hr₁.trans hr₂ ho, ho₂, hq⟩

/-- A question leaves the state as it is. -/
theorem ask {a : α} (hx : Gives x c k.gen a k.gen) (hf : Performs w c k (f a) Q) :
    Performs w c k (x >>= f) Q :=
  fun ho b s' hg => hf ho b s' (gives_after hx hg)

theorem mono (hx : Performs w c k x P) (h : ∀ k' a, k.Runs w k' → k'.Open w → P k' a → P' k' a) :
    Performs w c k x P' := by
  intro ho a s' hg hm
  obtain ⟨k', he, hr, ho', hp⟩ := hx ho a s' hg hm
  exact ⟨k', he, hr, ho', h k' a hr ho' hp⟩

theorem congr (h : @Eq (Except Failure α × State) (x c k.gen) (y c k.gen))
    (hy : Performs w c k y P) : Performs w c k x P :=
  fun ho a s' hg => hy ho a s' (h.symm.trans hg)

/-- A step may rely on where it begins. -/
theorem assume (h : k.Open w → Performs w c k x P) : Performs w c k x P := fun ho => h ho ho

theorem build_congr {b : Build α} (b' : Build α)
    (h : @Eq (α × IR.Builder) (b k.gen.builder) (b' k.gen.builder))
    (hb : Performs w c k (emit b') P) : Performs w c k (emit b) P := by
  intro ho a s' hg
  obtain ⟨rfl, rfl⟩ := gives_emit hg
  rw [h]
  exact hb ho _ _ rfl

end Performs

/-! ### Runs from the beginning -/

/-- A run that has come to a place in a function, with arguments and memory, and with steps left for
all of a block. -/
def Spot.start (w : Setting) (s : State) (args : List RtValue) (memory : Exec.Memory) : Spot where
  gen := s
  frame := ⟨args, Array.replicate (w.module.function w.func).insts.size none⟩
  run := { memory, stepLimit := ((w.module.function w.func).block w.block).insts.size }

section

variable {w : Setting} {f : FuncId} {b : BlockId} {args : List RtValue} {memory : Exec.Memory}
  {x : Gen α}

theorem Spot.open_start (hpos : s.builder.position = some (w.func, w.block))
    (hin : s.Has w.func w.block) (hterm : (s.block w.func w.block).term = none)
    (hm : s.builder.module.Grows w.module) : (Spot.start w s args memory).Open w := by
  refine ⟨hpos, hin, hterm, hm, by simp [start], ?_⟩
  show 0 + _ ≤ ((w.module.function w.func).block w.block).insts.size + _
  omega

theorem exists_gives (h : (match (x c s).1 with
    | .ok _ => true
    | .error _ => false) = true) : ∃ a s', Gives x c s a s' := by
  split at h
  · rename_i a ha
    exact ⟨a, (x c s).2, Prod.ext ha rfl⟩
  · cases h

theorem exists_gives_and {p : α → State → Bool} (h : (match x c s with
    | (.ok a, s') => p a s'
    | (.error _, _) => false) = true) : ∃ a s', Gives x c s a s' ∧ p a s' = true := by
  split at h
  · rename_i a s' hx
    exact ⟨a, s', hx, h⟩
  · cases h

/-- What is emitted can be run: in the module that it is emitted in, from where it begins. -/
theorem exists_run {post : Setting → Spot → α → Prop} (hx : Grow x)
    (hpos : s.builder.position = some (f, b)) (hin : s.Has f b) (hterm : (s.block f b).term = none) (hg : ∃ a s', Gives x c s a s')
    (h : ∀ w, Performs w c (Spot.start w s args memory) x (post w)) :
    ∃ w k a, Gives x c s a k.gen ∧ (Spot.start w s args memory).Open w ∧
      (Spot.start w s args memory).Runs w k ∧ post w k a := by
  obtain ⟨a, s', hg⟩ := hg
  let w : Setting := ⟨s'.builder.module, fun _ _ => throw .nullDereference, f, b⟩
  have ho : (Spot.start w s args memory).Open w := Spot.open_start hpos hin hterm (hx c s a s' hg)
  obtain ⟨k, rfl, hr, -, hp⟩ := h w ho a s' hg (.refl _)
  exact ⟨w, k, a, hg, ho, hr, hp⟩

end

/-! ### Instructions -/

section

variable {w : Setting} {k : Spot} {kind : InstKind} {t : Ty} {name : Option String} {x : RtValue}
  {σ : Exec.State}

/-- The instruction that is placed next, in a later module. -/
theorem Spot.Open.next (h : k.Open w) {inst : Inst}
    (hm : (k.gen.builder.module.modifyFunction w.func (Build.placed w.block inst)).Grows w.module) :
    (w.module.function w.func).inst ⟨(k.gen.func w.func).insts.size⟩ = inst ∧
      (k.gen.func w.func).insts.size < (w.module.function w.func).insts.size ∧
      (k.gen.block w.func w.block).insts.size <
        ((w.module.function w.func).block w.block).insts.size := by
  have hf := hm.function w.func (by simpa using h.index_lt)
  have hf : (Build.placed w.block inst (k.gen.func w.func)).Grows (w.module.function w.func) := by
    rwa [Module.function_modifyFunction_self h.index_lt] at hf
  have hinst := hf.insts_size
  have hblock := (hf.block w.block (Build.hasBlock_placed.mpr h.inside)).insts.length_le
  rw [Build.block_placed_self h.inside] at hblock
  rw [Build.insts_placed, Array.size_push] at hinst
  refine ⟨?_, hinst, ?_⟩
  · rw [hf.inst_eq (by simp), IR.Function.inst_placed_new]
  · rw [Array.length_toList, Array.length_toList, Array.size_push] at hblock
    exact hblock

/-- An instruction that is no phi is placed and run. -/
theorem performs_push (hphi : kind.isPhi = false)
    (hx : Exec.Run.Returns (Exec.Run.instruction w.module w.call w.func k.frame kind t)
      k.run.ticked x σ) (hg : σ.globals = k.run.globals) (hs : σ.steps = k.run.steps + 1)
    (hl : σ.stepLimit = k.run.stepLimit) :
    Performs w c k (emit (Build.push kind t name)) fun k' v =>
      (∃ id, v = .inst id) ∧ k'.Holds w v t x ∧ k'.run = σ := by
  intro ho v s' hgives hm
  obtain ⟨rfl, rfl⟩ := gives_emit hgives
  have hterm : k.gen.builder.blockTerminated w.func w.block = false := by
    have := ho.isOpen
    simp_all [IR.Builder.blockTerminated, State.block, State.func]
  have hpush : @Eq (Value × IR.Builder) (Build.push kind t name k.gen.builder) _ :=
    (Build.push_at ho.position).trans (pushInto_open hterm)
  rw [hpush] at hm ⊢
  let inst : Inst := ⟨kind, t, name, k.gen.builder.location⟩
  let id : InstId := ⟨(k.gen.func w.func).insts.size⟩
  let m : Module := k.gen.builder.module.modifyFunction w.func (Build.placed w.block inst)
  obtain ⟨hinst, hlt, hblock⟩ := ho.next hm
  have hself : m.function w.func = Build.placed w.block inst (k.gen.func w.func) :=
    Module.function_modifyFunction_self ho.index_lt
  have hplaced : (m.function w.func).block w.block = { k.gen.block w.func w.block with
      insts := (k.gen.block w.func w.block).insts.push id } := by
    rw [hself]
    exact Build.block_placed_self ho.inside
  have hfuel := ho.fuel
  let k' : Spot := ⟨k.gen.withModule m, k.frame.set id x, σ⟩
  have hp : k'.gen.builder.position = some (w.func, w.block) := ho.position
  refine ⟨k', rfl, ⟨?_, ⟨[id], ?_, ?_⟩, ?_, hg⟩, ?_, ⟨id, rfl⟩, ⟨?_, ?_, ?_⟩, rfl⟩
  · exact .modifyFunction fun _ => .placed ho.isOpen
  · show ((m.function w.func).block w.block).insts.toList = _
    rw [hplaced, Array.toList_push]
  · refine Exec.Run.returns_instructions_cons (by rw [hinst]; exact hphi) (by omega) ?_ rfl
    rw [hinst]
    exact hx
  · exact Frame.agrees_set le_rfl
  · refine ⟨hp, ?_, ?_, hm, ?_, ?_⟩
    · show (m.function w.func).HasBlock w.block
      rw [hself]
      exact Build.hasBlock_placed.mpr ho.inside
    · show ((m.function w.func).block w.block).term = none
      rw [hplaced]
      exact ho.isOpen
    · exact Array.size_setIfInBounds.trans ho.size
    · show σ.steps + _ ≤ σ.stepLimit + ((m.function w.func).block w.block).insts.size
      rw [hplaced, Array.size_push]
      omega
  · show id.index < (m.function w.func).insts.size
    rw [hself, Build.insts_placed, Array.size_push]
    exact Nat.lt_succ_self _
  · refine (Spot.typeOf_eq hp (.inst id)).trans ?_
    show ((m.function w.func).inst id).type = t
    rw [hself, IR.Function.inst_placed_new]
  · exact Frame.value?_set_self (ho.size ▸ hlt)

end

/-! ### Instructions that leave memory alone -/

/-- A constant operand that is no number beyond its width. -/
def Exact (v : Value) : Prop := ∀ bits i, v = .int bits i → Exec.wrap bits i = i

/-- The value of a truth. -/
def bit (b : Bool) : RtValue := .int 1 (if b then 1 else 0)

/-- A step gave an operand and left memory alone. -/
structure Spot.Gets (w : Setting) (k : Spot) (t : Ty) (x : RtValue) (k' : Spot) (v : Value) :
    Prop where
  holds : k'.Holds w v t x
  exact : Exact v
  memory : k'.run.memory = k.run.memory

theorem Spot.holds_const {w : Setting} {k : Spot} (a : Constant) :
    k.Holds w (.const a) a.type (Exec.constantValue k.run.globals a) :=
  ⟨trivial, rfl, rfl⟩

theorem Spot.holds_i1 {w : Setting} {k : Spot} (b : Bool) : k.Holds w (.i1 b) .i1 (bit b) := by
  cases b <;> exact Spot.holds_const _

theorem exact_i1 (b : Bool) : Exact (.i1 b) := by
  intro bits i h
  cases h
  cases b <;> rfl

theorem exact_inst (id : InstId) : Exact (.inst id) := fun _ _ h => by cases h

theorem Spot.Gets.after {w : Setting} {k k₁ k' : Spot} {t : Ty} {x : RtValue} {v : Value}
    (h : k₁.Gets w t x k' v) (hm : k₁.run.memory = k.run.memory) : k.Gets w t x k' v :=
  ⟨h.holds, h.exact, h.memory.trans hm⟩

theorem Spot.Holds.exact_of_ptr {w : Setting} {k : Spot} {v : Value} {t : Ty} {x : RtValue}
    (h : k.Holds w v (.ptr t) x) : Exact v := by
  rintro bits i rfl
  exact absurd h.type (by simp [IR.Builder.typeOf, Value.int, Constant.type])

section

variable {w : Setting} {k : Spot} {v u p : Value} {t t' : Ty} {name : Option String}
  {x y : RtValue} {a : Nat} {i j : Int}

theorem performs_pushQuiet {kind : InstKind} (hphi : kind.isPhi = false)
    (hx : Exec.Run.Returns (Exec.Run.instruction w.module w.call w.func k.frame kind t)
      k.run.ticked x k.run.ticked) :
    Performs w c k (emit (Build.push kind t name)) fun k' v =>
      k.Gets w t x k' v ∧ ∃ id, v = .inst id := by
  refine (performs_push hphi hx rfl rfl rfl).mono fun k' v _ _ ⟨⟨id, hid⟩, hv, hrun⟩ => ?_
  exact ⟨⟨hv, hid ▸ exact_inst id, by rw [hrun]; rfl⟩, id, hid⟩

/-- An instruction that leaves memory alone. -/
theorem performs_quiet {kind : InstKind} (hphi : kind.isPhi = false)
    (hx : Exec.Run.Returns (Exec.Run.instruction w.module w.call w.func k.frame kind t)
      k.run.ticked x k.run.ticked) :
    Performs w c k (emit (Build.push kind t name)) (k.Gets w t x) :=
  (performs_pushQuiet hphi hx).mono fun _ _ _ _ h => h.1

theorem performs_load (hp : k.Holds w p (.ptr t) (.ptr a)) (hr : k.run.memory.Room a t.size) :
    Performs w c k (emit (Build.load p name)) fun k' v =>
      k.Gets w t (Exec.decode (k.run.memory.bytes a t.size) t) k' v ∧ ∃ id, v = .inst id := by
  refine .build_congr (Build.push (.load p) t name) ?_ ?_
  · show Build.push (.load p) ((k.gen.builder.typeOf p).pointee?.getD .void) name _ = _
    rw [hp.type]
    rfl
  · exact performs_pushQuiet rfl (Exec.Run.returns_load (σ := k.run.ticked) hp.value hr)

theorem performs_store (hv : k.Holds w v t x) (hp : k.Holds w p t' (.ptr a))
    (hr : k.run.memory.Room a t.size) :
    Performs w c k (emit (Build.store v p)) fun k' _ =>
      k'.run.memory = k.run.memory.put (Exec.encode x t) (Exec.Memory.place a) := by
  intro ho a s' hgives hm
  obtain ⟨-, rfl⟩ := gives_emit hgives
  have hstore : Exec.Run.Returns
      (Exec.Run.instruction w.module w.call w.func k.frame (.store v p) .void) k.run.ticked .void _ :=
    Exec.Run.returns_store hp.value hv.value (by rwa [hv.typeOf ho])
  rw [hv.typeOf ho] at hstore
  obtain ⟨k', he, hr, ho', -, -, hrun⟩ :=
    performs_push (c := c) rfl hstore rfl rfl rfl ho _ _ rfl hm
  refine ⟨k', he, hr, ho', ?_⟩
  show k'.run.memory = _
  rw [hrun]
  rfl

theorem performs_structGep {fields : List Ty} {n : Nat} (index : Nat)
    (hp : k.Holds w p (.ptr (.struct fields)) (.ptr a)) (hi : fields[index]? = some t)
    (hr : k.run.memory.Room a n) (hn : (Ty.struct fields).fieldOffset index < n)
    (hindex : index < 2 ^ 31) :
    Performs w c k (emit (Build.structGep p index))
      (k.Gets w (.ptr t) (.ptr (a + (Ty.struct fields).fieldOffset index))) := by
  refine .assume fun ho =>
    .build_congr (Build.push (.gep p [.i32 0, .i32 index]) (.ptr t)) ?_ ?_
  · show Build.push _ (((([.i32 index] : List Value).foldl Build.stepType
      (k.gen.builder.typeOf p).pointee?).map Ty.ptr).getD .void) none _ = _
    rw [hp.type]
    have hstep : Build.stepType (some (.struct fields)) (.i32 index) = some t := by
      simpa [Build.stepType, Value.i32, Value.int, Value.constInt?] using hi
    simp only [Ty.pointee?, List.foldl_cons, List.foldl_nil, hstep, Option.map_some,
      Option.getD_some]
  · refine performs_quiet rfl ?_
    have hrange := hr.2.1
    exact Exec.Run.returns_field (σ := k.run.ticked) (hp.typeOf ho) hp.value hr.ne_zero (by omega)
      hindex

/-- A step that is folded to an operand, or else places an instruction. -/
theorem performs_folded {b : Build Value} (kind : InstKind) (folded : Option Value)
    (h : @Eq (Value × IR.Builder) (b k.gen.builder) ((match folded with
      | some v => pure v
      | none => Build.push kind t : Build Value) k.gen.builder))
    (hfold : ∀ v, folded = some v → k.Holds w v t x ∧ Exact v)
    (hplace : folded = none → Performs w c k (emit (Build.push kind t)) (k.Gets w t x)) :
    Performs w c k (emit b) (k.Gets w t x) := by
  refine .build_congr _ h ?_
  cases folded with
  | none => exact hplace rfl
  | some v =>
    obtain ⟨hv, he⟩ := hfold v rfl
    refine .congr (y := pure v) rfl (.pure ⟨hv, he, rfl⟩)

theorem Spot.Holds.foldCast (hv : k.Holds w v (.ptr t) (.ptr a))
    (h : Build.foldCast .bitcast v (.ptr t) (.ptr t') = some u) :
    k.Holds w u (.ptr t') (.ptr a) := by
  unfold Build.foldCast at h
  dsimp only at h
  split at h
  · rename_i he
    rw [← Option.some.inj h, ← he]
    exact hv
  · split at h
    · rename_i t₀
      rw [← Option.some.inj h]
      have hval := hv.value
      have ht : t₀ = .ptr t := hv.type
      subst ht
      cases hval
      exact Spot.holds_const (.null (.ptr t'))
    · rename_i g t₀
      rw [← Option.some.inj h]
      have hval := hv.value
      cases hval
      exact Spot.holds_const (.globalAddr g (.ptr t'))
    · rename_i g
      rw [← Option.some.inj h]
      have hval := hv.value
      cases hval
      exact Spot.holds_const (.globalAddr g (.ptr t'))
    · cases h

theorem performs_bitcast (hv : k.Holds w v (.ptr t) (.ptr a)) :
    Performs w c k (emit (Build.bitcast v (.ptr t'))) (k.Gets w (.ptr t') (.ptr a)) := by
  refine performs_folded (.cast .bitcast v)
    (Build.foldCast .bitcast v (.ptr t) (.ptr t')) ?_ (fun u hu => ?_) fun _ => ?_
  · show (match Build.foldCast .bitcast v (k.gen.builder.typeOf v) (.ptr t') with
      | some u => pure u | none => Build.push _ _ : Build Value) _ = _
    rw [hv.type]
  · have hu := hv.foldCast hu
    exact ⟨hu, hu.exact_of_ptr⟩
  · exact performs_quiet rfl (Exec.Run.returns_bitcast (σ := k.run.ticked) hv.value)

theorem foldCast_ptrToInt {s t : Ty} (h : Build.foldCast .ptrToInt v s t = some u) :
    (∃ t₀, v = .const (.null t₀)) ∧ u = .int (t.bits?.getD 64) 0 := by
  unfold Build.foldCast at h
  split at h <;> simp_all

theorem performs_ptrToInt (hv : k.Holds w v (.ptr t) (.ptr a)) :
    Performs w c k (emit (Build.ptrToInt v .i64))
      (k.Gets w .i64 (.int 64 (Exec.wrap 64 (Exec.ofWord a)))) := by
  refine performs_folded (.cast .ptrToInt v)
    (Build.foldCast .ptrToInt v (k.gen.builder.typeOf v) .i64) rfl (fun u hu => ?_)
    fun _ => ?_
  · obtain ⟨⟨t₀, rfl⟩, rfl⟩ := foldCast_ptrToInt hu
    have ht : t₀ = .ptr t := hv.type
    have hval := hv.value
    subst ht
    cases hval
    exact ⟨Spot.holds_const (.int 64 0), fun bits i h => by cases h; rfl⟩
  · exact performs_quiet rfl (Exec.Run.returns_ptrToInt (σ := k.run.ticked) hv.value)

/-- The number that a constant operand stands for is its value. -/
theorem Spot.Holds.constInt {bits : Nat} (hv : k.Holds w v t (.int bits i)) (he : Exact v)
    (h : v.constInt? = some j) : j = i := by
  have hval := hv.value
  unfold Value.constInt? at h
  split at h
  · cases h
    cases hval
    exact (he _ _ rfl).symm
  · cases h
    cases hval
    rfl
  · cases h

theorem performs_icmp {pred : IR.IntPredicate} {bits bits' : Nat}
    (hv : k.Holds w v t (.int bits i)) (hu : k.Holds w u t' (.int bits' j))
    (hfold : ∀ m n, v.constInt? = some m → u.constInt? = some n → pred.holds m n = pred.holds i j) :
    Performs w c k (emit (Build.icmp pred v u)) (k.Gets w .i1 (bit (pred.holds i j))) := by
  refine performs_folded (.icmp pred v u)
    (v.constInt?.bind fun m => u.constInt?.map fun n => .i1 (pred.holds m n)) ?_
    (fun r hr => ?_) fun _ => ?_
  · unfold Build.icmp
    cases v.constInt? <;> cases u.constInt? <;> rfl
  · obtain ⟨m, hm, hr⟩ := Option.bind_eq_some_iff.mp hr
    obtain ⟨n, hn, rfl⟩ := Option.map_eq_some_iff.mp hr
    rw [hfold m n hm hn]
    exact ⟨Spot.holds_i1 _, exact_i1 _⟩
  · exact performs_quiet rfl (Exec.Run.returns_icmp (σ := k.run.ticked) hv.value hu.value)

theorem Spot.Holds.constBool {b b' : Bool} (hv : k.Holds w v .i1 (bit b)) (he : Exact v)
    (h : v.constBool? = some b') : b' = b := by
  have hval := hv.value
  unfold Value.constBool? at h
  split at h
  · rename_i value
    cases h
    have hwrap : Exec.wrap 1 value = if b then 1 else 0 := by
      cases b <;> exact (RtValue.int.inj (Option.some.inj hval)).2
    rw [he 1 value rfl] at hwrap
    cases b <;> simp [hwrap]
  · cases h

theorem performs_or {b b' : Bool} (hv : k.Holds w v .i1 (bit b)) (hu : k.Holds w u .i1 (bit b'))
    (hev : Exact v) (heu : Exact u) :
    Performs w c k (emit (Build.or v u)) (k.Gets w .i1 (bit (b || b'))) := by
  refine performs_folded (.binary .or v u) (Build.foldTruth .or v u) ?_
    (fun r hr => ?_) fun _ => ?_
  · show (match if k.gen.builder.typeOf v = .i1 then Build.foldTruth .or v u else none with
      | some r => pure r
      | none => Build.push _ (k.gen.builder.typeOf v) : Build Value) _ = _
    rw [hv.type, if_pos rfl]
  · have hb : ∀ q, v.constBool? = some q → q = b := fun q => hv.constBool hev
    have hb' : ∀ q, u.constBool? = some q → q = b' := fun q => hu.constBool heu
    unfold Build.foldTruth at hr
    split at hr <;> try contradiction
    · rw [← hb _ ‹_›, ← Option.some.inj hr]
      exact ⟨Spot.holds_i1 true, exact_i1 true⟩
    · rw [← hb' _ ‹_›, ← Option.some.inj hr, Bool.or_true]
      exact ⟨Spot.holds_i1 true, exact_i1 true⟩
    · rw [← hb _ ‹_›, ← Option.some.inj hr]
      exact ⟨hu, heu⟩
    · rw [← hb' _ ‹_›, ← Option.some.inj hr, Bool.or_false]
      exact ⟨hv, hev⟩
  · refine performs_quiet rfl (Exec.Run.returns_binary (σ := k.run.ticked) hv.value hu.value ?_)
    cases b <;> cases b' <;> rfl

theorem performs_and {b b' : Bool} (hv : k.Holds w v .i1 (bit b)) (hu : k.Holds w u .i1 (bit b'))
    (hev : Exact v) (heu : Exact u) :
    Performs w c k (emit (Build.and v u)) (k.Gets w .i1 (bit (b && b'))) := by
  refine performs_folded (.binary .and v u) (Build.foldTruth .and v u) ?_
    (fun r hr => ?_) fun _ => ?_
  · show (match if k.gen.builder.typeOf v = .i1 then Build.foldTruth .and v u else none with
      | some r => pure r
      | none => Build.push _ (k.gen.builder.typeOf v) : Build Value) _ = _
    rw [hv.type, if_pos rfl]
  · have hb : ∀ q, v.constBool? = some q → q = b := fun q => hv.constBool hev
    have hb' : ∀ q, u.constBool? = some q → q = b' := fun q => hu.constBool heu
    unfold Build.foldTruth at hr
    split at hr <;> try contradiction
    · rw [← hb _ ‹_›, ← Option.some.inj hr]
      exact ⟨Spot.holds_i1 false, exact_i1 false⟩
    · rw [← hb' _ ‹_›, ← Option.some.inj hr, Bool.and_false]
      exact ⟨Spot.holds_i1 false, exact_i1 false⟩
    · rw [← hb _ ‹_›, ← Option.some.inj hr]
      exact ⟨hu, heu⟩
    · rw [← hb' _ ‹_›, ← Option.some.inj hr, Bool.and_true]
      exact ⟨hv, hev⟩
  · refine performs_quiet rfl (Exec.Run.returns_binary (σ := k.run.ticked) hv.value hu.value ?_)
    cases b <;> cases b' <;> rfl

theorem performs_not {b : Bool} (hv : k.Holds w v .i1 (bit b)) (he : Exact v) :
    Performs w c k (emit (Build.not v)) (k.Gets w .i1 (bit !b)) := by
  refine performs_folded (.not v) (v.constBool?.map fun b => .i1 !b) ?_ (fun r hr => ?_) fun _ => ?_
  · unfold Build.not
    cases v.constBool? with
    | some b => rfl
    | none =>
      show Build.push _ (k.gen.builder.typeOf v) none _ = _
      rw [hv.type]
      rfl
  · obtain ⟨b', hb, rfl⟩ := Option.map_eq_some_iff.mp hr
    rw [hv.constBool he hb]
    exact ⟨Spot.holds_i1 _, exact_i1 _⟩
  · refine performs_quiet rfl ?_
    cases b <;> exact Exec.Run.returns_not (σ := k.run.ticked) hv.value

/-- The choice between two operands need not be exact, as an operand need not be. -/
theorem performs_select {cond : Value} {b : Bool} (hc : k.Holds w cond .i1 (bit b))
    (hec : Exact cond) (hv : k.Holds w v t x) (hu : k.Holds w u t y) :
    Performs w c k (emit (Build.select cond v u)) fun k' r =>
      k'.Holds w r t (if b then x else y) ∧ k'.run.memory = k.run.memory := by
  cases hb : cond.constBool? with
  | none =>
    refine .build_congr (Build.push (.select cond v u) t) ?_ ?_
    · unfold Build.select
      rw [hb]
      show Build.push _ (k.gen.builder.typeOf v) none _ = _
      rw [hv.type]
    · have htruthy : (bit b).isTruthy = b := by cases b <;> rfl
      have hselect : Exec.Run.Returns
          (Exec.Run.instruction w.module w.call w.func k.frame (.select cond v u) t) k.run.ticked
          (if (bit b).isTruthy then x else y) k.run.ticked :=
        Exec.Run.returns_select hc.value hv.value hu.value
      rw [htruthy] at hselect
      exact (performs_quiet rfl hselect).mono fun _ _ _ _ h => ⟨h.holds, h.memory⟩
  | some b' =>
    obtain rfl := hc.constBool hec hb
    refine .congr (y := pure (if b' then v else u)) ?_ (.pure ⟨?_, rfl⟩)
    · unfold Build.select
      rw [hb]
      cases b' <;> rfl
    · cases b'
      · exact hu
      · exact hv

end

end Lowering.Gen
