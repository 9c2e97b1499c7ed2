import Lowering.Proofs.Shape

/-!
# Operations of a builder

A module is built by operations in any order.  Whatever they are, each instruction stands in one
block, the blocks list their instructions in the order in which they were placed, and a block that
has a terminator is never touched again.

* `IR.Operation`, `IR.Operation.perform`: the operations, with whatever operands;
* `IR.Builder.Change`, `IR.Operation.change`: all that an operation does to a builder;
* `IR.Function.Listed`: each instruction is in one block, once and in order;
* `IR.Operation.IsDropped`: what is placed where nothing can be placed;
* `IR.Builder.run`, `IR.Builder.Fit`, `IR.Builder.listed_and_frozen`: sequences of operations.
-/

namespace Lowering.IR

/-- An operation on a module being built. -/
inductive Operation
  | declareFunction (name : String) (params : List Param) (result : Ty) (linkage : Linkage)
    (varargs : Bool)
  | addGlobal (g : Global)
  | appendBlock (f : FuncId) (name : String)
  | positionAt (f : FuncId) (block : BlockId)
  | setLocation (location : Option Location)
  | allocaAt (f : FuncId) (block : BlockId) (type : Ty) (name : Option String)
  | load (ptr : Value) (name : Option String)
  | store (value ptr : Value)
  | gep (ptr : Value) (indices : List Value)
  | structGep (ptr : Value) (index : Nat)
  | cast (op : CastOp) (value : Value) (target : Ty)
  | bitcast (value : Value) (target : Ty)
  | intToPtr (value : Value) (target : Ty)
  | ptrToInt (value : Value) (target : Ty)
  | binary (op : BinaryOp) (lhs rhs : Value)
  | and (lhs rhs : Value)
  | or (lhs rhs : Value)
  | not (value : Value)
  | icmp (pred : IntPredicate) (lhs rhs : Value)
  | fcmp (pred : FloatPredicate) (lhs rhs : Value)
  | select (cond ifTrue ifFalse : Value)
  | phi (type : Ty) (incoming : List (Value × BlockId))
  | call (callee : FuncId) (args : List Value)
  | malloc (type : Ty)
  | arrayMalloc (type : Ty) (count : Value)
  | extractValue (aggregate : Value) (index : Nat) (name : Option String)
  | br (target : BlockId)
  | condBr (cond : Value) (ifTrue ifFalse : BlockId)
  | ret (value : Option Value)
  | unreachable

/-- The module has a function of an id, and that function a block of an id. -/
def Module.HasBlock (m : Module) (f : FuncId) (b : BlockId) : Prop :=
  f.index < m.functions.size ∧ (m.function f).HasBlock b

instance (m : Module) (f : FuncId) (b : BlockId) : Decidable (m.HasBlock f b) := by
  unfold Module.HasBlock Function.HasBlock
  infer_instance

theorem Module.modifyFunction_eq_self {m : Module} {f : FuncId} {change : Function → Function}
    (h : change (m.function f) = m.function f) : m.modifyFunction f change = m := by
  have hsame : m.functions.modify f.index change = m.functions := by
    refine Array.ext (by simp) fun i hi hi' => ?_
    rw [Array.getElem_modify]
    split
    · rename_i hf
      subst hf
      simpa [Module.function, hi'] using h
    · rfl
  show { m with functions := _ } = m
  rw [hsame]

namespace Operation

/-- The builder after an operation. -/
def perform (r : Builder) : Operation → Builder
  | declareFunction name params result linkage varargs =>
    (Build.declareFunction name params result linkage varargs r).2
  | addGlobal g => (Build.addGlobal g r).2
  | appendBlock f name => (Build.appendBlock f name r).2
  | positionAt f block => (Build.positionAt f block r).2
  | setLocation location => (Build.setLocation location r).2
  | allocaAt f block type name => (Build.allocaAt f block type name r).2
  | load ptr name => (Build.load ptr name r).2
  | store value ptr => (Build.store value ptr r).2
  | gep ptr indices => (Build.gep ptr indices r).2
  | structGep ptr index => (Build.structGep ptr index r).2
  | cast op value target => (Build.cast op value target r).2
  | bitcast value target => (Build.bitcast value target r).2
  | intToPtr value target => (Build.intToPtr value target r).2
  | ptrToInt value target => (Build.ptrToInt value target r).2
  | binary op lhs rhs => (Build.binary op lhs rhs r).2
  | and lhs rhs => (Build.and lhs rhs r).2
  | or lhs rhs => (Build.or lhs rhs r).2
  | not value => (Build.not value r).2
  | icmp pred lhs rhs => (Build.icmp pred lhs rhs r).2
  | fcmp pred lhs rhs => (Build.fcmp pred lhs rhs r).2
  | select cond ifTrue ifFalse => (Build.select cond ifTrue ifFalse r).2
  | phi type incoming => (Build.phi type incoming r).2
  | call callee args => (Build.call callee args r).2
  | malloc type => (Build.malloc type r).2
  | arrayMalloc type count => (Build.arrayMalloc type count r).2
  | extractValue aggregate index name => (Build.extractValue aggregate index name r).2
  | br target => (Build.br target r).2
  | condBr cond ifTrue ifFalse => (Build.condBr cond ifTrue ifFalse r).2
  | ret value => (Build.ret value r).2
  | unreachable => (Build.unreachable r).2

/-- The functions and blocks that an operation aims at are there. -/
def Fits (r : Builder) : Operation → Prop
  | appendBlock f _ => f.index < r.module.functions.size
  | positionAt f block | allocaAt f block _ _ => r.module.HasBlock f block
  | _ => True

/-- An instruction or terminator for a block that has a terminator, or for no block at all. -/
def IsDropped (r : Builder) : Operation → Prop
  | declareFunction .. | addGlobal _ | appendBlock .. | positionAt .. | setLocation _ => False
  | allocaAt f block _ _ => r.blockTerminated f block = true
  | _ => r.isTerminated = true

instance (r : Builder) (op : Operation) : Decidable (op.Fits r) := by
  unfold Fits
  split <;> infer_instance

instance (r : Builder) (op : Operation) : Decidable (op.IsDropped r) := by
  unfold IsDropped
  split <;> infer_instance

end Operation

/-! ### Instructions and terminators -/

namespace Build

variable {α : Type} {r : Builder} {kind : InstKind} {t u : Ty} {name : Option String}
  {v w p cond : Value} {f : FuncId} {b b' : BlockId}

/-- A step that places an instruction at the position of the builder, or does nothing. -/
def Places (x : Build α) : Prop :=
  ∀ r : Builder, (x r).2 = r ∨ ∃ kind t name, (x r).2 = (push kind t name r).2

/-- A step that ends the block at the position of the builder, or does nothing. -/
def Ends (x : Build α) : Prop := ∀ r : Builder, ∃ t, (x r).2 = (terminate t r).2

theorem Places.pure (a : α) : Places (Pure.pure a : Build α) := fun _ => .inl rfl

/-- What only reads the builder does not count. -/
theorem Places.of_get {f : Builder → Build α} (hf : ∀ r, Places (f r)) : Places (get >>= f) :=
  fun r => hf r r

theorem places_push : Places (push kind t name) := fun _ => .inr ⟨kind, t, name, rfl⟩

theorem places_load : Places (load p name) := .of_get fun _ => places_push

theorem places_store : Places (store v p) := fun _ => .inr ⟨_, _, _, rfl⟩

theorem places_gep {indices : List Value} : Places (gep p indices) := .of_get fun _ => places_push

theorem places_cast {op : CastOp} : Places (cast op v t) := .of_get fun r => by
  split
  · exact .pure _
  · exact places_push

theorem places_binary {op : BinaryOp} : Places (binary op v w) := .of_get fun r => by
  split
  · exact .pure _
  · exact places_push

theorem places_not : Places (not v) := by
  unfold not
  split
  · exact .pure _
  · exact .of_get fun _ => places_push

theorem places_icmp {pred : IntPredicate} : Places (icmp pred v w) := by
  unfold icmp
  split
  · exact .pure _
  · exact places_push

theorem places_select : Places (select cond v w) := by
  unfold select
  split
  · exact .pure _
  · exact .pure _
  · exact .of_get fun _ => places_push

theorem places_call {args : List Value} : Places (call f args) := .of_get fun _ => places_push

theorem places_extractValue {index : Nat} : Places (extractValue v index name) :=
  .of_get fun _ => places_push

theorem ends_terminate {t : Terminator} : Ends (terminate t) := fun _ => ⟨t, rfl⟩

theorem ends_condBr : Ends (condBr cond b b') := by
  unfold condBr
  split <;> exact ends_terminate

/-- Nothing is placed in a block that has a terminator. -/
theorem pushInto_of_terminated (h : r.blockTerminated f b = true) :
    (pushInto f b kind t name r).2 = r := by
  show (if r.blockTerminated f b then (Value.undef t, r) else _ : Value × Builder).2 = r
  rw [if_pos h]

theorem pushInto_of_open (h : r.blockTerminated f b = false) : (pushInto f b kind t name r).2 =
    { r with module := r.module.modifyFunction f (placed b ⟨kind, t, name, r.location⟩) } := by
  show (if r.blockTerminated f b then (Value.undef t, r) else _ : Value × Builder).2 = _
  rw [if_neg (by simp [h])]

theorem push_of_isTerminated (h : r.isTerminated = true) : (push kind t name r).2 = r := by
  cases hp : r.position with
  | none => rw [push_nowhere hp]
  | some at' =>
    rw [Builder.isTerminated, hp] at h
    rw [push_at hp, pushInto_of_terminated h]

theorem terminate_of_isTerminated {t : Terminator} (h : r.isTerminated = true) :
    (terminate t r).2 = r := by
  cases hp : r.position with
  | none => rw [terminate_nowhere hp]
  | some at' =>
    obtain ⟨f, b⟩ := at'
    rw [Builder.isTerminated, hp] at h
    obtain ⟨t', ht⟩ := Option.isSome_iff_exists.mp h
    rw [terminate_at hp, Module.modifyFunction_eq_self (Function.ended_of_term ht)]

theorem Places.of_isTerminated {x : Build α} (hx : Places x) (h : r.isTerminated = true) :
    (x r).2 = r := by
  rcases hx r with hx | ⟨kind, t, name, hx⟩
  · exact hx
  · rw [hx, push_of_isTerminated h]

theorem Ends.of_isTerminated {x : Build α} (hx : Ends x) (h : r.isTerminated = true) :
    (x r).2 = r := by
  obtain ⟨t, hx⟩ := hx r
  rw [hx, terminate_of_isTerminated h]

end Build

/-! ### What an operation does -/

namespace Builder

/-- All that an operation can do to a builder. -/
inductive Change (r : Builder) : Builder → Prop
  | same : Change r r
  | locate (location : Option Location) : Change r { r with location }
  | move {f : FuncId} {b : BlockId} (hb : r.module.HasBlock f b) :
    Change r { r with position := some (f, b) }
  | declare {fn : Function} (hb : fn.blocks = #[]) (hi : fn.insts = #[]) :
    Change r { r with module := r.module.addFunction fn }
  | define (g : Global) : Change r { r with module := r.module.addGlobal g }
  | append {f : FuncId} (name : String) (hf : f.index < r.module.functions.size) :
    Change r { r with module := r.module.modifyFunction f (·.withBlock { name }) }
  | place {f : FuncId} {b : BlockId} (inst : Inst) (hb : r.module.HasBlock f b)
    (ho : r.blockTerminated f b = false) :
    Change r { r with module := r.module.modifyFunction f (Build.placed b inst) }
  | finish {f : FuncId} {b : BlockId} (t : Terminator) (hb : r.module.HasBlock f b) :
    Change r { r with module := r.module.modifyFunction f (Build.ended b t) }

/-- Code is placed in a block that is there. -/
def Aimed (r : Builder) : Prop := ∀ f b, r.position = some (f, b) → r.module.HasBlock f b

variable {r r' : Builder} {α : Type} {x : Build α}

theorem change_pushInto {f : FuncId} {b : BlockId} {kind : InstKind} {t : Ty}
    {name : Option String} (hb : r.module.HasBlock f b) :
    r.Change (Build.pushInto f b kind t name r).2 := by
  cases ht : r.blockTerminated f b with
  | true =>
    rw [Build.pushInto_of_terminated ht]
    exact .same
  | false =>
    rw [Build.pushInto_of_open ht]
    exact .place _ hb ht

theorem Aimed.change_of_places (h : r.Aimed) (hx : x.Places) : r.Change (x r).2 := by
  rcases hx r with hx | ⟨kind, t, name, hx⟩
  · rw [hx]
    exact .same
  · rw [hx]
    cases hp : r.position with
    | none =>
      rw [Build.push_nowhere hp]
      exact .same
    | some at' =>
      rw [Build.push_at hp]
      exact change_pushInto (h _ _ hp)

theorem Aimed.change_of_ends (h : r.Aimed) (hx : x.Ends) : r.Change (x r).2 := by
  obtain ⟨t, hx⟩ := hx r
  rw [hx]
  cases hp : r.position with
  | none =>
    rw [Build.terminate_nowhere hp]
    exact .same
  | some at' =>
    rw [Build.terminate_at hp]
    exact .finish t (h _ _ hp)

end Builder

open Build Builder in
/-- An operation makes one of the changes. -/
theorem Operation.change {r : Builder} {op : Operation} (hr : r.Aimed) (hop : op.Fits r) :
    r.Change (op.perform r) := by
  cases op with
  | declareFunction => exact .declare rfl rfl
  | addGlobal g => exact .define g
  | appendBlock f name => exact .append _ hop
  | positionAt => exact .move hop
  | setLocation location => exact .locate location
  | allocaAt => exact change_pushInto hop
  | load => exact hr.change_of_places places_load
  | store => exact hr.change_of_places places_store
  | gep | structGep => exact hr.change_of_places places_gep
  | cast | bitcast | intToPtr | ptrToInt => exact hr.change_of_places places_cast
  | binary | and | or => exact hr.change_of_places places_binary
  | not => exact hr.change_of_places places_not
  | icmp => exact hr.change_of_places places_icmp
  | select => exact hr.change_of_places places_select
  | fcmp | phi | malloc | arrayMalloc => exact hr.change_of_places places_push
  | call => exact hr.change_of_places places_call
  | extractValue => exact hr.change_of_places places_extractValue
  | br | ret | unreachable => exact hr.change_of_ends ends_terminate
  | condBr => exact hr.change_of_ends ends_condBr

open Build in
/-- What is dropped changes nothing. -/
theorem Operation.perform_of_isDropped {r : Builder} {op : Operation} (h : op.IsDropped r) :
    op.perform r = r := by
  cases op with
  | declareFunction | addGlobal | appendBlock | positionAt | setLocation => exact h.elim
  | allocaAt => exact pushInto_of_terminated h
  | load => exact places_load.of_isTerminated h
  | store => exact places_store.of_isTerminated h
  | gep | structGep => exact places_gep.of_isTerminated h
  | cast | bitcast | intToPtr | ptrToInt => exact places_cast.of_isTerminated h
  | binary | and | or => exact places_binary.of_isTerminated h
  | not => exact places_not.of_isTerminated h
  | icmp => exact places_icmp.of_isTerminated h
  | select => exact places_select.of_isTerminated h
  | fcmp | phi | malloc | arrayMalloc => exact push_of_isTerminated h
  | call => exact places_call.of_isTerminated h
  | extractValue => exact places_extractValue.of_isTerminated h
  | br | ret | unreachable => exact terminate_of_isTerminated h
  | condBr => exact ends_condBr.of_isTerminated h

/-! ### Instructions in blocks -/

namespace Function

/-- Each instruction of a function is in one block, and a block lists its instructions once and in
the order of their ids. -/
structure Listed (fn : Function) : Prop where
  once : ∀ id : InstId, id.index < fn.insts.size → ∃! b, id ∈ (fn.block b).insts
  within : ∀ b, ∀ id ∈ (fn.block b).insts, id.index < fn.insts.size
  ascending : ∀ b, (fn.block b).insts.toList.Pairwise fun i j => i.index < j.index

variable {fn fn' : Function} {b : BlockId} {inst : Inst}

/-- What matters is which instructions there are and which each block lists. -/
theorem Listed.congr (h : fn.Listed) (hi : fn'.insts.size = fn.insts.size)
    (hb : ∀ b, (fn'.block b).insts = (fn.block b).insts) : fn'.Listed := by
  constructor
  · simpa only [hi, hb] using h.once
  · simpa only [hi, hb] using h.within
  · simpa only [hb] using h.ascending

theorem Listed.of_empty (hb : fn.blocks = #[]) (hi : fn.insts = #[]) : fn.Listed := by
  have hnone : ∀ b, (fn.block b).insts = #[] := fun b => by
    rw [block_of_not_hasBlock (by simp [HasBlock, hb])]
    rfl
  constructor <;> simp [hi, hnone]

theorem Listed.withBlock {name : String} (h : fn.Listed) : (fn.withBlock { name }).Listed := by
  refine h.congr rfl fun b => ?_
  by_cases hb : b = fn.nextBlock
  · rw [hb, block_withBlock_self, block_of_not_hasBlock (not_hasBlock_nextBlock fn)]
    rfl
  · rw [block_withBlock_of_ne hb]

theorem Listed.ended {t : Terminator} (h : fn.Listed) : (Build.ended b t fn).Listed :=
  h.congr rfl fun _ => insts_ended

/-- The new instruction has the greatest id, and it is in the block where it was placed. -/
theorem Listed.placed (h : fn.Listed) (hb : fn.HasBlock b) : (Build.placed b inst fn).Listed where
  once id hid := by
    rw [Build.insts_placed, Array.size_push] at hid
    simp only [mem_insts_placed hb]
    by_cases hlt : id.index < fn.insts.size
    · have hne : id ≠ ⟨fn.insts.size⟩ := fun he => by simp [he] at hlt
      simpa [hne] using h.once id hlt
    · have hnew : id = ⟨fn.insts.size⟩ := by
        cases id
        simp only [InstId.mk.injEq] at hid hlt ⊢
        omega
      refine ⟨b, .inr ⟨rfl, hnew⟩, ?_⟩
      rintro b' (hold | ⟨rfl, -⟩)
      · exact absurd (h.within b' id hold) hlt
      · rfl
  within b' id hid := by
    rw [Build.insts_placed, Array.size_push]
    rcases (mem_insts_placed hb).mp hid with hold | ⟨-, rfl⟩
    · exact Nat.lt_succ_of_lt (h.within b' id hold)
    · exact Nat.lt_succ_self _
  ascending b' := by
    by_cases hb' : b' = b
    · subst hb'
      rw [Build.block_placed_self hb, Array.toList_push]
      refine List.pairwise_append.mpr ⟨h.ascending b', List.pairwise_singleton _ _, ?_⟩
      intro i hi j hj
      rw [List.mem_singleton.mp hj]
      exact h.within b' i (Array.mem_toList_iff.mp hi)
    · rw [Build.block_placed_of_ne hb']
      exact h.ascending b'

end Function

/-! ### Sequences of operations -/

namespace Builder

variable {r r₁ r₂ r' : Builder} {f : FuncId} {b : BlockId}

theorem Change.grows (h : r.Change r') : r.module.Grows r'.module := by
  cases h with
  | same | locate | move => exact .refl _
  | declare => exact .addFunction _
  | define => exact .addGlobal _
  | append => exact .modifyFunction fun _ => .withBlock _
  | place inst hb ho => exact .modifyFunction fun _ => .placed (by simpa [blockTerminated] using ho)
  | finish => exact .modifyFunction fun _ => .ended

theorem Aimed.of_grows (h : r.Aimed) (hg : r.module.Grows r'.module)
    (hp : r'.position = r.position) : r'.Aimed := fun f b hat => by
  obtain ⟨hf, hb⟩ := h f b (hp ▸ hat)
  exact ⟨hf.trans_le hg.functions, (hg.function f hf).hasBlock hb⟩

theorem Change.aimed (h : r.Change r') (hr : r.Aimed) : r'.Aimed := by
  have hg := h.grows
  cases h with
  | move hb =>
    intro f b hat
    cases hat
    exact hb
  | _ => exact hr.of_grows hg rfl

/-- One change keeps the instructions of all functions listed. -/
theorem Change.listed (h : r.Change r') (hr : ∀ f, (r.module.function f).Listed) (f : FuncId) :
    (r'.module.function f).Listed := by
  have hmodify : ∀ {f' : FuncId} {change : Function → Function},
      f'.index < r.module.functions.size → (change (r.module.function f')).Listed →
      ((r.module.modifyFunction f' change).function f).Listed := fun {f' change} hf' hc => by
    by_cases he : f = f'
    · rwa [he, Module.function_modifyFunction_self hf']
    · rw [Module.function_modifyFunction_of_ne he]
      exact hr f
  cases h with
  | same | locate | move | define => exact hr f
  | declare hb hi =>
    by_cases he : f = r.module.nextFunction
    · rw [he, Module.function_addFunction_self]
      exact .of_empty hb hi
    · rw [Module.function_addFunction_of_ne he]
      exact hr f
  | append name hf => exact hmodify hf (hr _).withBlock
  | place inst hb => exact hmodify hb.1 ((hr _).placed hb.2)
  | finish t hb => exact hmodify hb.1 (hr _).ended

/-- The builder after operations, one after the other. -/
def run (r : Builder) (ops : List Operation) : Builder := ops.foldl Operation.perform r

/-- Each operation aims at what there is when it is its turn. -/
def Fit (r : Builder) : List Operation → Prop
  | [] => True
  | op :: ops => op.Fits r ∧ Fit (op.perform r) ops

instance decidableFit (r : Builder) : (ops : List Operation) → Decidable (r.Fit ops)
  | [] => .isTrue trivial
  | op :: ops =>
    have := decidableFit (op.perform r) ops
    inferInstanceAs (Decidable (op.Fits r ∧ (op.perform r).Fit ops))

variable {ops : List Operation}

theorem Fit.aimed (h : r.Fit ops) (hr : r.Aimed) : (r.run ops).Aimed := by
  induction ops generalizing r with
  | nil => exact hr
  | cons op ops ih => exact ih h.2 ((op.change hr h.1).aimed hr)

theorem Fit.listed (h : r.Fit ops) (ha : r.Aimed) (hr : ∀ f, (r.module.function f).Listed)
    (f : FuncId) : ((r.run ops).module.function f).Listed := by
  induction ops generalizing r with
  | nil => exact hr f
  | cons op ops ih =>
    have hop := op.change ha h.1
    exact ih h.2 (hop.aimed ha) (hop.listed hr)

theorem Fit.grows (h : r.Fit ops) (hr : r.Aimed) : r.module.Grows (r.run ops).module := by
  induction ops generalizing r with
  | nil => exact .refl _
  | cons op ops ih =>
    have hop := op.change hr h.1
    exact hop.grows.trans (ih h.2 (hop.aimed hr))

theorem aimed_new (name : String) : (Builder.new name).Aimed := fun _ _ h => by cases h

theorem listed_new (name : String) (f : FuncId) :
    ((Builder.new name).module.function f).Listed := .of_empty rfl rfl

theorem hasBlock_of_blockTerminated (h : r.blockTerminated f b = true) : r.module.HasBlock f b := by
  obtain ⟨t, ht⟩ := Option.isSome_iff_exists.mp h
  have hb := Function.hasBlock_of_term ht
  refine ⟨?_, hb⟩
  by_contra hf
  -- a function that is not there has no blocks
  rw [Function.HasBlock, Module.function, Array.getElem?_eq_none (not_lt.mp hf)] at hb
  exact absurd hb (Nat.not_lt_zero _)

/-- After any operations on a new builder, each instruction is in one block, once and in the order
in which the instructions were placed. Whatever operations come then, a block that has a terminator
keeps its instructions and its terminator. What is placed in such a block, or at no position, leaves
everything as it is. -/
theorem listed_and_frozen {name : String} (h : (Builder.new name).Fit ops)
    (hr : (Builder.new name).run ops = r) :
    (∀ f, (r.module.function f).Listed) ∧
    (∀ ops', r.Fit ops' → ∀ f b, r.blockTerminated f b = true →
      ((r.run ops').module.function f).block b = (r.module.function f).block b) ∧
    ∀ op : Operation, op.IsDropped r → op.perform r = r := by
  subst hr
  refine ⟨h.listed (aimed_new name) (listed_new name), fun ops' h' f b hb => ?_,
    fun op => op.perform_of_isDropped⟩
  obtain ⟨hf, hin⟩ := hasBlock_of_blockTerminated hb
  exact (((h'.grows (h.aimed (aimed_new name))).function f hf).block b hin).frozen hb

/-- A function whose second block is ended before code is placed in the first one. -/
def crossing : List Operation :=
  [.declareFunction "f" [] .i32 .internal false, .appendBlock ⟨0⟩ "entry",
    .appendBlock ⟨0⟩ "exit", .positionAt ⟨0⟩ ⟨1⟩, .call ⟨0⟩ [], .ret (some (.inst ⟨0⟩)),
    .allocaAt ⟨0⟩ ⟨0⟩ .i32 none, .positionAt ⟨0⟩ ⟨0⟩, .load (.inst ⟨1⟩) none]

theorem crossing_listed_and_frozen : (Builder.new "m").Fit crossing ∧
    ∃ r, (Builder.new "m").run crossing = r ∧ (r.module.function ⟨0⟩).insts.size = 3 ∧
      (r.module.function ⟨0⟩).Listed ∧
      ((r.run [.br ⟨1⟩]).module.function ⟨0⟩).block ⟨1⟩ = (r.module.function ⟨0⟩).block ⟨1⟩ ∧
      (Operation.allocaAt ⟨0⟩ ⟨1⟩ .i32 none).perform r = r := by
  have h : (Builder.new "m").Fit crossing := by decide
  obtain ⟨hlisted, hfrozen, hdropped⟩ := listed_and_frozen h rfl
  exact ⟨h, _, rfl, by decide, hlisted ⟨0⟩, hfrozen [.br ⟨1⟩] (by decide) _ _ (by decide),
    hdropped _ (by decide)⟩

end Builder

end Lowering.IR
