import Lowering.Gen.Dispatch
import Lowering.Gen.Primitive
import Lowering.Proofs.Restoring

/-!
# Positions and debug records

Debug information is stamped on what is generated: a position on every instruction, and a record
of the module.  No step of generation reads it: where all of it is taken away before a step, the
step does the same as when it is taken away afterwards.

* `IR.Module.unmarked`, `IR.Builder.unmarked`, `Gen.State.unmarked`, `Gen.Context.unmarked`: what
  is left without debug information;
* `IR.Build.Blind`, `Gen.Blind`: steps that do not read it, with their rules;
* `Gen.blind_convert`, `Gen.blind_assign`, `Gen.blind_truth` and those for the other steps that
  generate no expressions themselves.
-/

namespace Lowering

namespace IR

/-! ### Modules without debug information -/

/-- The instruction without its position. -/
def Inst.unmarked (i : Inst) : Inst := { i with location := none }

/-- The function without the positions of its instructions. -/
def Function.unmarked (f : Function) : Function := { f with insts := f.insts.map Inst.unmarked }

/-- The module without positions and debug record. -/
def Module.unmarked (m : Module) : Module :=
  { m with functions := m.functions.map Function.unmarked, debug := none }

/-- The builder of the module without debug information, at no position of the source. -/
def Builder.unmarked (r : Builder) : Builder := { r with module := r.module.unmarked, location := none }

theorem Function.inst_unmarked (f : Function) (id : InstId) :
    f.unmarked.inst id = (f.inst id).unmarked := by
  simp only [inst, unmarked, Array.getElem?_map]
  cases f.insts[id.index]? <;> rfl

namespace Module

variable (m : Module)

@[simp] theorem unmarked_unmarked : m.unmarked.unmarked = m.unmarked := by
  simp only [unmarked, Array.map_map]
  congr 2
  funext f
  simp [Function.unmarked, Inst.unmarked]

theorem function_unmarked (f : FuncId) : m.unmarked.function f = (m.function f).unmarked := by
  simp only [function, unmarked, Array.getElem?_map]
  cases m.functions[f.index]? with
  | none => simp [Function.unmarked, default, instInhabitedFunction.default]
  | some fn => rfl

theorem typeOf_unmarked (f : FuncId) (v : Value) : m.unmarked.typeOf f v = m.typeOf f v := by
  cases v with
  | inst id =>
    rw [typeOf, typeOf, function_unmarked, Function.inst_unmarked]
    rfl
  | param i =>
    rw [typeOf, typeOf, function_unmarked]
    rfl
  | _ => rfl

theorem findFunction_unmarked (name : String) :
    m.unmarked.findFunction name = m.findFunction name :=
  findFunction_congr (by simp [names, unmarked, Function.unmarked]) name

theorem unmarked_addFunction {f : Function} (h : f.insts = #[]) :
    (m.addFunction f).unmarked = m.unmarked.addFunction f := by
  have hf : f.unmarked = f := by
    cases f
    simp_all [Function.unmarked]
  simp [addFunction, unmarked, hf]

theorem unmarked_modifyFunction {g g' : Function → Function} (f : FuncId)
    (h : ∀ fn, (g fn).unmarked = g' fn.unmarked) :
    (m.modifyFunction f g).unmarked = m.unmarked.modifyFunction f g' := by
  simp only [modifyFunction, unmarked]
  congr 1
  refine Array.ext (by simp) fun i hi hi' => ?_
  simp only [Array.getElem_map, Array.getElem_modify]
  split
  · exact h _
  · rfl

end Module

namespace Build

variable {α β : Type}

/-- A step of building that does not read debug information. -/
def Blind (b : Build α) : Prop :=
  ∀ r : Builder, @Eq (α × Builder) (b r.unmarked) ((b r).1, (b r).2.unmarked)

theorem Blind.pure (a : α) : Blind (pure a : Build α) := fun _ => rfl

theorem Blind.bind {b : Build α} {f : α → Build β} (hb : Blind b) (hf : ∀ a, Blind (f a)) :
    Blind (b >>= f) := fun r => by
  show @Eq (β × Builder) (f (b r.unmarked).1 (b r.unmarked).2)
    ((f (b r).1 (b r).2).1, (f (b r).1 (b r).2).2.unmarked)
  rw [hb r]
  exact hf _ _

theorem isTerminated_unmarked (r : Builder) : r.unmarked.isTerminated = r.isTerminated := by
  obtain ⟨m, position, location⟩ := r
  cases position with
  | none => rfl
  | some at' =>
    show (((m.unmarked.function _).block _).term.isSome) = _
    rw [Module.function_unmarked]
    rfl

section

variable {v u p cond : Value} {t : Ty} {kind : InstKind} {name : Option String}

theorem blind_pushInto {f : FuncId} {b : BlockId} : Blind (pushInto f b kind t name) := by
  intro r
  have ht : r.unmarked.blockTerminated f b = r.blockTerminated f b := by
    show ((r.module.unmarked.function f).block b).term.isSome = _
    rw [Module.function_unmarked]
    rfl
  show @Eq (Value × Builder) (if r.unmarked.blockTerminated f b then _ else _)
    ((if r.blockTerminated f b then _ else _ : Value × Builder).1,
      (if r.blockTerminated f b then _ else _ : Value × Builder).2.unmarked)
  rw [ht]
  split
  · rfl
  · refine Prod.ext ?_ ?_
    · show Value.inst ⟨(r.module.unmarked.function f).insts.size⟩ = _
      rw [Module.function_unmarked]
      simp [Function.unmarked]
    · have hplace : ∀ fn : Function, (placed b ⟨kind, t, name, r.location⟩ fn).unmarked =
          placed b ⟨kind, t, name, none⟩ fn.unmarked := fun fn => by
        simp [placed, Function.unmarked, Inst.unmarked]
      show (⟨r.module.unmarked.modifyFunction f (placed b ⟨kind, t, name, none⟩),
          r.position, none⟩ : Builder) =
        ⟨(r.module.modifyFunction f (placed b ⟨kind, t, name, r.location⟩)).unmarked,
          r.position, none⟩
      rw [Module.unmarked_modifyFunction _ f hplace]

theorem blind_push : Blind (push kind t name) := by
  intro r
  cases hp : r.position with
  | none =>
    rw [push_nowhere hp, push_nowhere (show r.unmarked.position = none from hp)]
  | some at' =>
    rw [push_at hp, push_at (show r.unmarked.position = some at' from hp)]
    exact blind_pushInto r

theorem blind_typeOf : Blind (typeOf v) := fun r => by
  show @Eq (Ty × Builder) (r.unmarked.typeOf v, r.unmarked) (r.typeOf v, r.unmarked)
  refine Prod.ext ?_ rfl
  obtain ⟨m, position, location⟩ := r
  cases v with
  | inst id =>
    cases position with
    | none => rfl
    | some at' => exact m.typeOf_unmarked at'.1 (.inst id)
  | param i =>
    cases position with
    | none => rfl
    | some at' => exact m.typeOf_unmarked at'.1 (.param i)
  | _ => rfl

theorem blind_load : Blind (load p name) := blind_typeOf.bind fun _ => blind_push

theorem blind_store : Blind (store v p) := blind_push.bind fun _ => .pure _

theorem blind_gep {indices : List Value} : Blind (gep p indices) :=
  blind_typeOf.bind fun _ => blind_push

theorem blind_structGep {index : Nat} : Blind (structGep p index) := blind_gep

theorem blind_cast {op : CastOp} : Blind (cast op v t) := by
  refine blind_typeOf.bind fun source => ?_
  split
  · exact .pure _
  · exact blind_push

theorem blind_bitcast : Blind (bitcast v t) := blind_cast

theorem blind_intToPtr : Blind (intToPtr v t) := blind_cast

theorem blind_ptrToInt : Blind (ptrToInt v t) := blind_cast

theorem blind_binary {op : BinaryOp} : Blind (binary op v u) := by
  refine blind_typeOf.bind fun type => ?_
  split
  · exact .pure _
  · exact blind_push

theorem blind_and : Blind (and v u) := blind_binary

theorem blind_or : Blind (or v u) := blind_binary

theorem blind_not : Blind (not v) := by
  unfold not
  split
  · exact .pure _
  · exact blind_typeOf.bind fun _ => blind_push

theorem blind_icmp {pred : IntPredicate} : Blind (icmp pred v u) := by
  unfold icmp
  split
  · exact .pure _
  · exact blind_push

theorem blind_fcmp {pred : FloatPredicate} : Blind (fcmp pred v u) := blind_push

theorem blind_select : Blind (select cond v u) := by
  unfold select
  split
  · exact .pure _
  · exact .pure _
  · exact blind_typeOf.bind fun _ => blind_push

theorem blind_phi {incoming : List (Value × BlockId)} : Blind (phi t incoming) := blind_push

theorem blind_call {callee : FuncId} {args : List Value} : Blind (call callee args) := fun r => by
  have hret : (r.unmarked.module.function callee).ret = (r.module.function callee).ret := by
    show (r.module.unmarked.function callee).ret = _
    rw [Module.function_unmarked]
    rfl
  show @Eq (Value × Builder)
    (push (.call callee args) (r.unmarked.module.function callee).ret none r.unmarked) _
  rw [hret]
  exact blind_push r

theorem blind_malloc : Blind (malloc t) := blind_push

theorem blind_arrayMalloc : Blind (arrayMalloc t v) := blind_push

theorem blind_terminate {term : Terminator} : Blind (terminate term) := by
  intro r
  cases hp : r.position with
  | none =>
    rw [terminate_nowhere hp, terminate_nowhere (show r.unmarked.position = none from hp)]
  | some at' =>
    rw [terminate_at hp, terminate_at (show r.unmarked.position = some at' from hp)]
    have hend : ∀ fn : Function, (ended at'.2 term fn).unmarked = ended at'.2 term fn.unmarked :=
      fun fn => rfl
    show ((), (⟨r.module.unmarked.modifyFunction at'.1 (ended at'.2 term), r.position, none⟩ : Builder)) =
      ((), ⟨(r.module.modifyFunction at'.1 (ended at'.2 term)).unmarked, r.position, none⟩)
    rw [Module.unmarked_modifyFunction _ at'.1 hend]

theorem blind_br {b : BlockId} : Blind (br b) := blind_terminate

theorem blind_ret {w : Option Value} : Blind (ret w) := blind_terminate

theorem blind_unreachable : Blind unreachable := blind_terminate

theorem blind_condBr {b b' : BlockId} : Blind (condBr cond b b') := by
  unfold condBr
  split
  · exact blind_br
  · exact blind_br
  · exact blind_terminate

theorem blind_appendBlock {f : FuncId} {title : String} : Blind (appendBlock f title) := fun r => by
  let extend (block : BasicBlock) (fn : Function) : Function :=
    { fn with blocks := fn.blocks.push block }
  have hfn : ∀ block, (r.module.modifyFunction f (extend block)).unmarked =
      r.module.unmarked.modifyFunction f (extend block) :=
    fun block => Module.unmarked_modifyFunction _ f fun fn => rfl
  let block (fn : Function) : BasicBlock := { name := blockNameIn fn title }
  show @Eq (BlockId × Builder) (⟨(r.module.unmarked.function f).blocks.size⟩,
    ⟨r.module.unmarked.modifyFunction f (extend (block (r.module.unmarked.function f))),
      r.position, none⟩) _
  rw [Module.function_unmarked, ← hfn]
  rfl

theorem blind_positionAt {f : FuncId} {b : BlockId} : Blind (positionAt f b) := fun _ => rfl

theorem blind_declareFunction {title : String} {params : List Param} {linkage : Linkage}
    {varargs : Bool} : Blind (declareFunction title params t linkage varargs) := fun r => by
  have hfn := r.module.unmarked_addFunction (f := { name := title, params, ret := t, linkage, varargs }) rfl
  show @Eq (FuncId × Builder) (⟨r.module.unmarked.functions.size⟩,
    (⟨r.module.unmarked.addFunction { name := title, params, ret := t, linkage, varargs },
      r.position, none⟩ : Builder)) _
  rw [← hfn, Module.unmarked, Array.size_map]
  rfl

theorem blind_addGlobal {g : Global} : Blind (addGlobal g) := fun _ => rfl

end

end Build

end IR

namespace Gen

open IR (Ty Value FuncId BlockId Build)

variable {α β : Type}

/-! ### Steps of generation -/

/-- The context without debug information. -/
def Context.unmarked (c : Context) : Context := { c with debugInfo := false }

/-- The state without debug information. -/
def State.unmarked (s : State) : State := { s with builder := s.builder.unmarked }

/-- A step that does not read debug information: it does the same without it, and leaves the same
behind. -/
def Blind (x : Gen α) : Prop :=
  ∀ c s, outcome x c.unmarked s.unmarked = ((outcome x c s).1, (outcome x c s).2.unmarked)

namespace Blind

variable {x : Gen α} {f : α → Gen β}

theorem pure (a : α) : Blind (pure a : Gen α) := fun _ _ => rfl

theorem throw (e : Failure) : Blind (throw e : Gen α) := fun _ _ => rfl

theorem fail (cause : Cause) : Blind (Gen.fail cause : Gen α) := fun _ _ => rfl

theorem bind (hx : Blind x) (hf : ∀ a, Blind (f a)) : Blind (x >>= f) := fun c s => by
  rw [outcome_bind, outcome_bind, hx c s]
  obtain ⟨e | a, t⟩ := outcome x c s
  · rfl
  · exact hf a c t

/-- A question about what is not debug information. -/
theorem ask {a : Context → State → α} (h : ∀ c s, outcome x c s = (.ok (a c s), s))
    (ha : ∀ c s, a c.unmarked s.unmarked = a c s) : Blind x := fun c s => by
  rw [h, h, ha]

/-- What is done with a state that is looked at. -/
theorem get {f : State → Gen β} (hf : ∀ s, Blind (f s)) (he : ∀ s, f s.unmarked = f s) :
    Blind (get >>= f) := fun c s => by
  show outcome (f s.unmarked) c.unmarked s.unmarked = _
  rw [he s]
  exact hf s c s

/-- What is done with a context that is looked at. -/
theorem read {f : Context → Gen β} (hf : ∀ c, Blind (f c)) (he : ∀ c, f c.unmarked = f c) :
    Blind (read >>= f) := fun c s => by
  show outcome (f c.unmarked) c.unmarked s.unmarked = _
  rw [he c]
  exact hf c c s

theorem modify {g : State → State} (h : ∀ s, g s.unmarked = (g s).unmarked) :
    Blind (modify g : Gen Unit) := fun _ s =>
  congrArg (fun t => ((.ok () : Except Failure Unit), t)) (h s)

theorem attempt (hx : Blind x) : Blind (attempt x) := fun c s => by
  have h := hx c s
  show (Except.ok (outcome x c.unmarked s.unmarked).1, (outcome x c.unmarked s.unmarked).2) = _
  rw [h]
  rfl

theorem resume (r : Except Failure α) : Blind (resume r) := by
  cases r with
  | ok a => exact pure a
  | error e => exact throw e

theorem foldlM {ι : Type} {f : β → ι → Gen β} (hf : ∀ b i, Blind (f b i)) (l : List ι) (b : β) :
    Blind (l.foldlM f b) := by
  induction l generalizing b with
  | nil => exact pure b
  | cons i l ih =>
    rw [List.foldlM_cons]
    exact bind (hf b i) ih

theorem mapM {ι : Type} {f : ι → Gen β} (hf : ∀ i, Blind (f i)) (l : List ι) :
    Blind (l.mapM f) := by
  induction l with
  | nil => exact pure []
  | cons i l ih =>
    rw [List.mapM_cons]
    exact bind (hf i) fun _ => bind ih fun _ => pure _

end Blind

end Gen

/-- A step of building, as one of generation. -/
theorem IR.Build.Blind.emit {α : Type} {b : IR.Build α} (h : b.Blind) :
    Gen.Blind (Gen.emit b) := fun c s => by
  have h := h s.builder
  show ((.ok (b s.builder.unmarked).1 : Except Gen.Failure α),
    ({ s with builder := (b s.builder.unmarked).2 } : Gen.State)) = _
  rw [h]
  rfl

namespace Gen

open IR (Ty Value FuncId BlockId Build)

variable {α β : Type}

/-! ### Questions, positions and variables -/

section

variable {v u p tag cond ptr value : Value} {t : Ty} {ty source target member : TypeId}
  {ot : Option TypeId} {name : String}

theorem blind_types : Blind types := .ask (fun _ _ => rfl) fun _ _ => rfl

theorem blind_nil : Blind nil := .ask (fun _ _ => rfl) fun _ _ => rfl

theorem blind_typeOf {n : Node} : Blind (typeOf n) := .ask (fun _ _ => rfl) fun _ _ => rfl

theorem blind_shape : Blind (shape ty) := .ask (fun _ _ => rfl) fun _ _ => rfl

theorem blind_irType : Blind (irType ty) := .ask (fun _ _ => rfl) fun _ _ => rfl

theorem blind_isAddressHeld : Blind (isAddressHeld ty) := .ask (fun _ _ => rfl) fun _ _ => rfl

theorem blind_isTerminated : Blind isTerminated :=
  .ask (fun _ _ => rfl) fun _ s => Build.isTerminated_unmarked s.builder

theorem blind_typeName : Blind (typeName ty) := .ask (fun _ _ => rfl) fun _ _ => rfl

theorem blind_lookup? : Blind (lookup? name) := .ask (fun _ _ => rfl) fun _ _ => rfl

theorem blind_carried : Blind (carried ot) := .ask (fun _ _ => rfl) fun _ _ => rfl

theorem blind_orFail {cause : Cause} {o : Option α} : Blind (orFail cause o) := by
  cases o with
  | none => exact .fail cause
  | some a => exact .pure a

theorem blind_deadValue : Blind (deadValue ot) := by
  cases ot with
  | none => exact .pure _
  | some t => exact blind_irType.bind fun _ => blind_isAddressHeld.bind fun _ => .pure _

theorem blind_note {level : Log.Level} {message : String} : Blind (note level message) :=
  .modify fun _ => rfl

theorem blind_bind {w : Variable} : Blind (bind name w) := .modify fun _ => rfl

theorem blind_alloca {title : Option String} : Blind (alloca t title) :=
  .get (fun _ => Build.blind_pushInto.emit) fun _ => rfl

theorem blind_currentBlock : Blind currentBlock := by
  refine .get (fun s => ?_) fun _ => rfl
  split
  · exact .pure _
  · exact .fail _

theorem blind_appendBlock : Blind (appendBlock name) :=
  .get (fun _ => Build.blind_appendBlock.emit) fun _ => rfl

theorem blind_positionAt {b : BlockId} : Blind (positionAt b) :=
  .get (fun _ => Build.blind_positionAt.emit) fun _ => rfl

theorem blind_restorePosition {at' : Option (FuncId × BlockId)} : Blind (restorePosition at') := by
  cases at' with
  | none => exact .pure ()
  | some at' => exact Build.blind_positionAt.emit

theorem Blind.emitIn {x : Gen α} (hx : Blind x) (f : FuncId) (b : BlockId) :
    Blind (emitIn f b x) :=
  .get (fun _ => Build.blind_positionAt.emit.bind fun _ => hx.attempt.bind fun _ =>
    blind_restorePosition.bind fun _ => .resume _) fun _ => rfl

theorem Blind.withActivation {x : Gen α} (hx : Blind x) (act : Activation) :
    Blind (withActivation act x) :=
  .get (fun _ => .bind (.modify fun _ => rfl) fun _ => hx.attempt.bind fun _ =>
    .bind (.modify fun _ => rfl) fun _ => .resume _) fun _ => rfl

theorem blind_runtimeFunction {params : List Ty} : Blind (runtimeFunction name params t) := by
  refine .get (fun s => ?_) fun _ => rfl
  split
  · exact .pure _
  · exact .bind Build.blind_declareFunction.emit fun f => .bind (.modify fun _ => rfl) fun _ => .pure f

/-! ### Conversions -/

theorem blind_loadTag : Blind (loadTag p) :=
  Build.blind_structGep.emit.bind fun _ => Build.blind_load.emit

theorem blind_storeTag : Blind (storeTag p tag) :=
  Build.blind_structGep.emit.bind fun _ => Build.blind_store.emit

theorem blind_payload : Blind (payload p t) :=
  Build.blind_structGep.emit.bind fun _ => Build.blind_bitcast.emit

theorem blind_isNull : Blind (isNull v) :=
  Build.blind_ptrToInt.emit.bind fun _ => Build.blind_icmp.emit

theorem blind_isNotNull : Blind (isNotNull v) :=
  Build.blind_ptrToInt.emit.bind fun _ => Build.blind_icmp.emit

theorem blind_coerce : Blind (coerce v t) := by
  refine Build.blind_typeOf.emit.bind fun source => ?_
  split
  · exact .pure v
  · split
    · exact Build.blind_bitcast.emit
    · split
      · exact Build.blind_intToPtr.emit
      · exact .pure v

theorem blind_storeCoerced : Blind (storeCoerced v p) := by
  refine Build.blind_typeOf.emit.bind fun source => ?_
  split
  · exact blind_coerce.bind fun _ => Build.blind_store.emit
  · exact Build.blind_store.emit

theorem blind_fillBox : Blind (fillBox p ty v) :=
  blind_storeTag.bind fun _ => Build.blind_bitcast.emit.bind fun _ =>
    Build.blind_structGep.emit.bind fun _ => Build.blind_store.emit

theorem blind_boxed : Blind (boxed ty v) :=
  blind_alloca.bind fun _ => blind_fillBox.bind fun _ => .pure _

theorem blind_storeScalarInUnion : Blind (storeScalarInUnion p target source v) := by
  refine blind_types.bind fun ts => ?_
  split
  · exact blind_storeTag.bind fun _ => blind_payload.bind fun _ => blind_fillBox
  · exact blind_storeTag.bind fun _ => blind_payload.bind fun _ => blind_storeCoerced

theorem blind_storeBoxInUnion : Blind (storeBoxInUnion p target source v) := by
  refine blind_types.bind fun ts => ?_
  split
  · exact blind_storeTag.bind fun _ => Build.blind_load.emit.bind fun _ =>
      blind_payload.bind fun _ => Build.blind_store.emit
  · exact blind_loadTag.bind fun _ => Build.blind_structGep.emit.bind fun _ =>
      Build.blind_load.emit.bind fun _ => blind_storeTag.bind fun _ =>
        blind_payload.bind fun _ => Build.blind_store.emit

theorem blind_storeNilableInUnion : Blind (storeNilableInUnion p source member v) :=
  blind_isNull.bind fun _ => blind_nil.bind fun _ => Build.blind_select.emit.bind fun _ =>
    blind_storeTag.bind fun _ => blind_irType.bind fun _ => blind_payload.bind fun _ =>
      Build.blind_store.emit

theorem blind_copyUnion : Blind (copyUnion p target source v) :=
  blind_irType.bind fun _ => blind_irType.bind fun _ => Build.blind_bitcast.emit.bind fun _ =>
    Build.blind_load.emit.bind fun _ => Build.blind_bitcast.emit.bind fun _ =>
      Build.blind_store.emit

theorem blind_storeInUnion : Blind (storeInUnion p target source v) := by
  refine blind_shape.bind fun shape => ?_
  split
  · exact blind_copyUnion
  · exact blind_storeNilableInUnion
  · exact blind_storeBoxInUnion
  · exact blind_storeScalarInUnion

theorem blind_inUnion : Blind (inUnion v source target) :=
  blind_irType.bind fun _ => blind_alloca.bind fun _ => blind_storeInUnion.bind fun _ => .pure _

theorem blind_boxOfUnion : Blind (boxOfUnion v source target) := by
  refine blind_types.bind fun ts => ?_
  split
  · exact blind_payload
  · exact blind_alloca.bind fun _ => blind_loadTag.bind fun _ =>
      blind_payload.bind fun _ => Build.blind_load.emit.bind fun _ =>
        blind_storeTag.bind fun _ => Build.blind_structGep.emit.bind fun _ =>
          Build.blind_store.emit.bind fun _ => .pure _

theorem blind_nilableOfUnion : Blind (nilableOfUnion v t) :=
  blind_loadTag.bind fun _ => blind_nil.bind fun _ => Build.blind_icmp.emit.bind fun _ =>
    blind_payload.bind fun _ => Build.blind_load.emit.bind fun _ => Build.blind_select.emit

theorem blind_objectOfBox : Blind (objectOfBox v t) :=
  Build.blind_structGep.emit.bind fun _ => Build.blind_load.emit.bind fun _ =>
    Build.blind_bitcast.emit

theorem blind_scalarOfUnion : Blind (scalarOfUnion v t) :=
  blind_payload.bind fun _ => Build.blind_load.emit

theorem blind_scalarOfScalar : Blind (scalarOfScalar v source target) := by
  refine blind_irType.bind fun _ => blind_irType.bind fun _ => ?_
  split
  · exact .pure v
  · split
    · exact Build.blind_bitcast.emit
    · exact blind_typeName.bind fun _ => blind_typeName.bind fun _ => .fail _

theorem blind_convert : Blind (convert v source target) := by
  unfold convert
  split
  · exact .pure v
  refine blind_types.bind fun ts => ?_
  split
  · split
    · exact Build.blind_bitcast.emit
    · exact blind_inUnion
  · exact blind_inUnion
  · exact .pure v
  · exact blind_boxed
  · exact blind_boxed
  · exact blind_boxOfUnion
  · exact blind_nilableOfUnion
  · exact blind_objectOfBox
  · exact blind_objectOfBox
  · split
    · exact .pure _
    · exact blind_coerce
  · split
    · exact .pure _
    · split
      · exact blind_scalarOfUnion
      · exact blind_scalarOfScalar
      · exact blind_coerce

theorem blind_convertExactly : Blind (convertExactly v source target) :=
  blind_convert.bind fun _ => blind_irType.bind fun _ => blind_coerce

theorem blind_copyHeld : Blind (copyHeld p v) :=
  Build.blind_load.emit.bind fun _ => Build.blind_store.emit

theorem blind_assign : Blind (assign p target source v) := by
  unfold assign
  split
  · refine blind_isAddressHeld.bind fun held => ?_
    split
    · exact blind_copyHeld
    · exact blind_storeCoerced
  · refine blind_shape.bind fun shape => ?_
    split
    · exact blind_storeInUnion
    · refine blind_shape.bind fun shape => ?_
      split
      · exact blind_fillBox
      · exact blind_convert.bind fun _ => blind_copyHeld
    all_goals exact blind_convert.bind fun _ => blind_storeCoerced

/-! ### Type tests -/

theorem blind_tagIsAny {ids : List TypeId} : Blind (tagIsAny tag ids) :=
  .foldlM (fun _ _ => Build.blind_icmp.emit.bind fun _ => Build.blind_or.emit) _ _

theorem blind_tagBelongs : Blind (tagBelongs ty tag) := blind_types.bind fun _ => blind_tagIsAny

theorem blind_unionIsA : Blind (unionIsA v source target) := by
  refine blind_types.bind fun ts => ?_
  dsimp only
  split
  · exact .pure _
  · split
    · exact .pure _
    · exact blind_loadTag.bind fun _ => blind_tagIsAny

theorem blind_isA : Blind (isA v source target) := by
  refine blind_types.bind fun ts => ?_
  split
  · exact blind_unionIsA
  · split
    · exact blind_isNull
    · split
      · exact blind_isNotNull
      · exact .pure _
  all_goals exact .pure _

theorem blind_unionTruth {bool : TypeId} : Blind (unionTruth v source bool ot) := by
  refine blind_loadTag.bind fun tag => Build.blind_icmp.emit.bind fun isBool => ?_
  refine blind_convert.bind fun bit => Build.blind_icmp.emit.bind fun isFalse => ?_
  refine Build.blind_and.emit.bind fun falsy => ?_
  split
  · exact Build.blind_icmp.emit.bind fun _ => Build.blind_or.emit.bind fun _ =>
      Build.blind_not.emit
  · exact Build.blind_not.emit

theorem blind_truth : Blind (truth v ty) := by
  refine blind_types.bind fun ts => ?_
  split
  · exact .pure _
  · exact Build.blind_icmp.emit
  · split
    · exact blind_isNotNull
    · split
      · exact .pure _
      · exact blind_loadTag.bind fun _ => Build.blind_icmp.emit
      · exact blind_unionTruth
  · exact blind_isNotNull
  · exact .pure _

theorem blind_knownTruth? {n : Node} : Blind (knownTruth? n v) := by
  unfold knownTruth?
  split
  · exact .pure _
  · exact blind_types.bind fun _ => blind_typeOf.bind fun _ => .pure _

/-! ### Storage -/

theorem blind_clearSlot : Blind (clearSlot p ty) := by
  refine .get (fun s => blind_types.bind fun ts => ?_) fun _ => rfl
  split
  · split
    · exact .emitIn (blind_nil.bind fun _ => blind_assign) _ _
    · exact .pure _
  · exact .emitIn Build.blind_store.emit _ _
  · exact .pure _

theorem blind_declare : Blind (declare name ty) := by
  refine blind_lookup?.bind fun found => ?_
  split
  · exact .pure _
  · exact blind_irType.bind fun _ => blind_alloca.bind fun _ => blind_clearSlot.bind fun _ =>
      blind_bind.bind fun _ => .pure _

theorem blind_heldValue {w : Variable} : Blind (heldValue name w) := by
  refine blind_isAddressHeld.bind fun held => ?_
  split
  · exact .pure _
  · exact Build.blind_load.emit

theorem blind_readVariable : Blind (readVariable name ty) :=
  blind_lookup?.bind fun _ => blind_orFail.bind fun _ => blind_heldValue.bind fun _ =>
    blind_convert

theorem blind_implicitSelf : Blind (implicitSelf ty) :=
  blind_lookup?.bind fun _ => blind_orFail.bind fun _ => blind_heldValue.bind fun _ =>
    blind_convert

theorem blind_selfObject : Blind selfObject := by
  refine blind_lookup?.bind fun _ => blind_orFail.bind fun w => blind_shape.bind fun shape => ?_
  split
  · exact blind_convert.bind fun _ => .pure _
  · split
    · exact .bind (.pure _) fun _ => .pure _
    · exact Build.blind_load.emit.bind fun _ => .pure _
  · exact blind_typeName.bind fun _ => .fail _

theorem blind_fieldOf {missing : Cause} : Blind (fieldOf v ty name missing) :=
  blind_types.bind fun _ => blind_orFail.bind fun _ => Build.blind_structGep.emit.bind fun _ =>
    blind_irType.bind fun _ => Build.blind_bitcast.emit.bind fun _ => .pure _

theorem blind_fieldSlot : Blind (fieldSlot name) :=
  blind_selfObject.bind fun _ => blind_typeName.bind fun _ => blind_fieldOf

theorem blind_heldIn : Blind (heldIn p ty name) := by
  refine blind_isAddressHeld.bind fun held => ?_
  split
  · exact .pure _
  · exact Build.blind_load.emit

theorem blind_readField : Blind (readField name ty) :=
  blind_fieldSlot.bind fun _ => blind_heldIn.bind fun _ => blind_convert

theorem blind_zeroGlobal : Blind (zeroGlobal name t) :=
  .get (fun _ => Build.blind_addGlobal.emit) fun _ => rfl

theorem blind_globalType : Blind (globalType name ty) := .ask (fun _ _ => rfl) fun _ _ => rfl

theorem blind_globalSlot : Blind (globalSlot name ty) := by
  refine .get (fun s => ?_) fun _ => rfl
  split
  · exact .pure _
  · exact blind_irType.bind fun _ => blind_zeroGlobal.bind fun g =>
      .bind (.modify fun _ => rfl) fun _ => .pure g

theorem blind_readGlobal : Blind (readGlobal name ty) :=
  blind_globalType.bind fun _ => blind_globalSlot.bind fun _ => blind_heldIn.bind fun _ =>
    blind_convert

theorem blind_entryArguments : Blind entryArguments := by
  refine .get (fun s => ?_) fun _ => rfl
  split
  · exact .pure _
  · refine blind_zeroGlobal.bind fun argc => blind_zeroGlobal.bind fun argv => ?_
    refine .read (fun c => ?_) fun _ => rfl
    refine (Blind.emitIn (Build.blind_store.emit.bind fun _ => Build.blind_store.emit) _ _).bind
      fun _ => ?_
    exact .bind (.modify fun _ => rfl) fun _ => .pure (argc, argv)

theorem blind_argumentCount : Blind argumentCount :=
  blind_entryArguments.bind fun _ => Build.blind_load.emit

theorem blind_argumentVector : Blind argumentVector :=
  blind_entryArguments.bind fun _ => Build.blind_load.emit

theorem blind_assignTarget {n : Node} : Blind (assignTarget n) := by
  unfold assignTarget
  split
  · refine blind_typeOf.bind fun _ => blind_declare.bind fun w => ?_
    split
    · exact .fail _
    · exact .pure _
  · exact blind_fieldSlot
  · exact blind_typeOf.bind fun _ => blind_globalType.bind fun _ =>
      blind_globalSlot.bind fun _ => .pure _
  · exact .fail _

theorem blind_slotOf : Blind (slotOf name ty) := by
  refine blind_declare.bind fun w => ?_
  split
  · exact blind_irType.bind fun _ => blind_alloca.bind fun slot =>
      Build.blind_store.emit.bind fun _ => blind_bind.bind fun _ => .pure slot
  · exact .pure _

theorem blind_addressOf {n : Node} : Blind (addressOf n) := by
  unfold addressOf
  split
  · exact blind_typeOf.bind fun _ => blind_slotOf
  · exact blind_fieldSlot.bind fun _ => .pure _
  · exact blind_typeOf.bind fun _ => blind_globalType.bind fun _ =>
      blind_globalSlot.bind fun _ => .pure _
  · exact .fail _

theorem blind_pointerTo {n : Node} : Blind (pointerTo n ty) :=
  blind_addressOf.bind fun _ => blind_irType.bind fun _ => blind_coerce

/-! ### Merge points -/

section

variable {slot : Option Value} {point : BlockId} {incoming : List (Value × BlockId)} {id : TargetId}

theorem blind_mergeSlot : Blind (mergeSlot ot) := by
  cases ot with
  | none => exact .pure _
  | some t =>
    refine blind_isAddressHeld.bind fun held => ?_
    split
    · exact blind_irType.bind fun _ => blind_alloca.bind fun _ => .pure _
    · exact .pure _

theorem blind_carry : Blind (carry slot ot v source) := by
  unfold carry
  split
  · exact blind_assign.bind fun _ => .pure _
  · refine blind_types.bind fun ts => ?_
    split
    · exact .pure _
    · exact blind_convertExactly.bind fun _ => blind_currentBlock.bind fun _ => .pure _
  · exact .pure _

theorem blind_deliver : Blind (deliver point slot ot v source) := by
  refine blind_isTerminated.bind fun done => ?_
  split
  · exact .pure _
  · exact blind_carry.bind fun incoming => Build.blind_br.emit.bind fun _ => .pure _

theorem blind_arrived : Blind (arrived slot ot incoming) := by
  refine blind_carried.bind fun t => ?_
  split
  · exact .pure _
  · split
    · exact .pure _
    · exact blind_irType.bind fun _ => Build.blind_phi.emit
  · exact .pure _

theorem predecessors_unmarked (s : State) (b : BlockId) :
    s.unmarked.builder.predecessors b = s.builder.predecessors b := by
  obtain ⟨⟨m, position, location⟩, _⟩ := s
  cases position with
  | none => rfl
  | some at' =>
    show (m.unmarked.function at'.1).predecessors b = _
    rw [IR.Module.function_unmarked]
    rfl

theorem blind_merge : Blind (merge point slot ot incoming) := by
  refine blind_positionAt.bind fun _ => .get (fun s => ?_) fun s => by
    rw [predecessors_unmarked]
  split
  · exact Build.blind_unreachable.emit.bind fun _ => blind_deadValue
  · exact blind_arrived

theorem blind_asResult : Blind (asResult ot v source) := by
  refine blind_carried.bind fun t => ?_
  split
  · exact blind_convert
  · exact .pure _

theorem blind_addTarget : Blind (addTarget point ot slot) := fun _ _ => rfl

theorem blind_target : Blind (Gen.target id) := .ask (fun _ _ => rfl) fun _ _ => rfl

theorem blind_jumpToTarget : Blind (jumpToTarget id v source) :=
  blind_target.bind fun _ => blind_deliver.bind fun _ => .modify fun _ => rfl

theorem blind_takeIncoming : Blind (takeIncoming id) :=
  blind_target.bind fun t => .bind (.modify fun _ => rfl) fun _ => .pure t.incoming

theorem blind_returnFromFunction : Blind (returnFromFunction v source) := by
  refine .get (fun s => ?_) fun _ => rfl
  dsimp only
  split
  · exact Build.blind_ret.emit
  · refine blind_isAddressHeld.bind fun held => ?_
    split
    · exact blind_orFail.bind fun _ => blind_assign.bind fun _ =>
        Build.blind_load.emit.bind fun _ => Build.blind_ret.emit
    · exact blind_convertExactly.bind fun _ => Build.blind_ret.emit

end

/-! ### Functions and calls -/

section

variable {d : Def} {vars : Scope} {args : List Arg} {values : List Value}

theorem blind_targetOf {id : DefId} : Blind (targetOf name id) :=
  .read (fun _ => blind_orFail) fun _ => rfl

theorem blind_ownCopy : Blind (ownCopy name ty v) :=
  blind_irType.bind fun _ => blind_alloca.bind fun _ => blind_copyHeld.bind fun _ => .pure _

theorem blind_receiverVariable : Blind (receiverVariable ty v) := by
  refine blind_isAddressHeld.bind fun held => ?_
  split
  · exact blind_ownCopy
  · exact .pure _

theorem blind_argumentVariable : Blind (argumentVariable name ty v) := by
  refine blind_isAddressHeld.bind fun held => ?_
  split
  · exact blind_ownCopy
  · exact blind_irType.bind fun _ => blind_alloca.bind fun _ => blind_storeCoerced.bind fun _ =>
      .pure _

theorem blind_argumentScope : Blind (argumentScope d vars args values) := by
  induction args generalizing vars values with
  | nil => exact .pure _
  | cons a args ih =>
    cases values with
    | nil => exact .fail _
    | cons value values => exact blind_argumentVariable.bind fun _ => ih

theorem blind_parameterScope : Blind (parameterScope d ot values) := by
  unfold parameterScope
  split
  · exact .fail _
  · exact blind_receiverVariable.bind fun _ => blind_argumentScope
  · exact blind_argumentScope

theorem blind_functionActivation : Blind (functionActivation d ot) := by
  unfold functionActivation
  dsimp only
  split
  · exact .bind (.pure _) fun _ => .pure _
  · exact blind_parameterScope.bind fun _ => .pure _

/-- The debug record of a function is taken away with the others. -/
theorem blind_noteSubprogram {func : FuncId} {line : Nat} : Blind (noteSubprogram name func line) :=
  fun _ _ => rfl

theorem blind_declareFunction : Blind (declareFunction name d ot) :=
  blind_types.bind fun _ => Build.blind_declareFunction.emit.bind fun func =>
    blind_noteSubprogram.bind fun _ => .pure func

theorem blind_enterFunction {func : FuncId} : Blind (enterFunction func d) := by
  refine Build.blind_appendBlock.emit.bind fun slots => Build.blind_appendBlock.emit.bind fun body => ?_
  refine .bind (.modify fun _ => rfl) fun _ => Build.blind_positionAt.emit.bind fun _ => ?_
  split
  · refine blind_isAddressHeld.bind fun held => ?_
    split
    · exact blind_irType.bind fun _ => blind_alloca.bind fun _ => .modify fun _ => rfl
    · exact .pure _
  · exact .pure _

theorem Blind.aside {x : Gen α} (hx : Blind x) : Blind (aside x) :=
  .get (fun _ => hx.attempt.bind fun _ => .bind (.modify fun _ => rfl) fun _ =>
    blind_restorePosition.bind fun _ => .resume _) fun _ => rfl

theorem blind_coerceAll {ts : List Ty} : Blind (coerceAll ts values) := by
  induction ts generalizing values with
  | nil => exact .pure _
  | cons t ts ih =>
    cases values with
    | nil => exact .pure _
    | cons value values => exact blind_coerce.bind fun _ => ih.bind fun _ => .pure _

theorem blind_callResult : Blind (callResult v ot) := by
  cases ot with
  | none => exact blind_nil.bind fun _ => .pure _
  | some t =>
    refine blind_isAddressHeld.bind fun held => ?_
    split
    · exact blind_irType.bind fun _ => blind_alloca.bind fun _ =>
        Build.blind_store.emit.bind fun _ => .pure _
    · exact .pure _

theorem blind_noteCall : Blind (noteCall d ot v) := by
  cases v with
  | inst id => exact .modify fun _ => rfl
  | _ => exact .pure _

theorem blind_receiverType {k : Call Node} : Blind (receiverType k) := by
  unfold receiverType
  split
  · exact blind_typeOf.bind fun _ => .pure _
  · exact .pure _

theorem blind_operandOf : Blind (Operand.of v ty) := by
  refine blind_shape.bind fun shape => ?_
  split
  · exact blind_loadTag.bind fun _ => .pure _
  · exact blind_loadTag.bind fun _ => .pure _
  · exact .pure _
  · exact .pure _

theorem blind_admits {o : Operand} : Blind (admits ty o) := by
  refine blind_shape.bind fun shape => ?_
  split
  · exact .pure _
  · refine blind_types.bind fun ts => ?_
    split
    · exact blind_isNull
    · exact blind_isNotNull
  · exact blind_tagBelongs

theorem blind_guard {self : Option Operand} {args : List Operand} : Blind (guard d self args) :=
  blind_types.bind fun _ =>
    .foldlM (fun _ _ => blind_admits.bind fun _ => Build.blind_and.emit) _ _

theorem blind_shapedArguments {args : List Operand} (passed : List Value) : Blind (do
    let args ← (args.zip d.args).mapM fun (o, p) => convert o.value o.type p.type
    return passed ++ args : Gen (List Value)) :=
  .bind (.mapM (fun _ => blind_convert) _) fun _ => .pure _

theorem blind_shaped {self : Option Operand} {args : List Operand} :
    Blind (shaped d ot self args) := by
  unfold shaped
  split
  · exact blind_convert.bind fun _ => .bind (.pure _) blind_shapedArguments
  · exact blind_implicitSelf.bind fun _ => .bind (.pure _) blind_shapedArguments
  · exact .bind (.pure _) blind_shapedArguments

end

/-! ### Texts, numbers and primitives -/

section

variable {d : Def} {bits : Nat} {unsigned : Bool} {op : BinaryPrimitive} {n m : NumberClass}

theorem blind_stringGlobal : Blind (stringGlobal name) := by
  refine .get (fun s => ?_) fun _ => rfl
  split
  · exact .pure _
  · exact .get (fun _ => Build.blind_addGlobal.emit.bind fun g => .bind (.modify fun _ => rfl)
      fun _ => .pure g) fun _ => rfl

theorem blind_stringValue : Blind (stringValue name) := blind_stringGlobal.bind fun _ => .pure _

theorem blind_prepareSymbols : Blind prepareSymbols := by
  refine .read (fun c => ?_) fun _ => rfl
  dsimp only
  split
  · exact .pure _
  · refine .bind (.mapM (fun _ => blind_stringGlobal.bind fun _ => .pure _) _) fun texts => ?_
    exact .get (fun _ => Build.blind_addGlobal.emit.bind fun g => .bind (.modify fun _ => rfl)
      fun _ => blind_note) fun _ => rfl

theorem blind_symbolValue : Blind (symbolValue name) :=
  .read (fun _ => blind_orFail.bind fun _ => .pure _) fun _ => rfl

theorem blind_symbolText : Blind (symbolText v) :=
  .get (fun _ => blind_orFail.bind fun _ => Build.blind_cast.emit.bind fun _ =>
    Build.blind_gep.emit.bind fun _ => Build.blind_load.emit) fun _ => rfl

theorem blind_resize {source : Nat} : Blind (resize v source unsigned bits t) := by
  unfold resize
  split
  · exact .pure v
  · split
    · exact Build.blind_cast.emit
    · split
      · exact Build.blind_cast.emit
      · exact Build.blind_cast.emit

theorem blind_numericCast : Blind (numericCast v source target) := by
  refine blind_types.bind fun ts => ?_
  dsimp only
  split
  · exact blind_resize
  · exact Build.blind_cast.emit
  · exact Build.blind_cast.emit
  · exact Build.blind_cast.emit
  · exact Build.blind_cast.emit
  · exact .pure v
  · exact .fail _

theorem blind_toInt64 : Blind (toInt64 v ty) := by
  refine blind_types.bind fun ts => ?_
  split
  · split
    · exact .pure v
    · exact Build.blind_cast.emit
  · exact blind_typeName.bind fun _ => .fail _

theorem blind_toFloat {double : Bool} : Blind (toFloat v n double) := by
  unfold toFloat
  dsimp only
  split
  · exact Build.blind_cast.emit
  · split
    · exact .pure v
    · exact Build.blind_cast.emit

theorem blind_combineInts : Blind (combineInts op v u) := by
  unfold combineInts
  split
  · exact Build.blind_binary.emit
  · exact Build.blind_icmp.emit

theorem blind_combineFloats : Blind (combineFloats op v u) := by
  unfold combineFloats
  split
  · exact Build.blind_binary.emit
  · exact Build.blind_fcmp.emit
  · exact .fail _

theorem blind_combineNumbers : Blind (combineNumbers op v source u target n m) := by
  unfold combineNumbers
  split
  · exact blind_types.bind fun _ => blind_numericCast.bind fun _ =>
      blind_numericCast.bind fun _ => blind_combineInts
  · exact blind_toFloat.bind fun _ => blind_toFloat.bind fun _ => blind_combineFloats

theorem blind_asReturned : Blind (asReturned v source ot) := by
  cases ot with
  | none => exact .pure v
  | some t =>
    refine blind_types.bind fun ts => ?_
    split
    · exact .pure v
    · refine Build.blind_typeOf.emit.bind fun given => ?_
      split
      · exact .pure v
      · exact blind_numericCast

theorem blind_combine : Blind (combine op v source u target ot) := by
  refine blind_types.bind fun ts => ?_
  split
  · exact blind_combineNumbers.bind fun _ => blind_asReturned
  · exact .fail _

theorem blind_receiver : Blind receiver :=
  blind_lookup?.bind fun _ => blind_orFail.bind fun _ => .pure _

theorem blind_argument {index : Nat} : Blind (argument d index) := by
  unfold argument
  split
  · exact blind_lookup?.bind fun _ => blind_orFail.bind fun _ => .pure _
  · exact .bind (.pure none) fun _ => blind_orFail.bind fun _ => .pure _

theorem blind_returned : Blind (returned d) := blind_orFail

theorem blind_elementOf : Blind (elementOf ty) := by
  refine blind_types.bind fun ts => ?_
  split
  · exact .pure _
  · exact blind_typeName.bind fun _ => .fail _

theorem blind_receiverField : Blind (receiverField name) :=
  blind_receiver.bind fun _ => blind_typeName.bind fun _ => blind_fieldOf

theorem blind_scaled : Blind (scaled v ty) := blind_irType.bind fun _ => Build.blind_binary.emit

theorem blind_zeroFill : Blind (zeroFill p v) :=
  blind_runtimeFunction.bind fun _ => Build.blind_bitcast.emit.bind fun _ =>
    Build.blind_call.emit.bind fun _ => .pure _

theorem blind_allocateObject : Blind (allocateObject d) :=
  blind_types.bind fun _ => blind_returned.bind fun _ => Build.blind_malloc.emit.bind fun _ =>
    blind_zeroFill.bind fun _ => .pure _

theorem blind_allocateElements : Blind (allocateElements d) :=
  blind_returned.bind fun _ => blind_elementOf.bind fun _ => blind_argument.bind fun _ =>
    blind_toInt64.bind fun _ => blind_irType.bind fun _ =>
      Build.blind_arrayMalloc.emit.bind fun _ => blind_scaled.bind fun _ =>
        blind_zeroFill.bind fun _ => .pure _

theorem blind_reallocateElements : Blind (reallocateElements d) :=
  blind_receiver.bind fun _ => blind_elementOf.bind fun _ => blind_argument.bind fun _ =>
    blind_toInt64.bind fun _ => blind_scaled.bind fun _ =>
      blind_runtimeFunction.bind fun _ => Build.blind_bitcast.emit.bind fun _ =>
        Build.blind_call.emit.bind fun _ => blind_irType.bind fun _ => Build.blind_bitcast.emit

theorem blind_copyElements : Blind (copyElements d) :=
  blind_receiver.bind fun _ => blind_elementOf.bind fun _ => blind_argument.bind fun _ =>
    blind_argument.bind fun _ => blind_toInt64.bind fun _ => blind_scaled.bind fun _ =>
      blind_runtimeFunction.bind fun _ => Build.blind_bitcast.emit.bind fun _ =>
        Build.blind_bitcast.emit.bind fun _ => Build.blind_call.emit.bind fun _ => .pure _

theorem blind_primitiveBody {prim : Primitive} : Blind (primitiveBody d prim) := by
  cases prim with
  | binary op =>
    exact blind_receiver.bind fun _ => blind_argument.bind fun _ => blind_combine
  | convert =>
    exact blind_receiver.bind fun _ => blind_returned.bind fun _ => blind_numericCast
  | allocate => exact blind_allocateObject
  | structAlloc => exact blind_allocateObject
  | structGet field => exact blind_receiverField.bind fun _ => blind_heldIn
  | structSet field =>
    exact blind_receiver.bind fun _ => blind_argument.bind fun _ => blind_typeName.bind fun _ =>
      blind_fieldOf.bind fun _ => blind_assign.bind fun _ => .pure _
  | pointerMalloc => exact blind_allocateElements
  | pointerRealloc => exact blind_reallocateElements
  | pointerGetValue =>
    exact blind_receiver.bind fun _ => blind_elementOf.bind fun _ => blind_heldIn
  | pointerSetValue =>
    exact blind_receiver.bind fun _ => blind_elementOf.bind fun _ => blind_argument.bind fun _ =>
      blind_assign.bind fun _ => .pure _
  | pointerAdd =>
    exact blind_receiver.bind fun _ => blind_argument.bind fun _ => blind_toInt64.bind fun _ =>
      Build.blind_gep.emit
  | pointerCast =>
    exact blind_receiver.bind fun _ => blind_returned.bind fun _ => blind_irType.bind fun _ =>
      Build.blind_bitcast.emit
  | pointerCopyFrom => exact blind_copyElements
  | pointerAddress => exact blind_receiver.bind fun _ => Build.blind_ptrToInt.emit
  | symbolToString => exact blind_receiver.bind fun _ => blind_symbolText

theorem blind_primitive {prim : Primitive} : Blind (primitive prim) :=
  .get (fun _ => blind_orFail.bind fun _ => blind_note.bind fun _ => blind_primitiveBody)
    fun _ => rfl

end

end

end Gen

end Lowering
