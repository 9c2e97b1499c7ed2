import Lowering.Gen.Visit
import Lowering.Proofs.Agreement
import Lowering.Proofs.Elements
import Lowering.Proofs.Function

/-!
# Functions of primitives

The function that is made for a definition whose body is a primitive has a block for the slot of
what it returns, if that is held by address, and a block for the rest.

* `Gen.Made`: a function made for a definition, in a module in which the runtime is linked;
* `Gen.SamePlacing`: states that place code alike;
* `Gen.exists_filling_of_make`: the steps by which the body of such a function was emitted;
* `Gen.Made.exists_outcome`: a call of it comes to what its body comes to.
-/

namespace Lowering.Gen

open IR (Ty Value FuncId BlockId InstId InstKind Inst Build Module)
open Exec (RtValue Fault Memory baseAddress)
open Exec.Run (Frame Returns Stops)

variable {α : Type} {c : Context} {s s₁ s₂ s' : State} {d : Def} {selfType : Option TypeId}
  {op : Primitive} {f : FuncId} {m : Module} {n : Node} {v : Value}

/-- A function that was made for a definition that is not foreign, in a later module in which the
runtime is linked. -/
structure Made (c : Context) (m : Module) (d : Def) (selfType : Option TypeId) (f : FuncId) :
    Prop where
  internal : d.external = none
  made : ∃ depth name s s',
    Gives (makeFunction (visit depth) name d selfType) c s f s' ∧ Linked s' m

/-! ### Between the steps of a body -/

/-- Two states that place code alike. -/
structure SamePlacing (s s' : State) : Prop where
  position : s'.builder.position = s.builder.position
  act : s'.act = s.act
  fn : s'.fn = s.fn
  definition : s'.definition = s.definition
  registry : s'.registry = s.registry

theorem SamePlacing.refl (s : State) : SamePlacing s s := ⟨rfl, rfl, rfl, rfl, rfl⟩

theorem SamePlacing.trans (h : SamePlacing s s₁) (h' : SamePlacing s₁ s') : SamePlacing s s' :=
  ⟨h'.position.trans h.position, h'.act.trans h.act, h'.fn.trans h.fn,
    h'.definition.trans h.definition, h'.registry.trans h.registry⟩

theorem SamePlacing.module (h : SamePlacing s s') : s'.builder.module = s.builder.module :=
  (registry_eq h.registry).1

theorem SamePlacing.runtime (h : SamePlacing s s') : s'.runtime = s.runtime :=
  (registry_eq h.registry).2.1

theorem samePlacing_note {level : Log.Level} {message : String} {a : Unit}
    (h : Gives (note level message) c s a s') : SamePlacing s s' := by
  rw [gives_modify h]
  exact ⟨rfl, rfl, rfl, rfl, rfl⟩

theorem samePlacing_setLocation {l : Option Location} {a : Unit}
    (h : Gives (emit (Build.setLocation l)) c s a s') : SamePlacing s s' := by
  rw [(gives_emit h).2]
  exact ⟨rfl, rfl, rfl, rfl, rfl⟩

theorem gives_atLocation {x : Gen α} {a : α} (h : Gives (atLocation n x) c s a s') :
    ∃ s₁ s₂, SamePlacing s s₁ ∧ Gives x c s₁ a s₂ ∧ SamePlacing s₂ s' := by
  unfold atLocation at h
  have h := gives_after (show Gives read c s c s from rfl) h
  cases hd : c.debugInfo with
  | false =>
    rw [hd] at h
    exact ⟨s, s', .refl s, h, .refl s'⟩
  | true =>
    rw [hd, if_pos rfl] at h
    have h := gives_after (show Gives get c s s s from rfl) h
    dsimp only at h
    split at h
    · obtain ⟨⟨⟩, s₁, hset, h⟩ := gives_bind.mp h
      obtain ⟨s₂, hx, hback⟩ := gives_attempt h
      exact ⟨s₁, s₂, samePlacing_setLocation hset, hx, samePlacing_setLocation hback⟩
    · obtain ⟨s₂, hx, hback⟩ := gives_attempt h
      exact ⟨s, s₂, .refl s, hx, samePlacing_setLocation hback⟩

/-- An expression is made of those inside it in a state alike. -/
theorem gives_visit_succ {depth : Nat} (h : Gives (visit (depth + 1) n) c s v s') :
    ∃ s₁ s₂, SamePlacing s s₁ ∧ Gives (visitWith (visit depth) n) c s₁ v s₂ ∧ SamePlacing s₂ s' := by
  unfold visit at h
  obtain ⟨⟨⟩, s₁, hnote, h⟩ := gives_bind.mp h
  obtain ⟨v₁, s₂, hx, h⟩ := gives_bind.mp h
  obtain ⟨⟨⟩, s₃, hrecord, h⟩ := gives_bind.mp h
  obtain ⟨rfl, rfl⟩ := gives_pure.mp h
  obtain ⟨s₄, s₅, h₄, hx, h₅⟩ := gives_atLocation (gives_located hx)
  refine ⟨s₄, s₅, (samePlacing_note hnote).trans h₄, hx, h₅.trans ?_⟩
  rw [gives_modify hrecord]
  exact ⟨rfl, rfl, rfl, rfl, rfl⟩

/-- A primitive that is visited is emitted in a state alike. -/
theorem gives_visit {depth : Nat} (hn : n.kind = .primitive op) (hd : s.definition = some d)
    (h : Gives (visit depth n) c s v s') :
    ∃ s₁ s₂, SamePlacing s s₁ ∧ Gives (primitiveBody d op) c s₁ v s₂ ∧ SamePlacing s₂ s' := by
  cases depth with
  | zero => exact absurd h not_gives_fail
  | succ depth =>
    obtain ⟨s₁, s₂, h₁, hbody, h₂⟩ := gives_visit_succ h
    unfold visitWith at hbody
    simp only [hn] at hbody
    have hbody := gives_after (show Gives get c s₁ s₁ s₁ from rfl) hbody
    rw [h₁.definition, hd] at hbody
    have hbody := gives_after (show Gives (orFail .primitiveOutside (some d)) c s₁ d s₁ from rfl) hbody
    obtain ⟨⟨⟩, s₃, hnote, hbody⟩ := gives_bind.mp hbody
    exact ⟨s₃, s₂, h₁.trans (samePlacing_note hnote), hbody, h₂⟩

theorem gives_functionBody {depth : Nat} {t : TypeId} {a : Unit} (hop : d.primitive? = some op)
    (htype : d.type = some t) (hd : s.definition = some d)
    (h : Gives (functionBody (visit depth) d) c s a s') :
    ∃ v s₁ s₂ s₃, SamePlacing s s₁ ∧ Gives (primitiveBody d op) c s₁ v s₂ ∧ SamePlacing s₂ s₃ ∧
      Gives (do if ← isTerminated then return () else returnFromFunction v t) c s₃ a s' := by
  obtain ⟨n, hbody, hkind⟩ : ∃ n, d.body = some n ∧ n.kind = .primitive op := by
    unfold Def.primitive? at hop
    split at hop
    · rename_i hb
      exact ⟨_, hb, by rw [← Option.some.inj hop]⟩
    · cases hop
  unfold functionBody at h
  rw [hbody] at h
  obtain ⟨⟨v, source⟩, s₃, hoperand, h⟩ := gives_bind.mp h
  obtain ⟨v', s₄, hvisit, hpair⟩ := gives_bind.mp hoperand
  have hpair := gives_after (show Gives (typeOf n) c s₄ (n.type.getD c.nil) s₄ from rfl) hpair
  obtain ⟨he, rfl⟩ := gives_pure.mp hpair
  obtain ⟨rfl, -⟩ := Prod.mk.inj he
  obtain ⟨s₁, s₂, h₁, hx, h₂⟩ := gives_visit hkind hd hvisit
  have hprimitive : d.isPrimitive = true := by rw [Def.isPrimitive, hop]; rfl
  refine ⟨v, s₁, s₂, s₃, h₁, hx, h₂, ?_⟩
  simpa only [hprimitive, if_true, htype, Option.getD_some] using h

/-! ### The start of a function -/

/-- A function that was just declared. -/
structure Fresh (c : Context) (s : State) (d : Def) (selfType : Option TypeId) (f : FuncId) :
    Prop where
  inside : f.index < s.builder.module.functions.size
  blocks : (s.func f).blocks = #[]
  insts : (s.func f).insts = #[]
  params : (s.func f).params.map IR.Param.type =
    (parameters d selfType).map fun p => c.program.types.argType p.2

theorem fresh_of_gives {name : String} (h : Gives (declareFunction name d selfType) c s f s') :
    Fresh c s' d selfType f := by
  unfold declareFunction at h
  have h := gives_after (show Gives types c s c.program.types s from rfl) h
  obtain ⟨g, s₁, hdeclare, h⟩ := gives_bind.mp h
  obtain ⟨hg, hs₁⟩ := gives_emit hdeclare
  obtain ⟨⟨⟩, s₂, hnote, h⟩ := gives_bind.mp h
  obtain ⟨rfl, rfl⟩ := gives_pure.mp h
  -- the debug record of the module does not matter
  have hfunctions : s'.builder.module.functions = s₁.builder.module.functions := by
    rw [(gives_emit hnote).2]
    rfl
  obtain ⟨fn, hadded, hblocks, hinsts, hparams⟩ : ∃ fn : IR.Function,
      s₁.builder.module = s.builder.module.addFunction fn ∧ fn.blocks = #[] ∧ fn.insts = #[] ∧
        fn.params.map IR.Param.type =
          (parameters d selfType).map fun p => c.program.types.argType p.2 :=
    ⟨_, congrArg (fun s => s.builder.module) hs₁, rfl, rfl, by rw [List.map_map]; rfl⟩
  have hnew : f = s.builder.module.nextFunction := hg
  have hfunc : s'.func f = fn := by
    rw [State.func, Module.function, hfunctions, hnew, hadded]
    exact Module.function_addFunction_self _ _
  refine ⟨?_, hfunc ▸ hblocks, hfunc ▸ hinsts, hfunc ▸ hparams⟩
  rw [hfunctions, hadded, hnew]
  simp [Module.addFunction, Module.nextFunction]

/-- The type of what a function puts its result together in. -/
def slotType? (ts : TypeTable) (d : Def) : Option Ty :=
  (d.type.filter ts.isAddressHeld).map ts.irType

/-- A function that was opened: its slots are in the first block, and code is placed in the second
one. -/
structure Opened (c : Context) (s : State) (d : Def) (selfType : Option TypeId) (f : FuncId) :
    Prop where
  position : s.builder.position = some (f, ⟨1⟩)
  inside : s.Has f ⟨0⟩ ∧ s.Has f ⟨1⟩
  isOpen : (s.block f ⟨0⟩).term = none ∧ (s.block f ⟨1⟩).term = none
  empty : (s.block f ⟨1⟩).insts = #[]
  params : (s.func f).params.map IR.Param.type =
    (parameters d selfType).map fun p => c.program.types.argType p.2
  definition : s.definition = some d
  func : s.fn.func = f ∧ s.fn.allocaBlock = ⟨0⟩ ∧ s.fn.entryBlock = ⟨1⟩
  returnType : s.fn.returnType = d.type
  returnSlot : s.fn.returnSlot = (slotType? c.program.types d).map fun _ => .inst ⟨0⟩
  slots : (s.block f ⟨0⟩).insts = ((slotType? c.program.types d).map fun _ => (⟨0⟩ : InstId)).toArray
  insts : (s.func f).insts = ((slotType? c.program.types d).map fun ty =>
    (⟨.alloca ty, .ptr ty, some "return", s.builder.location⟩ : Inst)).toArray

theorem gives_alloca {ty : Ty} {name : Option String}
    (hopen : (s.block s.fn.func s.fn.allocaBlock).term = none)
    (h : Gives (alloca ty name) c s v s') : v = .inst ⟨(s.func s.fn.func).insts.size⟩ ∧
      s' = s.withModule (s.builder.module.modifyFunction s.fn.func
        (Build.placed s.fn.allocaBlock ⟨.alloca ty, .ptr ty, name, s.builder.location⟩)) := by
  unfold alloca at h
  have h := gives_after (show Gives get c s s s from rfl) h
  obtain ⟨rfl, rfl⟩ := gives_emit h
  have hterm : s.builder.blockTerminated s.fn.func s.fn.allocaBlock = false := by
    rw [IR.Builder.blockTerminated, ← State.func, ← State.block, hopen]
    rfl
  have hpush : @Eq (Value × IR.Builder) (Build.pushInto s.fn.func s.fn.allocaBlock (.alloca ty)
      (.ptr ty) name s.builder) _ := pushInto_open hterm
  exact ⟨congrArg Prod.fst hpush, congrArg (fun p => { s with builder := p.2 }) hpush⟩

theorem opened_of_gives {a : Unit} (hf : Fresh c s d selfType f)
    (h : Gives (enterFunction f d) c s a s') : Opened c s' d selfType f := by
  obtain ⟨n₀, n₁, h⟩ := gives_begin hf.inside hf.blocks h
  have hfunc : (s.entered f d n₀ n₁ s.act).func f =
      { s.func f with blocks := #[{ name := n₀ }, { name := n₁ }] } := by
    rw [State.func, State.entered]
    refine (Module.function_modifyFunction_self hf.inside).trans ?_
    show IR.Function.withBlock { s.func f with blocks := (s.func f).blocks.push _ } _ = _
    rw [IR.Function.withBlock, hf.blocks]
    rfl
  have hinside : f.index < (s.entered f d n₀ n₁ s.act).builder.module.functions.size := by
    simpa [State.entered] using hf.inside
  have hbare : slotType? c.program.types d = none → Opened c (s.entered f d n₀ n₁ s.act) d selfType f :=
    fun hslot => by
      refine ⟨rfl, ?_, ?_, ?_, ?_, rfl, ⟨rfl, rfl, rfl⟩, rfl, ?_, ?_, ?_⟩
      all_goals simp only [State.Has, State.block, hfunc, hslot]
      · exact ⟨by simp [IR.Function.HasBlock], by simp [IR.Function.HasBlock]⟩
      · exact ⟨rfl, rfl⟩
      · rfl
      · exact hf.params
      · rfl
      · rfl
      · exact hf.insts
  cases ht : d.type with
  | none =>
    rw [ht] at h
    obtain ⟨-, rfl⟩ := gives_pure.mp h
    exact hbare (by rw [slotType?, ht]; rfl)
  | some t =>
    simp only [ht] at h
    have h := gives_after (show Gives (isAddressHeld t) c (s.entered f d n₀ n₁ s.act)
      (c.program.types.isAddressHeld t) _ from rfl) h
    split at h
    · rename_i hheld
      have hslot : slotType? c.program.types d = some (c.program.types.irType t) := by
        rw [slotType?, ht, Option.filter_some, if_pos hheld]
        rfl
      have h := gives_after (show Gives (irType t) c (s.entered f d n₀ n₁ s.act)
        (c.program.types.irType t) _ from rfl) h
      obtain ⟨slot, s₁, halloca, h⟩ := gives_bind.mp h
      cases gives_modify h
      obtain ⟨rfl, rfl⟩ := gives_alloca (by
        show ((State.func (s.entered f d n₀ n₁ s.act) f).block ⟨0⟩).term = none
        rw [hfunc]
        rfl) halloca
      let fn : IR.Function := { s.func f with blocks := #[{ name := n₀ }, { name := n₁ }] }
      have hplaced : ∀ s₂ : State, s₂.builder.module =
          (s.entered f d n₀ n₁ s.act).builder.module.modifyFunction f (Build.placed ⟨0⟩ ⟨.alloca
            (c.program.types.irType t), .ptr (c.program.types.irType t), some "return",
            (s.entered f d n₀ n₁ s.act).builder.location⟩) →
          s₂.func f = Build.placed ⟨0⟩ ⟨.alloca (c.program.types.irType t),
            .ptr (c.program.types.irType t), some "return", s.builder.location⟩ fn := by
        intro s₂ hs₂
        rw [State.func, hs₂, Module.function_modifyFunction_self hinside, ← State.func, hfunc]
        rfl
      have h0 : fn.HasBlock ⟨0⟩ := by simp [IR.Function.HasBlock, fn]
      have h1 : fn.HasBlock ⟨1⟩ := by simp [IR.Function.HasBlock, fn]
      refine ⟨rfl, ?_, ?_, ?_, ?_, rfl, ⟨rfl, rfl, rfl⟩, rfl, ?_, ?_, ?_⟩
      · rw [State.Has, State.Has, hplaced _ rfl]
        exact ⟨Build.hasBlock_placed.mpr h0, Build.hasBlock_placed.mpr h1⟩
      · rw [State.block, State.block, hplaced _ rfl, Build.term_placed, Build.term_placed]
        exact ⟨rfl, rfl⟩
      · rw [State.block, hplaced _ rfl, Build.block_placed_of_ne (by decide)]
        rfl
      · rw [hplaced _ rfl, Build.params_placed]
        exact hf.params
      · have hsize : ((s.entered f d n₀ n₁ s.act).func f).insts.size = 0 := by
          rw [hfunc]
          exact congrArg Array.size hf.insts
        rw [hslot]
        exact congrArg (fun i => some (Value.inst ⟨i⟩)) hsize
      · rw [hslot, State.block, hplaced _ rfl, Build.block_placed_self h0]
        show #[].push (⟨(s.func f).insts.size⟩ : InstId) = _
        rw [hf.insts]
        rfl
      · rw [hslot, hplaced _ rfl, Build.insts_placed]
        show (s.func f).insts.push _ = _
        rw [hf.insts]
        rfl
    · rename_i hheld
      obtain ⟨-, rfl⟩ := gives_pure.mp h
      exact hbare (by rw [slotType?, ht, Option.filter_some, if_neg hheld]; rfl)

theorem Opened.under {act : Activation} {blocks : List BlockFrame} (h : Opened c s d selfType f) :
    Opened c (s.under act blocks) d selfType f :=
  ⟨h.position, h.inside, h.isOpen, h.empty, h.params, h.definition, h.func, h.returnType,
    h.returnSlot, h.slots, h.insts⟩

/-! ### The body of a function -/

/-- The steps by which the body of a function was emitted: from where it began to where the function
was left, with what its block of slots became after that. -/
structure Filling (c : Context) (m : Module) (d : Def) (selfType : Option TypeId) (f : FuncId)
    (op : Primitive) (t : TypeId) (s₀ s₁ s₂ s₃ s₄ : State) (v : Value) : Prop where
  opened : Opened c s₀ d selfType f
  vars : s₀.act.vars = primitiveScope d selfType
  before : SamePlacing s₀ s₁
  body : Gives (primitiveBody d op) c s₁ v s₂
  between : SamePlacing s₂ s₃
  rest : Gives (do if ← isTerminated then return () else returnFromFunction v t) c s₃ () s₄
  linked : ∃ s₅, s₅.builder.module =
    s₄.builder.module.modifyFunction f (Build.ended ⟨0⟩ (.br ⟨1⟩)) ∧ s₅.runtime = s₄.runtime ∧
      Linked s₅ m

/-- What a step away from the current function leaves. -/
theorem exists_of_aside {x : Gen α} {a : α} (h : Gives (aside x) c s a s') :
    ∃ s₁, Gives x c s a s₁ ∧ s'.builder.module = s₁.builder.module ∧ s'.runtime = s₁.runtime := by
  have h := gives_after (show Gives get c s s s from rfl) h
  obtain ⟨r, s₁, hx, h⟩ := gives_bind.mp h
  obtain ⟨⟨⟩, s₂, hm, h⟩ := gives_bind.mp h
  cases gives_modify hm
  obtain ⟨⟨⟩, s₃, hr, h⟩ := gives_bind.mp h
  obtain ⟨rfl, rfl⟩ := gives_resume h
  refine ⟨s₁, gives_attempted hx, ?_⟩
  unfold restorePosition at hr
  split at hr
  · obtain ⟨-, rfl⟩ := gives_emit hr
    exact ⟨rfl, rfl⟩
  · obtain ⟨-, rfl⟩ := gives_pure.mp hr
    exact ⟨rfl, rfl⟩

theorem exists_filling {depth : Nat} {t : TypeId} {a : Unit} (hop : d.primitive? = some op)
    (htype : d.type = some t) (hf : Fresh c s d selfType f)
    (h : Gives (fillFunction (visit depth) f d selfType) c s a s') (hl : Linked s' m) :
    ∃ s₀ s₁ s₂ s₃ s₄ v, Filling c m d selfType f op t s₀ s₁ s₂ s₃ s₄ v ∧ Interns s s₁ := by
  obtain ⟨s₅, h, hmodule, hruntime⟩ := exists_of_aside h
  obtain ⟨⟨⟩, sa, henter, h⟩ := gives_bind.mp h
  have hopened := opened_of_gives hf henter
  have h := gives_after (show Gives get c sa sa sa from rfl) h
  obtain ⟨r, sb, hbody, h⟩ := gives_bind.mp h
  obtain ⟨⟨⟩, sc, hposition, h⟩ := gives_bind.mp h
  obtain ⟨⟨⟩, sd, hbr, h⟩ := gives_bind.mp h
  obtain ⟨rfl, rfl⟩ := gives_resume h
  have hprimitive : d.isPrimitive = true := by rw [Def.isPrimitive, hop]; rfl
  have hbody := gives_attempted hbody
  have hact : Gives (functionActivation d selfType) c sa
      { vars := primitiveScope d selfType, scope := selfType } sa := by
    unfold functionActivation
    rw [if_pos hprimitive]
    rfl
  have hbody := gives_after hact hbody
  obtain ⟨se, hcode, rfl⟩ := gives_withActivation hbody
  have hunder : Opened c (sa.under { vars := primitiveScope d selfType, scope := selfType } sa.blocks)
    d selfType f := hopened.under
  obtain ⟨v, s₁, s₂, s₃, h₁, hx, h₂, hrest⟩ :=
    gives_functionBody hop htype hunder.definition hcode
  have hentered : Interns s sa := by
    have haway := away_enterFunction (c := c) f d s
    rw [show outcome (enterFunction f d) c s = (.ok (), sa) from henter] at haway
    exact haway.interns
  refine ⟨_, s₁, s₂, s₃, se, v, ⟨hunder, rfl, h₁, hx, h₂, hrest, s', ?_, ?_, hl⟩,
    hentered.trans (.of_eq h₁.registry)⟩
  · rw [hmodule, (gives_emit hbr).2, (gives_emit hposition).2, hopened.func.2.1, hopened.func.2.2]
    rfl
  · rw [hruntime, (gives_emit hbr).2, (gives_emit hposition).2]
    rfl

theorem exists_filling_of_make {depth : Nat} {name : String} {t : TypeId} (hd : d.external = none)
    (hop : d.primitive? = some op) (htype : d.type = some t)
    (h : Gives (makeFunction (visit depth) name d selfType) c s f s') (hl : Linked s' m) :
    ∃ s₀ s₁ s₂ s₃ s₄ v, Filling c m d selfType f op t s₀ s₁ s₂ s₃ s₄ v ∧ Interns s s₁ := by
  unfold makeFunction at h
  obtain ⟨g, sa, hdeclare, h⟩ := gives_bind.mp h
  have hfresh := fresh_of_gives hdeclare
  rw [hd] at h
  simp only [Option.isSome_none, Bool.false_eq_true, if_false] at h
  obtain ⟨⟨⟩, sb, hnote, h⟩ := gives_bind.mp h
  obtain ⟨⟨⟩, sc, hfill, h⟩ := gives_bind.mp h
  obtain ⟨rfl, rfl⟩ := gives_pure.mp h
  have hfresh : Fresh c sb d selfType f := by
    rw [gives_modify hnote]
    exact ⟨hfresh.inside, hfresh.blocks, hfresh.insts, hfresh.params⟩
  obtain ⟨s₀, s₁, s₂, s₃, s₄, v, hfilling, hinterns⟩ := Gen.exists_filling hop htype hfresh hfill hl
  have hdeclared : Interns s sa := (restores_declareFunction.gives hdeclare).1.interns
  exact ⟨s₀, s₁, s₂, s₃, s₄, v, hfilling,
    hdeclared.trans ((Interns.of_eq (samePlacing_note hnote).registry).trans hinterns)⟩

end Lowering.Gen

namespace Lowering.Exec

open IR (Ty InstId FuncId BlockId Module)

/-! ### The first block of a function -/

/-- The state behind the block of the stack slots of a function, with at most one slot. -/
def State.opened (σ : State) : Option Ty → State
  | none => σ.ticked
  | some ty => { σ with
      memory := (σ.memory.allocate ty.size).2
      slots := baseAddress σ.memory.allocations.size :: σ.slots
      steps := σ.steps + 2 }

namespace Run

/-- The frame behind the block of the stack slots of a function. -/
def Frame.opened (fr : Frame) (σ : State) : Option Ty → Frame
  | none => fr
  | some _ => fr.set ⟨0⟩ (.ptr (baseAddress σ.memory.allocations.size))

variable {m : Module} {f : FuncId} {b : BlockId} {σ : State} {fr : Frame} {slot : Option Ty}
  {call : FuncId → List RtValue → Run RtValue}

theorem returns_firstBlock
    (hinsts : ((m.function f).block ⟨0⟩).insts = (slot.map fun _ => (⟨0⟩ : InstId)).toArray)
    (hterm : ((m.function f).block ⟨0⟩).term = some (.br b))
    (hkind : ∀ ty ∈ slot, ((m.function f).inst ⟨0⟩).kind = .alloca ty)
    (hsteps : σ.steps + ((m.function f).block ⟨0⟩).insts.size + 1 ≤ σ.stepLimit) :
    Returns (block m call f fr none ⟨0⟩) σ (fr.opened σ slot, .goto b) (σ.opened slot) := by
  have hlast : ∀ fr (σ : State), σ.steps < σ.stepLimit → Returns (terminator (m.function f)
      ((m.function f).block ⟨0⟩) fr) σ (.goto b) σ.ticked := fun fr σ hs => by
    refine (returns_tick hs).bind ?_
    rw [hterm]
    exact returns_pure _ _
  cases slot with
  | none =>
    rw [hinsts] at hsteps
    unfold block
    dsimp only
    rw [hinsts]
    exact (returns_pure [] σ).bind ((returns_pure fr σ).bind ((hlast fr σ (by simpa using hsteps)).bind
      (returns_pure _ _)))
  | some ty =>
    have hkind := hkind ty rfl
    rw [hinsts] at hsteps
    have hsteps : σ.steps + 1 < σ.stepLimit := by simpa using hsteps
    have hphi : ((m.function f).inst ⟨0⟩).kind.isPhi = false := by rw [hkind]; rfl
    let σ₁ : State := { σ.ticked with
      memory := (σ.memory.allocate ty.size).2
      slots := baseAddress σ.memory.allocations.size :: σ.slots }
    have hslot : Returns (instructions m call f (m.function f) fr [⟨0⟩]) σ
        (fr.opened σ (some ty)) σ₁ := by
      refine returns_instructions_cons (x := .ptr (baseAddress σ.memory.allocations.size)) hphi
        (by omega) ?_ (returns_pure _ _)
      rw [hkind]
      rfl
    unfold block
    dsimp only
    rw [hinsts]
    refine (returns_phiValues (σ := σ) fun id hid => ?_).bind
      (hslot.bind ((hlast _ σ₁ hsteps).bind (returns_pure _ _)))
    obtain rfl : id = ⟨0⟩ := by simpa using hid
    exact hphi

/-- A block that goes on to another one. -/
theorem outcome_blocks_goto {n : Nat} {fr' : Frame} {b' : BlockId} {source : Option BlockId}
    {σ' : State} (h : Returns (block m call f fr source b) σ (fr', .goto b') σ') :
    outcome (blocks m call f (n + 1) fr source b) σ = outcome (blocks m call f n fr' (some b) b') σ' := by
  rw [blocks]
  exact bind_eq h

/-- A call of a function that has blocks. -/
theorem outcome_callWithin {n : Nat} {args : List RtValue} {r : Except Fault RtValue} {σ' : State}
    (hf : (m.function f).HasBlock ⟨0⟩)
    (h : outcome (blocks m (callWithin m n) f (n + 1)
      ⟨args, Array.replicate (m.function f).insts.size none⟩ none ⟨0⟩) { σ with slots := [] } = (r, σ')) :
    outcome (callWithin m (n + 1) f args) σ = (r, { σ' with
      memory := σ'.slots.reverse.foldl Memory.release σ'.memory
      slots := σ.slots }) := by
  have hdeclared : (m.function f).isDeclaration = false := by
    unfold IR.Function.HasBlock at hf
    simp only [IR.Function.isDeclaration, Array.isEmpty_eq_false_iff]
    intro hb
    rw [hb] at hf
    exact absurd hf (Nat.not_lt_zero _)
  rw [callWithin]
  simp only [hdeclared, Bool.false_eq_true, if_false]
  rw [outcome_withSlots, h]

end Run

end Lowering.Exec

namespace Lowering.Gen

open IR (Ty Value FuncId BlockId InstId InstKind Inst Build Module)
open Exec (RtValue Fault Memory baseAddress)
open Exec.Run (Frame Returns Stops)

variable {α : Type} {c : Context} {s s₀ s₁ s₂ s₃ s₄ s' : State} {d : Def} {selfType : Option TypeId}
  {op : Primitive} {f : FuncId} {b : BlockId} {m : Module} {v : Value} {t : TypeId} {a : Unit}

/-! ### The end of a function -/

theorem exists_return (hfn : s.fn.returnType = some t) (h : Gives (returnFromFunction v t) c s a s') :
    ∃ x : Gen Value, Adds x ∧ Gives (x >>= fun u => emit (Build.ret (some u))) c s a s' := by
  unfold returnFromFunction at h
  have h := gives_after (show Gives get c s s s from rfl) h
  simp only [hfn] at h
  have h := gives_after (show Gives (isAddressHeld t) c s (c.program.types.isAddressHeld t) s from rfl) h
  split at h
  · refine ⟨do
      let slot ← orFail .noReturnSlot s.fn.returnSlot
      assign slot t t v
      emit (Build.load slot), ?_, ?_⟩
    · exact Adds.bind (.orFail _ _) fun _ => adds_assign_self.bind fun _ => adds_load
    · simp only [bind_assoc]
      exact h
  · refine ⟨convertExactly v t t, ?_, h⟩
    have hsame : convert v t t = (pure v : Gen Value) := by rw [convert, if_pos rfl]
    unfold convertExactly
    rw [hsame, pure_bind]
    exact adds_irType.bind fun _ => adds_coerce

/-- What was added to a function up to the end of a block. -/
structure Finishes (f : FuncId) (b : BlockId) (s s' : State) : Prop where
  added : Added s.builder s'.builder
  runtime : s.runtime ⊆ s'.runtime
  ended : (s'.block f b).term.isSome

theorem finishes_of_return (hfn : s.fn.returnType = some t) (hpos : s.builder.position = some (f, b))
    (hhas : s.Has f b) (h : Gives (returnFromFunction v t) c s a s') : Finishes f b s s' := by
  obtain ⟨x, hx, h⟩ := exists_return hfn h
  obtain ⟨u, s₁, h₁, h₂⟩ := gives_bind.mp h
  have hret : Adds (emit (Build.ret (some u))) := adds_terminate
  have hadded := hx.builder c s u s₁ h₁
  have hadded' := hret.builder c s₁ a s' h₂
  refine ⟨hadded.trans hadded', List.Subset.trans (hx.runtime c s u s₁ h₁)
    (hret.runtime c s₁ a s' h₂), ?_⟩
  have hpos₁ : s₁.builder.position = some (f, b) := hadded.position.trans hpos
  have hhas₁ : s₁.Has f b :=
    (hadded.grows.function f (index_lt_of_hasBlock hhas)).hasBlock hhas
  have hret : s'.builder = { s₁.builder with
      module := s₁.builder.module.modifyFunction f (Build.ended b (.ret (some u))) } := by
    rw [(gives_emit h₂).2]
    have hend : @Eq (Unit × IR.Builder) (Build.terminate (.ret (some u)) s₁.builder) _ :=
      Build.terminate_at hpos₁
    exact congrArg Prod.snd hend
  rw [State.block, State.func, hret]
  dsimp only
  rw [Module.function_modifyFunction_self (index_lt_of_hasBlock hhas₁), Build.block_ended_self (show (s₁.builder.module.function f).HasBlock b from hhas₁)]
  cases (s₁.builder.module.function f |>.block b).term <;> rfl

theorem finishes_of_rest (hfn : s.fn.returnType = some t) (hpos : s.builder.position = some (f, b))
    (hhas : s.Has f b)
    (h : Gives (do if ← isTerminated then return () else returnFromFunction v t) c s a s') :
    Finishes f b s s' := by
  have h := gives_after (show Gives isTerminated c s s.builder.isTerminated s from rfl) h
  split at h
  · rename_i hterm
    obtain ⟨-, rfl⟩ := gives_pure.mp h
    refine ⟨.refl _, List.Subset.refl _, ?_⟩
    rwa [IR.Builder.isTerminated, hpos] at hterm
  · exact finishes_of_return hfn hpos hhas h

/-! ### The code of a function -/

/-- The code of a function of a primitive, in a module: the slot in the first block, and a plain
second one. -/
structure Laid (c : Context) (m : Module) (d : Def) (f : FuncId) : Prop where
  blocks : (m.function f).HasBlock ⟨0⟩ ∧ (m.function f).HasBlock ⟨1⟩
  insts : ((m.function f).block ⟨0⟩).insts =
    ((slotType? c.program.types d).map fun _ => (⟨0⟩ : InstId)).toArray
  term : ((m.function f).block ⟨0⟩).term = some (.br ⟨1⟩)
  kind : ∀ ty ∈ slotType? c.program.types d, ((m.function f).inst ⟨0⟩).kind = .alloca ty
  plain : (m.function f).Plain ⟨1⟩

namespace Filling

variable (h : Filling c m d selfType f op t s₀ s₁ s₂ s₃ s₄ v) (hadds : AddsFrom c s₁ (primitiveBody d op))
  (htype : d.type = some t)
include h hadds htype

theorem finishes : Finishes f ⟨1⟩ s₃ s₄ := by
  have hbody := hadds.builder v s₂ h.body
  refine finishes_of_rest ?_ ?_ ?_ h.rest
  · rw [h.between.fn, hadds.fn v s₂ h.body, h.before.fn, h.opened.returnType, htype]
  · rw [h.between.position, hbody.position, h.before.position, h.opened.position]
  · have hhas : s₁.Has f ⟨1⟩ := by
      rw [State.Has, State.func, h.before.module]
      exact h.opened.inside.2
    rw [State.Has, State.func, h.between.module]
    exact (hbody.grows.function f (index_lt_of_hasBlock hhas)).hasBlock hhas

theorem added : Added s₀.builder s₄.builder := by
  have hsame : ∀ {s s' : State}, SamePlacing s s' → Added s.builder s'.builder := fun hs =>
    ⟨by rw [hs.module]; exact .refl _, by rw [hs.module]; exact fun _ _ h => h, hs.position,
      fun _ _ _ => by rw [hs.module]⟩
  exact (hsame h.before).trans ((hadds.builder v s₂ h.body).trans
    ((hsame h.between).trans (h.finishes hadds htype).added))

omit hadds htype in
theorem linkedLast : Linked s₄ m := by
  obtain ⟨s₅, hmodule, hruntime, hl⟩ := h.linked
  refine ⟨Module.Grows.trans ?_ hl.under, fun p hp => hl.name p (hruntime ▸ hp),
    fun p hp => hl.declared p (hruntime ▸ hp)⟩
  rw [hmodule]
  exact .modifyFunction fun _ => .ended

theorem laid : Laid c m d f := by
  have hadded := h.added hadds htype
  obtain ⟨s₅, hmodule, hruntime, hl⟩ := h.linked
  have hin := index_lt_of_hasBlock h.opened.inside.1
  have hg : (s₀.func f).Grows (s₄.func f) := hadded.grows.function f hin
  have h0 : s₄.Has f ⟨0⟩ := hg.hasBlock h.opened.inside.1
  have h1 : s₄.Has f ⟨1⟩ := hg.hasBlock h.opened.inside.2
  have hlt : f.index < s₄.builder.module.functions.size := index_lt_of_hasBlock h0
  have hfunc : s₅.func f = Build.ended ⟨0⟩ (.br ⟨1⟩) (s₄.func f) := by
    rw [State.func, hmodule, Module.function_modifyFunction_self hlt]
    rfl
  have hgrow : (s₅.func f).Grows (m.function f) :=
    hl.under.function f (by rw [hmodule]; simpa using hlt)
  have h0' : (s₅.func f).HasBlock ⟨0⟩ := hfunc ▸ Build.hasBlock_ended.mpr h0
  have h1' : (s₅.func f).HasBlock ⟨1⟩ := hfunc ▸ Build.hasBlock_ended.mpr h1
  -- the block of the slots was left alone while the body was emitted
  have hfirst : s₄.block f ⟨0⟩ = s₀.block f ⟨0⟩ :=
    hadded.apart f ⟨0⟩ (by rw [h.opened.position]; simp)
  have hblock : (m.function f).block ⟨0⟩ =
      { s₀.block f ⟨0⟩ with term := some (.br ⟨1⟩) } := by
    have hended : (s₅.func f).block ⟨0⟩ = { s₀.block f ⟨0⟩ with term := some (.br ⟨1⟩) } := by
      rw [hfunc, Build.block_ended_self h0, ← State.block, hfirst, h.opened.isOpen.1]
      rfl
    rw [(hgrow.block ⟨0⟩ h0').frozen (by rw [hended]; rfl), hended]
  refine ⟨⟨hgrow.hasBlock h0', hgrow.hasBlock h1'⟩, ?_, ?_, fun ty hty => ?_, ?_⟩
  · rw [hblock]
    exact h.opened.slots
  · rw [hblock]
  · have hinsts : (s₀.func f).inst ⟨0⟩ = ⟨.alloca ty, .ptr ty, some "return", s₀.builder.location⟩ := by
      rw [IR.Function.inst, h.opened.insts, Option.mem_def.mp hty]
      rfl
    have hlt : (⟨0⟩ : InstId).index < (s₀.func f).insts.size := by
      rw [h.opened.insts, Option.mem_def.mp hty]
      exact Nat.zero_lt_one
    have hg₅ : (s₀.func f).Grows (s₅.func f) := hfunc ▸ hg.trans .ended
    rw [(hg₅.trans hgrow).inst_eq hlt, hinsts]
  · have hplain : (s₄.func f).Plain ⟨1⟩ :=
      hadded.plain f ⟨1⟩ (IR.Function.plain_of_insts h.opened.empty)
    have hplain : (s₅.func f).Plain ⟨1⟩ := hfunc ▸ hplain.ended
    refine hplain.frozen hgrow h1' ?_
    rw [hfunc, Build.block_ended_of_ne (by decide)]
    exact (h.finishes hadds htype).ended

end Filling

/-! ### Runs of a function -/

/-- The steps that the blocks of a function take, when no other functions are called. -/
def cost (fn : IR.Function) : Nat := (fn.blocks.toList.map fun b => b.insts.size + 1).sum

theorem le_cost {fn : IR.Function} (h : fn.HasBlock ⟨0⟩ ∧ fn.HasBlock ⟨1⟩) :
    ((fn.block ⟨0⟩).insts.size + 1) + ((fn.block ⟨1⟩).insts.size + 1) ≤ cost fn := by
  obtain ⟨h0, h1⟩ := h
  unfold IR.Function.HasBlock at h0 h1
  obtain ⟨l, hl⟩ : ∃ l, fn.blocks.toList = l := ⟨_, rfl⟩
  have hlen : 1 < l.length := by rw [← hl, Array.length_toList]; exact h1
  match l, hlen with
  | b₀ :: b₁ :: rest, _ =>
    have hb : ∀ i : Nat, fn.block ⟨i⟩ = ((b₀ :: b₁ :: rest)[i]?).getD default := fun i => by
      rw [IR.Function.block, ← hl, Array.getElem?_toList]
    rw [hb, hb, cost, hl]
    simp

/-- Memory with the slot for what a definition returns. -/
def opening (ts : TypeTable) (d : Def) (μ : Memory) : Memory :=
  match slotType? ts d with
  | some ty => (μ.allocate ty.size).2
  | none => μ

/-- Memory after the slot of a call that began with a number of allocations is released. -/
def closing (ts : TypeTable) (d : Def) (place : Nat) (μ : Memory) : Memory :=
  match slotType? ts d with
  | some _ => μ.release (baseAddress place)
  | none => μ

/-- A spot at which the body of a primitive begins, in a call with arguments. -/
structure Spot.Called (w : Setting) (c : Context) (k : Spot) (d : Def) (selfType : Option TypeId)
    (t : TypeId) (args : List RtValue) (σ : Exec.State) : Prop where
  params : k.Params w c d selfType args
  returning : k.Returning w c t (baseAddress σ.memory.allocations.size)
  memory : k.run.memory = opening c.program.types d σ.memory
  globals : k.run.globals = σ.globals

/-- The body of a primitive comes to an outcome: in the body, or when its value is returned. -/
def Spot.Answers (w : Setting) (n : Nat) (c : Context) (k : Spot) (d : Def) (op : Primitive)
    (t : TypeId) (r : Except Fault RtValue) (P : Exec.State → Prop) : Prop :=
  Concludes w n c k (primitiveBody d op) r P ∨
    Achieves w c k (primitiveBody d op) fun k₁ v => ∀ k₂ : Spot, k₁.Runs w k₂ → k₂.Open w →
      k₂.gen.fn = k.gen.fn → k₂.run = k₁.run → Concludes w n c k₂ (returnFromFunction v t) r P

namespace Filling

variable {n : Nat} {r : Except Fault RtValue} {P : Exec.State → Prop} {w : Setting} {k : Spot}
  (h : Filling c m d selfType f op t s₀ s₁ s₂ s₃ s₄ v) (hadds : AddsFrom c s₁ (primitiveBody d op))
  (htype : d.type = some t)
include h hadds htype

/-- What the answer of a body makes of the code that was emitted. -/
theorem exists_ends (hw : w.call = Exec.Run.runtimeCall w.module) (hmodule : w.module = m)
    (hk : k.gen = s₁) (ho : k.Open w)
    (hs : k.Spare w) (ha : k.Answers w n c d op t r P) : ∃ σ', k.Ends w n r σ' ∧ P σ' := by
  subst hmodule hk
  have hl₄ := h.linkedLast
  have hfin := h.finishes hadds htype
  have hl₂ : Linked s₂ w.module := by
    have hsub : ∀ p ∈ s₂.runtime, p ∈ s₄.runtime := fun p hp =>
      hfin.runtime (h.between.runtime ▸ hp)
    refine ⟨?_, fun p hp => hl₄.name p (hsub p hp), fun p hp => hl₄.declared p (hsub p hp)⟩
    rw [← h.between.module]
    exact hfin.added.grows.trans hl₄.under
  rcases ha with ha | ha
  · exact ha ho hs v s₂ h.body hl₂
  · obtain ⟨k₂, rfl, hr₂, ho₂, hreturn⟩ := ha ho v s₂ h.body hl₂
    obtain ⟨hr₃, ho₃⟩ := ho₂.moved (hfin.added.grows.trans hl₄.under) h.between.position
      (by rw [h.between.module]; exact .refl _) (by rw [State.func, State.func, h.between.module])
    have hopen : s₃.builder.isTerminated = false := by
      have hterm := ho₃.isOpen
      rw [IR.Builder.isTerminated, show s₃.builder.position = some (w.func, w.block) from ho₃.position]
      show ((s₃.block w.func w.block).term).isSome = false
      rw [show (s₃.block w.func w.block).term = none from hterm]
      rfl
    have hrest := gives_after (show Gives isTerminated c s₃ false s₃ from
      congrArg (fun b => (Except.ok b, s₃)) hopen) h.rest
    have hfn : s₃.fn = k.gen.fn := h.between.fn.trans (hadds.fn v k₂.gen h.body)
    obtain ⟨σ', he, hp⟩ := hreturn _ hr₃ ho₃ hfn rfl ho₃ ((hr₂.spare hw hs |> hr₃.spare hw)) ()
      s₄ hrest hl₄
    exact ⟨σ', (he.before hr₃ hw).before hr₂ hw, hp⟩

end Filling

/-- The spot at which a call of the function of a primitive comes to its body. -/
def Spot.body (c : Context) (m : Module) (d : Def) (f : FuncId) (s : State) (args : List RtValue)
    (σ : Exec.State) : Spot where
  gen := s
  frame := (⟨args, Array.replicate (m.function f).insts.size none⟩ : Frame).opened σ
    (slotType? c.program.types d)
  run := σ.opened (slotType? c.program.types d)

namespace Filling

variable {args : List RtValue} {σ : Exec.State}
  (h : Filling c m d selfType f op t s₀ s₁ s₂ s₃ s₄ v) (hadds : AddsFrom c s₁ (primitiveBody d op))
  (htype : d.type = some t) (hsteps : σ.steps + cost (m.function f) ≤ σ.stepLimit)
include h hadds htype

theorem grows : s₁.builder.module.Grows m := by
  rw [h.before.module]
  exact (h.added hadds htype).grows.trans h.linkedLast.under

include hsteps in
theorem open_body : (Spot.body c m d f s₁ args σ).Open ⟨m, Exec.Run.runtimeCall m, f, ⟨1⟩⟩ ∧
    (Spot.body c m d f s₁ args σ).Spare ⟨m, Exec.Run.runtimeCall m, f, ⟨1⟩⟩ := by
  have hlaid := h.laid hadds htype
  have hcost := le_cost hlaid.blocks
  have hblock : s₁.block f ⟨1⟩ = s₀.block f ⟨1⟩ := by
    rw [State.block, State.func, h.before.module]
    rfl
  have hempty : (s₁.block f ⟨1⟩).insts.size = 0 := by
    rw [hblock, h.opened.empty]
    rfl
  have hrun : (Spot.body c m d f s₁ args σ).run.steps =
      σ.steps + ((m.function f).block ⟨0⟩).insts.size + 1 ∧
      (Spot.body c m d f s₁ args σ).run.stepLimit = σ.stepLimit := by
    rw [hlaid.insts]
    unfold Spot.body Exec.State.opened
    cases slotType? c.program.types d <;> exact ⟨rfl, rfl⟩
  refine ⟨⟨h.before.position.trans h.opened.position, ?_, ?_, h.grows hadds htype, ?_, ?_⟩, ?_⟩
  · show s₁.Has f ⟨1⟩
    rw [State.Has, State.func, h.before.module]
    exact h.opened.inside.2
  · show (s₁.block f ⟨1⟩).term = none
    rw [hblock]
    exact h.opened.isOpen.2
  · show ((⟨args, Array.replicate (m.function f).insts.size none⟩ : Frame).opened σ _).values.size = _
    cases slotType? c.program.types d with
    | none => exact Array.size_replicate
    | some ty => exact Array.size_setIfInBounds.trans Array.size_replicate
  · show _ ≤ _ + (s₁.block f ⟨1⟩).insts.size
    rw [hempty, hrun.1, hrun.2]
    show _ + ((m.function f).block ⟨1⟩).insts.size ≤ _
    omega
  · show _ < _ + (s₁.block f ⟨1⟩).insts.size
    rw [hempty, hrun.1, hrun.2]
    show _ + ((m.function f).block ⟨1⟩).insts.size < _
    omega

theorem called_body (hnamed : Named d selfType) :
    (Spot.body c m d f s₁ args σ).Called ⟨m, Exec.Run.runtimeCall m, f, ⟨1⟩⟩ c d selfType t args σ := by
  have hfunc : s₁.func f = s₀.func f := by rw [State.func, h.before.module]; rfl
  have hhas : s₁.Has f ⟨0⟩ := by
    rw [State.Has, hfunc]
    exact h.opened.inside.1
  have hmodule : ∀ v, s₁.builder.typeOf v = s₁.builder.module.typeOf f v :=
    Spot.typeOf_eq (w := ⟨m, Exec.Run.runtimeCall m, f, ⟨1⟩⟩) (k := Spot.body c m d f s₁ args σ)
      (h.before.position.trans h.opened.position)
  refine ⟨⟨hnamed, h.before.act ▸ h.vars, fun i name ty hi => ?_, ?_⟩, ⟨?_, fun hheld => ?_⟩, ?_, ?_⟩
  · refine (hmodule (.param i)).trans ?_
    have hparams := congrArg (·[i]?) h.opened.params
    simp only [List.getElem?_map, hi, Option.map_some] at hparams
    show (((s₁.func f).params[i]?).map IR.Param.type).getD .void = _
    rw [hfunc, hparams]
    rfl
  · unfold Spot.body Frame.opened
    cases slotType? c.program.types d <;> rfl
  · exact (congrArg FunctionState.returnType h.before.fn).trans (h.opened.returnType.trans htype)
  · have hslot : slotType? c.program.types d = some (c.program.types.irType t) := by
      rw [slotType?, htype, Option.filter_some, if_pos hheld]
      rfl
    have hinsts : (s₁.func f).insts =
        #[⟨.alloca (c.program.types.irType t), .ptr (c.program.types.irType t), some "return",
          s₀.builder.location⟩] := by
      rw [hfunc, h.opened.insts, hslot]
      rfl
    refine ⟨.inst ⟨0⟩, ?_, ?_, ?_, ?_⟩
    · refine (congrArg FunctionState.returnSlot h.before.fn).trans (h.opened.returnSlot.trans ?_)
      rw [hslot]
      rfl
    · show 0 < (s₁.func f).insts.size
      rw [hinsts]
      exact Nat.zero_lt_one
    · refine (hmodule (.inst ⟨0⟩)).trans ?_
      show ((s₁.func f).inst ⟨0⟩).type = _
      rw [IR.Function.inst, hinsts]
      rfl
    · unfold Spot.body
      rw [hslot]
      refine Frame.value?_set_self ?_
      have hg := ((h.grows hadds htype).function f (index_lt_of_hasBlock hhas)).insts_size
      have hsize : (s₁.func f).insts.size = 1 := by rw [hinsts]; rfl
      simp only [Array.size_replicate]
      exact Nat.lt_of_lt_of_le (hsize ▸ Nat.zero_lt_one) hg
  · unfold Spot.body Exec.State.opened opening
    cases slotType? c.program.types d <;> rfl
  · unfold Spot.body Exec.State.opened
    cases slotType? c.program.types d <;> rfl

end Filling

/-- A call of the function of a primitive comes to what its body comes to. -/
theorem Filling.exists_outcome {n : Nat} {r : Except Fault RtValue} {P : Exec.State → Prop}
    {args : List RtValue} {σ : Exec.State}
    (hfill : Filling c m d selfType f op t s₀ s₁ s₂ s₃ s₄ v) (htype : d.type = some t)
    (hadds : ∀ s : State, s.act.vars = primitiveScope d selfType → AddsFrom c s (primitiveBody d op))
    (hnamed : Named d selfType) (hsteps : σ.steps + cost (m.function f) ≤ σ.stepLimit)
    (hbody : ∀ w k, w.module = m → w.call = Exec.Run.runtimeCall w.module → k.gen = s₁ →
      Spot.Called w c k d selfType t args σ → Spot.Answers w n c k d op t r P) :
    ∃ σ', Exec.Run.outcome (Exec.Run.callWithin m (n + 2) f args) σ = (r, { σ' with
        memory := closing c.program.types d σ.memory.allocations.size σ'.memory
        slots := σ.slots }) ∧ P σ' := by
  let σ₀ : Exec.State := { σ with slots := [] }
  let w : Setting := ⟨m, Exec.Run.runtimeCall m, f, ⟨1⟩⟩
  let k : Spot := Spot.body c m d f s₁ args σ₀
  have hadds := hadds s₁ (hfill.before.act ▸ hfill.vars)
  have hlaid := hfill.laid hadds htype
  obtain ⟨ho, hs⟩ : k.Open w ∧ k.Spare w := hfill.open_body hadds htype hsteps
  have hbegin : k.Called w c d selfType t args σ₀ :=
    hfill.called_body hadds htype hnamed
  have hcalled : k.Called w c d selfType t args σ :=
    ⟨hbegin.params, hbegin.returning, hbegin.memory, hbegin.globals⟩
  obtain ⟨σ', hends, hp⟩ := hfill.exists_ends hadds htype (w := w) (k := k) rfl rfl rfl ho hs
    (hbody w k rfl rfl rfl hcalled)
  refine ⟨σ', ?_, hp⟩
  have hempty : (s₁.block f ⟨1⟩).insts = #[] := by
    rw [State.block, State.func, hfill.before.module]
    exact hfill.opened.empty
  have hsecond : Exec.Run.outcome (Exec.Run.blocks m (Exec.Run.callWithin m (n + 1)) f (n + 1)
      k.frame (some ⟨0⟩) ⟨1⟩) k.run = (r, σ') := hends.blocks hempty hlaid.plain
  have hslots : σ'.slots = k.run.slots := hends.slots hlaid.plain
  have hcost := le_cost hlaid.blocks
  have hfirst : Returns (Exec.Run.block m (Exec.Run.callWithin m (n + 1)) f
      ⟨args, Array.replicate (m.function f).insts.size none⟩ none ⟨0⟩) σ₀ (k.frame, .goto ⟨1⟩) k.run :=
    Exec.Run.returns_firstBlock hlaid.insts hlaid.term hlaid.kind
      (show σ.steps + _ + 1 ≤ σ.stepLimit by omega)
  have hblocks := (Exec.Run.outcome_blocks_goto hfirst).trans hsecond
  rw [Exec.Run.outcome_callWithin hlaid.blocks.1 hblocks]
  have hmemory : σ'.slots.reverse.foldl Memory.release σ'.memory =
      closing c.program.types d σ.memory.allocations.size σ'.memory := by
    have hopened : k.run.slots = ((slotType? c.program.types d).map fun _ =>
        baseAddress σ.memory.allocations.size).toList := by
      show (σ₀.opened (slotType? c.program.types d)).slots = _
      cases slotType? c.program.types d <;> rfl
    rw [hslots, hopened, closing]
    cases slotType? c.program.types d with
    | none => rfl
    | some ty => rw [Option.map_some, Option.toList_some, List.reverse_singleton, List.foldl_cons,
        List.foldl_nil]
  rw [hmemory]

/-- What is not held by address needs no slot. -/
theorem slotType?_of_register {ts : TypeTable} (h : ts.isAddressHeld t = false)
    (hd : d.type = some t) : slotType? ts d = none := by
  rw [slotType?, hd, Option.filter_some, h]
  rfl

/-- A call of the function of a primitive that returns what is not held by address. -/
theorem Filling.exists_register {n : Nat} {r : Except Fault RtValue} {args : List RtValue}
    {σ : Exec.State} {μ : Memory} (hfill : Filling c m d selfType f op t s₀ s₁ s₂ s₃ s₄ v)
    (htype : d.type = some t) (hheld : c.program.types.isAddressHeld t = false)
    (hadds : ∀ s : State, s.act.vars = primitiveScope d selfType → AddsFrom c s (primitiveBody d op))
    (hnamed : Named d selfType) (hfuel : σ.steps + cost (m.function f) ≤ σ.stepLimit)
    (hbody : ∀ w k, w.module = m → w.call = Exec.Run.runtimeCall w.module → k.gen = s₁ →
      k.run.memory = σ.memory → Spot.Called w c k d selfType t args σ →
      Spot.Answers w n c k d op t r fun σ' => σ'.memory = μ) :
    ∃ σ', Exec.Run.outcome (Exec.Run.callWithin m (n + 2) f args) σ = (r, σ') ∧ σ'.memory = μ := by
  have hslot := slotType?_of_register hheld htype
  obtain ⟨σ', hσ', hm⟩ := hfill.exists_outcome htype hadds hnamed hfuel fun w k hmodule hw hk hcalled =>
    hbody w k hmodule hw hk (by rw [hcalled.memory, opening, hslot]) hcalled
  exact ⟨_, hσ', by rw [closing, hslot, hm]⟩

theorem Made.exists_outcome {n : Nat} {r : Except Fault RtValue} {P : Exec.State → Prop}
    {args : List RtValue} {σ : Exec.State} (h : Made c m d selfType f)
    (hop : d.primitive? = some op) (htype : d.type = some t)
    (hadds : ∀ s : State, s.act.vars = primitiveScope d selfType → AddsFrom c s (primitiveBody d op))
    (hnamed : Named d selfType) (hsteps : σ.steps + cost (m.function f) ≤ σ.stepLimit)
    (hbody : ∀ w k, w.module = m → w.call = Exec.Run.runtimeCall w.module →
      Spot.Called w c k d selfType t args σ → Spot.Answers w n c k d op t r P) :
    ∃ σ', Exec.Run.outcome (Exec.Run.callWithin m (n + 2) f args) σ = (r, { σ' with
        memory := closing c.program.types d σ.memory.allocations.size σ'.memory
        slots := σ.slots }) ∧ P σ' := by
  obtain ⟨depth, name, s, s', hmade, hl⟩ := h.made
  obtain ⟨s₀, s₁, s₂, s₃, s₄, v, hfill, -⟩ := exists_filling_of_make h.internal hop htype hmade hl
  exact hfill.exists_outcome htype hadds hnamed hsteps fun w k hm hw _ => hbody w k hm hw

theorem Made.exists_register {n : Nat} {r : Except Fault RtValue} {args : List RtValue}
    {σ : Exec.State} {μ : Memory} (h : Made c m d selfType f) (hop : d.primitive? = some op)
    (htype : d.type = some t) (hheld : c.program.types.isAddressHeld t = false)
    (hadds : ∀ s : State, s.act.vars = primitiveScope d selfType → AddsFrom c s (primitiveBody d op))
    (hnamed : Named d selfType) (hfuel : σ.steps + cost (m.function f) ≤ σ.stepLimit)
    (hbody : ∀ w k, w.module = m → w.call = Exec.Run.runtimeCall w.module →
      k.run.memory = σ.memory → Spot.Called w c k d selfType t args σ →
      Spot.Answers w n c k d op t r fun σ' => σ'.memory = μ) :
    ∃ σ', Exec.Run.outcome (Exec.Run.callWithin m (n + 2) f args) σ = (r, σ') ∧ σ'.memory = μ := by
  obtain ⟨depth, name, s, s', hmade, hl⟩ := h.made
  obtain ⟨s₀, s₁, s₂, s₃, s₄, v, hfill, -⟩ := exists_filling_of_make h.internal hop htype hmade hl
  exact hfill.exists_register htype hheld hadds hnamed hfuel fun w k hm hw _ => hbody w k hm hw

end Lowering.Gen
