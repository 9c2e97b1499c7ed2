import Lowering.Gen.Primitive
import Lowering.Proofs.Allocating
import Lowering.Proofs.Budget
import Lowering.Proofs.Condition

/-!
# How a block of a function ends

A run is followed to the end of a block: to the value that its last step returns, or to the
instruction that stops it.  On the way it may call the functions that the runtime has, which are
declared while code is emitted and stay without code of their own.

* `IR.Function.Plain`: blocks without phis and stack slots;
* `Gen.Adds`: steps of generation that only add, where code is placed, and only plain code;
* `Gen.Linked`: a module in which the declared functions of the runtime are still only declared;
* `Gen.runtimeCall`: calls of declared functions, and `Gen.returns_instructions_calls`: a run with
  these calls only is a run of the machine;
* `Gen.Achieves`: what steps of generation lead to, with calls of the runtime's functions;
* `Gen.Spot.Ends`, `Gen.Concludes`: what is left of a block comes to an outcome.
-/

namespace Lowering

open IR (Ty Value FuncId BlockId InstId InstKind Inst Build Module)
open Exec (RtValue Fault)
open Exec.Run (Frame Returns Stops)

/-! ### Plain blocks -/

namespace IR

/-- An instruction that neither merges values nor makes a stack slot. -/
def InstKind.isPlain : InstKind → Bool
  | .phi _ | .alloca _ => false
  | _ => true

theorem InstKind.isPhi_of_isPlain {kind : InstKind} (h : kind.isPlain = true) :
    kind.isPhi = false := by
  cases kind <;> first | rfl | cases h

/-- The instructions of a block neither merge values nor make stack slots. -/
def Function.Plain (fn : Function) (b : BlockId) : Prop :=
  ∀ id ∈ (fn.block b).insts, id.index < fn.insts.size ∧ (fn.inst id).kind.isPlain = true

variable {m : Module} {fn : Function} {f : FuncId} {b b' : BlockId} {inst : Inst}

theorem Function.plain_of_insts (h : (fn.block b).insts = #[]) : fn.Plain b := fun id hid => by
  rw [h] at hid
  exact absurd hid (Array.not_mem_empty id)

theorem Function.plain_of_not_hasBlock (h : ¬ fn.HasBlock b) : fn.Plain b :=
  plain_of_insts (by rw [Function.block_of_not_hasBlock h]; rfl)

namespace Function.Plain

theorem placed (hkind : inst.kind.isPlain = true) (h : fn.Plain b') :
    (Build.placed b inst fn).Plain b' := by
  have hold : ∀ id : InstId, id.index < fn.insts.size ∧ (fn.inst id).kind.isPlain = true →
      id.index < (Build.placed b inst fn).insts.size ∧
        ((Build.placed b inst fn).inst id).kind.isPlain = true := fun id ⟨hlt, hid⟩ => by
    refine ⟨by simp; omega, ?_⟩
    rwa [Function.inst, Build.insts_placed, Array.getElem?_push_lt hlt,
      ← Array.getElem?_eq_getElem hlt]
  by_cases hb : fn.HasBlock b
  · intro id hid
    rcases (Function.mem_insts_placed hb).mp hid with hid | ⟨-, rfl⟩
    · exact hold id (h id hid)
    · rw [Function.inst_placed_new]
      exact ⟨by simp, hkind⟩
  · -- nothing is placed in a block that there is not
    have hno : ¬ (Build.placed b inst fn).HasBlock b := fun hb' => hb (Build.hasBlock_placed.mp hb')
    by_cases hne : b' = b
    · subst hne
      exact plain_of_not_hasBlock hno
    · intro id hid
      rw [Build.block_placed_of_ne hne] at hid
      exact hold id (h id hid)

theorem ended {term : Terminator} (h : fn.Plain b') : (Build.ended b term fn).Plain b' := by
  by_cases hne : b' = b
  · subst hne
    by_cases hb : fn.HasBlock b'
    · intro id hid
      rw [Build.block_ended_self hb] at hid
      exact h id hid
    · exact plain_of_not_hasBlock fun h => hb (Build.hasBlock_ended.mp h)
  · intro id hid
    rw [Build.block_ended_of_ne hne] at hid
    exact h id hid

/-- A block that has ended stays as it is. -/
theorem frozen {fn' : Function} (h : fn.Plain b) (hg : fn.Grows fn') (hb : fn.HasBlock b)
    (hterm : (fn.block b).term.isSome) : fn'.Plain b := by
  intro id hid
  rw [(hg.block b hb).frozen hterm] at hid
  obtain ⟨hlt, hkind⟩ := h id hid
  exact ⟨hlt.trans_le hg.insts_size, hg.inst_eq hlt ▸ hkind⟩

end Function.Plain

/-- Every block that was plain is so in a later module. -/
def Module.KeepsPlain (m m' : Module) : Prop :=
  ∀ f b, (m.function f).Plain b → (m'.function f).Plain b

theorem Module.keepsPlain_modifyFunction {change : Function → Function}
    (h : ∀ fn b, fn.Plain b → (change fn).Plain b) : m.KeepsPlain (m.modifyFunction f change) := by
  intro f' b hp
  by_cases hf : f' = f ∧ f.index < m.functions.size
  · obtain ⟨rfl, hlt⟩ := hf
    rw [function_modifyFunction_self hlt]
    exact h _ _ hp
  · by_cases hne : f' = f
    · subst hne
      have hge : m.functions.size ≤ f'.index := not_lt.mp fun hlt => hf ⟨rfl, hlt⟩
      have hsize : (m.functions.modify f'.index change).size ≤ f'.index := by simpa using hge
      rw [function, modifyFunction, Array.getElem?_eq_none hsize]
      rwa [function, Array.getElem?_eq_none hge] at hp
    · rwa [function_modifyFunction_of_ne hne]

theorem Module.block_addFunction (h : fn.blocks = #[]) :
    ((m.addFunction fn).function m.nextFunction).block b = (m.function m.nextFunction).block b := by
  have hnone : m.functions[m.functions.size]? = none := Array.getElem?_eq_none le_rfl
  rw [function_addFunction_self, Function.block, h, function, nextFunction, hnone]
  rfl

theorem Module.keepsPlain_addFunction (h : fn.blocks = #[]) : m.KeepsPlain (m.addFunction fn) := by
  intro f' b hp
  by_cases hf : f' = m.nextFunction
  · subst hf
    refine Function.plain_of_insts ?_
    rw [function_addFunction_self, Function.block, h]
    rfl
  · rwa [function_addFunction_of_ne hf]

end IR

/-! ### Calls of declared functions -/

namespace Exec.Run

variable {m : Module} {f g : FuncId} {fn : IR.Function} {fr fr' : Frame} {σ σ' : State}
  {x : RtValue} {xs : List RtValue} {ids : List InstId} {kind : InstKind} {t : Ty} {n : Nat}

/-- The call of a function that is only declared; there are no others. -/
def runtimeCall (m : Module) (g : FuncId) (xs : List RtValue) : Run RtValue :=
  if (m.function g).isDeclaration then builtin (m.function g).name xs else throw .nullDereference

theorem runtimeCall_eq (h : (m.function g).isDeclaration = true) :
    runtimeCall m g xs = builtin (m.function g).name xs := if_pos h

theorem callWithin_eq (h : (m.function g).isDeclaration = true) :
    callWithin m (n + 1) g xs = builtin (m.function g).name xs := if_pos h

theorem free_runtimeCall : Free (runtimeCall m g xs) := by
  unfold runtimeCall
  split
  · exact free_builtin _ _
  · exact free_throw nofun

theorem returns_callWithin (h : Returns (runtimeCall m g xs) σ x σ') :
    Returns (callWithin m (n + 1) g xs) σ x σ' := by
  by_cases hd : (m.function g).isDeclaration = true
  · rw [callWithin_eq hd]
    rwa [runtimeCall_eq hd] at h
  · rw [runtimeCall, if_neg hd] at h
    cases h

theorem instruction_congr {call call' : FuncId → List RtValue → Run RtValue}
    (h : ∀ callee args, kind ≠ .call callee args) :
    instruction m call f fr kind t = instruction m call' f fr kind t := by
  cases kind with
  | call callee args => exact absurd rfl (h callee args)
  | _ => rfl

theorem free_instruction_runtime : Free (instruction m (runtimeCall m) f fr kind t) := by
  by_cases h : ∃ callee args, kind = .call callee args
  · obtain ⟨callee, args, rfl⟩ := h
    exact (free_operands fr args).bind fun _ => free_runtimeCall
  · exact free_instruction (fun callee args he => h ⟨_, _, he⟩) fr t

theorem returns_instruction_calls
    (h : Returns (instruction m (runtimeCall m) f fr kind t) σ x σ') :
    Returns (instruction m (callWithin m (n + 1)) f fr kind t) σ x σ' := by
  by_cases hc : ∃ callee args, kind = .call callee args
  · obtain ⟨callee, args, rfl⟩ := hc
    obtain ⟨xs, σ₁, hargs, hcall⟩ := h.of_bind
    exact hargs.bind (returns_callWithin hcall)
  · rwa [instruction_congr fun callee args he => hc ⟨_, _, he⟩] at h

theorem ticked_of_returns {a : Unit} {σ₁ : State} (h : Returns tick σ a σ₁) : σ₁ = σ.ticked :=
  (congrArg Prod.snd ((outcome_tick σ).symm.trans h)).symm

/-- An instruction of a list, taken off its front. -/
theorem returns_instructions_uncons {call : FuncId → List RtValue → Run RtValue} {id : InstId}
    (hphi : (fn.inst id).kind.isPhi = false)
    (h : Returns (instructions m call f fn fr (id :: ids)) σ fr' σ') :
    ∃ x σ₁, Returns tick σ () σ.ticked ∧
      Returns (instruction m call f fr (fn.inst id).kind (fn.inst id).type) σ.ticked x σ₁ ∧
      Returns (instructions m call f fn (fr.set id x) ids) σ₁ fr' σ' := by
  rw [instructions, if_neg (by simp [hphi])] at h
  obtain ⟨⟨⟩, σ₁, ht, hrest⟩ := h.of_bind
  obtain ⟨x, σ₂, hx, hlast⟩ := hrest.of_bind
  obtain rfl := ticked_of_returns ht
  exact ⟨x, σ₂, ht, hx, hlast⟩

/-- A list of instructions takes no more steps than it has instructions, when calls take none. -/
theorem steps_instructions (h : Returns (instructions m (runtimeCall m) f fn fr ids) σ fr' σ') :
    σ'.steps ≤ σ.steps + ids.length ∧ σ'.stepLimit = σ.stepLimit := by
  induction ids generalizing fr σ with
  | nil =>
    obtain ⟨-, rfl⟩ := Prod.mk.inj h
    exact ⟨le_rfl, rfl⟩
  | cons id ids ih =>
    cases hphi : (fn.inst id).kind.isPhi with
    | true =>
      rw [instructions, if_pos hphi] at h
      obtain ⟨hs, hl⟩ := ih h
      exact ⟨hs.trans (Nat.add_le_add_left (Nat.le_succ _) _), hl⟩
    | false =>
      obtain ⟨x, σ₁, -, hx, hrest⟩ := returns_instructions_uncons hphi h
      obtain ⟨hs, hl⟩ := ih hrest
      have hfree : Free (instruction m (runtimeCall m) f fr (fn.inst id).kind (fn.inst id).type) :=
        free_instruction_runtime
      have hout : outcome (instruction m (runtimeCall m) f fr (fn.inst id).kind (fn.inst id).type)
        σ.ticked = (.ok x, σ₁) := hx
      have hsteps : σ₁.steps = σ.steps + 1 := by
        have h := hfree.steps σ.ticked
        rwa [hout] at h
      have hlimit : σ₁.stepLimit = σ.stepLimit := by
        have h := hfree.limit σ.ticked
        rwa [hout] at h
      refine ⟨?_, hl.trans hlimit⟩
      rw [List.length_cons]
      omega

/-- A run with calls of declared functions only is a run of the machine. -/
theorem returns_instructions_calls
    (h : Returns (instructions m (runtimeCall m) f fn fr ids) σ fr' σ') :
    Returns (instructions m (callWithin m (n + 1)) f fn fr ids) σ fr' σ' := by
  induction ids generalizing fr σ with
  | nil => exact h
  | cons id ids ih =>
    cases hphi : (fn.inst id).kind.isPhi with
    | true =>
      rw [instructions, if_pos hphi] at h ⊢
      exact ih h
    | false =>
      obtain ⟨x, σ₁, ht, hx, hrest⟩ := returns_instructions_uncons hphi h
      rw [instructions, if_neg (by simp [hphi])]
      exact ht.bind ((returns_instruction_calls hx).bind (ih hrest))

/-- A block without phis has nothing to read when it is entered. -/
theorem returns_phiValues {source : Option BlockId}
    (h : ∀ id ∈ ids, (fn.inst id).kind.isPhi = false) :
    Returns (phiValues fn fr source ids) σ [] σ := by
  induction ids with
  | nil => exact returns_pure [] σ
  | cons id ids ih =>
    have hid := h id List.mem_cons_self
    unfold phiValues
    split
    · rename_i incoming hkind
      rw [hkind] at hid
      cases hid
    · exact ih fun i hi => h i (List.mem_cons_of_mem _ hi)

/-! ### Stack slots -/

/-- The stack slots of the activation are what they were. -/
def SameSlots (σ t : State) : Prop := t.slots = σ.slots

theorem Moves.of_returns {α : Type} {R : State → State → Prop} {x : Run α} {a : α}
    (hx : Moves R x) (h : Returns x σ a σ') : R σ σ' := by
  have hx := hx σ
  rwa [show outcome x σ = (.ok a, σ') from h] at hx

theorem Moves.of_stops {α : Type} {R : State → State → Prop} {x : Run α} {e : Fault}
    (hx : Moves R x) (h : Stops x σ e σ') : R σ σ' := by
  have hx := hx σ
  rwa [show outcome x σ = (.error e, σ') from h] at hx

instance : IsPreorder State SameSlots where
  refl _ := rfl
  trans _ _ _ h h' := Eq.trans h' h

theorem slots_callWithin : Moves SameSlots (callWithin m n g xs) := by
  cases n with
  | zero => exact moves_get fun _ => moves_throw _
  | succ n =>
    unfold callWithin
    dsimp only
    split
    · exact fun σ => (kept_builtin _ _ σ).slots
    · exact fun σ => rfl

theorem slots_instruction (h : kind.isPlain = true) :
    Moves SameSlots (instruction m (callWithin m n) f fr kind t) := by
  have hslot : ∀ slot, kind ≠ .alloca slot := by
    rintro slot rfl
    cases h
  by_cases hc : ∃ callee args, kind = .call callee args
  · obtain ⟨callee, args, rfl⟩ := hc
    exact (moves_operands fr args).bind fun _ => slots_callWithin
  · exact fun σ => (kept_instruction (d := none) (fun callee args he => hc ⟨_, _, he⟩) hslot fr t
      σ).slots

theorem slots_instructions (h : ∀ id ∈ ids, (fn.inst id).kind.isPlain = true) :
    Moves SameSlots (instructions m (callWithin m n) f fn fr ids) := by
  induction ids generalizing fr with
  | nil => exact moves_pure _
  | cons id ids ih =>
    have hid := h id List.mem_cons_self
    have hids := fun i hi => h i (List.mem_cons_of_mem _ hi)
    rw [instructions, if_neg (by simp [IR.InstKind.isPhi_of_isPlain hid])]
    exact Moves.bind (fun σ => (kept_tick (d := none) σ).slots) fun _ =>
      (slots_instruction hid).bind fun _ => ih hids

end Exec.Run

namespace Gen

variable {α β : Type} {c : Context}

/-! ### Steps that only add -/

/-- A later builder that was added to where the earlier one places code: plain instructions, and
nothing in other blocks. -/
structure Added (r r' : IR.Builder) : Prop where
  grows : r.module.Grows r'.module
  plain : r.module.KeepsPlain r'.module
  position : r'.position = r.position
  apart : ∀ f b, r.position ≠ some (f, b) →
    (r'.module.function f).block b = (r.module.function f).block b

namespace Added

variable {r r₁ r' : IR.Builder}

theorem refl (r : IR.Builder) : Added r r := ⟨.refl _, fun _ _ h => h, rfl, fun _ _ _ => rfl⟩

theorem trans (h₁ : Added r r₁) (h₂ : Added r₁ r') : Added r r' where
  grows := h₁.grows.trans h₂.grows
  plain f b h := h₂.plain f b (h₁.plain f b h)
  position := h₂.position.trans h₁.position
  apart f b h := (h₂.apart f b (h₁.position ▸ h)).trans (h₁.apart f b h)

/-- The block at which code is placed is changed. -/
theorem modifyFunction {f : FuncId} {b : BlockId} {change : IR.Function → IR.Function}
    (hpos : r.position = some (f, b)) (hg : (r.module.function f).Grows (change (r.module.function f)))
    (hplain : ∀ fn b, fn.Plain b → (change fn).Plain b)
    (hblock : ∀ fn b', b' ≠ b → (change fn).block b' = fn.block b') :
    Added r { r with module := r.module.modifyFunction f change } where
  grows := .modifyFunction fun _ => hg
  plain := Module.keepsPlain_modifyFunction hplain
  position := rfl
  apart f' b' hne := by
    by_cases hf : f' = f
    · subst hf
      by_cases hlt : f'.index < r.module.functions.size
      · rw [Module.function_modifyFunction_self hlt]
        exact hblock _ _ fun hb => hne (hb ▸ hpos)
      · have hge := not_lt.mp hlt
        have hsize : (r.module.functions.modify f'.index change).size ≤ f'.index := by simpa using hge
        rw [Module.function, Module.function, Module.modifyFunction, Array.getElem?_eq_none hsize,
          Array.getElem?_eq_none hge]
    · rw [Module.function_modifyFunction_of_ne hf]

end Added

/-- A step of generation that only adds: to the module where code is placed, and to what is known of
the runtime. -/
structure Adds (x : Gen α) : Prop where
  builder : ∀ c s a s', Gives x c s a s' → Added s.builder s'.builder
  runtime : ∀ c s a s', Gives x c s a s' → s.runtime ⊆ s'.runtime
  fn : ∀ c s a s', Gives x c s a s' → s'.fn = s.fn

namespace Adds

variable {x : Gen α} {f : α → Gen β}

/-- A question leaves the state as it is. -/
theorem ask (h : ∀ c s, ∃ a, Gives x c s a s) : Adds x := by
  have hsame : ∀ c s a s', Gives x c s a s' → s' = s := fun c s a s' hg =>
    let ⟨_, hb⟩ := h c s
    (hg.unique hb).2
  exact ⟨fun c s a s' hg => hsame c s a s' hg ▸ .refl _,
    fun c s a s' hg => hsame c s a s' hg ▸ List.Subset.refl _,
    fun c s a s' hg => congrArg State.fn (hsame c s a s' hg)⟩

theorem pure (a : α) : Adds (pure a : Gen α) := ask fun _ _ => ⟨a, rfl⟩

theorem fail (cause : Cause) : Adds (Gen.fail cause : Gen α) :=
  ⟨fun _ _ _ _ h => absurd h not_gives_fail, fun _ _ _ _ h => absurd h not_gives_fail,
    fun _ _ _ _ h => absurd h not_gives_fail⟩

theorem orFail (cause : Cause) (o : Option α) : Adds (Gen.orFail cause o) := by
  cases o with
  | none => exact fail cause
  | some a => exact pure a

theorem bind (hx : Adds x) (hf : ∀ a, Adds (f a)) : Adds (x >>= f) where
  builder c s b s' h := by
    obtain ⟨a, s₁, h₁, h₂⟩ := gives_bind.mp h
    exact (hx.builder c s a s₁ h₁).trans ((hf a).builder c s₁ b s' h₂)
  runtime c s b s' h := by
    obtain ⟨a, s₁, h₁, h₂⟩ := gives_bind.mp h
    exact List.Subset.trans (hx.runtime c s a s₁ h₁) ((hf a).runtime c s₁ b s' h₂)
  fn c s b s' h := by
    obtain ⟨a, s₁, h₁, h₂⟩ := gives_bind.mp h
    exact ((hf a).fn c s₁ b s' h₂).trans (hx.fn c s a s₁ h₁)

theorem emit {b : Build α} (h : ∀ r : IR.Builder, Added r (b r).2) : Adds (Gen.emit b) where
  builder c s a s' hg := by
    rw [(gives_emit hg).2]
    exact h s.builder
  runtime c s a s' hg := by
    rw [(gives_emit hg).2]
    exact List.Subset.refl _
  fn c s a s' hg := by rw [(gives_emit hg).2]

theorem grow (hx : Adds x) : Grow x := fun c s a s' hg => (hx.builder c s a s' hg).grows

end Adds

/-- A step of generation that only adds when it begins in some state. -/
structure AddsFrom (c : Context) (s : State) (x : Gen α) : Prop where
  builder : ∀ a s', Gives x c s a s' → Added s.builder s'.builder
  runtime : ∀ a s', Gives x c s a s' → s.runtime ⊆ s'.runtime
  fn : ∀ a s', Gives x c s a s' → s'.fn = s.fn

theorem Adds.from {x : Gen α} (hx : Adds x) (c : Context) (s : State) : AddsFrom c s x :=
  ⟨hx.builder c s, hx.runtime c s, hx.fn c s⟩

theorem AddsFrom.ask {x : Gen α} {f : α → Gen β} {c : Context} {s : State} {a : α}
    (hx : Gives x c s a s) (hf : AddsFrom c s (f a)) : AddsFrom c s (x >>= f) where
  builder b s' h := hf.builder b s' (gives_after hx h)
  runtime b s' h := hf.runtime b s' (gives_after hx h)
  fn b s' h := hf.fn b s' (gives_after hx h)

section

variable {r : IR.Builder} {f : FuncId} {b : BlockId} {kind : InstKind} {t t' : Ty} {p u v : Value}
  {name : Option String} {ty target : TypeId}

theorem added_push (hkind : kind.isPlain = true) : Added r (Build.push kind t name r).2 := by
  cases hpos : r.position with
  | none =>
    rw [Build.push_nowhere hpos]
    exact .refl r
  | some place =>
    rw [Build.push_at hpos]
    cases hterm : r.blockTerminated place.1 place.2 with
    | true =>
      rw [pushInto_terminated hterm]
      exact .refl r
    | false =>
      rw [pushInto_open hterm]
      refine .modifyFunction hpos (.placed ?_) (fun _ _ => .placed hkind)
        fun _ _ hne => Build.block_placed_of_ne hne
      simpa [IR.Builder.blockTerminated] using hterm

theorem adds_push (kind : InstKind) (hkind : kind.isPlain = true) (type : IR.Builder → Ty) {β : Type}
    {b : Build β} (h : ∀ r, (b r).2 = (Build.push kind (type r) name r).2) :
    Adds (emit b) :=
  .emit fun r => h r ▸ added_push hkind

/-- A step that is folded to an operand, or else places an instruction. -/
theorem adds_folded {b : Build Value} (kind : InstKind) (hkind : kind.isPlain = true)
    (folded : IR.Builder → Option Value) (type : IR.Builder → Ty)
    (h : ∀ r, @Eq (Value × IR.Builder) (b r) ((match folded r with
      | some v => pure v
      | none => Build.push kind (type r) : Build Value) r)) : Adds (emit b) := by
  refine .emit fun r => ?_
  rw [h r]
  cases folded r with
  | some v => exact .refl r
  | none => exact added_push hkind

theorem adds_load : Adds (emit (Build.load p name)) :=
  adds_push (.load p) rfl _ fun _ => rfl

theorem adds_store : Adds (emit (Build.store v p)) :=
  adds_push (.store v p) rfl _ fun _ => rfl

theorem adds_gep {vs : List Value} : Adds (emit (Build.gep p vs)) :=
  adds_push (.gep p vs) rfl _ fun _ => rfl

theorem adds_call {vs : List Value} : Adds (emit (Build.call f vs)) :=
  adds_push (.call f vs) rfl _ fun _ => rfl

theorem adds_arrayMalloc : Adds (emit (Build.arrayMalloc t v)) :=
  adds_push (.arrayMalloc t v) rfl _ fun _ => rfl

theorem adds_cast {op : IR.CastOp} : Adds (emit (Build.cast op v t)) :=
  adds_folded (.cast op v) rfl (fun r => Build.foldCast op v (r.typeOf v) t) (fun _ => t)
    fun _ => rfl

theorem adds_bitcast : Adds (emit (Build.bitcast v t)) := adds_cast

theorem adds_binary {op : IR.BinaryOp} : Adds (emit (Build.binary op v u)) :=
  adds_folded (.binary op v u) rfl
    (fun r => if r.typeOf v = .i1 then Build.foldTruth op v u else none) (fun r => r.typeOf v)
    fun _ => rfl

theorem adds_intToPtr : Adds (emit (Build.intToPtr v t)) := adds_cast

theorem adds_terminate {term : IR.Terminator} : Adds (emit (Build.terminate term)) := by
  refine .emit fun r => ?_
  cases hpos : r.position with
  | none =>
    rw [Build.terminate_nowhere hpos]
    exact .refl r
  | some place =>
    rw [Build.terminate_at hpos]
    exact .modifyFunction hpos .ended (fun _ _ => .ended)
      fun _ _ hne => Build.block_ended_of_ne hne

theorem adds_typeOf : Adds (emit (Build.typeOf v)) := .ask fun _ _ => ⟨_, rfl⟩

theorem adds_types : Adds types := .ask fun _ _ => ⟨_, rfl⟩

theorem adds_irType : Adds (irType ty) := .ask fun _ _ => ⟨_, rfl⟩

theorem adds_isAddressHeld : Adds (isAddressHeld ty) := .ask fun _ _ => ⟨_, rfl⟩

theorem adds_typeName : Adds (typeName ty) := .ask fun _ _ => ⟨_, rfl⟩

theorem adds_lookup {name : String} : Adds (lookup? name) := .ask fun _ _ => ⟨_, rfl⟩

theorem adds_runtimeFunction {name : String} {params : List Ty} :
    Adds (runtimeFunction name params t) := by
  unfold runtimeFunction
  refine Adds.bind (.ask fun _ s => ⟨s, rfl⟩) fun s => ?_
  split
  · exact .pure _
  · refine Adds.bind (.emit fun r => ⟨.addFunction _, Module.keepsPlain_addFunction rfl, rfl,
      fun f b _ => ?_⟩) fun g => ?_
    · -- a function that is declared has no blocks
      by_cases hf : f = r.module.nextFunction
      · subst hf
        exact Module.block_addFunction rfl
      · exact congrArg (IR.Function.block · b) (Module.function_addFunction_of_ne hf)
    · have hnote : ∀ c s a s', Gives (modify fun s : State =>
          { s with runtime := (name, g) :: s.runtime }) c s a s' →
            s' = { s with runtime := (name, g) :: s.runtime } := fun _ _ _ _ h => gives_modify h
      refine Adds.bind ⟨fun c s a s' h => ?_, fun c s a s' h => ?_, fun c s a s' h => ?_⟩
        fun _ => .pure _
      · rw [hnote c s a s' h]
        exact .refl _
      · rw [hnote c s a s' h]
        exact List.subset_cons_self _ _
      · rw [hnote c s a s' h]

theorem adds_coerce : Adds (coerce v t) := by
  unfold coerce
  refine adds_typeOf.bind fun source => ?_
  split
  · exact .pure v
  · split
    · exact adds_bitcast
    · split
      · exact adds_intToPtr
      · exact .pure v

theorem adds_storeCoerced : Adds (storeCoerced v p) := by
  unfold storeCoerced
  refine adds_typeOf.bind fun source => ?_
  split
  · exact adds_coerce.bind fun _ => adds_store
  · exact Adds.bind (.pure v) fun _ => adds_store

theorem adds_copyHeld : Adds (copyHeld p v) := adds_load.bind fun _ => adds_store

/-- What is stored as it is held. -/
theorem adds_assign_self : Adds (assign p ty ty v) := by
  unfold assign
  rw [if_pos rfl]
  refine adds_isAddressHeld.bind fun held => ?_
  split
  · exact adds_copyHeld
  · exact adds_storeCoerced

theorem adds_heldIn {name : String} : Adds (heldIn p ty name) := by
  unfold heldIn
  refine adds_isAddressHeld.bind fun held => ?_
  split
  · exact .pure p
  · exact adds_load

theorem adds_toInt64 : Adds (toInt64 v ty) := by
  unfold toInt64
  refine adds_types.bind fun ts => ?_
  split
  · split
    · exact .pure v
    · exact adds_cast
  · exact adds_typeName.bind fun _ => .fail _

theorem adds_scaled : Adds (scaled v ty) := adds_irType.bind fun _ => adds_binary

theorem adds_zeroFill : Adds (zeroFill p v) :=
  adds_runtimeFunction.bind fun _ => adds_bitcast.bind fun _ => adds_call.bind fun _ => .pure _

theorem adds_receiver : Adds receiver :=
  adds_lookup.bind fun _ => Adds.bind (.orFail _ _) fun _ => .pure _

theorem adds_argument {d : Def} {i : Nat} : Adds (argument d i) := by
  unfold argument
  split
  · exact adds_lookup.bind fun _ => Adds.bind (.orFail _ _) fun _ => .pure _
  · exact Adds.bind (.pure _) fun _ => Adds.bind (.orFail _ _) fun _ => .pure _

theorem adds_elementOf : Adds (elementOf ty) := by
  unfold elementOf
  refine adds_types.bind fun ts => ?_
  split
  · exact .pure _
  · exact adds_typeName.bind fun _ => .fail _

end

/-! ### Linked modules -/

/-- A later module, in which the functions of the runtime that were declared so far are still only
declared. -/
structure Linked (s : State) (m : Module) : Prop where
  under : s.builder.module.Grows m
  name : ∀ p ∈ s.runtime, (m.function p.2).name = p.1
  declared : ∀ p ∈ s.runtime, (m.function p.2).isDeclaration = true

theorem Linked.before {x : Gen α} {s s' : State} {a : α} {m : Module} (h : Linked s' m)
    (hx : Adds x) (hg : Gives x c s a s') : Linked s m :=
  ⟨(hx.builder c s a s' hg).grows.trans h.under, fun p hp => h.name p (hx.runtime c s a s' hg hp),
    fun p hp => h.declared p (hx.runtime c s a s' hg hp)⟩

/-- When a step of generation gives a value, what it emitted leads to a spot of which something
holds, in a module in which the runtime is linked. -/
def Achieves (w : Setting) (c : Context) (k : Spot) (x : Gen α) (post : Spot → α → Prop) : Prop :=
  k.Open w → ∀ a s', Gives x c k.gen a s' → Linked s' w.module →
    ∃ k' : Spot, k'.gen = s' ∧ k.Runs w k' ∧ k'.Open w ∧ post k' a

section

variable {w : Setting} {k k' : Spot}

theorem Performs.achieves {x : Gen α} {P : Spot → α → Prop} (h : Performs w c k x P) :
    Achieves w c k x P :=
  fun ho a s' hg hl => h ho a s' hg hl.under

namespace Achieves

variable {x : Gen α} {f : α → Gen β} {P P' : Spot → α → Prop} {Q : Spot → β → Prop}

theorem pure {a : α} (h : P k a) : Achieves w c k (pure a) P := (Performs.pure h).achieves

theorem bind (hf : ∀ a, Adds (f a)) (hx : Achieves w c k x P)
    (h : ∀ k₁ a, k.Runs w k₁ → k₁.Open w → P k₁ a → Achieves w c k₁ (f a) Q) :
    Achieves w c k (x >>= f) Q := by
  intro ho b s' hg hl
  obtain ⟨a, s₁, h₁, h₂⟩ := gives_bind.mp hg
  obtain ⟨k₁, rfl, hr₁, ho₁, hp⟩ := hx ho a s₁ h₁ (hl.before (hf a) h₂)
  obtain ⟨k₂, rfl, hr₂, ho₂, hq⟩ := h k₁ a hr₁ ho₁ hp ho₁ b s' h₂ hl
  exact ⟨k₂, rfl, hr₁.trans hr₂ ho, ho₂, hq⟩

/-- A question leaves the state as it is. -/
theorem ask {a : α} (hx : Gives x c k.gen a k.gen) (hf : Achieves w c k (f a) Q) :
    Achieves w c k (x >>= f) Q :=
  fun ho b s' hg => hf ho b s' (gives_after hx hg)

theorem mono (hx : Achieves w c k x P) (h : ∀ k' a, k.Runs w k' → k'.Open w → P k' a → P' k' a) :
    Achieves w c k x P' := by
  intro ho a s' hg hl
  obtain ⟨k', he, hr, ho', hp⟩ := hx ho a s' hg hl
  exact ⟨k', he, hr, ho', h k' a hr ho' hp⟩

/-- A step may rely on where it begins. -/
theorem assume (h : k.Open w → Achieves w c k x P) : Achieves w c k x P := fun ho => h ho ho

end Achieves

/-- Nothing was placed in the function between two spots. -/
theorem Spot.Open.moved {s' : State} (ho : k.Open w) (hm : s'.builder.module.Grows w.module)
    (hp : s'.builder.position = k.gen.builder.position)
    (hg : k.gen.builder.module.Grows s'.builder.module)
    (hf : s'.func w.func = k.gen.func w.func) :
    k.Runs w { k with gen := s' } ∧ ({ k with gen := s' } : Spot).Open w := by
  have hblock : s'.block w.func w.block = k.gen.block w.func w.block := by
    rw [State.block, State.block, hf]
  refine ⟨⟨hg, ⟨[], ?_, rfl⟩, .refl _ _, rfl⟩, ⟨hp.trans ho.position, ?_, ?_, hm, ho.size, ?_⟩⟩
  · rw [hblock, List.append_nil]
  · have h := ho.inside
    rwa [State.Has, ← hf] at h
  · show (s'.block w.func w.block).term = none
    rw [hblock]
    exact ho.isOpen
  · show _ ≤ k.run.stepLimit + (s'.block w.func w.block).insts.size
    rw [hblock]
    exact ho.fuel

/-! ### Functions of the runtime -/

theorem achieves_runtimeFunction {name : String} {params : List Ty} {ret : Ty} :
    Achieves w c k (runtimeFunction name params ret) fun k' g =>
      k'.run = k.run ∧ (w.module.function g).name = name ∧
        (w.module.function g).isDeclaration = true := by
  intro ho g s' hg hl
  unfold runtimeFunction at hg
  have hg := gives_after (show Gives get c k.gen k.gen k.gen from rfl) hg
  split at hg
  · rename_i f hlookup
    obtain ⟨rfl, rfl⟩ := gives_pure.mp hg
    have hmem := mem_of_lookup hlookup
    exact ⟨k, rfl, .refl w k, ho, rfl, hl.name _ hmem, hl.declared _ hmem⟩
  · -- a function that is declared here is not the one in which code is emitted
    obtain ⟨f, s₁, hdeclare, hg⟩ := gives_bind.mp hg
    obtain ⟨rfl, rfl⟩ := gives_emit hdeclare
    obtain ⟨⟨⟩, s₂, hnote, hg⟩ := gives_bind.mp hg
    obtain rfl := gives_modify hnote
    obtain ⟨rfl, rfl⟩ := gives_pure.mp hg
    have hne : w.func ≠ k.gen.builder.module.nextFunction := fun h =>
      absurd ho.index_lt (by rw [h, Module.nextFunction]; exact lt_irrefl _)
    obtain ⟨hr, ho'⟩ := ho.moved hl.under rfl (.addFunction _) (Module.function_addFunction_of_ne hne)
    exact ⟨_, rfl, hr, ho', rfl, hl.name _ List.mem_cons_self, hl.declared _ List.mem_cons_self⟩

/-- Operands of a call and their values. -/
def Spot.Values (k : Spot) : List Value → List RtValue → Prop :=
  List.Forall₂ fun v x => k.frame.value? k.run.globals v = some x

theorem performs_call {g : FuncId} {vs : List Value} {xs : List RtValue} {x : RtValue}
    {μ : Exec.Memory} (hw : w.call = Exec.Run.runtimeCall w.module)
    (hd : (w.module.function g).isDeclaration = true) (hvs : k.Values vs xs)
    (hx : Returns (Exec.Run.builtin (w.module.function g).name xs) k.run.ticked x
      { k.run.ticked with memory := μ }) :
    Performs w c k (emit (Build.call g vs)) fun k' v =>
      (∃ id, v = .inst id) ∧ (∃ t, k'.Holds w v t x) ∧ k'.run.memory = μ := by
  have hcall : Returns (Exec.Run.instruction w.module w.call w.func k.frame (.call g vs)
      (k.gen.builder.module.function g).ret) k.run.ticked x { k.run.ticked with memory := μ } := by
    refine Exec.Run.returns_call (σ := k.run.ticked) hvs ?_
    rwa [hw, Exec.Run.runtimeCall_eq hd]
  refine .build_congr (Build.push (.call g vs) (k.gen.builder.module.function g).ret) rfl ?_
  refine (performs_push rfl hcall rfl rfl rfl).mono fun k' v _ _ ⟨hid, hv, hrun⟩ =>
    ⟨hid, ⟨_, hv⟩, ?_⟩
  rw [hrun]

/-! ### Ends of blocks -/

/-- The run from a spot on has a step to spare for the terminator of the block. -/
def Spot.Spare (w : Setting) (k : Spot) : Prop :=
  k.run.steps + ((w.module.function w.func).block w.block).insts.size <
    k.run.stepLimit + (k.gen.block w.func w.block).insts.size

theorem Spot.Runs.spare (h : k.Runs w k') (hw : w.call = Exec.Run.runtimeCall w.module)
    (hs : k.Spare w) : k'.Spare w := by
  obtain ⟨ids, hcode, hrun⟩ := h.code
  rw [hw] at hrun
  obtain ⟨hsteps, hlimit⟩ := Exec.Run.steps_instructions hrun
  have hlen := congrArg List.length hcode
  simp only [List.length_append, Array.length_toList] at hlen
  unfold Spot.Spare at hs ⊢
  omega

/-- What is left of a block from a spot on comes to an outcome, in a run of the machine: it returns a
value, or an instruction stops. -/
inductive Spot.Ends (w : Setting) (n : Nat) (k : Spot) : Except Fault RtValue → Exec.State → Prop
  | returns {ids : List InstId} {fr : Frame} {σ σ' : Exec.State} {x : RtValue}
      (code : ((w.module.function w.func).block w.block).insts.toList =
        (k.gen.block w.func w.block).insts.toList ++ ids)
      (run : Returns (Exec.Run.instructions w.module (Exec.Run.callWithin w.module (n + 1)) w.func
        (w.module.function w.func) k.frame ids) k.run fr σ)
      (last : Returns (Exec.Run.terminator (w.module.function w.func)
        ((w.module.function w.func).block w.block) fr) σ (.ret x) σ') : k.Ends w n (.ok x) σ'
  | stops {ids : List InstId} {e : Fault} {σ' : Exec.State}
      (code : ((w.module.function w.func).block w.block).insts.toList =
        (k.gen.block w.func w.block).insts.toList ++ ids)
      (run : Stops (Exec.Run.instructions w.module (Exec.Run.callWithin w.module (n + 1)) w.func
        (w.module.function w.func) k.frame ids) k.run e σ') : k.Ends w n (.error e) σ'

variable {n : Nat} {r : Except Fault RtValue} {σ' : Exec.State}

theorem Spot.Ends.before (h : k'.Ends w n r σ') (hr : k.Runs w k')
    (hw : w.call = Exec.Run.runtimeCall w.module) : k.Ends w n r σ' := by
  obtain ⟨ids, hcode, hrun⟩ := hr.code
  rw [hw] at hrun
  have hrun := Exec.Run.returns_instructions_calls (n := n) hrun
  cases h with
  | returns code run last =>
    refine .returns (code.trans (by rw [hcode, List.append_assoc])) ?_ last
    rw [Exec.Run.instructions_append]
    exact hrun.bind run
  | stops code run =>
    refine .stops (code.trans (by rw [hcode, List.append_assoc])) ?_
    rw [Exec.Run.instructions_append]
    exact .after hrun run

/-- When a step of generation gives a value, what is left of the block comes to an outcome, whatever
is emitted after the step. -/
def Concludes (w : Setting) (n : Nat) (c : Context) (k : Spot) (x : Gen α)
    (r : Except Fault RtValue) (P : Exec.State → Prop) : Prop :=
  k.Open w → k.Spare w → ∀ a s', Gives x c k.gen a s' → Linked s' w.module →
    ∃ σ', k.Ends w n r σ' ∧ P σ'

namespace Concludes

variable {x : Gen α} {f : α → Gen β} {P : Spot → α → Prop} {Q Q' : Exec.State → Prop}

theorem mono (h : Concludes w n c k x r Q) (hq : ∀ σ, Q σ → Q' σ) : Concludes w n c k x r Q' := by
  intro ho hs a s' hg hl
  obtain ⟨σ', he, hp⟩ := h ho hs a s' hg hl
  exact ⟨σ', he, hq σ' hp⟩

/-- The outcome lies behind the first step. -/
theorem after (hw : w.call = Exec.Run.runtimeCall w.module) (hf : ∀ a, Adds (f a))
    (hx : Achieves w c k x P)
    (h : ∀ k₁ a, k.Runs w k₁ → k₁.Open w → P k₁ a → Concludes w n c k₁ (f a) r Q) :
    Concludes w n c k (x >>= f) r Q := by
  intro ho hs b s' hg hl
  obtain ⟨a, s₁, h₁, h₂⟩ := gives_bind.mp hg
  obtain ⟨k₁, rfl, hr₁, ho₁, hp⟩ := hx ho a s₁ h₁ (hl.before (hf a) h₂)
  obtain ⟨σ', he, hq⟩ := h k₁ a hr₁ ho₁ hp ho₁ (hr₁.spare hw hs) b s' h₂ hl
  exact ⟨σ', he.before hr₁ hw, hq⟩

/-- The outcome lies in the first step. -/
theorem first (hf : ∀ a, Adds (f a)) (hx : Concludes w n c k x r Q) :
    Concludes w n c k (x >>= f) r Q := by
  intro ho hs b s' hg hl
  obtain ⟨a, s₁, h₁, h₂⟩ := gives_bind.mp hg
  exact hx ho hs a s₁ h₁ (hl.before (hf a) h₂)

theorem ask {a : α} (hx : Gives x c k.gen a k.gen) (hf : Concludes w n c k (f a) r Q) :
    Concludes w n c k (x >>= f) r Q :=
  fun ho hs b s' hg => hf ho hs b s' (gives_after hx hg)

/-- A step may rely on where it begins. -/
theorem assume (h : k.Open w → Concludes w n c k x r Q) : Concludes w n c k x r Q :=
  fun ho => h ho ho

theorem build_congr {b : Build α} (b' : Build β) (h : (b k.gen.builder).2 = (b' k.gen.builder).2)
    (hb : Concludes w n c k (emit b') r Q) : Concludes w n c k (emit b) r Q := by
  intro ho hs a s' hg
  obtain ⟨-, rfl⟩ := gives_emit hg
  rw [h]
  exact hb ho hs _ _ rfl

end Concludes

/-- An instruction stops the run. -/
theorem concludes_push {kind : InstKind} {t : Ty} {name : Option String} {e : Fault}
    {σ : Exec.State} (hphi : kind.isPhi = false)
    (hx : Stops (Exec.Run.instruction w.module (Exec.Run.callWithin w.module (n + 1)) w.func k.frame
      kind t) k.run.ticked e σ) :
    Concludes w n c k (emit (Build.push kind t name)) (.error e) fun σ' => σ' = σ := by
  intro ho hs v s' hgives hl
  obtain ⟨rfl, rfl⟩ := gives_emit hgives
  have hterm : k.gen.builder.blockTerminated w.func w.block = false := by
    have := ho.isOpen
    simp_all [IR.Builder.blockTerminated, State.block, State.func]
  have hpush : @Eq (Value × IR.Builder) (Build.push kind t name k.gen.builder) _ :=
    (Build.push_at ho.position).trans (pushInto_open hterm)
  have hm := hl.under
  rw [hpush] at hm
  let inst : Inst := ⟨kind, t, name, k.gen.builder.location⟩
  let id : InstId := ⟨(k.gen.func w.func).insts.size⟩
  obtain ⟨hinst, -, -⟩ := ho.next hm
  have hself : (k.gen.builder.module.modifyFunction w.func (Build.placed w.block inst)).function
      w.func = Build.placed w.block inst (k.gen.func w.func) :=
    Module.function_modifyFunction_self ho.index_lt
  have hin : IR.Function.HasBlock (Build.placed w.block inst (k.gen.func w.func)) w.block :=
    Build.hasBlock_placed.mpr ho.inside
  -- the instruction is where the block of the later module goes on
  obtain ⟨rest, hrest⟩ : (k.gen.block w.func w.block).insts.toList ++ [id] <+:
      ((w.module.function w.func).block w.block).insts.toList := by
    have hf := hm.function w.func (by simpa using ho.index_lt)
    rw [hself] at hf
    have hprefix := (hf.block w.block hin).insts
    rw [Build.block_placed_self ho.inside, Array.toList_push] at hprefix
    exact hprefix
  have hcode : ((w.module.function w.func).block w.block).insts.toList =
      (k.gen.block w.func w.block).insts.toList ++ id :: rest := by
    rw [← hrest, List.append_assoc]
    rfl
  refine ⟨σ, .stops hcode ?_, rfl⟩
  · have hsteps : k.run.steps < k.run.stepLimit := by
      have hlen := congrArg List.length hrest
      simp only [List.length_append, Array.length_toList, List.length_singleton] at hlen
      unfold Spot.Spare at hs
      omega
    rw [Exec.Run.instructions, if_neg (by rw [hinst]; simp [hphi])]
    refine .after (Exec.Run.returns_tick hsteps) ?_
    rw [hinst]
    exact hx.bind

/-- A function of the runtime stops the run. -/
theorem concludes_call {g : FuncId} {vs : List Value} {xs : List RtValue} {e : Fault}
    {σ : Exec.State} (hd : (w.module.function g).isDeclaration = true) (hvs : k.Values vs xs)
    (hx : Stops (Exec.Run.builtin (w.module.function g).name xs) k.run.ticked e σ) :
    Concludes w n c k (emit (Build.call g vs)) (.error e) fun σ' => σ' = σ := by
  refine .build_congr (Build.push (.call g vs) (k.gen.builder.module.function g).ret) rfl ?_
  refine concludes_push rfl (Exec.Run.stops_call (σ := k.run.ticked) hvs ?_)
  rwa [Exec.Run.callWithin_eq hd]

/-- A value is returned. -/
theorem concludes_ret {v : Value} {t : Ty} {x : RtValue} (hv : k.Holds w v t x) :
    Concludes w n c k (emit (Build.ret (some v))) (.ok x) fun σ' => σ' = k.run.ticked := by
  intro ho hs a s' hgives hl
  have hgives' : Gives (emit (Build.terminate (.ret (some v)))) c k.gen a s' := hgives
  have hblock := ho.ended rfl (fun _ _ h => ⟨h, rfl⟩) hgives' hl.under
  have hsteps : k.run.steps < k.run.stepLimit := by
    unfold Spot.Spare at hs
    rw [hblock] at hs
    exact Nat.lt_of_add_lt_add_right hs
  have hcode : ((w.module.function w.func).block w.block).insts.toList =
      (k.gen.block w.func w.block).insts.toList ++ [] := by
    rw [hblock, List.append_nil]
  refine ⟨k.run.ticked, .returns hcode (Exec.Run.returns_pure k.frame k.run) ?_, rfl⟩
  · refine (Exec.Run.returns_tick hsteps).bind ?_
    rw [hblock]
    exact (Exec.Run.returns_operand (σ := k.run.ticked) hv.value).bind
      (Exec.Run.returns_pure _ _)

theorem Spot.Ends.slots (h : k.Ends w n r σ')
    (hplain : (w.module.function w.func).Plain w.block) : σ'.slots = k.run.slots := by
  have hids : ∀ ids l, ((w.module.function w.func).block w.block).insts.toList = l ++ ids →
      ∀ id ∈ ids, ((w.module.function w.func).inst id).kind.isPlain = true := fun ids l hl id hid =>
    (hplain id (Array.mem_toList_iff.mp (hl ▸ List.mem_append_right l hid))).2
  cases h with
  | returns code run last =>
    have hrun := (Exec.Run.slots_instructions (hids _ _ code)).of_returns run
    have hlast := Exec.Run.Moves.of_returns (Exec.Run.kept_terminator (d := none) _ _ _) last
    exact hlast.slots.trans hrun
  | stops code run => exact (Exec.Run.slots_instructions (hids _ _ code)).of_stops run

/-- A block that comes to an outcome is the last one of the activation. -/
theorem Spot.Ends.blocks {j : Nat} {source : Option BlockId} (h : k.Ends w n r σ')
    (hempty : (k.gen.block w.func w.block).insts = #[])
    (hplain : (w.module.function w.func).Plain w.block) :
    Exec.Run.outcome (Exec.Run.blocks w.module (Exec.Run.callWithin w.module (n + 1)) w.func (j + 1)
      k.frame source w.block) k.run = (r, σ') := by
  have hvalues : ∀ ids : List InstId, ((w.module.function w.func).block w.block).insts.toList = ids →
      Returns (Exec.Run.phiValues (w.module.function w.func) k.frame source ids) k.run [] k.run :=
    fun ids hids => Exec.Run.returns_phiValues fun id hid =>
      IR.InstKind.isPhi_of_isPlain (hplain id (Array.mem_toList_iff.mp (hids ▸ hid))).2
  cases h with
  | @returns ids fr σ σ' x code run last =>
    rw [hempty, List.nil_append] at code
    have hblock : Returns (Exec.Run.block w.module (Exec.Run.callWithin w.module (n + 1)) w.func
        k.frame source w.block) k.run (fr, .ret x) σ' := by
      refine (hvalues _ rfl).bind ?_
      rw [code]
      exact run.bind (last.bind (Exec.Run.returns_pure _ _))
    exact hblock.bind (Exec.Run.returns_pure _ _)
  | @stops ids e σ' code run =>
    rw [hempty, List.nil_append] at code
    have hblock : Stops (Exec.Run.block w.module (Exec.Run.callWithin w.module (n + 1)) w.func
        k.frame source w.block) k.run e σ' := by
      refine .after (hvalues _ rfl) ?_
      rw [code]
      exact run.bind
    exact hblock.bind

end

end Gen

end Lowering
