import Lowering.Gen.State
import Lowering.Proofs.Dependence
import Lowering.Proofs.Growth
import Lowering.Proofs.Shape

/-!
# Code placed in a straight line

Most steps of generation end no block and begin none.  They are sequences of a few moves: an
instruction is placed at the current position or in the block of stack slots, a global or a
foreign function is added, a variable is put in scope.

* `Gen.Usable`, `Gen.Callable`: operands and callees that the module has;
* `Gen.Distinct`, `Gen.Discerned`: functions are told by their names;
* `Gen.Recorded`, `Gen.Accounted`: the calls that are noted and those in the code;
* `Gen.Move`, `Gen.Straight`: a move, and any number of moves;
* `Gen.Steady`: what every move needs and keeps;
* `Gen.Emits`: a step of generation that comes to moves, with its rules.
-/

namespace Lowering.Gen

open IR (Ty Value FuncId BlockId GlobalId InstId InstKind Inst Build Module)
open Relation (ReflTransGen)

variable {α β : Type} {c : Context} {e : Option Entity} {s s₁ s₂ s' : State}

/-! ### Outcomes -/

/-- A step of generation gives a value and leaves a state. -/
def Gives (x : Gen α) (c : Context) (s : State) (a : α) (s' : State) : Prop :=
  @Eq (Except Failure α × State) (x c s) (.ok a, s')

theorem gives_pure {a b : α} : Gives (pure a) c s b s' ↔ b = a ∧ s' = s := by
  refine ⟨fun h => ?_, fun ⟨hb, hs⟩ => by rw [hb, hs]; rfl⟩
  have h : ((Except.ok a : Except Failure α), s) = (.ok b, s') := h
  simp only [Prod.mk.injEq, Except.ok.injEq] at h
  exact ⟨h.1.symm, h.2.symm⟩

theorem not_gives_fail {cause : Cause} {a : α} : ¬ Gives (fail cause) c s a s' := by
  intro h
  have h : ((Except.error { cause } : Except Failure α), s) = (.ok a, s') := h
  simp at h

/-- How a step goes on after an outcome. -/
def goOn (f : α → Gen β) (c : Context) : Except Failure α × State → Except Failure β × State
  | (.ok a, s) => f a c s
  | (.error d, s) => (.error d, s)

theorem bind_outcome (x : Gen α) (f : α → Gen β) (c : Context) (s : State) :
    @Eq (Except Failure β × State) ((x >>= f) c s) (goOn f c (x c s)) := by
  show (ExceptT.bindCont (fun a => f a c) (x c s).1) (x c s).2 = goOn f c ((x c s).1, (x c s).2)
  cases (x c s).1 <;> rfl

/-- A step that gives a value, taken apart. -/
theorem gives_bind {x : Gen α} {f : α → Gen β} {b : β} :
    Gives (x >>= f) c s b s' ↔ ∃ a s₁, Gives x c s a s₁ ∧ Gives (f a) c s₁ b s' := by
  obtain ⟨r, hr⟩ : ∃ r, @Eq (Except Failure α × State) (x c s) r := ⟨_, rfl⟩
  unfold Gives
  rw [bind_outcome x f c s, hr]
  rcases r with ⟨d | a, s₁⟩
  · simp [goOn]
  · refine ⟨fun h => ⟨a, s₁, rfl, h⟩, ?_⟩
    rintro ⟨a', s₁', h, hf⟩
    simp only [Prod.mk.injEq, Except.ok.injEq] at h
    rw [h.1, h.2]
    exact hf

theorem gives_modify {f : State → State} {a : Unit} (h : Gives (modify f) c s a s') : s' = f s := by
  have h : ((Except.ok () : Except Failure Unit), f s) = (.ok a, s') := h
  simp only [Prod.mk.injEq] at h
  exact h.2.symm

theorem gives_emit {b : Build α} {a : α} (h : Gives (emit b) c s a s') :
    a = (b s.builder).1 ∧ s' = { s with builder := (b s.builder).2 } := by
  have h : ((Except.ok (b s.builder).1 : Except Failure α), { s with builder := (b s.builder).2 }) =
    (.ok a, s') := h
  simp only [Prod.mk.injEq, Except.ok.injEq] at h
  exact ⟨h.1.symm, h.2.symm⟩

/-- A step has one outcome. -/
theorem Gives.unique {x : Gen α} {a b : α} (h : Gives x c s a s₁) (h' : Gives x c s b s₂) :
    a = b ∧ s₁ = s₂ := by
  have he : ((Except.ok a : Except Failure α), s₁) = (.ok b, s₂) := h.symm.trans h'
  simp only [Prod.mk.injEq, Except.ok.injEq] at he
  exact he

/-- A step of which the outcome is known, taken off the front. -/
theorem gives_after {x : Gen α} {f : α → Gen β} {a : α} {b : β} (hx : Gives x c s a s₁)
    (h : Gives (x >>= f) c s b s') : Gives (f a) c s₁ b s' := by
  obtain ⟨a', s₁', hx', hf⟩ := gives_bind.mp h
  obtain ⟨ha, hs⟩ := hx.unique hx'
  rw [ha, hs]
  exact hf

theorem gives_attempted {x : Gen α} {a : α} (h : Gives (attempt x) c s (.ok a) s') :
    Gives x c s a s' := by
  have h : ((Except.ok (x c s).1 : Except Failure (Except Failure α)), (x c s).2) =
    (.ok (.ok a), s') := h
  simp only [Prod.mk.injEq, Except.ok.injEq] at h
  show @Eq (Except Failure α × State) ((x c s).1, (x c s).2) (.ok a, s')
  rw [h.1, h.2]

theorem gives_attempt_of {x : Gen α} {a : α} (h : Gives x c s a s') :
    Gives (attempt x) c s (.ok a) s' :=
  congrArg (fun o : Except Failure α × State => (Except.ok o.1, o.2)) h

theorem gives_resume {r : Except Failure α} {a : α} (h : Gives (resume r) c s a s') :
    r = .ok a ∧ s' = s := by
  cases r with
  | error d => exact absurd (show (Except.error d, s) = (.ok a, s') from h) (by simp)
  | ok b =>
    obtain ⟨rfl, rfl⟩ := gives_pure.mp h
    exact ⟨rfl, rfl⟩

/-- A step followed by another one however it ends, when both give values. -/
theorem gives_attempt {x : Gen α} {y : Gen Unit} {a : α}
    (h : Gives (do let r ← attempt x; y; resume r) c s a s') :
    ∃ s₁, Gives x c s a s₁ ∧ Gives y c s₁ () s' := by
  obtain ⟨r, s₁, hx, h⟩ := gives_bind.mp h
  obtain ⟨⟨⟩, s₂, hy, h⟩ := gives_bind.mp h
  obtain ⟨rfl, rfl⟩ := gives_resume h
  exact ⟨s₁, gives_attempted hx, hy⟩

/-! ### Operands and callees -/

/-- The code of an entity may read a global: that of a constant only when the entity depends on
it. -/
def MayRead (c : Context) (e : Option Entity) (s : State) (g : GlobalId) : Prop :=
  ∀ id, (id, g) ∈ s.consts → ∃ a, e = some a ∧ c.program.Depends a (.constant id)

/-- An operand that the code of an entity may have in a function. -/
def UsableIn (c : Context) (e : Option Entity) (s : State) (f : FuncId) : Value → Prop
  | .inst id => id.index < (s.builder.module.function f).insts.size
  | .param i => i < (s.builder.module.function f).params.length
  | .global g | .const (.globalAddr g _) =>
    g.index < s.builder.module.globals.size ∧ MayRead c e s g
  | .const _ => True

/-- An operand that the code of an entity may have in the current function. -/
abbrev Usable (c : Context) (e : Option Entity) (s : State) (v : Value) : Prop :=
  UsableIn c e s s.fn.func v

/-- An entity may write a global: that of a constant only when it is the initializer. -/
def MayWrite (e : Option Entity) (s : State) (g : GlobalId) : Prop :=
  g.index < s.builder.module.globals.size ∧ ∀ id, (id, g) ∈ s.consts → e = some (.constant id)

/-- The operand of a store into a global that an entity may write. -/
def Settles (e : Option Entity) (s : State) (kind : InstKind) (v : Value) : Prop :=
  ∃ w g, kind = .store w v ∧ v = .global g ∧ MayWrite e s g

/-- A function that the code of an entity may call: a foreign function of the runtime, or one of a
definition that the entity depends on. -/
structure Callable (c : Context) (e : Option Entity) (s : State) (callee : FuncId) : Prop where
  inside : callee.index < s.builder.module.functions.size
  known : (∃ n, (n, callee) ∈ s.runtime) ∨
    ∃ a d, e = some a ∧ c.program.Calls a d (s.builder.module.function callee).name

/-- An instruction that is no phi and can be placed in a block. -/
structure Fits (c : Context) (e : Option Entity) (s : State) (f : FuncId) (b : BlockId)
    (kind : InstKind) : Prop where
  notPhi : kind.isPhi = false
  operands : ∀ v ∈ kind.operands, UsableIn c e s f v ∨ Settles e s kind v
  callee : ∀ callee args, kind = .call callee args → Callable c e s callee
  slot : ∀ t, kind = .alloca t → b = ⟨0⟩

/-! ### Moves -/

/-- Where instructions are placed, with the entity whose code they are: what stands in a block of
stack slots belongs to none. -/
inductive Site (c : Context) (e : Option Entity) (s : State) :
    FuncId → BlockId → Option Entity → Prop
  | position {f : FuncId} {b : BlockId} (h : s.builder.position = some (f, b))
      (hf : f = s.fn.func) : Site c e s f b e
  | slots : Site c e s s.fn.func ⟨0⟩ none
  | entry : Site c e s c.main.func ⟨0⟩ none

/-- The globals in the tables of a generation, those of constants apart. -/
def State.tableGlobals (s : State) : List GlobalId :=
  s.strings.map Prod.snd ++ s.symbolTable.toList ++ s.globals.map Prod.snd ++
    s.entryArgs.toList.flatMap fun (a, b) => [a, b]

/-- A global that is behind no constant. -/
def Plain (s : State) (g : GlobalId) : Prop :=
  g.index < s.builder.module.globals.size ∧ ∀ id, (id, g) ∉ s.consts

/-- A function of the runtime, which is only declared. -/
def Foreign (s : State) (f : FuncId) : Prop :=
  f.index < s.builder.module.functions.size ∧ (s.builder.module.function f).blocks = #[]

/-- The foreign functions that generated code calls itself. -/
def runtimeNames : List String := ["memset", "realloc", "memcpy"]

/-- The functions of a module have different names, apart from those named as the runtime's. -/
def Distinct (m : Module) : Prop :=
  ∀ f g : FuncId, f.index < m.functions.size → g.index < m.functions.size →
    (m.function f).name = (m.function g).name → f = g ∨ (m.function f).name ∈ runtimeNames

/-- The instruction of a noted call calls the function of the definition that was meant. -/
structure Recorded (c : Context) (m : Module) (k : CallSite) : Prop where
  means : c.program.Means k.definition k.selfType
  placed : k.inst.index < (m.function k.caller).insts.size
  calls : ∃ f args, ((m.function k.caller).inst k.inst).kind = .call f args ∧
    f.index < m.functions.size ∧
    (m.function f).name = k.definition.mangledName c.program.types k.selfType

/-- What is noted when an instruction of a kind is placed next in a function: what a call of a
definition means, and nothing of other instructions. -/
inductive Notes (c : Context) (s : State) (f : FuncId) (kind : InstKind) : List CallSite → Prop
  | other (h : ∀ callee args, kind = .call callee args → ∃ n, (n, callee) ∈ s.runtime) :
      Notes c s f kind []
  | call {callee : FuncId} {args : List Value} {d : Def} {t : Option TypeId}
      (kind_eq : kind = .call callee args) (means : c.program.Means d t)
      (inside : callee.index < s.builder.module.functions.size)
      (name : (s.builder.module.function callee).name = d.mangledName c.program.types t) :
      Notes c s f kind [⟨f, ⟨(s.builder.module.function f).insts.size⟩, d, t⟩]

/-- The functions of the runtime are in their table under their own names, each name once, and a
function that has the name of an earlier one is in the table. -/
structure Discerned (m : Module) (runtime : List (String × FuncId)) : Prop where
  keys : (runtime.map Prod.fst).Nodup
  named : ∀ p ∈ runtime, p.2.index < m.functions.size ∧ (m.function p.2).name = p.1 ∧
    p.1 ∈ runtimeNames
  later : ∀ f g : FuncId, f.index < g.index → g.index < m.functions.size →
    (m.function f).name = (m.function g).name → ((m.function g).name, g) ∈ runtime

/-- The calls in the code are those of functions of the runtime and those that were noted, and the
functions can be told by their names. -/
def Accounted (s : State) : Prop :=
  (∀ (f : FuncId) (id : InstId) (callee : FuncId) (args : List Value),
    id.index < (s.builder.module.function f).insts.size →
    ((s.builder.module.function f).inst id).kind = .call callee args →
      (∃ n, (n, callee) ∈ s.runtime) ∨ ∃ k ∈ s.calls, k.caller = f ∧ k.inst = id) ∧
    Discerned s.builder.module s.runtime

/-- A change of the tables and records of a generation only. -/
structure Noted (s s' : State) : Prop where
  functions : s'.builder.module.functions = s.builder.module.functions
  globals : s'.builder.module.globals = s.builder.module.globals
  position : s'.builder.position = s.builder.position
  act : s'.act = s.act
  fn : s'.fn = s.fn
  definition : s'.definition = s.definition
  constTail : s'.constTail = s.constTail
  blocks : s'.blocks = s.blocks
  targets : s'.targets = s.targets
  consts : s'.consts = s.consts
  tables : ∀ g ∈ s'.tableGlobals, g ∈ s.tableGlobals ∨ Plain s g
  runtime : s'.runtime = s.runtime
  calls : s'.calls = s.calls

/-- The state with another module. -/
def State.withModule (s : State) (m : Module) : State :=
  { s with builder := { s.builder with module := m } }

/-- The state with an instruction placed and calls noted. -/
def State.placed (s : State) (f : FuncId) (b : BlockId) (inst : Inst) (ks : List CallSite) :
    State :=
  { s.withModule (s.builder.module.modifyFunction f (Build.placed b inst)) with
    calls := ks ++ s.calls }

/-- The state with one more function, which is noted as one of the runtime. -/
def State.withHelper (s : State) (fn : IR.Function) : State :=
  { s.withModule (s.builder.module.addFunction fn) with
    runtime := (fn.name, s.builder.module.nextFunction) :: s.runtime }

/-- One move of code in a straight line. -/
inductive Move (c : Context) (e : Option Entity) (s : State) : State → Prop
  | place {f : FuncId} {b : BlockId} {e' : Option Entity} {inst : Inst} {ks : List CallSite}
      (site : Site c e s f b e') (fits : Fits c e' s f b inst.kind)
      (open_ : ((s.builder.module.function f).block b).term = none)
      (notes : Notes c s f inst.kind ks) :
      Move c e s (s.placed f b inst ks)
  | declare {fn : IR.Function} (blocks : fn.blocks = #[]) (insts : fn.insts = #[])
      (name : fn.name ≠ IR.entryName)
      (fresh : ∀ f : FuncId, f.index < s.builder.module.functions.size →
        (s.builder.module.function f).name ≠ fn.name) :
      Move c e s (s.withModule (s.builder.module.addFunction fn))
  | helper {fn : IR.Function} (blocks : fn.blocks = #[]) (insts : fn.insts = #[])
      (name : fn.name ∈ runtimeNames) (missing : s.runtime.lookup fn.name = none) :
      Move c e s (s.withHelper fn)
  | global (g : IR.Global) : Move c e s (s.withModule (s.builder.module.addGlobal g))
  | content (id : GlobalId) {change : IR.Global → IR.Global} (h : ∀ g, (change g).type = g.type) :
      Move c e s (s.withModule (s.builder.module.modifyGlobal id change))
  | bind {a : Entity} {name : String} {v : Variable} (code : e = some a)
      (usable : Usable c e s v.ptr) :
      Move c e s { s with act := { s.act with vars := (name, v) :: s.act.vars } }
  | note {s' : State} (h : Noted s s') : Move c e s s'

/-- Any number of moves. -/
def Straight (c : Context) (e : Option Entity) : State → State → Prop := ReflTransGen (Move c e)

/-- What every move needs and keeps: the position is in a block of the current function, the tables
name functions and globals that there are, and functions can be told by their names. -/
structure Steady (c : Context) (s : State) : Prop where
  position : ∃ b, s.builder.position = some (s.fn.func, b) ∧
    (s.builder.module.function s.fn.func).HasBlock b
  slots : s.fn.allocaBlock = ⟨0⟩
  nilType : c.program.types.nil? = some c.nil
  entry : (s.builder.module.function c.main.func).HasBlock ⟨0⟩
  entryName : (s.builder.module.function c.main.func).name = IR.entryName
  entryOnly : ∀ f, (s.builder.module.function f).name = IR.entryName → f = c.main.func
  entrySlots : c.main.allocaBlock = ⟨0⟩
  entryReturn : c.main.returnSlot = none
  entryParams : (s.builder.module.function c.main.func).params.length = 2
  consts : ∀ p ∈ s.consts, p.2.index < s.builder.module.globals.size
  apart : (s.consts.map Prod.snd).Nodup
  tables : ∀ g ∈ s.tableGlobals, Plain s g
  foreign : ∀ p ∈ s.runtime, Foreign s p.2
  distinct : Distinct s.builder.module
  calls : ∀ k ∈ s.calls, Recorded c s.builder.module k

/-! ### What moves keep -/

/-- The functions, blocks and instructions of a state are in a later one, and no global of the
first state is behind a constant that is new. -/
structure State.Grows (s s' : State) : Prop where
  code : s.builder.module.Grows s'.builder.module
  consts : ∀ id g, (id, g) ∈ s'.consts → g.index < s.builder.module.globals.size →
    (id, g) ∈ s.consts

namespace State.Grows

theorem refl (s : State) : s.Grows s := ⟨.refl _, fun _ _ h _ => h⟩

theorem trans (h₁ : s.Grows s₁) (h₂ : s₁.Grows s₂) : s.Grows s₂ :=
  ⟨h₁.code.trans h₂.code, fun id g h hg =>
    h₁.consts id g (h₂.consts id g h (lt_of_lt_of_le hg h₁.code.globals)) hg⟩

end State.Grows

theorem index_lt_of_hasBlock {m : Module} {f : FuncId} {b : BlockId}
    (h : (m.function f).HasBlock b) : f.index < m.functions.size := by
  by_contra hf
  simp only [Module.function, Array.getElem?_eq_none (not_lt.mp hf)] at h
  exact absurd h (by simp [IR.Function.HasBlock, show (default : IR.Function).blocks = #[] from rfl])

theorem index_lt_of_inst {m : Module} {f : FuncId} {id : Nat}
    (h : id < (m.function f).insts.size) : f.index < m.functions.size := by
  by_contra hf
  simp only [Module.function, Array.getElem?_eq_none (not_lt.mp hf)] at h
  exact absurd h (by simp [show (default : IR.Function).insts = #[] from rfl])

theorem index_lt_of_param {m : Module} {f : FuncId} {i : Nat}
    (h : i < (m.function f).params.length) : f.index < m.functions.size := by
  by_contra hf
  simp only [Module.function, Array.getElem?_eq_none (not_lt.mp hf)] at h
  exact absurd h (by simp [show (default : IR.Function).params = [] from rfl])

theorem MayRead.mono {g : GlobalId} (hg : s.Grows s')
    (hi : g.index < s.builder.module.globals.size) (h : MayRead c e s g) : MayRead c e s' g :=
  fun id hm => h id (hg.consts id g hm hi)

theorem MayWrite.mono {g : GlobalId} (hg : s.Grows s') (h : MayWrite e s g) : MayWrite e s' g :=
  ⟨lt_of_lt_of_le h.1 hg.code.globals, fun id hm => h.2 id (hg.consts id g hm h.1)⟩

theorem Settles.mono {kind : InstKind} {v : Value} (hg : s.Grows s') (h : Settles e s kind v) :
    Settles e s' kind v := by
  obtain ⟨w, g, hk, hv, hw⟩ := h
  exact ⟨w, g, hk, hv, hw.mono hg⟩

theorem UsableIn.mono {f : FuncId} {v : Value} (hg : s.Grows s') (h : UsableIn c e s f v) :
    UsableIn c e s' f v := by
  cases v with
  | inst id => exact lt_of_lt_of_le h (hg.code.function f (index_lt_of_inst h)).insts_size
  | param i =>
    show i < _
    rw [(hg.code.function f (index_lt_of_param h)).params]
    exact h
  | global g => exact ⟨lt_of_lt_of_le h.1 hg.code.globals, h.2.mono hg h.1⟩
  | const k =>
    cases k with
    | globalAddr g t => exact ⟨lt_of_lt_of_le h.1 hg.code.globals, h.2.mono hg h.1⟩
    | _ => exact trivial

theorem Notes.of_eq {f : FuncId} {kind : InstKind} {ks : List CallSite} (h : Notes c s f kind ks)
    (hm : s'.builder.module = s.builder.module) (hr : s'.runtime = s.runtime) :
    Notes c s' f kind ks := by
  cases h with
  | other h => exact .other (hr ▸ h)
  | call hk hd hin hname =>
    rw [← hm] at hin hname ⊢
    exact .call hk hd hin hname

theorem Recorded.mono {m m' : Module} {k : CallSite} (hg : m.Grows m') (h : Recorded c m k) :
    Recorded c m' k := by
  obtain ⟨f, args, hk, hf, hname⟩ := h.calls
  have hcaller := hg.function k.caller (index_lt_of_inst h.placed)
  refine ⟨h.means, lt_of_lt_of_le h.placed hcaller.insts_size, f, args, ?_,
    lt_of_lt_of_le hf hg.functions, ?_⟩
  · rw [hcaller.inst_eq h.placed]
    exact hk
  · rw [(hg.function f hf).name]
    exact hname

/-- Functions are told by their names as long as none is added. -/
theorem Distinct.grow {m m' : Module} (h : Distinct m) (hg : m.Grows m')
    (hsize : m'.functions.size = m.functions.size) : Distinct m' := by
  intro f g hf hgi
  rw [hsize] at hf hgi
  rw [(hg.function f hf).name, (hg.function g hgi).name]
  exact h f g hf hgi

theorem lt_or_eq_nextFunction {m : Module} {fn : IR.Function} {f : FuncId}
    (h : f.index < (m.addFunction fn).functions.size) :
    f.index < m.functions.size ∨ f = m.nextFunction := by
  rw [Module.functions_addFunction_size] at h
  refine (Nat.lt_succ_iff_lt_or_eq.mp h).imp_right fun hf => ?_
  exact congrArg FuncId.mk hf

theorem function_addFunction_of_lt {m : Module} {fn : IR.Function} {f : FuncId}
    (h : f.index < m.functions.size) : (m.addFunction fn).function f = m.function f :=
  Module.function_addFunction_of_ne fun he => by simp [he, Module.nextFunction] at h

theorem insts_addFunction {m : Module} {fn : IR.Function} (h : fn.insts = #[]) (f : FuncId) :
    ((m.addFunction fn).function f).insts = (m.function f).insts := by
  by_cases hf : f = m.nextFunction
  · subst hf
    rw [Module.function_addFunction_self, h]
    simp only [Module.function, Module.nextFunction, Array.getElem?_size]
    rfl
  · rw [Module.function_addFunction_of_ne hf]

/-- A function without blocks may be added as one of the runtime. -/
theorem foreign_nextFunction {fn : IR.Function} (h : fn.blocks = #[]) :
    Foreign (s.withModule (s.builder.module.addFunction fn)) s.builder.module.nextFunction := by
  refine ⟨?_, (congrArg IR.Function.blocks (Module.function_addFunction_self _ fn)).trans h⟩
  show s.builder.module.functions.size < (s.builder.module.addFunction fn).functions.size
  rw [Module.functions_addFunction_size]
  exact Nat.lt_succ_self _

theorem Distinct.addFunction {m : Module} {fn : IR.Function} (h : Distinct m)
    (fresh : (∀ f : FuncId, f.index < m.functions.size → (m.function f).name ≠ fn.name) ∨
      fn.name ∈ runtimeNames) : Distinct (m.addFunction fn) := by
  have hself := Module.function_addFunction_self m fn
  intro f g hf hg heq
  rcases lt_or_eq_nextFunction hf with hf | rfl <;> rcases lt_or_eq_nextFunction hg with hg | rfl
  · rw [function_addFunction_of_lt hf] at heq ⊢
    exact h f g hf hg (heq.trans (by rw [function_addFunction_of_lt hg]))
  · rw [function_addFunction_of_lt hf, hself] at heq
    rw [function_addFunction_of_lt hf, heq]
    exact .inr (fresh.resolve_left fun h => h f hf heq)
  · rw [function_addFunction_of_lt hg, hself] at heq
    rw [hself]
    exact .inr (fresh.resolve_left fun h => h g hg heq.symm)
  · exact .inl rfl

/-- A key that is not found is the key of no entry. -/
theorem nodup_cons_of_lookup {κ ν : Type} [BEq κ] [LawfulBEq κ] {l : List (κ × ν)} {key : κ} {v : ν}
    (h : l.lookup key = none) (hn : (l.map Prod.fst).Nodup) :
    (((key, v) :: l).map Prod.fst).Nodup := by
  refine List.nodup_cons.mpr ⟨fun hm => ?_, hn⟩
  obtain ⟨p, hp, hk⟩ := List.mem_map.mp hm
  exact absurd (List.lookup_eq_none_iff.mp h p hp) (by simp [hk])

namespace Discerned

variable {m m' : Module} {fn : IR.Function} {runtime : List (String × FuncId)}

/-- Of the functions only the names matter. -/
theorem congr (h : Discerned m runtime) (hn : m'.names = m.names) : Discerned m' runtime := by
  have hsize : m'.functions.size = m.functions.size := by
    simpa [Module.names] using congrArg List.length hn
  have hname (f : FuncId) : (m'.function f).name = (m.function f).name := by
    rw [Module.name_eq, hn, Module.name_eq]
  refine ⟨h.keys, fun p hp => ?_, fun f g hfg hg he => ?_⟩
  · rw [hsize, hname]
    exact h.named p hp
  · rw [hname, hname] at he
    rw [hname]
    exact h.later f g hfg (hsize ▸ hg) he

/-- A function of the table stays in its place when one is added. -/
theorem named_addFunction (h : Discerned m runtime) {p : String × FuncId} (hp : p ∈ runtime) :
    p.2.index < (m.addFunction fn).functions.size ∧
      ((m.addFunction fn).function p.2).name = p.1 ∧ p.1 ∈ runtimeNames := by
  obtain ⟨hin, hname⟩ := h.named p hp
  rw [function_addFunction_of_lt hin, Module.functions_addFunction_size]
  exact ⟨Nat.lt_succ_of_lt hin, hname⟩

/-- The names of two functions are the same after one is added if they were, or if the later of
them is the one that is added. -/
theorem later_addFunction (h : Discerned m runtime) {f g : FuncId} (hfg : f.index < g.index)
    (hg : g.index < (m.addFunction fn).functions.size)
    (he : ((m.addFunction fn).function f).name = ((m.addFunction fn).function g).name) :
    (((m.addFunction fn).function g).name, g) ∈ runtime ∨
      g = m.nextFunction ∧ (m.function f).name = fn.name ∧ f.index < m.functions.size := by
  rcases lt_or_eq_nextFunction hg with hg | rfl
  · rw [function_addFunction_of_lt hg, function_addFunction_of_lt (hfg.trans hg)] at he
    rw [function_addFunction_of_lt hg]
    exact .inl (h.later f g hfg hg he)
  · rw [Module.function_addFunction_self, function_addFunction_of_lt hfg] at he
    exact .inr ⟨rfl, he, hfg⟩

/-- A function may be added under a name that none has. -/
theorem declare (h : Discerned m runtime)
    (fresh : ∀ f : FuncId, f.index < m.functions.size → (m.function f).name ≠ fn.name) :
    Discerned (m.addFunction fn) runtime where
  keys := h.keys
  named _ hp := h.named_addFunction hp
  later _ _ hfg hg he :=
    (h.later_addFunction hfg hg he).resolve_right fun ⟨_, hname, hf⟩ => fresh _ hf hname

/-- One of the runtime may be added under its name, whoever has the name already. -/
theorem helper (h : Discerned m runtime) (name : fn.name ∈ runtimeNames)
    (missing : runtime.lookup fn.name = none) :
    Discerned (m.addFunction fn) ((fn.name, m.nextFunction) :: runtime) where
  keys := nodup_cons_of_lookup missing h.keys
  named p hp := by
    rcases List.mem_cons.mp hp with rfl | hp
    · refine ⟨?_, congrArg IR.Function.name (Module.function_addFunction_self m fn), name⟩
      rw [Module.functions_addFunction_size]
      exact Nat.lt_succ_self _
    · exact h.named_addFunction hp
  later f g hfg hg he := by
    refine (h.later_addFunction hfg hg he).elim (List.mem_cons_of_mem _) ?_
    rintro ⟨rfl, -, -⟩
    rw [Module.function_addFunction_self]
    exact List.mem_cons_self

end Discerned

namespace Accounted

/-- Calls stay accounted for when functions have the instructions that they had. -/
theorem of_insts (h : Accounted s) (hi : ∀ f, (s'.builder.module.function f).insts =
    (s.builder.module.function f).insts) (hr : s.runtime ⊆ s'.runtime) (hc : s.calls ⊆ s'.calls)
    (hn : Discerned s'.builder.module s'.runtime) : Accounted s' := by
  refine ⟨fun f id callee args hid hk => ?_, hn⟩
  rw [hi] at hid
  rw [IR.Function.inst, hi] at hk
  rcases h.1 f id callee args hid hk with ⟨n, hn⟩ | ⟨k, hk, he⟩
  · exact .inl ⟨n, hr hn⟩
  · exact .inr ⟨k, hc hk, he⟩

theorem modifyFunction {f : FuncId} {change : IR.Function → IR.Function} (h : Accounted s)
    (hi : ∀ fn, (change fn).insts = fn.insts) (hn : ∀ fn, (change fn).name = fn.name) :
    Accounted (s.withModule (s.builder.module.modifyFunction f change)) :=
  h.of_insts (fun _ => Module.insts_modifyFunction hi) (List.Subset.refl _) (List.Subset.refl _)
    (h.2.congr (Module.names_modifyFunction hn))

/-- A call is accounted for when it is placed. -/
theorem place {f : FuncId} {b : BlockId} {inst : Inst} {ks : List CallSite} (h : Accounted s)
    (hf : f.index < s.builder.module.functions.size) (notes : Notes c s f inst.kind ks) :
    Accounted (s.placed f b inst ks) := by
  refine ⟨fun f' id callee args hid hk => ?_,
    h.2.congr (Module.names_modifyFunction fun _ => rfl)⟩
  have hold : (∃ n, (n, callee) ∈ s.runtime) ∨ (∃ k ∈ s.calls, k.caller = f' ∧ k.inst = id) →
      (∃ n, (n, callee) ∈ s.runtime) ∨ ∃ k ∈ ks ++ s.calls, k.caller = f' ∧ k.inst = id :=
    Or.imp_right fun ⟨k, hk, he⟩ => ⟨k, List.mem_append_right ks hk, he⟩
  change id.index < ((s.builder.module.modifyFunction f _).function f').insts.size at hid
  change (((s.builder.module.modifyFunction f _).function f').inst id).kind = _ at hk
  -- Only the instruction that is placed is new, and it has the number that its note says.
  by_cases hff : f' = f
  · subst hff
    rw [Module.function_modifyFunction_self hf] at hid hk
    rw [Build.insts_placed, Array.size_push] at hid
    rcases Nat.lt_succ_iff_lt_or_eq.mp hid with hlt | heq
    · rw [IR.Function.inst_placed_old hlt] at hk
      exact hold (h.1 f' id callee args hlt hk)
    · obtain rfl : id = ⟨(s.builder.module.function f').insts.size⟩ := by
        cases id
        exact congrArg _ heq
      rw [IR.Function.inst_placed_new] at hk
      cases notes with
      | other hr => exact .inl (hr callee args hk)
      | call => exact .inr ⟨_, List.mem_cons_self, rfl, rfl⟩
  · rw [Module.function_modifyFunction_of_ne hff] at hid hk
    exact hold (h.1 f' id callee args hid hk)

end Accounted

/-- What code in a straight line leaves as it is. -/
structure Same (s s' : State) : Prop where
  position : s'.builder.position = s.builder.position
  fn : s'.fn = s.fn
  definition : s'.definition = s.definition
  constTail : s'.constTail = s.constTail
  blocks : s'.blocks = s.blocks
  targets : s'.targets = s.targets
  consts : s'.consts = s.consts
  runtime : s.runtime ⊆ s'.runtime
  scope : s'.act.scope = s.act.scope
  returnTarget : s'.act.returnTarget = s.act.returnTarget
  breakTarget : s'.act.breakTarget = s.act.breakTarget

theorem Same.refl (s : State) : Same s s := by
  constructor <;> first | rfl | exact fun _ h => h

theorem Same.trans (h₁ : Same s s₁) (h₂ : Same s₁ s₂) : Same s s₂ where
  position := h₂.position.trans h₁.position
  fn := h₂.fn.trans h₁.fn
  definition := h₂.definition.trans h₁.definition
  constTail := h₂.constTail.trans h₁.constTail
  blocks := h₂.blocks.trans h₁.blocks
  targets := h₂.targets.trans h₁.targets
  consts := h₂.consts.trans h₁.consts
  runtime := fun _ h => h₂.runtime (h₁.runtime h)
  scope := h₂.scope.trans h₁.scope
  returnTarget := h₂.returnTarget.trans h₁.returnTarget
  breakTarget := h₂.breakTarget.trans h₁.breakTarget

theorem Steady.site (hs : Steady c s) {f : FuncId} {b : BlockId} {e' : Option Entity}
    (h : Site c e s f b e') : (s.builder.module.function f).HasBlock b := by
  obtain ⟨b₀, hp, hb⟩ := hs.position
  cases h with
  | position h hf =>
    rw [hp, Option.some.injEq, Prod.mk.injEq] at h
    rw [← h.1, ← h.2]
    exact hb
  | slots => exact lt_of_le_of_lt (Nat.zero_le _) hb
  | entry => exact hs.entry

theorem name_of_le {m : Module} {f : FuncId} (h : m.functions.size ≤ f.index) :
    (m.function f).name ≠ IR.entryName := by
  simp only [Module.function, Array.getElem?_eq_none h]
  decide

theorem name_addFunction_ne {m : Module} {fn : IR.Function} {f : FuncId}
    (h : m.functions.size ≤ f.index) (hn : fn.name ≠ IR.entryName) :
    ((m.addFunction fn).function f).name ≠ IR.entryName := by
  by_cases he : f = m.nextFunction
  · rw [he, Module.function_addFunction_self]
    exact hn
  · rw [Module.function_addFunction_of_ne he]
    exact name_of_le h

theorem entryName_not_mem_runtimeNames : IR.entryName ∉ runtimeNames := by decide

/-- A later module has no other function of the name of the entry function when none is added. -/
theorem Steady.onlyEntry (hs : Steady c s) (hg : s.builder.module.Grows s'.builder.module)
    (names : ∀ f : FuncId, s.builder.module.functions.size ≤ f.index →
      (s'.builder.module.function f).name ≠ IR.entryName) (f : FuncId)
    (h : (s'.builder.module.function f).name = IR.entryName) : f = c.main.func := by
  by_cases hf : f.index < s.builder.module.functions.size
  · rw [(hg.function f hf).name] at h
    exact hs.entryOnly f h
  · exact absurd h (names f (not_lt.mp hf))

/-- What moves need is kept when the module grows and the tables name what there is. -/
theorem Steady.grow (hs : Steady c s) (hg : s.Grows s')
    (hp : s'.builder.position = s.builder.position) (hf : s'.fn = s.fn)
    (hc : s'.consts = s.consts)
    (names : ∀ f : FuncId, s.builder.module.functions.size ≤ f.index →
      (s'.builder.module.function f).name ≠ IR.entryName) (tables : ∀ g ∈ s'.tableGlobals, Plain s' g)
    (foreign : ∀ p ∈ s'.runtime, Foreign s' p.2) (distinct : Distinct s'.builder.module)
    (calls : ∀ k ∈ s'.calls, k ∈ s.calls ∨ Recorded c s'.builder.module k) : Steady c s' := by
  obtain ⟨b, hpos, hb⟩ := hs.position
  have hmain := hg.code.function _ (index_lt_of_hasBlock hs.entry)
  constructor
  · rw [hp, hf]
    exact ⟨b, hpos, (hg.code.function _ (index_lt_of_hasBlock hb)).hasBlock hb⟩
  · rw [hf]
    exact hs.slots
  · exact hs.nilType
  · exact hmain.hasBlock hs.entry
  · rw [hmain.name]
    exact hs.entryName
  · exact hs.onlyEntry hg.code names
  · exact hs.entrySlots
  · exact hs.entryReturn
  · rw [hmain.params]
    exact hs.entryParams
  · rw [hc]
    exact fun p hp => lt_of_lt_of_le (hs.consts p hp) hg.code.globals
  · rw [hc]
    exact hs.apart
  · exact tables
  · exact foreign
  · exact distinct
  · exact fun k hk => (calls k hk).elim (fun hk => (hs.calls k hk).mono hg.code) id

/-- A function that is only declared is not one that has a block. -/
theorem Foreign.modifyFunction {f f' : FuncId} {b : BlockId} {change : IR.Function → IR.Function}
    (h : Foreign s f) (hb : (s.builder.module.function f').HasBlock b) :
    Foreign (s.withModule (s.builder.module.modifyFunction f' change)) f := by
  have hne : f ≠ f' := by
    rintro rfl
    simp [IR.Function.HasBlock, h.2] at hb
  refine ⟨?_, ?_⟩
  · show f.index < (s.builder.module.modifyFunction f' change).functions.size
    simpa [Module.modifyFunction] using h.1
  · show ((s.builder.module.modifyFunction f' change).function f).blocks = #[]
    rw [Module.function_modifyFunction_of_ne hne]
    exact h.2

theorem Foreign.addFunction {f : FuncId} (h : Foreign s f) (fn : IR.Function) :
    Foreign (s.withModule (s.builder.module.addFunction fn)) f := by
  refine ⟨lt_of_lt_of_le h.1 (Module.Grows.addFunction fn).functions, ?_⟩
  show ((s.builder.module.addFunction fn).function f).blocks = #[]
  rw [function_addFunction_of_lt h.1]
  exact h.2

/-- What moves need is kept when a function that has blocks is changed. -/
theorem Steady.modifyFunction {f : FuncId} {b : BlockId} {change : IR.Function → IR.Function}
    (hs : Steady c s) (hb : (s.builder.module.function f).HasBlock b)
    (hg : s.Grows (s.withModule (s.builder.module.modifyFunction f change))) :
    Steady c (s.withModule (s.builder.module.modifyFunction f change)) :=
  hs.grow hg rfl rfl rfl (fun f hf => name_of_le (by simpa [State.withModule] using hf)) hs.tables
    (fun p hp => (hs.foreign p hp).modifyFunction hb)
    (hs.distinct.grow hg.code (Module.functions_modifyFunction_size ..)) fun _ hk => .inl hk

namespace Move

theorem same (h : Move c e s s') : Same s s' := by
  cases h with
  | note h =>
    exact ⟨h.position, h.fn, h.definition, h.constTail, h.blocks, h.targets, h.consts,
      h.runtime ▸ List.Subset.refl _, by rw [h.act], by rw [h.act], by rw [h.act]⟩
  | helper => exact ⟨rfl, rfl, rfl, rfl, rfl, rfl, rfl, List.subset_cons_self _ _, rfl, rfl, rfl⟩
  | _ => exact ⟨rfl, rfl, rfl, rfl, rfl, rfl, rfl, fun _ h => h, rfl, rfl, rfl⟩

theorem grows (h : Move c e s s') : s.Grows s' := by
  have hc : s'.consts = s.consts := h.same.consts
  refine ⟨?_, fun id g hm _ => hc ▸ hm⟩
  cases h with
  | place site fits open_ =>
    exact .modifyFunction fun _ => .placed open_
  | declare => exact .addFunction _
  | helper => exact .addFunction _
  | global => exact .addGlobal _
  | content _ h => exact .modifyGlobal _ h
  | bind => exact .refl _
  | note h =>
    have hf : ∀ f, s'.builder.module.function f = s.builder.module.function f := fun f => by
      simp only [Module.function, h.functions]
    exact ⟨by rw [h.functions], by rw [h.globals], fun f _ => by rw [hf]; exact .refl _,
      fun g _ => by simp only [Module.global, h.globals]⟩

theorem foreign (hs : Steady c s) (h : Move c e s s') {f : FuncId} (hf : Foreign s f) :
    Foreign s' f := by
  cases h with
  | place site fits open_ => exact hf.modifyFunction (hs.site site)
  | declare => exact hf.addFunction _
  | helper => exact hf.addFunction _
  | note h =>
    refine ⟨by rw [h.functions]; exact hf.1, ?_⟩
    simp only [Module.function, h.functions]
    exact hf.2
  | _ => exact hf

theorem plain (h : Move c e s s') {g : GlobalId} (hg : Plain s g) : Plain s' g := by
  refine ⟨lt_of_lt_of_le hg.1 h.grows.code.globals, ?_⟩
  rw [h.same.consts]
  exact hg.2

theorem names (h : Move c e s s') (f : FuncId) (hf : s.builder.module.functions.size ≤ f.index) :
    (s'.builder.module.function f).name ≠ IR.entryName := by
  cases h with
  | place => exact name_of_le (by simpa [State.placed, State.withModule] using hf)
  | declare _ _ name => exact name_addFunction_ne hf name
  | helper _ _ name =>
    exact name_addFunction_ne hf fun h => entryName_not_mem_runtimeNames (h ▸ name)
  | note h => exact name_of_le (by rwa [h.functions])
  | _ => exact name_of_le hf

theorem distinct (h : Move c e s s') (hd : Distinct s.builder.module) :
    Distinct s'.builder.module := by
  have hg := h.grows.code
  cases h with
  | place => exact hd.grow hg (Module.functions_modifyFunction_size ..)
  | declare _ _ _ fresh => exact hd.addFunction (.inl fresh)
  | helper _ _ name => exact hd.addFunction (.inr name)
  | note h => exact hd.grow hg (by rw [h.functions])
  | _ => exact hd

theorem calls (hs : Steady c s) (h : Move c e s s') {k : CallSite} (hk : k ∈ s'.calls) :
    k ∈ s.calls ∨ Recorded c s'.builder.module k := by
  have hg := h.grows.code
  cases h with
  | @place f b e' inst ks site fits open_ notes =>
    refine (List.mem_append.mp hk).symm.imp_right fun hk => ?_
    have hself : ((s.builder.module.modifyFunction f (Build.placed b inst)).function f) = _ :=
      Module.function_modifyFunction_self (index_lt_of_hasBlock (hs.site site))
    cases notes with
    | other => exact absurd hk List.not_mem_nil
    | @call callee args d t hkind hm hin hname =>
      rw [List.mem_singleton.mp hk]
      refine ⟨hm, ?_, callee, args, ?_, lt_of_lt_of_le hin hg.functions,
        (hg.function callee hin).name.trans hname⟩
      · show _ < ((s.builder.module.modifyFunction f _).function f).insts.size
        rw [hself, Build.insts_placed, Array.size_push]
        exact Nat.lt_succ_self _
      · show (((s.builder.module.modifyFunction f _).function f).inst _).kind = _
        rw [hself, IR.Function.inst_placed_new, hkind]
  | note h => exact .inl (h.calls ▸ hk)
  | _ => exact .inl hk

theorem accounts (hs : Steady c s) (h : Move c e s s') (ha : Accounted s) : Accounted s' := by
  cases h with
  | place site _ _ notes => exact ha.place (index_lt_of_hasBlock (hs.site site)) notes
  | declare blocks insts _ fresh =>
    exact ha.of_insts (insts_addFunction insts) (List.Subset.refl _) (List.Subset.refl _)
      (ha.2.declare fresh)
  | helper blocks insts name missing =>
    exact ha.of_insts (insts_addFunction insts) (List.subset_cons_self _ _) (List.Subset.refl _)
      (ha.2.helper name missing)
  | note h =>
    have hn : s'.builder.module.names = s.builder.module.names := by
      rw [Module.names, h.functions, Module.names]
    exact ha.of_insts (fun f => by rw [Module.function, h.functions, Module.function])
      (h.runtime ▸ List.Subset.refl _) (h.calls ▸ List.Subset.refl _)
      (h.runtime ▸ ha.2.congr hn)
  | _ => exact ⟨ha.1, ha.2.congr rfl⟩

theorem steady (hs : Steady c s) (h : Move c e s s') : Steady c s' := by
  have hsame := h.same
  have hforeign := fun p hm => h.foreign hs (hs.foreign p hm)
  refine hs.grow h.grows hsame.position hsame.fn hsame.consts h.names
    (fun g hm => h.plain ?_) (fun p hm => ?_) (h.distinct hs.distinct) fun k hk => h.calls hs hk
  · cases h with
    | note hn => exact (hn.tables g hm).elim (hs.tables g) id
    | _ => exact hs.tables g hm
  · cases h with
    | note hn => exact hforeign p (hn.runtime ▸ hm)
    | helper blocks =>
      rcases List.mem_cons.mp hm with rfl | hm
      · exact foreign_nextFunction blocks
      · exact hforeign p hm
    | _ => exact hforeign p hm

end Move

/-- The variables in scope can be used. -/
def Scoped (c : Context) (e : Option Entity) (s : State) : Prop :=
  ∀ p ∈ s.act.vars, Usable c e s p.2.ptr

theorem Callable.mono {callee : FuncId} (hg : s.Grows s') (hr : s.runtime ⊆ s'.runtime)
    (h : Callable c e s callee) : Callable c e s' callee := by
  refine ⟨lt_of_lt_of_le h.inside hg.code.functions, ?_⟩
  rw [(hg.code.function callee h.inside).name]
  exact h.known.imp_left fun ⟨n, hn⟩ => ⟨n, hr hn⟩

theorem Usable.mono {v : Value} (hg : s.Grows s') (hf : s'.fn = s.fn) (h : Usable c e s v) :
    Usable c e s' v := by
  unfold Usable
  rw [hf]
  exact UsableIn.mono hg h

theorem Move.vars (h : Move c e s s') (hv : Scoped c e s) : Scoped c e s' := by
  have hm : ∀ p ∈ s.act.vars, Usable c e s' p.2.ptr := fun p hp =>
    (hv p hp).mono h.grows h.same.fn
  cases h with
  | bind _ usable =>
    intro p hp
    rcases List.mem_cons.mp hp with rfl | hp
    · exact usable
    · exact hm p hp
  | note h =>
    intro p hp
    rw [h.act] at hp
    exact hm p hp
  | _ => exact hm

/-- All that code in a straight line keeps. -/
structure Keeps (c : Context) (e : Option Entity) (s s' : State) : Prop where
  same : Same s s'
  grows : s.Grows s'
  steady : Steady c s'
  plain : ∀ g, Plain s g → Plain s' g
  foreign : ∀ f, Foreign s f → Foreign s' f
  vars : Scoped c e s → Scoped c e s'
  accounts : Accounted s → Accounted s'

namespace Straight

theorem keeps (hs : Steady c s) (h : Straight c e s s') : Keeps c e s s' := by
  induction h with
  | refl => exact ⟨.refl _, .refl _, hs, fun _ h => h, fun _ h => h, id, id⟩
  | tail _ hm ih =>
    exact ⟨ih.same.trans hm.same, ih.grows.trans hm.grows, hm.steady ih.steady,
      fun g h => hm.plain (ih.plain g h),
      fun f h => hm.foreign ih.steady (ih.foreign f h),
      fun h => hm.vars (ih.vars h), fun h => hm.accounts ih.steady (ih.accounts h)⟩

theorem refl (s : State) : Straight c e s s := ReflTransGen.refl

theorem trans (h₁ : Straight c e s s₁) (h₂ : Straight c e s₁ s₂) : Straight c e s s₂ :=
  ReflTransGen.trans h₁ h₂

theorem of_move (h : Move c e s s') : Straight c e s s' := ReflTransGen.single h

end Straight

namespace Keeps

theorem usable {v : Value} (k : Keeps c e s s') (h : Usable c e s v) : Usable c e s' v :=
  h.mono k.grows k.same.fn

theorem callable {e' : Option Entity} {f : FuncId} (k : Keeps c e s s') (h : Callable c e' s f) :
    Callable c e' s' f :=
  h.mono k.grows k.same.runtime

theorem trans (h₁ : Keeps c e s s₁) (h₂ : Keeps c e s₁ s₂) : Keeps c e s s₂ where
  same := h₁.same.trans h₂.same
  grows := h₁.grows.trans h₂.grows
  steady := h₂.steady
  plain g h := h₂.plain g (h₁.plain g h)
  foreign f h := h₂.foreign f (h₁.foreign f h)
  vars h := h₂.vars (h₁.vars h)
  accounts h := h₂.accounts (h₁.accounts h)

end Keeps

/-! ### Steps in a straight line -/

/-- When a step of generation gives a value, it has come to moves and a fact holds of the value. -/
def Emits (c : Context) (e : Option Entity) (s : State) (x : Gen α) (fact : State → α → Prop) :
    Prop :=
  Steady c s → ∀ a s', Gives x c s a s' → Straight c e s s' ∧ fact s' a

namespace Emits

variable {x y : Gen α} {f : α → Gen β} {P P' : State → α → Prop} {Q : State → β → Prop}

theorem pure {a : α} (h : P s a) : Emits c e s (pure a) P := by
  intro _ b s' hg
  obtain ⟨rfl, rfl⟩ := gives_pure.mp hg
  exact ⟨.refl _, h⟩

theorem fail {cause : Cause} : Emits c e s (Gen.fail cause) P :=
  fun _ _ _ hg => absurd hg not_gives_fail

theorem bind (hx : Emits c e s x P)
    (hf : ∀ a s₁, Keeps c e s s₁ → P s₁ a → Emits c e s₁ (f a) Q) : Emits c e s (x >>= f) Q := by
  intro hs b s' hg
  obtain ⟨a, s₁, hg₁, hg₂⟩ := gives_bind.mp hg
  obtain ⟨hm₁, hp⟩ := hx hs a s₁ hg₁
  have hk := hm₁.keeps hs
  obtain ⟨hm₂, hq⟩ := hf a s₁ hk hp hk.steady b s' hg₂
  exact ⟨hm₁.trans hm₂, hq⟩

/-- A question leaves the state as it is. -/
theorem ask {a : α} (hx : Gives x c s a s) (hf : Emits c e s (f a) Q) :
    Emits c e s (x >>= f) Q :=
  fun hs b s' hg => hf hs b s' (gives_after hx hg)

theorem mono (hx : Emits c e s x P) (h : ∀ s' a, P s' a → P' s' a) : Emits c e s x P' :=
  fun hs a s' hg => (hx hs a s' hg).imp_right (h s' a)

theorem congr (h : @Eq (Except Failure α × State) (x c s) (y c s)) (hy : Emits c e s y P) :
    Emits c e s x P :=
  fun hs a s' hg => hy hs a s' (h.symm.trans hg)

/-- A step that may rely on what moves need. -/
theorem assume (h : Steady c s → Emits c e s x P) : Emits c e s x P :=
  fun hs => h hs hs

/-- The fact may say what is kept. -/
theorem kept (hx : Emits c e s x P) : Emits c e s x fun s' a => P s' a ∧ Keeps c e s s' :=
  fun hs a s' hg => ⟨(hx hs a s' hg).1, (hx hs a s' hg).2, (hx hs a s' hg).1.keeps hs⟩

theorem foldlM {ι : Type} {f : β → ι → Gen β} {l : List ι}
    (hf : ∀ b i s, i ∈ l → Q s b → Emits c e s (f b i) Q) {b : β} (hb : Q s b) :
    Emits c e s (l.foldlM f b) Q := by
  induction l generalizing b s with
  | nil => exact pure hb
  | cons i l ih =>
    rw [List.foldlM_cons]
    refine bind (hf b i s List.mem_cons_self hb) fun b' s₁ _ hb' => ?_
    exact ih (fun b i s hi => hf b i s (List.mem_cons_of_mem _ hi)) hb'

theorem orFail {cause : Cause} {o : Option α} (h : ∀ a, o = some a → P s a) :
    Emits c e s (Gen.orFail cause o) P := by
  cases o with
  | none => exact fail
  | some a => exact pure (h a rfl)

/-- A step of building that makes one move or none. -/
theorem build {b : Build α} {a : α} {r : IR.Builder} (hb : @Eq (α × IR.Builder) (b s.builder) (a, r))
    (hm : Steady c s → r = s.builder ∨ Move c e s { s with builder := r })
    (hp : Steady c s → P { s with builder := r } a) : Emits c e s (emit b) P := by
  intro hs a' s' hg
  obtain ⟨rfl, rfl⟩ := gives_emit hg
  rw [hb]
  refine ⟨?_, hp hs⟩
  rcases hm hs with rfl | hm
  · exact .refl _
  · exact .of_move hm

/-- A change of the state that is a move. -/
theorem change {f : State → State} {P : State → Unit → Prop} (hm : Steady c s → Move c e s (f s))
    (hp : P (f s) ()) : Emits c e s (modify f) P := by
  intro hs a s' hg
  cases gives_modify hg
  exact ⟨.of_move (hm hs), hp⟩

theorem build_congr {b b' : Build α} (h : @Eq (α × IR.Builder) (b s.builder) (b' s.builder))
    (hb : Emits c e s (emit b') P) : Emits c e s (emit b) P := by
  intro hs a s' hg
  obtain ⟨rfl, rfl⟩ := gives_emit hg
  rw [h]
  exact hb hs _ _ rfl

end Emits

end Lowering.Gen
