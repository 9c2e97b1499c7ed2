import Lowering.IR.Builder
import Mathlib.Tactic

/-!
# Growth of modules

A module is only ever added to: functions and globals are appended, blocks are appended to
functions, instructions to blocks, and a block that has a terminator stays as it is.

* equations for `IR.Module.function`, `IR.Function.block` and `IR.Function.inst` after each change;
* `IR.Function.HasBlock`, `IR.Function.LeadsTo`;
* `IR.BasicBlock.Grows`, `IR.Function.Grows`, `IR.Module.Grows`: the orders of growth.
-/

namespace Lowering.IR

/-! ### Functions of a changed module -/

namespace Module

@[simp] theorem functions_modifyFunction_size (m : Module) (f : FuncId) (g : Function → Function) :
    (m.modifyFunction f g).functions.size = m.functions.size := by
  simp [modifyFunction]

@[simp] theorem globals_modifyFunction (m : Module) (f : FuncId) (g : Function → Function) :
    (m.modifyFunction f g).globals = m.globals := rfl

theorem function_modifyFunction_self {m : Module} {f : FuncId} {g : Function → Function}
    (h : f.index < m.functions.size) : (m.modifyFunction f g).function f = g (m.function f) := by
  simp [function, modifyFunction, h, Array.getElem_modify]

theorem function_modifyFunction_of_ne {m : Module} {f f' : FuncId} {g : Function → Function}
    (h : f' ≠ f) : (m.modifyFunction f g).function f' = m.function f' := by
  have hne : f.index ≠ f'.index := fun e => h (by cases f; cases f'; simp_all)
  simp [function, modifyFunction, Array.getElem?_modify, hne]

/-- A change that leaves the instructions of a function leaves those of all. -/
theorem insts_modifyFunction {m : Module} {f f' : FuncId} {g : Function → Function}
    (h : ∀ fn, (g fn).insts = fn.insts) :
    ((m.modifyFunction f g).function f').insts = (m.function f').insts := by
  by_cases hf : f' = f
  · subst hf
    by_cases hlt : f'.index < m.functions.size
    · rw [function_modifyFunction_self hlt, h]
    · have hsize : (m.functions.modify f'.index g).size ≤ f'.index := by simpa using hlt
      rw [function, modifyFunction, function, Array.getElem?_eq_none hsize,
        Array.getElem?_eq_none (not_lt.mp hlt)]
  · rw [function_modifyFunction_of_ne hf]

@[simp] theorem functions_addFunction_size (m : Module) (fn : Function) :
    (m.addFunction fn).functions.size = m.functions.size + 1 := by
  simp [addFunction]

@[simp] theorem globals_addFunction (m : Module) (fn : Function) :
    (m.addFunction fn).globals = m.globals := rfl

theorem function_addFunction_self (m : Module) (fn : Function) :
    (m.addFunction fn).function m.nextFunction = fn := by
  simp [function, addFunction, nextFunction]

theorem function_addFunction_of_ne {m : Module} {f : FuncId} {fn : Function}
    (h : f ≠ m.nextFunction) : (m.addFunction fn).function f = m.function f := by
  have hne : f.index ≠ m.functions.size := fun e => h (by cases f; simp_all [nextFunction])
  simp only [function, addFunction, Array.getElem?_push]
  split <;> simp_all

/-- A function that is found by a name has the name. -/
theorem of_findFunction {m : Module} {name : String} {f : FuncId}
    (h : m.findFunction name = some f) :
    f.index < m.functions.size ∧ (m.function f).name = name := by
  obtain ⟨i, hi, rfl⟩ := Option.map_eq_some_iff.mp h
  have hany := List.find?_some (show List.find? _ _ = some i from hi)
  obtain ⟨fn, hfn, hname⟩ := (Option.any_eq_true _ _).mp hany
  refine ⟨(Array.getElem?_eq_some_iff.mp hfn).1, ?_⟩
  simp only [function, hfn, Option.getD_some]
  exact beq_iff_eq.mp hname

/-- No function has a name that none is found by. -/
theorem name_ne_of_findFunction {m : Module} {name : String} {f : FuncId}
    (h : m.findFunction name = none) (hf : f.index < m.functions.size) :
    (m.function f).name ≠ name := by
  have hall := List.find?_eq_none.mp (show List.find? _ _ = none from Option.map_eq_none_iff.mp h)
  have hf' := hall f.index (by simpa using hf)
  simpa [function, hf] using hf'

/-- The names of the functions. -/
def names (m : Module) : List String := m.functions.toList.map Function.name

theorem name_eq (m : Module) (f : FuncId) :
    (m.function f).name = (m.names[f.index]?).getD (default : Function).name := by
  simp only [function, names, List.getElem?_map, Array.getElem?_toList]
  cases m.functions[f.index]? <;> rfl

/-- What a name stands for is a matter of the names alone. -/
theorem findFunction_congr {m m' : Module} (h : m'.names = m.names) (name : String) :
    m'.findFunction name = m.findFunction name := by
  have hany (m : Module) (i : Nat) :
      m.functions[i]?.any (·.name == name) = m.names[i]?.any (· == name) := by
    simp only [names, List.getElem?_map, Array.getElem?_toList, Option.any_map]
  have hsize (m : Module) : m.functions.size = m.names.length := by simp [names]
  simp only [findFunction, lastIdx?, hany, hsize, h]

theorem names_modifyFunction {m : Module} {f : FuncId} {change : Function → Function}
    (h : ∀ fn, (change fn).name = fn.name) : (m.modifyFunction f change).names = m.names := by
  apply List.ext_getElem?
  intro i
  simp only [names, modifyFunction, List.getElem?_map, Array.getElem?_toList,
    Array.getElem?_modify]
  split
  · rw [Option.map_map]
    exact congrArg (fun g => Option.map g m.functions[i]?) (funext h)
  · rfl

theorem names_subset_modifyFunction {m : Module} {f : FuncId} {g : Function → Function}
    (h : ∀ fn, (g fn).name = fn.name) : m.names ⊆ (m.modifyFunction f g).names := by
  rw [names_modifyFunction h]
  exact List.Subset.refl _

theorem mem_names {m : Module} {f : FuncId} (h : f.index < m.functions.size) :
    (m.function f).name ∈ m.names := by
  refine List.mem_map.mpr ⟨m.functions[f.index], Array.mem_toList_iff.mpr (Array.getElem_mem h), ?_⟩
  simp [function, h]

/-- A name that no function is found by is the name of none. -/
theorem not_mem_names {m : Module} {name : String} (h : m.findFunction name = none) :
    name ∉ m.names := by
  intro hm
  obtain ⟨fn, hfn, rfl⟩ := List.mem_map.mp hm
  obtain ⟨i, hi, rfl⟩ := List.mem_iff_getElem.mp hfn
  have hi : i < m.functions.size := by simpa using hi
  refine name_ne_of_findFunction (f := ⟨i⟩) h hi ?_
  simp [function, hi]

@[simp] theorem functions_addGlobal (m : Module) (g : Global) :
    (m.addGlobal g).functions = m.functions := rfl

@[simp] theorem function_addGlobal (m : Module) (g : Global) (f : FuncId) :
    (m.addGlobal g).function f = m.function f := rfl

@[simp] theorem globals_addGlobal_size (m : Module) (g : Global) :
    (m.addGlobal g).globals.size = m.globals.size + 1 := by
  simp [addGlobal]

@[simp] theorem functions_modifyGlobal (m : Module) (id : GlobalId) (g : Global → Global) :
    (m.modifyGlobal id g).functions = m.functions := rfl

@[simp] theorem function_modifyGlobal (m : Module) (id : GlobalId) (g : Global → Global)
    (f : FuncId) : (m.modifyGlobal id g).function f = m.function f := rfl

@[simp] theorem globals_modifyGlobal_size (m : Module) (id : GlobalId) (g : Global → Global) :
    (m.modifyGlobal id g).globals.size = m.globals.size := by
  simp [modifyGlobal]

end Module

/-! ### Blocks of a changed function -/

namespace Function

/-- The function has a block of an id. -/
def HasBlock (f : Function) (b : BlockId) : Prop := b.index < f.blocks.size

/-- The terminator of one block can lead to another one. -/
def LeadsTo (f : Function) (b target : BlockId) : Prop :=
  ∃ t, (f.block b).term = some t ∧ target ∈ t.successors

theorem block_of_not_hasBlock {f : Function} {b : BlockId} (h : ¬ f.HasBlock b) :
    f.block b = default := by
  simp [block, HasBlock] at h ⊢
  simp [h]

theorem LeadsTo.hasBlock {f : Function} {b target : BlockId} (h : f.LeadsTo b target) :
    f.HasBlock b := by
  by_contra hb
  obtain ⟨t, ht, -⟩ := h
  rw [block_of_not_hasBlock hb] at ht
  exact absurd ht (by simp [show (default : BasicBlock).term = none from rfl])

theorem mem_predecessors {f : Function} {b target : BlockId} :
    b ∈ f.predecessors target ↔ f.LeadsTo b target := by
  have hid : b ∈ f.blockIds ↔ f.HasBlock b := by
    cases b
    simp [blockIds, HasBlock]
  have hterm : ((f.block b).term.any fun t => t.successors.contains target) = true ↔
      f.LeadsTo b target := by
    simp [LeadsTo, Option.any_eq_true]
  rw [predecessors, List.mem_filter, hid, hterm]
  exact ⟨fun h => h.2, fun h => ⟨h.hasBlock, h⟩⟩

/-- The function with one more block. -/
def withBlock (f : Function) (b : BasicBlock) : Function := { f with blocks := f.blocks.push b }

/-- The id that the next block gets. -/
def nextBlock (f : Function) : BlockId := ⟨f.blocks.size⟩

theorem block_withBlock_self (f : Function) (b : BasicBlock) :
    (f.withBlock b).block f.nextBlock = b := by
  simp [block, withBlock, nextBlock]

theorem block_withBlock_of_ne {f : Function} {b : BasicBlock} {id : BlockId}
    (h : id ≠ f.nextBlock) : (f.withBlock b).block id = f.block id := by
  have hne : id.index ≠ f.blocks.size := fun e => h (by cases id; simp_all [nextBlock])
  simp only [block, withBlock, Array.getElem?_push]
  split <;> simp_all

theorem hasBlock_withBlock {f : Function} {b : BasicBlock} {id : BlockId} :
    (f.withBlock b).HasBlock id ↔ f.HasBlock id ∨ id = f.nextBlock := by
  cases id
  simp only [HasBlock, withBlock, nextBlock, Array.size_push, BlockId.mk.injEq]
  omega

end Function

namespace Build

variable {fn : Function} {b b' : BlockId} {inst : Inst} {t : Terminator}

@[simp] theorem insts_placed : (placed b inst fn).insts = fn.insts.push inst := rfl

@[simp] theorem params_placed : (placed b inst fn).params = fn.params := rfl

@[simp] theorem hasBlock_placed : (placed b inst fn).HasBlock b' ↔ fn.HasBlock b' := by
  simp [Function.HasBlock, placed]

theorem block_placed_self (h : fn.HasBlock b) :
    (placed b inst fn).block b =
      { fn.block b with insts := (fn.block b).insts.push ⟨fn.insts.size⟩ } := by
  simp only [Function.HasBlock] at h
  simp [Function.block, placed, h, Array.getElem_modify]

theorem block_placed_of_ne (h : b' ≠ b) : (placed b inst fn).block b' = fn.block b' := by
  have hne : b.index ≠ b'.index := fun e => h (by cases b; cases b'; simp_all)
  simp [Function.block, placed, Array.getElem?_modify, hne]

@[simp] theorem term_placed : ((placed b inst fn).block b').term = (fn.block b').term := by
  by_cases hb : fn.HasBlock b
  · by_cases h : b' = b
    · rw [h, block_placed_self hb]
    · rw [block_placed_of_ne h]
  · have : (placed b inst fn).blocks = fn.blocks := by
      simp only [Function.HasBlock, not_lt] at hb
      simp only [placed]
      exact Array.ext (by simp) fun i h1 h2 => by
        rw [Array.getElem_modify]
        split
        · simp_all; omega
        · rfl
    simp [Function.block, this]

@[simp] theorem leadsTo_placed {b'' : BlockId} :
    (placed b inst fn).LeadsTo b' b'' ↔ fn.LeadsTo b' b'' := by
  simp [Function.LeadsTo]

@[simp] theorem insts_ended : (ended b t fn).insts = fn.insts := rfl

@[simp] theorem params_ended : (ended b t fn).params = fn.params := rfl

@[simp] theorem hasBlock_ended : (ended b t fn).HasBlock b' ↔ fn.HasBlock b' := by
  simp [Function.HasBlock, ended]

theorem block_ended_self (h : fn.HasBlock b) :
    (ended b t fn).block b = { fn.block b with term := (fn.block b).term.or (some t) } := by
  simp only [Function.HasBlock] at h
  simp [Function.block, ended, h, Array.getElem_modify]

theorem block_ended_of_ne (h : b' ≠ b) : (ended b t fn).block b' = fn.block b' := by
  have hne : b.index ≠ b'.index := fun e => h (by cases b; cases b'; simp_all)
  simp [Function.block, ended, Array.getElem?_modify, hne]

end Build

/-! ### Orders of growth -/

/-- A block of a later module: a terminator keeps it as it is. -/
structure BasicBlock.Grows (b b' : BasicBlock) : Prop where
  insts : b.insts.toList <+: b'.insts.toList
  frozen : b.term.isSome → b' = b

/-- A function of a later module. -/
structure Function.Grows (f f' : Function) : Prop where
  name : f'.name = f.name
  params : f'.params = f.params
  ret : f'.ret = f.ret
  varargs : f'.varargs = f.varargs
  insts : f.insts.toList <+: f'.insts.toList
  size : f.blocks.size ≤ f'.blocks.size
  block : ∀ b, f.HasBlock b → (f.block b).Grows (f'.block b)

/-- A later module. -/
structure Module.Grows (m m' : Module) : Prop where
  functions : m.functions.size ≤ m'.functions.size
  globals : m.globals.size ≤ m'.globals.size
  function : ∀ f : FuncId, f.index < m.functions.size → (m.function f).Grows (m'.function f)
  types : ∀ g : GlobalId, g.index < m.globals.size → (m'.global g).type = (m.global g).type

theorem BasicBlock.Grows.refl (b : BasicBlock) : b.Grows b := ⟨List.prefix_refl _, fun _ => rfl⟩

theorem BasicBlock.Grows.trans {b₁ b₂ b₃ : BasicBlock} (h₁ : b₁.Grows b₂) (h₂ : b₂.Grows b₃) :
    b₁.Grows b₃ := by
  refine ⟨h₁.insts.trans h₂.insts, fun h => ?_⟩
  have h12 := h₁.frozen h
  rw [← h12] at h ⊢
  exact h₂.frozen h

namespace Function.Grows

variable {f f₁ f₂ f₃ : Function}

theorem refl (f : Function) : f.Grows f :=
  ⟨rfl, rfl, rfl, rfl, List.prefix_refl _, le_rfl, fun _ _ => .refl _⟩

theorem hasBlock (h : f₁.Grows f₂) {b : BlockId} (hb : f₁.HasBlock b) : f₂.HasBlock b :=
  lt_of_lt_of_le hb h.size

theorem trans (h₁ : f₁.Grows f₂) (h₂ : f₂.Grows f₃) : f₁.Grows f₃ where
  name := h₂.name.trans h₁.name
  params := h₂.params.trans h₁.params
  ret := h₂.ret.trans h₁.ret
  varargs := h₂.varargs.trans h₁.varargs
  insts := h₁.insts.trans h₂.insts
  size := h₁.size.trans h₂.size
  block b hb := (h₁.block b hb).trans (h₂.block b (h₁.hasBlock hb))

theorem insts_size (h : f₁.Grows f₂) : f₁.insts.size ≤ f₂.insts.size := by
  simpa using h.insts.length_le

theorem inst_eq (h : f₁.Grows f₂) {id : InstId} (hid : id.index < f₁.insts.size) :
    f₂.inst id = f₁.inst id := by
  obtain ⟨l, hl⟩ := h.insts
  have h2 : f₂.insts = f₁.insts ++ l.toArray := by
    apply Array.toList_inj.mp
    simp [hl]
  simp [Function.inst, h2, Array.getElem?_append, hid]

theorem leadsTo (h : f₁.Grows f₂) {b b' : BlockId} (hl : f₁.LeadsTo b b') : f₂.LeadsTo b b' := by
  obtain ⟨t, ht, hm⟩ := hl
  have hb : f₁.HasBlock b := Function.LeadsTo.hasBlock ⟨t, ht, hm⟩
  have hf := (h.block b hb).frozen (by simp [ht])
  exact ⟨t, by rw [hf, ht], hm⟩

theorem placed {b : BlockId} {inst : Inst} (ht : (f.block b).term = none) :
    f.Grows (Build.placed b inst f) where
  name := rfl
  params := rfl
  ret := rfl
  varargs := rfl
  insts := by simp
  size := by simp [Build.placed]
  block b' hb' := by
    by_cases h : b' = b
    · subst h
      rw [Build.block_placed_self hb']
      exact ⟨by simp, by simp [ht]⟩
    · rw [Build.block_placed_of_ne h]
      exact .refl _

theorem ended {b : BlockId} {t : Terminator} : f.Grows (Build.ended b t f) where
  name := rfl
  params := rfl
  ret := rfl
  varargs := rfl
  insts := List.prefix_refl _
  size := by simp [Build.ended]
  block b' hb' := by
    by_cases h : b' = b
    · subst h
      rw [Build.block_ended_self hb']
      refine ⟨List.prefix_refl _, fun hs => ?_⟩
      obtain ⟨t', ht'⟩ := Option.isSome_iff_exists.mp hs
      rw [ht', Option.some_or, ← ht']
    · rw [Build.block_ended_of_ne h]
      exact .refl _

theorem withBlock (b : BasicBlock) : f.Grows (f.withBlock b) where
  name := rfl
  params := rfl
  ret := rfl
  varargs := rfl
  insts := List.prefix_refl _
  size := by simp [Function.withBlock]
  block b' hb' := by
    have hne : b' ≠ f.nextBlock := fun e => by simp [HasBlock, e, nextBlock] at hb'
    rw [block_withBlock_of_ne hne]
    exact .refl _

end Function.Grows

namespace Module.Grows

variable {m m₁ m₂ m₃ : Module}

theorem refl (m : Module) : m.Grows m := ⟨le_rfl, le_rfl, fun _ _ => .refl _, fun _ _ => rfl⟩

theorem trans (h₁ : m₁.Grows m₂) (h₂ : m₂.Grows m₃) : m₁.Grows m₃ where
  functions := h₁.functions.trans h₂.functions
  globals := h₁.globals.trans h₂.globals
  function f hf := (h₁.function f hf).trans (h₂.function f (lt_of_lt_of_le hf h₁.functions))
  types g hg := (h₂.types g (lt_of_lt_of_le hg h₁.globals)).trans (h₁.types g hg)

theorem modifyFunction {f : FuncId} {g : Function → Function}
    (h : f.index < m.functions.size → (m.function f).Grows (g (m.function f))) :
    m.Grows (m.modifyFunction f g) where
  functions := by simp
  globals := by simp
  function f' hf' := by
    by_cases he : f' = f
    · subst he
      rw [function_modifyFunction_self hf']
      exact h hf'
    · rw [function_modifyFunction_of_ne he]
      exact .refl _
  types _ _ := rfl

theorem addFunction (fn : Function) : m.Grows (m.addFunction fn) where
  functions := by simp
  globals := by simp
  function f hf := by
    have hne : f ≠ m.nextFunction := fun e => by simp [e, nextFunction] at hf
    rw [function_addFunction_of_ne hne]
    exact .refl _
  types _ _ := rfl

theorem addGlobal (g : Global) : m.Grows (m.addGlobal g) :=
  ⟨le_rfl, by simp, fun _ _ => .refl _, fun g' hg' => by
    simp only [Module.global, Module.addGlobal, Array.getElem?_push, hg'.ne, if_false]⟩

theorem modifyGlobal (id : GlobalId) {change : Global → Global}
    (h : ∀ g, (change g).type = g.type) : m.Grows (m.modifyGlobal id change) :=
  ⟨le_rfl, by simp, fun _ _ => .refl _, fun g hg => by
    simp only [Module.global, Module.modifyGlobal, Array.getElem?_modify]
    split
    · rw [Array.getElem?_eq_getElem hg, Option.map_some, Option.getD_some, Option.getD_some, h]
    · rfl⟩

/-- Functions keep their names. -/
theorem names (h : m₁.Grows m₂) : m₁.names ⊆ m₂.names := by
  intro name hn
  obtain ⟨fn, hfn, rfl⟩ := List.mem_map.mp hn
  obtain ⟨i, hi, rfl⟩ := List.getElem_of_mem hfn
  have hi : i < m₁.functions.size := by simpa using hi
  have hfunction : m₁.function ⟨i⟩ = m₁.functions[i] := by simp [Module.function, hi]
  rw [Array.getElem_toList, ← hfunction, ← (h.function ⟨i⟩ hi).name]
  exact mem_names (hi.trans_le h.functions)

end Module.Grows

end Lowering.IR
