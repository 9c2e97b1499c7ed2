import Lowering.IR.Verify
import Lowering.Proofs.Budget

/-!
# The order of phis

The phis of a block are read together, in the frame as it is on entry.  So nothing that a run does
depends on the order in which they stand, even where they pass values on to each other along a
back edge: the order only says which of several bad operands is reported.

* `IR.Module.Reordered`: modules that differ in the order of phis only;
* `Exec.Run.Frame.phi?`, the value of one phi, and `Exec.Run.Frame.foldl_phis_perm`, that the
  values of several come to the same frame in any order;
* `Exec.Run.Alike`, `Exec.Run.Matches`: the same outcome, up to which operand is bad;
* `Exec.Run.matches_call`: calls in such modules match;
* `Exec.runMain_withInsts`: a permutation of the phis that lead a block.
-/

namespace Lowering

open IR (Ty Value InstId BlockId FuncId InstKind Module)

/-! ### Modules with phis in another order -/

namespace IR

/-- The instructions of a list that are no phis. -/
def Function.steps (fn : Function) (ids : List InstId) : List InstId :=
  ids.filter fun id => !(fn.inst id).kind.isPhi

/-- Two blocks of a function that differ in the order of phis only. -/
structure BasicBlock.Reordered (fn : Function) (b b' : BasicBlock) : Prop where
  name : b'.name = b.name
  term : b'.term = b.term
  perm : b'.insts.toList.Perm b.insts.toList
  steps : fn.steps b'.insts.toList = fn.steps b.insts.toList

/-- Two functions that differ in the order of phis only. -/
structure Function.Reordered (fn fn' : Function) : Prop where
  name : fn'.name = fn.name
  params : fn'.params = fn.params
  insts : fn'.insts = fn.insts
  size : fn'.blocks.size = fn.blocks.size
  block : ∀ b, (fn.block b).Reordered fn (fn'.block b)

/-- Two modules that differ in the order of phis only. -/
structure Module.Reordered (m m' : Module) : Prop where
  names : m'.names = m.names
  globals : m'.globals = m.globals
  function : ∀ f, (m.function f).Reordered (m'.function f)

theorem BasicBlock.Reordered.refl (fn : Function) (b : BasicBlock) : b.Reordered fn b :=
  ⟨rfl, rfl, .refl _, rfl⟩

namespace Function.Reordered

variable {fn fn' : Function}

theorem refl (fn : Function) : fn.Reordered fn :=
  ⟨rfl, rfl, rfl, rfl, fun _ => .refl fn _⟩

theorem inst (h : fn.Reordered fn') : fn'.inst = fn.inst := by
  funext id
  rw [Function.inst, h.insts, Function.inst]

theorem steps (h : fn.Reordered fn') : fn'.steps = fn.steps := by
  funext ids
  simp only [Function.steps, h.inst]

theorem isDeclaration (h : fn.Reordered fn') : fn'.isDeclaration = fn.isDeclaration := by
  simp only [Function.isDeclaration, Array.isEmpty, h.size]

end Function.Reordered

namespace Module

variable {m m' : Module}

namespace Reordered

theorem typeOf (h : m.Reordered m') (f : FuncId) (v : Value) : m'.typeOf f v = m.typeOf f v := by
  cases v with
  | inst id => simp only [Module.typeOf, (h.function f).inst]
  | param i => simp only [Module.typeOf, (h.function f).params]
  | global g => simp only [Module.typeOf, Module.global, h.globals]
  | const c => rfl

theorem initial (h : m.Reordered m') : Exec.State.initial m' = Exec.State.initial m := by
  simp only [Exec.State.initial, Exec.State.allocateGlobals, h.globals]

end Reordered

end Module

/-! ### Other instructions in a block -/

/-- The function with other instructions in a block. -/
def Function.withInsts (fn : Function) (b : BlockId) (ids : List InstId) : Function :=
  { fn with blocks := fn.blocks.modify b.index fun bl => { bl with insts := ids.toArray } }

/-- The module with other instructions in a block. -/
def Module.withInsts (m : Module) (f : FuncId) (b : BlockId) (ids : List InstId) : Module :=
  m.modifyFunction f (·.withInsts b ids)

namespace Function

variable {fn : Function} {b b' : BlockId} {ids ids' : List InstId}

theorem block_withInsts_self (h : fn.HasBlock b) :
    (fn.withInsts b ids).block b = { fn.block b with insts := ids.toArray } := by
  have h : b.index < fn.blocks.size := h
  simp [block, withInsts, Array.getElem_modify, h]

theorem block_withInsts_of_ne (h : b' ≠ b) : (fn.withInsts b ids).block b' = fn.block b' := by
  have hne : b.index ≠ b'.index := fun e => h (congrArg BlockId.mk e.symm)
  simp [block, withInsts, Array.getElem?_modify, hne]

theorem hasBlock_withInsts : (fn.withInsts b ids).HasBlock b' ↔ fn.HasBlock b' := by
  simp [HasBlock, withInsts]

theorem steps_append (h : ∀ id ∈ ids, (fn.inst id).kind.isPhi = true) :
    fn.steps (ids ++ ids') = fn.steps ids' := by
  rw [steps, List.filter_append, List.filter_eq_nil_iff.mpr fun id hid => by simp [h id hid]]
  rfl

/-- A permutation of phis at the head of a block. -/
theorem reordered_withInsts {phis phis' rest : List InstId}
    (hinsts : (fn.block b).insts.toList = phis ++ rest)
    (hphis : ∀ id ∈ phis, (fn.inst id).kind.isPhi = true) (hperm : phis'.Perm phis) :
    fn.Reordered (fn.withInsts b (phis' ++ rest)) := by
  refine ⟨rfl, rfl, rfl, Array.size_modify, fun b' => ?_⟩
  by_cases hb' : b' = b
  · subst hb'
    by_cases hb : fn.HasBlock b'
    · rw [block_withInsts_self hb]
      refine ⟨rfl, rfl, hinsts ▸ hperm.append_right rest, ?_⟩
      have hphis' : ∀ id ∈ phis', (fn.inst id).kind.isPhi = true :=
        fun id hid => hphis id (hperm.mem_iff.mp hid)
      rw [hinsts, steps_append hphis]
      exact steps_append hphis'
    · rw [block_of_not_hasBlock hb, block_of_not_hasBlock (hb ∘ hasBlock_withInsts.mp)]
      exact .refl fn _
  · rw [block_withInsts_of_ne hb']
    exact .refl fn _

end Function

theorem Module.reordered_withInsts {m : Module} {f : FuncId} {b : BlockId}
    {phis phis' rest : List InstId}
    (hinsts : ((m.function f).block b).insts.toList = phis ++ rest)
    (hphis : ∀ id ∈ phis, ((m.function f).inst id).kind.isPhi = true) (hperm : phis'.Perm phis) :
    m.Reordered (m.withInsts f b (phis' ++ rest)) := by
  refine ⟨names_modifyFunction fun _ => rfl, rfl, fun g => ?_⟩
  by_cases hg : g = f
  · subst hg
    by_cases hlt : g.index < m.functions.size
    · rw [withInsts, function_modifyFunction_self hlt]
      exact Function.reordered_withInsts hinsts hphis hperm
    · have hsize : (m.functions.modify g.index (·.withInsts b (phis' ++ rest))).size ≤ g.index := by
        simpa using hlt
      rw [withInsts, function, modifyFunction, function, Array.getElem?_eq_none hsize,
        Array.getElem?_eq_none (not_lt.mp hlt)]
      exact .refl _
  · rw [withInsts, function_modifyFunction_of_ne hg]
    exact .refl _

end IR

namespace Exec.Run

variable {α β : Type} {fr : Frame} {globals : Array Nat} {fn : IR.Function}
  {source : Option BlockId} {id : InstId} {ids ids' : List InstId} {σ : State}

/-! ### The phis of a block -/

/-- The value of a phi where control comes from a block, in the frame as it is on entry. -/
def Frame.phi? (fr : Frame) (globals : Array Nat) (fn : IR.Function) (source : Option BlockId)
    (id : InstId) : Option RtValue :=
  match (fn.inst id).kind, source with
  | .phi incoming, some p => (incoming.find? (·.2 == p)).bind fun e => fr.value? globals e.1
  | _, _ => none

/-- The phis of a list with their values. -/
def Frame.phis (fr : Frame) (globals : Array Nat) (fn : IR.Function) (source : Option BlockId)
    (ids : List InstId) : List (InstId × RtValue) :=
  ids.filterMap fun id => (fr.phi? globals fn source id).map (id, ·)

/-- Every phi of a list has a value. -/
def Frame.Readable (fr : Frame) (globals : Array Nat) (fn : IR.Function)
    (source : Option BlockId) (ids : List InstId) : Prop :=
  ∀ id ∈ ids, (fn.inst id).kind.isPhi = true → (fr.phi? globals fn source id).isSome

theorem Frame.readable_cons : fr.Readable globals fn source (id :: ids) ↔
    ((fn.inst id).kind.isPhi = true → (fr.phi? globals fn source id).isSome) ∧
      fr.Readable globals fn source ids :=
  List.forall_mem_cons

theorem Frame.phi?_of_not_phi (h : (fn.inst id).kind.isPhi = false) :
    fr.phi? globals fn source id = none := by
  unfold Frame.phi?
  split
  · simp_all [IR.InstKind.isPhi]
  · rfl

theorem Frame.phis_cons_of_none (h : fr.phi? globals fn source id = none) :
    fr.phis globals fn source (id :: ids) = fr.phis globals fn source ids :=
  List.filterMap_cons_none (by rw [h]; rfl)

theorem Frame.phis_cons_of_some {x : RtValue} (h : fr.phi? globals fn source id = some x) :
    fr.phis globals fn source (id :: ids) = (id, x) :: fr.phis globals fn source ids :=
  List.filterMap_cons_some (by rw [h]; rfl)

theorem stops_operand {v : Value} (h : fr.value? σ.globals v = none) :
    ∃ text, Stops (operand fr v) σ (.badOperand text) σ := by
  cases v with
  | const c => cases h
  | global g => cases h
  | inst id =>
    simp only [Frame.value?] at h
    refine ⟨"%" ++ toString id.index ++ " used before definition", ?_⟩
    simp only [Stops, operand, h]
    rfl
  | param i =>
    simp only [Frame.value?] at h
    refine ⟨"parameter " ++ toString i ++ " missing", ?_⟩
    simp only [Stops, operand, h]
    rfl

/-- A phi without a value is a bad operand. -/
theorem stops_phi (hphi : (fn.inst id).kind.isPhi = true)
    (h : fr.phi? σ.globals fn source id = none) :
    ∃ text, Stops (phiValues fn fr source (id :: ids)) σ (.badOperand text) σ := by
  obtain ⟨incoming, hkind⟩ : ∃ incoming, (fn.inst id).kind = .phi incoming := by
    cases hk : (fn.inst id).kind <;> simp_all [IR.InstKind.isPhi]
  rw [phiValues, hkind]
  cases source with
  | none => exact ⟨_, rfl⟩
  | some p =>
    simp only [Frame.phi?, hkind] at h ⊢
    cases hfind : incoming.find? (·.2 == p) with
    | none => exact ⟨_, rfl⟩
    | some e =>
      rw [hfind] at h
      obtain ⟨text, ht⟩ := stops_operand h
      exact ⟨text, ht.bind⟩

/-- A phi with a value is read, and then the others in the same state. -/
theorem phiValues_phi {x : RtValue} (h : fr.phi? σ.globals fn source id = some x) :
    @Eq (Except Fault _ × State) (phiValues fn fr source (id :: ids) σ)
      ((do return (id, x) :: (← phiValues fn fr source ids) : Run _) σ) := by
  unfold Frame.phi? at h
  split at h
  case h_2 => cases h
  case h_1 incoming p hkind =>
    obtain ⟨e, he, hv⟩ := Option.bind_eq_some_iff.mp h
    rw [phiValues, hkind]
    simp only [he]
    exact bind_eq (returns_operand hv)

/-- The phis of a list are read in the frame as it is on entry, or one of them is a bad operand;
in both cases the state is left as it is. -/
theorem phiValues_cases (fr : Frame) (fn : IR.Function) (source : Option BlockId)
    (ids : List InstId) (σ : State) :
    (fr.Readable σ.globals fn source ids ∧
      Returns (phiValues fn fr source ids) σ (fr.phis σ.globals fn source ids) σ) ∨
    ¬ fr.Readable σ.globals fn source ids ∧
      ∃ text, Stops (phiValues fn fr source ids) σ (.badOperand text) σ := by
  induction ids with
  | nil => exact .inl ⟨nofun, returns_pure [] σ⟩
  | cons id ids ih =>
    rw [Frame.readable_cons]
    cases hphi : (fn.inst id).kind.isPhi with
    | false =>
      have hcons : phiValues fn fr source (id :: ids) = phiValues fn fr source ids := by
        rw [phiValues]
        split
        · simp_all [IR.InstKind.isPhi]
        · rfl
      rw [Frame.phis_cons_of_none (Frame.phi?_of_not_phi hphi), hcons]
      simpa only [Bool.false_eq_true, false_implies, true_and] using ih
    | true =>
      cases hx : fr.phi? σ.globals fn source id with
      | none => exact .inr ⟨by simp, stops_phi hphi hx⟩
      | some x =>
        rw [Frame.phis_cons_of_some hx]
        simp only [Option.isSome_some, implies_true, true_and]
        -- the frame is still the one on entry, so that the rest is read as if it stood alone
        refine ih.imp (.imp_right fun h => ?_) (.imp_right fun h => ?_)
        · exact (phiValues_phi hx).trans (h.bind (returns_pure _ σ))
        · obtain ⟨text, ht⟩ := h
          exact ⟨text, (phiValues_phi hx).trans ht.bind⟩

theorem Frame.set_comm {fr : Frame} {id id' : InstId} {x x' : RtValue}
    (h : id = id' → x = x') : (fr.set id x).set id' x' = (fr.set id' x').set id x := by
  by_cases hid : id = id'
  · rw [hid, h hid]
  · have hne : id.index ≠ id'.index := fun e => hid (congrArg InstId.mk e)
    simp only [set, Array.setIfInBounds_comm _ _ hne]

/-- The order of the phis is all the same, as each has its value from the frame on entry. -/
theorem Frame.foldl_phis_perm (h : ids'.Perm ids) (fr' : Frame) :
    (fr.phis globals fn source ids').foldl (fun fr (id, v) => fr.set id v) fr' =
      (fr.phis globals fn source ids).foldl (fun fr (id, v) => fr.set id v) fr' := by
  refine (h.filterMap _).foldl_eq' (fun p hp q hq fr' => ?_) fr'
  obtain ⟨id, -, hid⟩ := List.mem_filterMap.mp hp
  obtain ⟨x, hx, rfl⟩ := Option.map_eq_some_iff.mp hid
  obtain ⟨id', -, hid'⟩ := List.mem_filterMap.mp hq
  obtain ⟨x', hx', rfl⟩ := Option.map_eq_some_iff.mp hid'
  -- a phi that stands in the list twice has one value
  refine Frame.set_comm fun he => ?_
  subst he
  exact Option.some.inj (hx.symm.trans hx')

/-! ### Runs that match -/

/-- Two outcomes that are the same, up to which operand is bad. -/
inductive Alike : Except Fault α × State → Except Fault α × State → Prop
  | refl (o : Except Fault α × State) : Alike o o
  | bad (text text' : String) (s : State) :
      Alike (.error (.badOperand text), s) (.error (.badOperand text'), s)

/-- Two computations with the same outcome in every state, up to which operand is bad. -/
def Matches (x y : Run α) : Prop := ∀ s, Alike (outcome x s) (outcome y s)

theorem Matches.refl (x : Run α) : Matches x x := fun s => .refl (outcome x s)

theorem Alike.goOn {f g : α → Run β} {o o' : Except Fault α × State} (h : Alike o o')
    (hf : ∀ a, Matches (f a) (g a)) : Alike (goOn f o) (goOn g o') := by
  cases h with
  | bad text text' s => exact .bad text text' s
  | refl o =>
    obtain ⟨e | a, s⟩ := o
    · exact .refl _
    · exact hf a s

theorem Matches.bind {x y : Run α} {f g : α → Run β} (h : Matches x y)
    (hf : ∀ a, Matches (f a) (g a)) : Matches (x >>= f) (y >>= g) := fun s => by
  rw [outcome_bind, outcome_bind]
  exact (h s).goOn hf

theorem Matches.withSlots {x y : Run α} (h : Matches x y) :
    Matches (withSlots x) (withSlots y) := fun s => by
  have hxy := h { s with slots := [] }
  rw [outcome_withSlots, outcome_withSlots]
  generalize outcome x { s with slots := [] } = o, outcome y { s with slots := [] } = o' at hxy
  cases hxy with
  | refl => exact .refl _
  | bad text text' => exact .bad text text' _

/-! ### Blocks and calls -/

theorem Frame.phi?_congr {fn' : IR.Function} (h : fn'.inst = fn.inst) :
    fr.phi? globals fn' source = fr.phi? globals fn source := by
  funext id
  simp only [Frame.phi?, h]

/-- Where phis stand in another order, what follows them is run in the same frame. -/
theorem matches_phiValues {fn' : IR.Function} (hinst : fn'.inst = fn.inst) (hp : ids'.Perm ids)
    {k k' : Frame → Run α} (hk : ∀ fr, Matches (k fr) (k' fr)) :
    Matches
      (do
        let resolved ← phiValues fn fr source ids
        k (resolved.foldl (fun fr (id, v) => fr.set id v) fr))
      (do
        let resolved ← phiValues fn' fr source ids'
        k' (resolved.foldl (fun fr (id, v) => fr.set id v) fr)) := by
  intro σ
  have hreadable : fr.Readable σ.globals fn' source ids' ↔ fr.Readable σ.globals fn source ids := by
    simp only [Frame.Readable, Frame.phi?_congr hinst, hinst, hp.mem_iff]
  have hphis : fr.phis σ.globals fn' source ids' = fr.phis σ.globals fn source ids' := by
    simp only [Frame.phis, Frame.phi?_congr hinst]
  rw [outcome_bind, outcome_bind]
  obtain ⟨h, hx⟩ | ⟨h, text, hx⟩ := phiValues_cases fr fn source ids σ
  · obtain ⟨-, hx'⟩ | ⟨h', -⟩ := phiValues_cases fr fn' source ids' σ
    · rw [show outcome (phiValues fn fr source ids) σ = _ from hx,
        show outcome (phiValues fn' fr source ids') σ = _ from hx', goOn, goOn, hphis,
        Frame.foldl_phis_perm hp]
      exact hk _ σ
    · exact absurd (hreadable.mpr h) h'
  · obtain ⟨h', -⟩ | ⟨-, text', hx'⟩ := phiValues_cases fr fn' source ids' σ
    · exact absurd (hreadable.mp h') h
    · rw [show outcome (phiValues fn fr source ids) σ = _ from hx,
        show outcome (phiValues fn' fr source ids') σ = _ from hx']
      exact .bad text text' σ

section

variable {m m' : Module} {call call' : FuncId → List RtValue → Run RtValue} {f : FuncId}

theorem matches_instruction (hm : m.Reordered m')
    (hcall : ∀ g args, Matches (call g args) (call' g args)) (fr : Frame) (kind : InstKind)
    (t : Ty) : Matches (instruction m call f fr kind t) (instruction m' call' f fr kind t) := by
  cases kind with
  | call callee args => exact (Matches.refl _).bind fun values => hcall callee values
  | _ =>
    unfold instruction
    simp only [hm.typeOf]
    exact .refl _

/-- Phis are passed over where instructions are run. -/
theorem instructions_steps (m : Module) (call : FuncId → List RtValue → Run RtValue) (f : FuncId)
    (fn : IR.Function) (fr : Frame) (ids : List InstId) :
    instructions m call f fn fr ids = instructions m call f fn fr (fn.steps ids) := by
  induction ids generalizing fr with
  | nil => rfl
  | cons id ids ih =>
    cases hphi : (fn.inst id).kind.isPhi with
    | true =>
      rw [instructions, if_pos hphi, ih, IR.Function.steps, IR.Function.steps,
        List.filter_cons_of_neg (by simp [hphi])]
    | false =>
      rw [IR.Function.steps, List.filter_cons_of_pos (by simp [hphi]), ← IR.Function.steps,
        instructions, instructions]
      simp only [ih]

theorem matches_instructions (hm : m.Reordered m')
    (hcall : ∀ g args, Matches (call g args) (call' g args)) {fn' : IR.Function}
    (hinst : fn'.inst = fn.inst) (fr : Frame) (ids : List InstId) :
    Matches (instructions m call f fn fr ids) (instructions m' call' f fn' fr ids) := by
  induction ids generalizing fr with
  | nil => exact .refl _
  | cons id ids ih =>
    rw [instructions, instructions, hinst]
    split
    · exact ih fr
    · exact (Matches.refl tick).bind fun _ =>
        (matches_instruction hm hcall fr _ _).bind fun v => ih _

theorem matches_block (hm : m.Reordered m')
    (hcall : ∀ g args, Matches (call g args) (call' g args)) (fr : Frame)
    (source : Option BlockId) (b : BlockId) :
    Matches (block m call f fr source b) (block m' call' f fr source b) := by
  have hf := hm.function f
  obtain ⟨hname, hterm, hperm, hsteps⟩ := hf.block b
  -- what follows the phis are the same instructions in the same order
  have hinsts (fr : Frame) : Matches
      (instructions m call f (m.function f) fr ((m.function f).block b).insts.toList)
      (instructions m' call' f (m'.function f) fr ((m'.function f).block b).insts.toList) := by
    rw [instructions_steps m, instructions_steps m', hf.steps, hsteps]
    exact matches_instructions hm hcall hf.inst fr _
  have hend (fr : Frame) : terminator (m'.function f) ((m'.function f).block b) fr =
      terminator (m.function f) ((m.function f).block b) fr := by
    simp only [terminator, hterm, hname, hf.name]
  have hrest (fr : Frame) : Matches
      (do
        let fr ← instructions m call f (m.function f) fr ((m.function f).block b).insts.toList
        let exit ← terminator (m.function f) ((m.function f).block b) fr
        return (fr, exit))
      (do
        let fr ← instructions m' call' f (m'.function f) fr ((m'.function f).block b).insts.toList
        let exit ← terminator (m'.function f) ((m'.function f).block b) fr
        return (fr, exit)) :=
    (hinsts fr).bind fun fr => hend fr ▸ .refl _
  exact matches_phiValues hf.inst hperm hrest

theorem matches_blocks (hm : m.Reordered m')
    (hcall : ∀ g args, Matches (call g args) (call' g args)) (n : Nat) (fr : Frame)
    (source : Option BlockId) (b : BlockId) :
    Matches (blocks m call f n fr source b) (blocks m' call' f n fr source b) := by
  induction n generalizing fr source b with
  | zero => exact .refl _
  | succ n ih =>
    refine (matches_block hm hcall fr source b).bind fun p => ?_
    split
    · exact .refl _
    · exact ih _ _ _

theorem matches_callWithin (hm : m.Reordered m') (n : Nat) (f : FuncId) (args : List RtValue) :
    Matches (callWithin m n f args) (callWithin m' n f args) := by
  induction n generalizing f args with
  | zero => exact .refl _
  | succ n ih =>
    have hf := hm.function f
    unfold callWithin
    simp only [hf.isDeclaration, hf.name, hf.insts]
    split
    · exact .refl _
    · exact (matches_blocks hm ih _ _ _ _).withSlots

/-- A call does the same whatever the order of the phis, in every function and every state. -/
theorem matches_call (hm : m.Reordered m') (f : FuncId) (args : List RtValue) :
    Matches (Run.call m f args) (Run.call m' f args) :=
  (Matches.refl get).bind fun _ => matches_callWithin hm _ f args

theorem matches_entry (hm : m.Reordered m') (args : List String) :
    Matches (entry m args) (entry m' args) := by
  unfold entry
  rw [Module.findFunction_congr hm.names]
  split
  · exact .refl _
  · exact (Matches.refl _).bind fun vector => (Matches.refl _).bind fun _ => matches_call hm _ _

end

end Exec.Run

namespace Exec

open IR (Constant)

theorem alike_runMain {m m' : Module} (hm : m.Reordered m') (args : List String) (limit : Nat) :
    Run.Alike (runMain m args limit) (runMain m' args limit) := by
  have h := Run.matches_entry hm args { State.initial m with stepLimit := limit }
  rw [runMain, runMain, hm.initial]
  exact h

theorem Run.Alike.elim {α : Type} {o o' : Except Fault α × State} (h : Run.Alike o o') :
    o'.2 = o.2 ∧ ((∀ text, o.1 ≠ .error (.badOperand text)) → o'.1 = o.1) ∧
      ∀ text, o.1 = .error (.badOperand text) → ∃ text', o'.1 = .error (.badOperand text') := by
  cases h with
  | refl => exact ⟨rfl, fun _ => rfl, fun text h => ⟨text, h⟩⟩
  | bad text text' s => exact ⟨rfl, fun h => absurd rfl (h text), fun _ _ => ⟨text', rfl⟩⟩

/-- The phis of a block are read together. Whatever phis lead a block, and however they use each
other's results, a program in which they stand in another order leaves the same memory, the same
output and the same number of steps for any arguments under any limit, and comes to the same
result, unless one of its operands is bad; then it fails in both, if not for the same operand. -/
theorem runMain_withInsts {m : Module} {f : FuncId} {b : BlockId} {phis phis' rest : List InstId}
    (hinsts : ((m.function f).block b).insts.toList = phis ++ rest)
    (hphis : ∀ id ∈ phis, ((m.function f).inst id).kind.isPhi = true) (hperm : phis'.Perm phis)
    (args : List String) (limit : Nat) :
    let o := runMain m args limit
    let o' := runMain (m.withInsts f b (phis' ++ rest)) args limit
    o'.2 = o.2 ∧ ((∀ text, o.1 ≠ .error (.badOperand text)) → o'.1 = o.1) ∧
      ∀ text, o.1 = .error (.badOperand text) → ∃ text', o'.1 = .error (.badOperand text') :=
  (alike_runMain (Module.reordered_withInsts hinsts hphis hperm) args limit).elim

/-- A loop that counts to three, while two phis swap their values on each way round. -/
def swapping : Module :=
  let entry : BlockId := ⟨0⟩
  let head : BlockId := ⟨1⟩
  let inst (i : Nat) : Value := .inst ⟨i⟩
  let int (i : Int) : Value := .const (.int 32 i)
  { name := "swapping"
    functions := #[{
      name := IR.entryName
      params := [⟨"argc", .i32⟩, ⟨"argv", .ptr (.ptr .i8)⟩]
      ret := .i32
      linkage := .external
      blocks := #[
        { name := "entry", term := some (.br head) },
        { name := "head", insts := #[⟨0⟩, ⟨1⟩, ⟨2⟩, ⟨3⟩, ⟨4⟩],
          term := some (.condBr (inst 4) head ⟨2⟩) },
        { name := "exit", term := some (.ret (some (inst 0))) }]
      insts := #[
        { kind := .phi [(int 7, entry), (inst 1, head)], type := .i32 },
        { kind := .phi [(int 9, entry), (inst 0, head)], type := .i32 },
        { kind := .phi [(int 0, entry), (inst 3, head)], type := .i32 },
        { kind := .binary .add (inst 2) (int 1), type := .i32 },
        { kind := .icmp .slt (inst 3) (int 4), type := .i1 }] }] }

/-- The loop with its phis in another order. -/
def swappingReordered : Module := swapping.withInsts ⟨0⟩ ⟨1⟩ ([⟨1⟩, ⟨2⟩, ⟨0⟩] ++ [⟨3⟩, ⟨4⟩])

/-- The loop is well formed, and gives nine in fourteen steps with the phis in another order too. -/
theorem swapping_withInsts :
    swapping.findings = [] ∧ swappingReordered ≠ swapping ∧
      (runMain swapping [] 14).1 = .ok (.int 32 9) ∧ (runMain swapping [] 14).2.steps = 14 ∧
      (runMain swappingReordered [] 14).1 = .ok (.int 32 9) ∧
      (runMain swappingReordered [] 14).2.steps = 14 := by
  have hphis : ((swapping.function ⟨0⟩).block ⟨1⟩).insts.toList =
      [⟨0⟩, ⟨1⟩, ⟨2⟩] ++ [⟨3⟩, ⟨4⟩] := rfl
  have hperm : [⟨1⟩, ⟨2⟩, ⟨0⟩].Perm ([⟨0⟩, ⟨1⟩, ⟨2⟩] : List InstId) := by decide
  have hok : (runMain swapping [] 14).1 = .ok (.int 32 9) := by decide +kernel
  have hsteps : (runMain swapping [] 14).2.steps = 14 := by decide +kernel
  have hne : ∀ text, (runMain swapping [] 14).1 ≠ .error (.badOperand text) := by
    rw [hok]
    nofun
  obtain ⟨hstate, hresult, -⟩ := runMain_withInsts hphis (by decide) hperm [] 14
  exact ⟨by decide +kernel, by decide +kernel, hok, hsteps, (hresult hne).trans hok,
    (congrArg State.steps hstate).trans hsteps⟩

end Exec

end Lowering
