import Lowering.Proofs.Stretch

/-!
# Steps of any kind

A step of generation, whether it stays in one block or jumps about, keeps the invariant and leaves
alone what is not its own.

* `Gen.Leg`: what holds between the beginning and the end of a step;
* `Gen.Spare`, `Gen.Held`: blocks and merge points that only the step at hand knows of;
* `Gen.Walks`: a step of generation that is a leg, with its rules;
* `Gen.walks_appendBlock`: a new block.
-/

namespace Lowering.Gen

open IR (Ty Value FuncId BlockId GlobalId Build Module Inst Terminator)

variable {α β : Type} {c : Context} {e : Entity} {g g₁ g₂ g' : Ledger} {s s₁ s₂ s' : State}
  {X Y : Set (FuncId × BlockId)}

/-! ### Legs -/

/-- What holds between the beginning and the end of a step that may take up some blocks. -/
structure Leg (c : Context) (e : Entity) (X : Set (FuncId × BlockId)) (g : Ledger) (s : State)
    (g' : Ledger) (s' : State) : Prop where
  inv : Inv c e g' s'
  path : Path c X g s g' s'
  stay : Stay g s g' s'

/-- A block that waits, and that no `return` or `break` leads to. -/
structure Spare (c : Context) (e : Entity) (g : Ledger) (s : State) (b : BlockId) : Prop where
  idle : Idle c e g s b
  notAim : ¬ g.Aims s b

/-- A block that jumps may lead to, and that no `return` or `break` leads to. -/
structure Entry (c : Context) (e : Entity) (g : Ledger) (s : State) (b : BlockId) : Prop where
  landing : Landing c e g s b
  notAim : ¬ g.Aims s b

theorem Spare.entry {b : BlockId} (h : Spare c e g s b) : Entry c e g s b :=
  ⟨h.idle.landing, h.notAim⟩

/-- A merge point that waits, and that no `return` or `break` leads to. -/
structure Held (c : Context) (e : Entity) (g : Ledger) (s : State) (t : MergeTarget) : Prop where
  awaits : Awaits c e g s t
  notAim : ¬ g.Aims s t.block

theorem Held.spare {t : MergeTarget} (h : Held c e g s t) : Spare c e g s t.block :=
  ⟨h.awaits.idle, h.notAim⟩

theorem Path.notAim (p : Path c X g s g' s') (hf : s'.fn = s.fn) {b : BlockId}
    (hb : s.Has s.fn.func b) (hx : (s.fn.func, b) ∉ X) (h : ¬ g.Aims s b) : ¬ g'.Aims s' b := by
  intro ha
  rcases p.aims b ha (by rw [hf]; exact hb) with hm | hm
  · rw [hf] at hm
    exact hx hm
  · exact h hm.2

namespace Leg

theorem refl (hi : Inv c e g s) : Leg c e X g s g s := ⟨hi, .refl _ _ _ _, .refl _ _⟩

theorem trans (h₁ : Leg c e X g s g₁ s₁) (h₂ : Leg c e X g₁ s₁ g₂ s₂) : Leg c e X g s g₂ s₂ :=
  ⟨h₂.inv, h₁.path.trans h₂.path, h₁.stay.trans h₂.stay⟩

theorem narrow (h : Leg c e X g s g' s')
    (hx : ∀ f b, (f, b) ∈ X → (f, b) ∈ Y ∨ ¬ s.Has f b) : Leg c e Y g s g' s' :=
  ⟨h.inv, h.path.narrow hx, h.stay⟩

theorem widen (h : Leg c e ∅ g s g' s') : Leg c e X g s g' s' :=
  h.narrow fun _ _ hm => absurd hm (Set.notMem_empty _)

variable (h : Leg c e X g s g' s')
include h

theorem usable {v : Value} (hv : Usable c (some e) s v) : Usable c (some e) s' v :=
  hv.mono h.path.grows h.stay.fn

/-- The blocks that `return` and `break` lead to are the same before and after a step. -/
theorem notAim (hi : Inv c e g s) {b : BlockId} (hb : ¬ g.Aims s b) : ¬ g'.Aims s' b := by
  rintro (hm | ⟨t, ht, m, hm, rfl⟩)
  · rw [h.stay.loopExits] at hm
    exact hb (.inl hm)
  · rw [h.stay.callTargets] at ht
    obtain ⟨m₀, hm₀, -⟩ := hi.aimed.awaits t ht
    obtain ⟨m₁, hm₁, hblock, -⟩ := h.path.targets _ m₀ hm₀
    rw [hm, Option.some.injEq] at hm₁
    exact hb (.inr ⟨t, ht, m₀, hm₀, by rw [hm₁, hblock]⟩)

theorem has {b : BlockId} (hb : s.Has s.fn.func b) : s'.Has s'.fn.func b := by
  rw [h.stay.fn]
  exact h.path.grows.has hb

/-- A block that there is not after a step was not there before it. -/
theorem absent {b : BlockId} (hb : ¬ s'.Has s'.fn.func b) : ¬ s.Has s.fn.func b :=
  fun hs => hb (h.has hs)

theorem mem_fresh {b : BlockId} (hb : ¬ s.Has s.fn.func b) :
    (s'.fn.func, b) ∈ ({p | ¬ s.Has p.1 p.2} : Set (FuncId × BlockId)) := by
  rw [h.stay.fn]
  exact hb

theorem entry {b : BlockId} (hb : Entry c e g s b) (hx : (s.fn.func, b) ∉ X) :
    Entry c e g' s' b :=
  ⟨hb.landing.along h.path h.stay.fn hx, h.path.notAim h.stay.fn hb.landing.inside hx hb.notAim⟩

theorem spare {b : BlockId} (hb : Spare c e g s b) (hx : (s.fn.func, b) ∉ X) :
    Spare c e g' s' b :=
  ⟨hb.idle.along h.path h.stay.fn hx, h.path.notAim h.stay.fn hb.idle.inside hx hb.notAim⟩

theorem held {t : MergeTarget} (ht : Held c e g s t) (hx : (s.fn.func, t.block) ∉ X) :
    Held c e g' s' t :=
  ⟨ht.awaits.along h.path h.stay.fn hx ht.notAim,
    h.path.notAim h.stay.fn ht.awaits.idle.inside hx ht.notAim⟩

end Leg

/-! ### Walks -/

/-- When a step of generation gives a value, it was a leg and a fact holds of the value. -/
def Walks (c : Context) (e : Entity) (X : Set (FuncId × BlockId)) (g : Ledger) (s : State)
    (x : Gen α) (fact : Ledger → State → α → Prop) : Prop :=
  Inv c e g s → ∀ a s', Gives x c s a s' → ∃ g', Leg c e X g s g' s' ∧ fact g' s' a

namespace Walks

variable {x y : Gen α} {f : α → Gen β} {P P' : Ledger → State → α → Prop}
  {Q : Ledger → State → β → Prop}

theorem pure {a : α} (h : Inv c e g s → P g s a) : Walks c e X g s (pure a) P := by
  intro hi b s' hg
  obtain ⟨rfl, rfl⟩ := gives_pure.mp hg
  exact ⟨g, .refl hi, h hi⟩

theorem fail {cause : Cause} : Walks c e X g s (Gen.fail cause) P :=
  fun _ _ _ hg => absurd hg not_gives_fail

theorem bind (hx : Walks c e X g s x P)
    (hf : ∀ a g₁ s₁, Leg c e X g s g₁ s₁ → P g₁ s₁ a → Walks c e X g₁ s₁ (f a) Q) :
    Walks c e X g s (x >>= f) Q := by
  intro hi b s' hg
  obtain ⟨a, s₁, hg₁, hg₂⟩ := gives_bind.mp hg
  obtain ⟨g₁, hl₁, hp⟩ := hx hi a s₁ hg₁
  obtain ⟨g₂, hl₂, hq⟩ := hf a g₁ s₁ hl₁ hp hl₁.inv b s' hg₂
  exact ⟨g₂, hl₁.trans hl₂, hq⟩

/-- A question leaves the state as it is. -/
theorem ask {a : α} (hx : Gives x c s a s) (hf : Walks c e X g s (f a) Q) :
    Walks c e X g s (x >>= f) Q :=
  fun hi b s' hg => hf hi b s' (gives_after hx hg)

theorem mono (hx : Walks c e X g s x P)
    (h : ∀ g' s' a, Leg c e X g s g' s' → P g' s' a → P' g' s' a) : Walks c e X g s x P' := by
  intro hi a s' hg
  obtain ⟨g', hl, hp⟩ := hx hi a s' hg
  exact ⟨g', hl, h g' s' a hl hp⟩

theorem assume (h : Inv c e g s → Walks c e X g s x P) : Walks c e X g s x P :=
  fun hi => h hi hi

/-- A walk tells what it is the walk of. -/
theorem traced (hx : Walks c e X g s x P) :
    Walks c e X g s x fun g' s' a => P g' s' a ∧ Gives x c s a s' := by
  intro hi a s' hg
  obtain ⟨g', hl, hp⟩ := hx hi a s' hg
  exact ⟨g', hl, hp, hg⟩

theorem congr (h : @Eq (Except Failure α × State) (x c s) (y c s)) (hy : Walks c e X g s y P) :
    Walks c e X g s x P :=
  fun hi a s' hg => hy hi a s' (h.symm.trans hg)

/-- A step may be part of one that takes up more blocks, and need not be given new ones. -/
theorem narrow (hx : Walks c e X g s x P)
    (h : ∀ f b, (f, b) ∈ X → (f, b) ∈ Y ∨ ¬ s.Has f b) :
    Walks c e Y g s x fun g' s' a => Leg c e X g s g' s' ∧ P g' s' a := by
  intro hi a s' hg
  obtain ⟨g', hl, hp⟩ := hx hi a s' hg
  exact ⟨g', hl.narrow h, hl, hp⟩

theorem widen (hx : Walks c e ∅ g s x P) :
    Walks c e X g s x fun g' s' a => Leg c e ∅ g s g' s' ∧ P g' s' a :=
  hx.narrow fun _ _ hm => absurd hm (Set.notMem_empty _)

/-- A step may take up all blocks that there were not before it. -/
theorem fresh (hx : Walks c e {p | ¬ s.Has p.1 p.2} g s x P) :
    Walks c e X g s x fun g' s' a => Leg c e ∅ g s g' s' ∧ P g' s' a := by
  intro hi a s' hg
  obtain ⟨g', hl, hp⟩ := hx hi a s' hg
  have hl : Leg c e ∅ g s g' s' := hl.narrow fun _ _ h => .inr h
  exact ⟨g', hl.widen, hl, hp⟩

end Walks

theorem notMem_of_ne {f f' : FuncId} {b b' : BlockId} (h : b' ≠ b) :
    (f', b') ∉ ({(f, b)} : Set (FuncId × BlockId)) :=
  fun hm => h (Prod.mk.inj hm).2

theorem isTerminated_eq {f : FuncId} {b : BlockId} (hp : s.builder.position = some (f, b)) :
    s.builder.isTerminated = (s.block f b).term.isSome := by
  simp only [IR.Builder.isTerminated, hp]
  rfl

/-- What holds after straight code. -/
structure Plainly (c : Context) (e : Entity) (g : Ledger) (s : State) (g' : Ledger) (s' : State) :
    Prop where
  leg : Leg c e ∅ g s g' s'
  keeps : Keeps c (some e) s s'
  ledger : g' = g
  terminated : s'.builder.isTerminated = s.builder.isTerminated

/-- Straight code. -/
theorem Emits.walks {x : Gen α} {P : State → α → Prop} (h : Emits c (some e) s x P) :
    Walks c e X g s x fun g' s' a => Plainly c e g s g' s' ∧ P s' a := by
  intro hi a s' hg
  obtain ⟨hs, hp⟩ := h hi.steady a s' hg
  obtain ⟨hi', hpath, hterm⟩ := hs.step hi
  have hk := hs.keeps hi.steady
  have hl : Leg c e ∅ g s g s' := ⟨hi', hpath, .of_same hk.same⟩
  refine ⟨g, hl.widen, ⟨hl, hk, rfl, ?_⟩, hp⟩
  obtain ⟨b, hpos, -⟩ := hi.steady.position
  rw [isTerminated_eq hpos, isTerminated_eq (hk.same.position.trans hpos), hterm]

/-! ### A new block -/

/-- The state with one more block of a function. -/
def State.withBlock (s : State) (f : FuncId) (name : String) : State :=
  s.withModule (s.builder.module.modifyFunction f fun fn => fn.withBlock { name })

theorem Inv.hasFirst (hi : Inv c e g s) : s.Has s.fn.func ⟨0⟩ := by
  obtain ⟨b, -, hb⟩ := hi.steady.position
  exact State.has_first hb

section

variable {f₀ : FuncId} {name : String} (h₀ : s.Has f₀ ⟨0⟩)
include h₀

theorem func_withBlock_self :
    (s.withBlock f₀ name).func f₀ = (s.func f₀).withBlock { name } :=
  Module.function_modifyFunction_self (index_lt_of_hasBlock h₀)

theorem has_withBlock {f : FuncId} {b : BlockId} :
    (s.withBlock f₀ name).Has f b ↔
      s.Has f b ∨ f = f₀ ∧ b = (s.func f₀).nextBlock := by
  by_cases h : f = f₀
  · subst h
    rw [State.Has, func_withBlock_self h₀, IR.Function.hasBlock_withBlock]
    simp [State.Has]
  · rw [State.Has, State.withBlock, func_modify_of_ne h]
    simp [State.Has, h]

theorem block_withBlock {f : FuncId} {b : BlockId} (hb : s.Has f b) :
    (s.withBlock f₀ name).block f b = s.block f b := by
  by_cases h : f = f₀
  · subst h
    rw [State.block, func_withBlock_self h₀,
      IR.Function.block_withBlock_of_ne (IR.Function.ne_nextBlock hb)]
    rfl
  · rw [State.block, State.withBlock, func_modify_of_ne h]
    rfl

theorem leads_withBlock {f : FuncId} {b b' : BlockId} :
    (s.withBlock f₀ name).Leads f b b' ↔ s.Leads f b b' := by
  by_cases h : f = f₀
  · subst h
    rw [State.Leads, func_withBlock_self h₀, IR.Function.leadsTo_withBlock]
    rfl
  · rw [State.Leads, State.withBlock, func_modify_of_ne h]
    rfl

theorem inst_withBlock (f : FuncId) (id : IR.InstId) :
    ((s.withBlock f₀ name).func f).inst id = (s.func f).inst id := by
  by_cases h : f = f₀
  · subst h
    rw [func_withBlock_self h₀]
    rfl
  · rw [State.withBlock, func_modify_of_ne h]

omit h₀ in
theorem grows_withBlock : s.Grows (s.withBlock f₀ name) :=
  ⟨.modifyFunction fun _ => .withBlock _, fun _ _ h _ => h⟩

theorem mem_insts_withBlock {f : FuncId} {b : BlockId} {id : IR.InstId} :
    id ∈ ((s.withBlock f₀ name).block f b).insts ↔ id ∈ (s.block f b).insts := by
  by_cases hb : s.Has f b
  · rw [block_withBlock h₀ hb]
  · have hold : (s.block f b).insts = #[] := by
      rw [State.block, IR.Function.block_of_not_hasBlock hb]
      rfl
    have hnew : ((s.withBlock f₀ name).block f b).insts = #[] := by
      by_cases h : f = f₀
      · subst h
        rw [State.block, func_withBlock_self h₀]
        exact (IR.Function.isBare_of_not_hasBlock hb).withBlock.1
      · rw [State.block, State.withBlock, func_modify_of_ne h]
        exact hold
    rw [hold, hnew]

theorem term_withBlock {f : FuncId} {b : BlockId} :
    ((s.withBlock f₀ name).block f b).term = (s.block f b).term := by
  by_cases hb : s.Has f b
  · rw [block_withBlock h₀ hb]
  · have hold := IR.Function.isBare_of_not_hasBlock hb
    have hnew : ((s.withBlock f₀ name).func f).IsBare b := by
      by_cases h : f = f₀
      · subst h
        rw [func_withBlock_self h₀]
        exact hold.withBlock
      · rw [State.withBlock, func_modify_of_ne h]
        exact hold
    exact hnew.2.trans hold.2.symm

theorem mentions_withBlock {f : FuncId} {b : BlockId} {v : Value}
    (h : (s.withBlock f₀ name).Mentions f b v) : s.Mentions f b v :=
  h.of_eq (fun id hm => ⟨(mem_insts_withBlock h₀).mp hm, inst_withBlock h₀ f id⟩)
    (term_withBlock h₀)

omit h₀ in
theorem own_of_has {f : FuncId} {b : BlockId} (hb : s.Has f b) {a : Option Entity} :
    (g.own f₀ (s.func f₀).nextBlock a).owner f b = g.owner f b :=
  Ledger.own_of_ne fun ⟨hf, hn⟩ =>
    IR.Function.not_hasBlock_nextBlock (s.func f₀) (by rw [← hn, ← hf]; exact hb)

theorem nextBlock_ne_zero : (s.func f₀).nextBlock ≠ ⟨0⟩ := by
  intro h
  rw [State.Has] at h₀
  exact IR.Function.ne_nextBlock h₀ h.symm

end

section

variable {name : String} (hi : Inv c e g s)
include hi

theorem path_withBlock : Path c X g s
    (g.own s.fn.func (s.func s.fn.func).nextBlock (some e)) (s.withBlock s.fn.func name) where
  grows := grows_withBlock
  runtime _ h := h
  consts := List.suffix_refl _
  owner f b hb := own_of_has hb
  chain := List.prefix_refl _
  func := .inl rfl
  position := .inl rfl
  tail := .inl rfl
  insts f b hb _ _ _ := by rw [block_withBlock hi.hasFirst hb]
  terms f b hb _ _ _ := by rw [block_withBlock hi.hasFirst hb]
  others f _ hf _ := func_modify_of_ne hf
  noPhi f b hb _ hn id hm := by
    have hm : id ∈ ((s.withBlock s.fn.func name).block f b).insts := hm
    rw [mem_insts_withBlock hi.hasFirst] at hm
    rw [inst_withBlock hi.hasFirst]
    exact hn id hm
  edges f b b' _ hl := .inl ((leads_withBlock hi.hasFirst).mp hl)
  aims b h _ := .inr ⟨rfl, h⟩
  callTargets _ h _ := h
  targets _ m h := ⟨m, h, rfl, rfl, rfl, fun _ => rfl⟩
  accounts h := h.modifyFunction (fun _ => rfl) fun _ => rfl

theorem idle_withBlock : Idle c e (g.own s.fn.func (s.func s.fn.func).nextBlock (some e))
    (s.withBlock s.fn.func name) (s.func s.fn.func).nextBlock := by
  have hnew :
      (s.withBlock s.fn.func name).block s.fn.func (s.func s.fn.func).nextBlock = { name } := by
    rw [State.block, func_withBlock_self hi.hasFirst, IR.Function.block_withBlock_self]
  constructor
  · exact (has_withBlock hi.hasFirst).mpr (.inr ⟨rfl, rfl⟩)
  · exact nextBlock_ne_zero hi.hasFirst
  · exact congrArg IR.BasicBlock.insts hnew
  · exact congrArg IR.BasicBlock.term hnew
  · obtain ⟨b, hp, hb⟩ := hi.steady.position
    intro h
    have h : some (s.fn.func, b) = some (s.fn.func, (s.func s.fn.func).nextBlock) := hp ▸ h
    simp only [Option.some.injEq, Prod.mk.injEq, true_and] at h
    exact IR.Function.ne_nextBlock hb h
  · intro h
    obtain ⟨hm, ht⟩ := Prod.mk.inj h
    have hb := hi.tail.1
    rw [← hm] at hb
    exact IR.Function.ne_nextBlock hb ht.symm
  · exact Ledger.own_self _ _ _ _

/-- The current function, unless it is the entry function, holds code of the current entity. -/
theorem Inv.entity {d : Def}
    (hd : ∀ b, s.Has s.fn.func b → b ≠ ⟨0⟩ → g.owner s.fn.func b = some (.definition d)) :
    e = .definition d := by
  obtain ⟨b, hp, hb⟩ := hi.steady.position
  obtain ⟨h0, -, ho⟩ := hi.position b hp
  rw [hd b hb h0] at ho
  exact (Option.some.inj ho).symm

theorem chained_withBlock : Chained c e (g.own s.fn.func (s.func s.fn.func).nextBlock (some e))
    (s.withBlock s.fn.func name) := by
  have h := hi.chained
  have hinsts : ∀ f b, ∀ id ∈ ((s.withBlock s.fn.func name).block f b).insts, s.Has f b ∧
      id ∈ (s.block f b).insts := fun f b id hm => by
    rw [mem_insts_withBlock hi.hasFirst] at hm
    exact ⟨IR.Function.hasBlock_of_mem hm, hm⟩
  constructor
  case path => exact h.path
  case bottom => exact h.bottom
  case started => exact h.started
  case once => exact h.once
  case running => exact h.running
  case tail => exact h.tail
  case regions =>
    intro r hr b hb
    obtain ⟨hhas, ho⟩ := h.regions r hr b hb
    exact ⟨grows_withBlock.has hhas, (own_of_has hhas).trans ho⟩
  case edges =>
    intro b b' hl
    rw [leads_withBlock hi.hasFirst] at hl
    have hb : s.Has c.main.func b := hl.hasBlock
    have hb' : s.Has c.main.func b' := ((hi.sound c.main.func).targets b b' hl).1
    rw [own_of_has hb, own_of_has hb']
    exact h.edges b b' hl
  case firsts =>
    intro r hr b hl
    rw [leads_withBlock hi.hasFirst] at hl
    exact h.firsts r hr b hl
  case slots =>
    intro f
    by_cases hf : f = s.fn.func
    · subst hf
      rw [own_of_has hi.hasFirst]
      exact h.slots _
    · rw [Ledger.own_of_ne fun hc => hf hc.1]
      exact h.slots f
  case head => exact ⟨grows_withBlock.has h.head.1, (own_of_has h.head.1).trans h.head.2⟩
  case entities =>
    intro f hf hb
    have hb : s.Has f ⟨0⟩ := by
      rcases (has_withBlock hi.hasFirst).mp hb with hb | ⟨-, hb⟩
      · exact hb
      · exact absurd hb.symm (nextBlock_ne_zero hi.hasFirst)
    obtain ⟨d, hn, hext, ho⟩ := h.entities f hf hb
    refine ⟨d, ?_, hext, fun b hb' hne => ?_⟩
    · rwa [show ((s.withBlock s.fn.func name).func f).name = (s.func f).name from
        (grows_withBlock.code.function f (index_lt_of_hasBlock hb)).name]
    · rcases (has_withBlock hi.hasFirst).mp hb' with hb' | ⟨rfl, rfl⟩
      · rw [own_of_has hb']
        exact ho b hb' hne
      · rw [Ledger.own_self, hi.entity ho]
  case generated =>
    intro q hq hne
    obtain ⟨hhas, ho⟩ := h.generated q hq hne
    exact ⟨grows_withBlock.has hhas, (own_of_has hhas).trans ho⟩
  case settled =>
    intro before r after hchain
    have hs := h.settled before r after hchain
    refine ⟨hs.outer, ?_, hs.entry, fun q hq hne => ?_, hs.later, ?_, ?_⟩
    · exact hs.bound.trans grows_withBlock.code.functions
    · obtain ⟨hhas, ho⟩ := hs.waiting q hq hne
      exact ⟨grows_withBlock.has hhas, (own_of_has hhas).trans ho⟩
    · intro f b hfb id hm callee args hk
      obtain ⟨hb, hm⟩ := hinsts f b id hm
      rw [inst_withBlock hi.hasFirst] at hk
      rw [own_of_has hb] at hfb
      exact hs.callees f b hfb id hm callee args hk
    · intro f b hfb v hv
      have hv := mentions_withBlock hi.hasFirst hv
      rw [own_of_has hv.has] at hfb
      exact hs.names f b hfb v hv

theorem sound_withBlock : Sound c (g.own s.fn.func (s.func s.fn.func).nextBlock (some e))
    (s.withBlock s.fn.func name) := by
  intro f
  have hs : (s.func f).Sound
      (fun b => UsableIn c ((g.own s.fn.func (s.func s.fn.func).nextBlock (some e)).owner f b)
        (s.withBlock s.fn.func name) f)
      (fun b => Settles ((g.own s.fn.func (s.func s.fn.func).nextBlock (some e)).owner f b)
        (s.withBlock s.fn.func name))
      fun b => Callable c ((g.own s.fn.func (s.func s.fn.func).nextBlock (some e)).owner f b)
        (s.withBlock s.fn.func name) := by
    refine (hi.sound f).mono (fun b v hb hv => ?_) (fun b k v hb hv => ?_) fun b callee hb hc => ?_
    · rw [own_of_has hb]
      exact hv.mono grows_withBlock
    · rw [own_of_has hb]
      exact hv.mono grows_withBlock
    · rw [own_of_has hb]
      exact hc.mono grows_withBlock (List.Subset.refl _)
  by_cases hf : f = s.fn.func
  · subst hf
    rw [func_withBlock_self hi.hasFirst]
    exact hs.withBlock
  · rw [State.withBlock, func_modify_of_ne hf]
    exact hs

theorem Inv.withBlock : Inv c e (g.own s.fn.func (s.func s.fn.func).nextBlock (some e))
    (s.withBlock s.fn.func name) := by
  have hg : s.Grows (s.withBlock s.fn.func name) := grows_withBlock
  have hp : Path c ∅ g s _ (s.withBlock s.fn.func name) := path_withBlock hi
  constructor
  · exact hi.steady.modifyFunction hi.hasFirst hg
  · exact sound_withBlock hi
  · exact fun p hp => (hi.vars p hp).mono hg rfl
  · intro fr hfr
    obtain ⟨hv, hown⟩ := hi.frames fr hfr
    exact ⟨fun q hq => (hv q hq).mono hg rfl, hown⟩
  · exact fun v hv => (hi.returnSlot v hv).mono hg rfl
  · intro b hb
    obtain ⟨b', hpos, hb'⟩ := hi.steady.position
    obtain ⟨hne, htail, ho⟩ := hi.position b hb
    have hbb : b = b' := by
      have hpos : some (s.fn.func, b') = some (s.fn.func, b) := hpos.symm.trans hb
      simp only [Option.some.injEq, Prod.mk.injEq, true_and] at hpos
      exact hpos.symm
    exact ⟨hne, htail, (own_of_has (hbb ▸ hb')).trans ho⟩
  · exact ⟨hg.has hi.tail.1, hi.tail.2⟩
  · exact hi.aimed.along hp ⟨rfl, rfl, rfl, rfl, rfl, rfl, rfl, rfl⟩ (fun _ _ => Set.notMem_empty _)
      (fun _ _ => rfl) fun b b' hl _ => (leads_withBlock hi.hasFirst).mp hl
  · intro f b hb ht
    rcases (has_withBlock hi.hasFirst).mp hb with hb | ⟨rfl, rfl⟩
    · rw [block_withBlock hi.hasFirst hb] at ht
      exact (hi.opened f b hb ht).imp_left (Set.mem_insert_of_mem _)
    · exact .inl (Set.mem_insert _ _)
  · exact chained_withBlock hi

end

/-- A new block, which nothing leads to and which waits to be taken up. -/
structure Appended (c : Context) (e : Entity) (g : Ledger) (s : State) (g' : Ledger) (s' : State)
    (b : BlockId) : Prop where
  leg : Leg c e ∅ g s g' s'
  fresh : ¬ s.Has s.fn.func b
  spare : Spare c e g' s' b
  noEdges : ∀ p, ¬ s'.Leads s.fn.func p b
  terminated : s'.builder.isTerminated = s.builder.isTerminated
  waiting : g'.waiting = insert (s.fn.func, b) g.waiting
  kept : ∀ f b, s.Has f b → s'.block f b = s.block f b
  position : s'.builder.position = s.builder.position

theorem Aimed.inside (h : Aimed c e g s) {b : BlockId} (hb : g.Aims s b) : Idle c e g s b := by
  rcases hb with hb | ⟨t, ht, m, hm, rfl⟩
  · exact h.exits b hb
  · obtain ⟨m', hm', hw⟩ := h.awaits t ht
    rw [hm, Option.some.injEq] at hm'
    exact hm' ▸ hw.idle

theorem gives_appendBlock {name : String} {b : BlockId} (h : Gives (appendBlock name) c s b s') :
    b = (s.func s.fn.func).nextBlock ∧
      s' = s.withBlock s.fn.func (Build.blockNameIn (s.func s.fn.func) name) := by
  obtain ⟨s₀, s₁, hget, h⟩ := gives_bind.mp h
  cases hget
  exact gives_emit h

theorem walks_appendBlock {name : String} :
    Walks c e X g s (appendBlock name) (Appended c e g s) := by
  intro hi b s' hg
  obtain ⟨rfl, rfl⟩ := gives_appendBlock hg
  have hfresh := IR.Function.not_hasBlock_nextBlock (s.func s.fn.func)
  have hl : Leg c e ∅ g s _ (s.withBlock s.fn.func (Build.blockNameIn (s.func s.fn.func) name)) :=
    ⟨hi.withBlock, path_withBlock hi, ⟨rfl, rfl, rfl, rfl, rfl, rfl, rfl, rfl⟩⟩
  refine ⟨_, hl.widen, hl, hfresh, ⟨idle_withBlock hi, fun ha => ?_⟩, fun p hl => ?_, ?_, rfl,
    fun f b hb => block_withBlock hi.hasFirst hb, rfl⟩
  · exact hfresh (hi.aimed.inside ha).inside
  · exact hfresh ((hi.sound _).targets p _ ((leads_withBlock hi.hasFirst).mp hl)).1
  · obtain ⟨b, hp, hb⟩ := hi.steady.position
    rw [isTerminated_eq hp, isTerminated_eq (s := s.withBlock _ _) hp,
      block_withBlock hi.hasFirst hb]

theorem Appended.ne {b b' : BlockId} (h : Appended c e g s g' s' b) (hb : s.Has s.fn.func b') :
    b' ≠ b := by
  rintro rfl
  exact h.fresh hb

/-- A merge point at a block that nothing leads to. -/
theorem Spare.held {b : BlockId} (h : Spare c e g s b) (hn : ∀ p, ¬ s.Leads s.fn.func p b)
    (type : Option TypeId) : Held c e g s { block := b, type, slot := none } := by
  refine ⟨⟨h.idle, fun v hv => (by cases hv), fun p hp => absurd hp (by simp), fun _ _ => ?_⟩,
    h.notAim⟩
  exact ⟨List.nodup_nil, fun p => by simpa using hn p⟩

theorem Appended.held {b : BlockId} (h : Appended c e g s g' s' b) (type : Option TypeId) :
    Held c e g' s' { block := b, type, slot := none } :=
  h.spare.held (h.leg.stay.fn.symm ▸ h.noEdges) type

/-- A merge point may get a slot before anything is carried to it. -/
theorem Held.slotted {b : BlockId} {type : Option TypeId} {slot : Option Value}
    (h : Held c e g s { block := b, type, slot := none })
    (hslot : ∀ v, slot = some v → Usable c (some e) s v) :
    Held c e g s { block := b, type, slot } :=
  ⟨⟨h.awaits.idle, hslot, h.awaits.operands, fun _ ht => h.awaits.sources rfl ht⟩, h.notAim⟩

end Lowering.Gen
