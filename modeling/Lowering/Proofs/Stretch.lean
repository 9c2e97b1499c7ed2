import Lowering.Proofs.Path

/-!
# Straight code between two steps

Code in a straight line keeps the invariant and leaves alone what every step leaves alone.

* `Gen.Chained.carry`: what the order of the initializers depends on;
* `Gen.Inv.of_unmoved`, `Gen.Inv.place`;
* `Gen.Straight.step`.
-/

namespace Lowering.IR

/-- The shape of a function is a matter of its blocks and instructions. -/
theorem Function.Sound.of_parts {fn fn' : Function} {usable : BlockId → Value → Prop}
    {special : BlockId → InstKind → Value → Prop} {callable : BlockId → FuncId → Prop}
    (h : fn.Sound usable special callable) (hb : fn'.blocks = fn.blocks)
    (hi : fn'.insts = fn.insts) : fn'.Sound usable special callable := by
  have hblock : ∀ b, fn'.block b = fn.block b := fun b => by simp only [Function.block, hb]
  have hhas : ∀ b, fn.HasBlock b → fn'.HasBlock b := fun b h => by
    simpa only [Function.HasBlock, hb] using h
  have hleads : ∀ b b', fn'.LeadsTo b b' ↔ fn.LeadsTo b b' := fun b b' => by
    simp only [Function.LeadsTo, hblock]
  refine h.of_same_insts hi (fun b => by rw [hblock]) (fun b _ p => hleads p b) ?_ fun b b' hl => ?_
  · simpa only [hblock] using h.results
  · obtain ⟨hb', hne⟩ := h.targets b b' ((hleads b b').mp hl)
    exact ⟨hhas b' hb', hne⟩

end Lowering.IR

namespace Lowering.Gen

open IR (Ty Value FuncId BlockId GlobalId Build Module Inst)

variable {c : Context} {e : Entity} {g : Ledger} {s s' : State} {X : Set (FuncId × BlockId)}

/-! ### The order of the initializers -/

/-- A block that code of the current entity may be placed in. -/
def Current (c : Context) (e : Entity) (g : Ledger) (s : State) (f : FuncId) (b : BlockId) : Prop :=
  (f = s.fn.func ∨ f = c.main.func) ∧ (g.owner f b = none ∨ g.owner f b = some e)

/-- New code of the current entity is no code of a finished initializer. -/
theorem Settled.not_current {before : List Region} {r : Region} {f : FuncId} {b : BlockId}
    (h : Settled c e g s before r) (hr : Entity.constant r.constant ≠ e) (hc : Current c e g s f b) :
    ¬ (f = c.main.func ∧ g.owner f b = some (.constant r.constant) ∨
      f ∉ r.outer.map Prod.fst ∧ f.index < r.functions) := by
  rintro (⟨-, ho⟩ | ⟨hn, hi⟩)
  · rcases hc.2 with h' | h'
    · rw [ho] at h'
      cases h'
    · rw [ho] at h'
      exact hr (Option.some.inj h')
  · rcases hc.1 with rfl | rfl
    · rcases h.later (s.fn.func, e) List.mem_cons_self with h' | h'
      · exact hn h'
      · exact absurd hi (not_lt.mpr h')
    · exact hn h.entry

theorem Chained.constant_ne (h : Chained c e g s) {r : Region} (hr : r ∈ g.chain) :
    Entity.constant r.constant ≠ e := fun he =>
  h.running r.constant (List.mem_map_of_mem hr) (by simp [pending, he])

/-- What the order of the initializers depends on. -/
theorem Chained.carry (h : Chained c e g s) (hfn : s'.fn = s.fn) (hconsts : s'.consts = s.consts)
    (htail : s'.constTail = s.constTail)
    (hsize : s.builder.module.functions.size ≤ s'.builder.module.functions.size)
    (hhas : ∀ f b, s'.Has f b ↔ s.Has f b)
    (hname : ∀ f, s.Has f ⟨0⟩ → (s'.func f).name = (s.func f).name)
    (hleads : ∀ b b', s'.Leads c.main.func b b' →
      s.Leads c.main.func b b' ∨
        g.owner c.main.func b = some e ∧ g.owner c.main.func b' = some e)
    (hinsts : ∀ f b, ∀ id ∈ (s'.block f b).insts,
      (id ∈ (s.block f b).insts ∧ (s'.func f).inst id = (s.func f).inst id) ∨
        Current c e g s f b)
    (hterms : ∀ f b, (s'.block f b).term = (s.block f b).term ∨ Current c e g s f b) :
    Chained c e g s' := by
  have hp : pending e g s' = pending e g s := by rw [pending, hfn, pending]
  constructor
  · rw [hp]
    exact h.path
  · rw [hp]
    exact h.bottom
  · rw [hp, hconsts]
    exact h.started
  · exact h.once
  · rw [hp]
    exact h.running
  · rw [htail]
    exact h.tail
  · intro r hr b hb
    rw [hhas]
    exact h.regions r hr b hb
  · intro b b' hl
    rcases hleads b b' hl with hl | ⟨ho, ho'⟩
    · exact h.edges b b' hl
    · exact .inl (ho.trans ho'.symm)
  · intro r hr b hl
    rcases hleads b r.first hl with hl | ⟨-, ho⟩
    · exact h.firsts r hr b hl
    · rw [(h.regions r hr _ (.inl rfl)).2] at ho
      exact absurd (Option.some.inj ho) (h.constant_ne hr)
  · exact h.slots
  · rw [hhas]
    exact h.head
  · intro f hf hb
    rw [hhas] at hb
    rw [hname f hb]
    simpa only [hhas] using h.entities f hf hb
  · rw [hp]
    simpa only [hhas] using h.generated
  · intro before r after hchain
    have hs := h.settled before r after hchain
    have hne := h.constant_ne (hchain ▸ by simp : r ∈ g.chain)
    refine ⟨hs.outer, hs.bound.trans hsize, hs.entry, by simpa only [hhas] using hs.waiting,
      by rw [hp]; exact hs.later, ?_, ?_⟩
    · intro f b hfb id hm callee args hk
      rcases hinsts f b id hm with ⟨hm, he⟩ | hc
      · exact hs.callees f b hfb id hm callee args (he ▸ hk)
      · exact absurd hfb (hs.not_current hne hc)
    · intro f b hfb v hv gl hgl k hk
      refine hs.names f b hfb v (hv.imp (fun ⟨id, hm, hv⟩ => ?_) fun ⟨t, ht, hv⟩ => ?_) gl hgl k
        (hconsts ▸ hk)
      · rcases hinsts f b id hm with ⟨hm, he⟩ | hc
        · exact ⟨id, hm, he ▸ hv⟩
        · exact absurd hfb (hs.not_current hne hc)
      · rcases hterms f b with he | hc
        · exact ⟨t, he ▸ ht, hv⟩
        · exact absurd hfb (hs.not_current hne hc)

/-! ### Changes apart from blocks -/

/-- All blocks and instructions are as they were. -/
structure Unmoved (s s' : State) : Prop where
  blocks : ∀ f, (s'.func f).blocks = (s.func f).blocks
  insts : ∀ f, (s'.func f).insts = (s.func f).insts
  func : ∀ f, s.Has f ⟨0⟩ → s'.func f = s.func f

namespace Unmoved

variable (h : Unmoved s s')
include h

theorem block (f : FuncId) (b : BlockId) : s'.block f b = s.block f b := by
  simp only [State.block, IR.Function.block, h.blocks]

theorem has (f : FuncId) (b : BlockId) : s'.Has f b ↔ s.Has f b := by
  simp only [State.Has, IR.Function.HasBlock, h.blocks]

theorem leads (f : FuncId) (b b' : BlockId) : s'.Leads f b b' ↔ s.Leads f b b' := by
  have hb : ∀ b, (s'.func f).block b = (s.func f).block b := h.block f
  simp only [State.Leads, IR.Function.LeadsTo, hb]

theorem inst (f : FuncId) (id : IR.InstId) : (s'.func f).inst id = (s.func f).inst id := by
  simp only [IR.Function.inst, h.insts]

theorem noPhi (f : FuncId) (b : BlockId) : (s'.func f).NoPhi b ↔ (s.func f).NoPhi b := by
  have hb : (s'.func f).block b = (s.func f).block b := h.block f b
  simp only [IR.Function.NoPhi, hb, h.inst]

end Unmoved

theorem Same.aims (h : Same s s') (b : BlockId) : g.Aims s' b ↔ g.Aims s b := by
  have hs : Stay g s g s' := .of_same h
  simp only [Ledger.Aims, hs.callTargets, hs.loopExits, h.targets]

theorem Path.of_unmoved (hsame : Same s s') (hg : s.Grows s') (h : Unmoved s s')
    (ha : Accounted s → Accounted s') : Path c X g s g s' where
  grows := hg
  runtime := hsame.runtime
  consts := hsame.consts ▸ List.suffix_refl _
  owner _ _ _ := rfl
  chain := List.prefix_refl _
  func := .inl (by rw [hsame.fn])
  position := .inl hsame.position
  tail := .inl hsame.constTail
  insts f b _ _ _ _ := by rw [h.block]
  terms f b _ _ _ _ := by rw [h.block]
  others f hb _ _ := h.func f hb
  noPhi f b _ _ hn := (h.noPhi f b).mpr hn
  edges f b b' _ hl := .inl ((h.leads f b b').mp hl)
  aims b hb _ := .inr ⟨by rw [hsame.fn], (hsame.aims b).mp hb⟩
  callTargets t ht _ := by rwa [(Stay.of_same hsame : Stay g s g s').callTargets] at ht
  targets t m hm := ⟨m, by rw [hsame.targets, hm], rfl, rfl, rfl, fun _ => rfl⟩
  accounts := ha

/-- The blocks that jumps can lead to still wait when the jumps are the same. -/
theorem Aimed.along {g' : Ledger} (h : Aimed c e g s) (p : Path c X g s g' s')
    (hs : Stay g s g' s') (hx : ∀ b, Idle c e g s b → (s.fn.func, b) ∉ X)
    (ht : ∀ t ∈ g.callTargets s, s'.targets[t.index]? = s.targets[t.index]?)
    (he : ∀ b b', s'.Leads s.fn.func b b' → s.Has s.fn.func b' → s.Leads s.fn.func b b') :
    Aimed c e g' s' := by
  constructor
  · rw [hs.callTargets]
    intro t htm
    obtain ⟨m, hm, hw⟩ := h.awaits t htm
    refine ⟨m, by rw [ht t htm, hm], hw.idle.along p hs.fn (hx _ hw.idle), fun v hv =>
      (hw.slot v hv).mono p.grows hs.fn, fun q hq => (hw.operands q hq).mono p.grows hs.fn,
      fun hslot htype => ?_⟩
    obtain ⟨hn, hb⟩ := hw.sources hslot htype
    refine ⟨hn, fun b => (hb b).trans ?_⟩
    rw [hs.fn]
    exact ⟨p.grows.leads, fun hl => he b m.block hl hw.idle.inside⟩
  · rw [hs.loopExits]
    exact fun b hb => (h.exits b hb).along p hs.fn (hx b (h.exits b hb))
  · rw [hs.callTargets]
    intro t htm t' htm'
    rw [ht t htm, ht t' htm']
    exact h.apart t htm t' htm'
  · rw [hs.callTargets, hs.loopExits]
    intro t htm
    rw [ht t htm]
    exact h.apartExits t htm

theorem Sound.mono (h : ∀ f, (s'.func f).Sound (fun b => UsableIn c (g.owner f b) s f)
    (fun b => Settles (g.owner f b) s) fun b => Callable c (g.owner f b) s) (hg : s.Grows s')
    (hr : s.runtime ⊆ s'.runtime) : Sound c g s' :=
  fun f => (h f).mono (fun _ _ _ hv => hv.mono hg) (fun _ _ _ _ hv => hv.mono hg)
    fun _ _ _ hc => hc.mono hg hr

/-- Changes apart from blocks keep the invariant. -/
theorem Inv.of_unmoved (hi : Inv c e g s) (hk : Keeps c (some e) s s') (h : Unmoved s s') :
    Inv c e g s' := by
  have hp : Path c ∅ g s g s' := .of_unmoved hk.same hk.grows h hk.accounts
  have hs : Stay g s g s' := .of_same hk.same
  constructor
  · exact hk.steady
  · exact Sound.mono (fun f => (hi.sound f).of_parts (h.blocks f) (h.insts f)) hk.grows
      hk.same.runtime
  · exact hk.vars hi.vars
  · rw [hs.blocks]
    intro fr hfr
    obtain ⟨hv, ho⟩ := hi.frames fr hfr
    exact ⟨fun q hq => hk.usable (hv q hq), ho⟩
  · rw [hs.fn]
    exact fun v hv => hk.usable (hi.returnSlot v hv)
  · rw [hs.fn, hk.same.position, hk.same.constTail]
    exact hi.position
  · rw [hk.same.constTail, h.has]
    exact hi.tail
  · exact hi.aimed.along hp hs (fun _ _ => Set.notMem_empty _)
      (fun _ _ => by rw [hk.same.targets]) fun b b' hl _ => (h.leads _ b b').mp hl
  · intro f b hb
    rw [h.has] at hb
    rw [h.block, hk.same.position, hk.same.constTail]
    exact hi.opened f b hb
  · refine hi.chained.carry hs.fn hk.same.consts hk.same.constTail hk.grows.code.functions h.has
      (fun f hf => by rw [h.func f hf]) (fun b b' hl => .inl ((h.leads _ b b').mp hl)) ?_
      fun f b => .inl (by rw [h.block])
    intro f b id hm
    rw [h.block] at hm
    exact .inl ⟨hm, h.inst f id⟩

theorem Unmoved.of_func (h : ∀ f, s'.func f = s.func f) : Unmoved s s' :=
  ⟨fun f => by rw [h], fun f => by rw [h], fun f _ => h f⟩

/-- A declared function has no blocks and no instructions, as one that there is not. -/
theorem Unmoved.declare {fn : IR.Function} (hb : fn.blocks = #[]) (hi : fn.insts = #[]) :
    Unmoved s (s.withModule (s.builder.module.addFunction fn)) := by
  have hnew : s.func s.builder.module.nextFunction = default := by
    simp [State.func, Module.function, Module.nextFunction]
  have hself : (s.withModule (s.builder.module.addFunction fn)).func
      s.builder.module.nextFunction = fn := Module.function_addFunction_self _ _
  have hother : ∀ f, f ≠ s.builder.module.nextFunction →
      (s.withModule (s.builder.module.addFunction fn)).func f = s.func f :=
    fun f hf => Module.function_addFunction_of_ne hf
  refine ⟨fun f => ?_, fun f => ?_, fun f hf => ?_⟩
  · by_cases h : f = s.builder.module.nextFunction
    · rw [h, hself, hnew, hb]
      rfl
    · rw [hother f h]
  · by_cases h : f = s.builder.module.nextFunction
    · rw [h, hself, hnew, hi]
      rfl
    · rw [hother f h]
  · refine hother f ?_
    rintro rfl
    rw [State.Has, hnew] at hf
    exact absurd hf (by simp [IR.Function.HasBlock, show (default : IR.Function).blocks = #[] from rfl])

/-! ### A placed instruction -/

section

variable {f : FuncId} {b : BlockId} {inst : Inst} {e' : Option Entity} {ks : List CallSite}

theorem func_place_self (hb : s.Has f b) :
    (s.placed f b inst ks).func f = Build.placed b inst (s.func f) :=
  Module.function_modifyFunction_self (index_lt_of_hasBlock hb)

theorem func_place_of_ne {f' : FuncId} (h : f' ≠ f) :
    (s.placed f b inst ks).func f' = s.func f' :=
  Module.function_modifyFunction_of_ne h

theorem func_modify_of_ne {change : IR.Function → IR.Function} {f' : FuncId} (h : f' ≠ f) :
    (s.withModule (s.builder.module.modifyFunction f change)).func f' = s.func f' :=
  Module.function_modifyFunction_of_ne h

/-- Code at a site is code of the entity to which the block belongs. -/
theorem Inv.site_owner (hi : Inv c e g s) (site : Site c (some e) s f b e') :
    g.owner f b = e' ∧ Current c e g s f b := by
  cases site with
  | position h hf =>
    subst hf
    have ho := (hi.position b h).2.2
    exact ⟨ho, .inl rfl, .inr ho⟩
  | slots => exact ⟨hi.chained.slots _, .inl rfl, .inl (hi.chained.slots _)⟩
  | entry => exact ⟨hi.chained.slots _, .inr rfl, .inl (hi.chained.slots _)⟩

theorem Idle.ne_site {b' : BlockId} (h : Idle c e g s b') (site : Site c (some e) s f b e') :
    (s.fn.func, b') ≠ (f, b) := by
  intro he
  cases site with
  | position hp hf => exact h.away (hp.trans (congrArg some he.symm))
  | slots => exact h.notFirst (Prod.mk.inj he).2
  | entry => exact h.notFirst (Prod.mk.inj he).2

/-- A phi is placed only in a block that was given. -/
theorem Path.place (hi : Inv c e g s) (site : Site c (some e) s f b e')
    (hphi : inst.kind.isPhi = true → (f, b) ∈ X) (hg : s.Grows (s.placed f b inst ks))
    (ha : Accounted s → Accounted (s.placed f b inst ks)) :
    Path c X g s g (s.placed f b inst ks) := by
  have hb : s.Has f b := hi.steady.site site
  have hself : (s.placed f b inst ks).func f = Build.placed b inst (s.func f) := func_place_self hb
  have hsite : f = s.fn.func ∨ f = c.main.func := (hi.site_owner site).2.1
  have hleads : ∀ f' b₁ b₂, (s.placed f b inst ks).Leads f' b₁ b₂ ↔ s.Leads f' b₁ b₂ := fun f' b₁ b₂ => by
    by_cases h : f' = f
    · subst h
      rw [State.Leads, hself]
      exact Build.leadsTo_placed
    · rw [State.Leads, func_place_of_ne h]
      rfl
  constructor
  case grows => exact hg
  case runtime => exact fun _ h => h
  case consts => exact List.suffix_refl _
  case owner => exact fun _ _ _ => rfl
  case chain => exact List.prefix_refl _
  case func => exact .inl rfl
  case position => exact .inl rfl
  case tail => exact .inl rfl
  case insts =>
    intro f' b' hb' _ hp hne
    by_cases h : f' = f
    · subst h
      have hbb : b' ≠ b := by
        rintro rfl
        cases site with
        | position h _ => exact hp h
        | slots => exact hne rfl
        | entry => exact hne rfl
      rw [State.block, hself, Build.block_placed_of_ne hbb]
      rfl
    · rw [State.block, func_place_of_ne h]
      rfl
  case terms =>
    intro f' b' hb' _ _ _
    by_cases h : f' = f
    · subst h
      rw [State.block, hself, Build.term_placed]
      rfl
    · rw [State.block, func_place_of_ne h]
      rfl
  case others =>
    intro f' _ hne hnm
    refine func_place_of_ne ?_
    rintro rfl
    exact hsite.elim hne hnm
  case noPhi =>
    intro f' b' hb' hx hn
    by_cases h : f' = f
    · subst h
      rw [hself]
      refine (hi.sound f').forall_placed (P := fun b i => b = b' → i.kind.isPhi = false) hb ?_
        ?_ b' |> fun h id hm => h id hm rfl
      · rintro b₁ id hm rfl
        exact hn id hm
      · rintro rfl
        exact Bool.eq_false_iff.mpr fun h => hx (hphi h)
    · rw [func_place_of_ne h]
      exact hn
  case edges => exact fun f' b₁ b₂ _ hl => .inl ((hleads f' b₁ b₂).mp hl)
  case aims => exact fun _ h _ => .inr ⟨rfl, h⟩
  case callTargets => exact fun _ h _ => h
  case targets => exact fun t m h => ⟨m, h, rfl, rfl, rfl, fun _ => rfl⟩
  case accounts => exact ha

/-- An instruction that leaves its function in shape keeps the invariant. -/
theorem Inv.place (hi : Inv c e g s) (site : Site c (some e) s f b e')
    (hs : Steady c (s.placed f b inst ks)) (hg : s.Grows (s.placed f b inst ks))
    (ha : Accounted s → Accounted (s.placed f b inst ks))
    (hsound : (Build.placed b inst (s.func f)).Sound (fun b => UsableIn c (g.owner f b) s f)
      (fun b => Settles (g.owner f b) s) fun b => Callable c (g.owner f b) s) :
    Inv c e g (s.placed f b inst ks) := by
  have hb : s.Has f b := hi.steady.site site
  have hself : (s.placed f b inst ks).func f = Build.placed b inst (s.func f) := func_place_self hb
  have hp : Path c {(f, b)} g s g _ := Path.place hi site (fun _ => rfl) hg ha
  have hcur := (hi.site_owner site).2
  have hleads : ∀ f' b₁ b₂, (s.placed f b inst ks).Leads f' b₁ b₂ → s.Leads f' b₁ b₂ := fun f' b₁ b₂ hl => by
    by_cases h : f' = f
    · subst h
      rw [State.Leads, hself] at hl
      exact Build.leadsTo_placed.mp hl
    · rw [State.Leads, func_place_of_ne h] at hl
      exact hl
  constructor
  · exact hs
  · refine Sound.mono (fun f' => ?_) hg (List.Subset.refl _)
    by_cases h : f' = f
    · subst h
      rw [hself]
      exact hsound
    · rw [func_place_of_ne h]
      exact hi.sound f'
  · exact fun p hp => (hi.vars p hp).mono hg rfl
  · intro fr hfr
    obtain ⟨hv, hown⟩ := hi.frames fr hfr
    exact ⟨fun q hq => (hv q hq).mono hg rfl, hown⟩
  · exact fun v hv => (hi.returnSlot v hv).mono hg rfl
  · exact hi.position
  · exact ⟨hg.has hi.tail.1, hi.tail.2⟩
  · exact hi.aimed.along hp ⟨rfl, rfl, rfl, rfl, rfl, rfl, rfl, rfl⟩ (fun b' hb' hx => hb'.ne_site site hx)
      (fun _ _ => rfl) fun b₁ b₂ hl _ => hleads _ b₁ b₂ hl
  · intro f' b' hb'
    by_cases h : f' = f
    · subst h
      rw [State.Has, hself, Build.hasBlock_placed] at hb'
      rw [State.block, hself, Build.term_placed]
      exact hi.opened f' b' hb'
    · rw [State.Has, func_place_of_ne h] at hb'
      rw [State.block, func_place_of_ne h]
      exact hi.opened f' b' hb'
  · refine hi.chained.carry rfl rfl rfl hg.code.functions (fun f' b' => ?_) (fun f' hf' => ?_)
      (fun b₁ b₂ hl => .inl (hleads _ b₁ b₂ hl)) (fun f' b' id hid => ?_) fun f' b' => .inl ?_
    · by_cases h : f' = f
      · subst h
        rw [State.Has, hself]
        exact Build.hasBlock_placed
      · rw [State.Has, func_place_of_ne h]
        rfl
    · exact (hg.code.function f' (index_lt_of_hasBlock hf')).name
    · by_cases h : f' = f
      · subst h
        rw [State.block, hself, IR.Function.mem_insts_placed hb] at hid
        rcases hid with hid | ⟨rfl, -⟩
        · rw [hself, IR.Function.inst_placed_old ((hi.sound f').within b' id hid)]
          exact .inl ⟨hid, rfl⟩
        · exact .inr hcur
      · rw [State.block, func_place_of_ne h] at hid
        rw [func_place_of_ne h]
        exact .inl ⟨hid, rfl⟩
    · by_cases h : f' = f
      · subst h
        rw [State.block, hself, Build.term_placed]
        rfl
      · rw [State.block, func_place_of_ne h]
        rfl

end

/-! ### Straight code -/

theorem Move.unmoved (h : Move c (some e) s s') : Unmoved s s' ∨
    ∃ f b e' inst ks, Site c (some e) s f b e' ∧ Fits c e' s f b inst.kind ∧
      s' = s.placed f b inst ks := by
  cases h with
  | place site fits => exact .inr ⟨_, _, _, _, _, site, fits, rfl⟩
  | declare hb hins => exact .inl (.declare hb hins)
  | helper hb hins =>
    have hu : Unmoved s _ := .declare hb hins
    exact .inl ⟨hu.blocks, hu.insts, hu.func⟩
  | global => exact .inl (.of_func fun _ => rfl)
  | content => exact .inl (.of_func fun _ => rfl)
  | bind => exact .inl (.of_func fun _ => rfl)
  | note h =>
    exact .inl (.of_func fun f => by simp only [State.func, Module.function, h.functions])

theorem Move.step (hi : Inv c e g s) (h : Move c (some e) s s') :
    Inv c e g s' ∧ Path c ∅ g s g s' := by
  have hk : Keeps c (some e) s s' := (Straight.of_move h).keeps hi.steady
  rcases h.unmoved with hu | ⟨f, b, e', inst, ks, site, fits, rfl⟩
  · exact ⟨hi.of_unmoved hk hu, .of_unmoved hk.same hk.grows hu hk.accounts⟩
  · obtain ⟨ho, -⟩ := hi.site_owner site
    have hb := hi.steady.site site
    rw [← ho] at fits
    refine ⟨hi.place site hk.steady hk.grows hk.accounts
      ((hi.sound _).place hb fits.notPhi fits.operands fits.callee fits.slot),
      .place hi site (fun hphi => ?_) hk.grows hk.accounts⟩
    rw [fits.notPhi] at hphi
    cases hphi

/-- A move ends no block. -/
theorem Move.term (hs : Steady c s) (h : Move c (some e) s s') (f : FuncId) (b : BlockId) :
    (s'.block f b).term = (s.block f b).term := by
  rcases h.unmoved with hu | ⟨f', b', e', inst, ks, site, fits, rfl⟩
  · rw [hu.block]
  · by_cases hf : f = f'
    · subst hf
      rw [State.block, func_place_self (hs.site site), Build.term_placed]
      rfl
    · rw [State.block, func_place_of_ne hf]
      rfl

/-- Straight code keeps the invariant. -/
theorem Straight.step (hi : Inv c e g s) (h : Straight c (some e) s s') :
    Inv c e g s' ∧ Path c ∅ g s g s' ∧ ∀ f b, (s'.block f b).term = (s.block f b).term := by
  induction h with
  | refl => exact ⟨hi, .refl _ _ _ _, fun _ _ => rfl⟩
  | tail _ hm ih =>
    obtain ⟨hi', hp'⟩ := hm.step ih.1
    exact ⟨hi', ih.2.1.trans hp', fun f b => (hm.term ih.1.steady f b).trans (ih.2.2 f b)⟩

end Lowering.Gen
