import Lowering.Proofs.Function

/-!
# Hoisted constants

The initializer of a constant is begun in a new block of the entry function, filled while the code
around it waits, and put at the end of the chain of initializers.

* `Gen.State.hoisting`, `Gen.Inv.hoisting`: an initializer is begun;
* `Gen.Hoisted`, `Gen.Ledger.link`: an initializer is ended and is the last one of the chain;
* `Gen.walks_constant`.
-/

namespace Lowering.Gen

open IR (Ty Value FuncId BlockId GlobalId Build Module Inst Terminator)

variable {c : Context} {e : Entity} {g g' : Ledger} {s s' : State} {X : Set (FuncId × BlockId)}
  {id : ConstId} {content : IR.Global} {name : String} {log : Log} {act : Activation}

/-! ### An initializer is begun -/

/-- The state with a global for a constant. -/
def State.withConstant (s : State) (id : ConstId) (content : IR.Global) (log : Log) : State :=
  { s.withModule (s.builder.module.addGlobal content) with
    consts := (id, s.builder.module.nextGlobal) :: s.consts
    log }

/-- The state at the start of an initializer. -/
def State.hoisting (s : State) (c : Context) (id : ConstId) (content : IR.Global) (name : String)
    (log : Log) (act : Activation) : State :=
  { (s.withModule (s.builder.module.addGlobal content)).withBlock c.main.func name with
    builder :=
      { ((s.withModule (s.builder.module.addGlobal content)).withBlock c.main.func name).builder with
        position := some (c.main.func, (s.func c.main.func).nextBlock) }
    act
    fn := c.main
    blocks := []
    consts := (id, s.builder.module.nextGlobal) :: s.consts
    log }

/-- The ledger at the start of an initializer. -/
def Ledger.hoisting (g : Ledger) (s : State) (c : Context) (e : Entity) (id : ConstId) : Ledger :=
  { owner := (g.own c.main.func (s.func c.main.func).nextBlock (some (.constant id))).owner
    chain := g.chain
    outer := (s.fn.func, e) :: g.outer
    waiting := {p | s.builder.position = some p} ∪ g.waiting
    parked := [] }

/-- An operand that can be used names a global that there is. -/
theorem index_lt_of_named {a : Option Entity} {f : FuncId} {v : Value} {gl : GlobalId}
    (h : UsableIn c a s f v) (hn : named v = some gl) : gl.index < s.builder.module.globals.size := by
  cases v with
  | global =>
    cases hn
    exact h.1
  | const k =>
    cases k with
    | globalAddr =>
      cases hn
      exact h.1
    | _ => cases hn
  | _ => cases hn

section

theorem grows_hoisting : s.Grows (s.hoisting c id content name log act) := by
  refine ⟨(Module.Grows.addGlobal content).trans (.modifyFunction fun _ => .withBlock _), ?_⟩
  intro k gl hm hgl
  rcases List.mem_cons.mp hm with hm | hm
  · rw [(Prod.mk.inj hm).2] at hgl
    exact absurd hgl (lt_irrefl _)
  · exact hm

variable (hi : Inv c e g s)
include hi

theorem Inv.mainFirst : s.Has c.main.func ⟨0⟩ := hi.steady.entry

theorem has_hoisting {f : FuncId} {b : BlockId} :
    (s.hoisting c id content name log act).Has f b ↔
      s.Has f b ∨ f = c.main.func ∧ b = (s.func c.main.func).nextBlock :=
  has_withBlock (s := s.withModule (s.builder.module.addGlobal content)) hi.mainFirst

theorem block_hoisting {f : FuncId} {b : BlockId} (hb : s.Has f b) :
    (s.hoisting c id content name log act).block f b = s.block f b :=
  block_withBlock (s := s.withModule (s.builder.module.addGlobal content)) hi.mainFirst hb

theorem leads_hoisting {f : FuncId} {b b' : BlockId} :
    (s.hoisting c id content name log act).Leads f b b' ↔ s.Leads f b b' :=
  leads_withBlock (s := s.withModule (s.builder.module.addGlobal content)) hi.mainFirst

theorem of_mem_hoisting {f : FuncId} {b : BlockId} {i : IR.InstId}
    (hm : i ∈ ((s.hoisting c id content name log act).block f b).insts) :
    s.Has f b ∧ i ∈ (s.block f b).insts ∧
      ((s.hoisting c id content name log act).func f).inst i = (s.func f).inst i := by
  have hm : i ∈ (s.block f b).insts :=
    (mem_insts_withBlock (s := s.withModule (s.builder.module.addGlobal content))
      hi.mainFirst).mp hm
  exact ⟨IR.Function.hasBlock_of_mem hm, hm,
    inst_withBlock (s := s.withModule (s.builder.module.addGlobal content)) hi.mainFirst f i⟩

theorem mentions_hoisting {f : FuncId} {b : BlockId} {v : Value}
    (h : (s.hoisting c id content name log act).Mentions f b v) : s.Mentions f b v :=
  mentions_withBlock (s := s.withModule (s.builder.module.addGlobal content)) hi.mainFirst h

omit hi in
theorem owner_hoisting {f : FuncId} {b : BlockId} (hb : s.Has f b) :
    (g.hoisting s c e id).owner f b = g.owner f b :=
  own_of_has hb

omit hi in
theorem func_hoisting_of_ne {f : FuncId} (h : f ≠ c.main.func) :
    (s.hoisting c id content name log act).func f = s.func f :=
  func_modify_of_ne h

theorem path_hoisting : Path c ∅ g s (g.hoisting s c e id)
    (s.hoisting c id content name log {}) where
  grows := grows_hoisting
  runtime := List.Subset.refl _
  consts := List.suffix_cons _ _
  owner _ _ hb := owner_hoisting hb
  chain := List.prefix_refl _
  func := .inr (.inl rfl)
  position := .inr fun f b h => .inr fun hb => by
    obtain ⟨rfl, rfl⟩ := Prod.mk.inj (Option.some.inj h)
    exact IR.Function.not_hasBlock_nextBlock _ hb
  tail := .inl rfl
  insts f b hb _ _ _ := by rw [block_hoisting hi hb]
  terms f b hb _ _ _ := by rw [block_hoisting hi hb]
  others f _ _ hm := func_hoisting_of_ne hm
  noPhi f b hb _ hn i hm := by
    obtain ⟨-, hm, hk⟩ := of_mem_hoisting hi hm
    rw [hk]
    exact hn i hm
  edges f b b' _ hl := .inl ((leads_hoisting hi).mp hl)
  aims b h _ := by
    rcases h with h | ⟨t, ht, -⟩
    · exact absurd h (List.not_mem_nil)
    · exact absurd ht (List.not_mem_nil)
  callTargets t ht _ := absurd ht (List.not_mem_nil)
  targets _ m h := ⟨m, h, rfl, rfl, rfl, fun _ => rfl⟩
  accounts h := h.of_insts (fun _ => IR.Module.insts_modifyFunction fun _ => rfl)
    (List.Subset.refl _) (List.Subset.refl _)
    (h.2.congr (IR.Module.names_modifyFunction fun _ => rfl))

theorem sound_hoisting :
    Sound c (g.hoisting s c e id) (s.hoisting c id content name log act) := by
  intro f
  have hg : s.Grows (s.hoisting c id content name log act) := grows_hoisting
  have hs : (s.func f).Sound
      (fun b => UsableIn c ((g.hoisting s c e id).owner f b)
        (s.hoisting c id content name log act) f)
      (fun b => Settles ((g.hoisting s c e id).owner f b) (s.hoisting c id content name log act))
      fun b => Callable c ((g.hoisting s c e id).owner f b)
        (s.hoisting c id content name log act) := by
    refine (hi.sound f).mono (fun b v hb hv => ?_) (fun b k v hb hv => ?_) fun b callee hb hc => ?_
    · rw [owner_hoisting hb]
      exact hv.mono hg
    · rw [owner_hoisting hb]
      exact hv.mono hg
    · rw [owner_hoisting hb]
      exact hc.mono hg (List.Subset.refl _)
  by_cases hf : f = c.main.func
  · subst hf
    have hfn : (s.hoisting c id content name log act).func c.main.func =
        (s.func c.main.func).withBlock { name } :=
      func_withBlock_self (s := s.withModule (s.builder.module.addGlobal content)) hi.mainFirst
    rw [hfn]
    exact hs.withBlock
  · rw [func_hoisting_of_ne hf]
    exact hs

theorem chained_hoisting (hd : c.program.Depends e (.constant id))
    (hnew : ∀ gl, (id, gl) ∉ s.consts) :
    Chained c (.constant id) (g.hoisting s c e id) (s.hoisting c id content name log act) := by
  have h := hi.chained
  have hg : s.Grows (s.hoisting c id content name log act) := grows_hoisting
  constructor
  case path => exact List.isChain_cons_cons.mpr ⟨hd, h.path⟩
  case bottom => exact List.mem_cons_of_mem _ h.bottom
  case started =>
    intro k
    have hpend : Entity.constant k ∈ (pending (.constant id) (g.hoisting s c e id)
        (s.hoisting c id content name log act)).map Prod.snd ↔
          k = id ∨ Entity.constant k ∈ (pending e g s).map Prod.snd := by
      rw [pending, List.map_cons, List.mem_cons, Entity.constant.injEq]
      rfl
    have hconst : (∃ gl, (k, gl) ∈ (s.hoisting c id content name log act).consts) ↔
        k = id ∨ ∃ gl, (k, gl) ∈ s.consts := by
      simp only [State.hoisting, List.mem_cons, Prod.mk.injEq, exists_or, exists_and_left,
        exists_eq, and_true]
    rw [hpend, hconst, h.started k, or_left_comm]
    rfl
  case once => exact h.once
  case running =>
    intro k hk hm
    rcases List.mem_cons.mp hm with hm | hm
    · obtain ⟨gl, hgl⟩ := (h.started k).mpr (.inl hk)
      exact hnew gl (Entity.constant.inj hm ▸ hgl)
    · exact h.running k hk hm
  case tail => exact h.tail
  case regions =>
    intro r hr b hrb
    obtain ⟨hhas, ho⟩ := h.regions r hr b hrb
    exact ⟨hg.has hhas, (owner_hoisting hhas).trans ho⟩
  case edges =>
    intro b b' hl
    rw [leads_hoisting hi] at hl
    have hb : s.Has c.main.func b := hl.hasBlock
    have hb' : s.Has c.main.func b' := ((hi.sound c.main.func).targets b b' hl).1
    rw [owner_hoisting hb, owner_hoisting hb']
    exact h.edges b b' hl
  case firsts =>
    intro r hr b hl
    rw [leads_hoisting hi] at hl
    exact h.firsts r hr b hl
  case slots =>
    intro f
    by_cases hf : f = c.main.func
    · subst hf
      exact (owner_hoisting hi.mainFirst).trans (h.slots _)
    · exact (Ledger.own_of_ne fun hc => hf hc.1).trans (h.slots f)
  case head => exact ⟨hg.has h.head.1, (owner_hoisting h.head.1).trans h.head.2⟩
  case entities =>
    intro f hf hhas
    have hold : ∀ {b}, (s.hoisting c id content name log act).Has f b ↔ s.Has f b := by
      intro b
      rw [has_hoisting hi]
      exact or_iff_left fun hc => hf hc.1
    obtain ⟨d, hn, hext, ho⟩ := h.entities f hf (hold.mp hhas)
    refine ⟨d, ?_, hext, fun b hb hne => ?_⟩
    · rw [func_hoisting_of_ne hf]
      exact hn
    · exact (owner_hoisting (hold.mp hb)).trans (ho b (hold.mp hb) hne)
  case generated =>
    intro q hq hne
    rcases List.mem_cons.mp hq with rfl | hq
    · exact absurd rfl hne
    · obtain ⟨hhas, ho⟩ := h.generated q hq hne
      exact ⟨hg.has hhas, (owner_hoisting hhas).trans ho⟩
  case settled =>
    intro before r after hc
    have hs := h.settled before r after hc
    refine ⟨hs.outer, hs.bound.trans hg.code.functions, hs.entry, fun q hq hne => ?_,
      fun p hp => ?_, ?_, ?_⟩
    · obtain ⟨hhas, ho⟩ := hs.waiting q hq hne
      exact ⟨hg.has hhas, (owner_hoisting hhas).trans ho⟩
    · rcases List.mem_cons.mp hp with rfl | hp
      · exact .inl hs.entry
      · exact hs.later p hp
    · intro f b hfb i hm callee args hk
      obtain ⟨hb, hm, hinst⟩ := of_mem_hoisting hi hm
      rw [owner_hoisting hb] at hfb
      exact hs.callees f b hfb i hm callee args (hinst ▸ hk)
    · intro f b hfb v hv gl hgl k hk
      have hv := mentions_hoisting hi hv
      rw [owner_hoisting hv.has] at hfb
      refine hs.names f b hfb v hv gl hgl k (hg.consts k gl hk ?_)
      rcases hv with ⟨i, hm, hv⟩ | ⟨t, ht, hv⟩
      · rcases (hi.sound f).operands b i hm v hv with hu | ⟨_, gl', -, rfl, hw⟩
        · exact index_lt_of_named hu hgl
        · cases hgl
          exact hw.1
      · exact index_lt_of_named ((hi.sound f).results b t ht v hv) hgl

theorem block_hoisting_new {f : FuncId} {b : BlockId} (hb : ¬ s.Has f b) :
    ((s.hoisting c id content name log act).func f).IsBare b := by
  have hbare := IR.Function.isBare_of_not_hasBlock hb
  by_cases hf : f = c.main.func
  · subst hf
    have hfn : (s.hoisting c id content name log act).func c.main.func =
        (s.func c.main.func).withBlock { name } :=
      func_withBlock_self (s := s.withModule (s.builder.module.addGlobal content)) hi.mainFirst
    rw [hfn]
    exact hbare.withBlock
  · rw [func_hoisting_of_ne hf]
    exact hbare

theorem Inv.hoisting (hd : c.program.Depends e (.constant id)) (hnew : ∀ gl, (id, gl) ∉ s.consts) :
    Inv c (.constant id) (g.hoisting s c e id) (s.hoisting c id content name log {}) := by
  have hg : s.Grows (s.hoisting c id content name log {}) := grows_hoisting
  have hm := hg.code.function _ (index_lt_of_hasBlock hi.mainFirst)
  have hne : (s.func c.main.func).nextBlock ≠ ⟨0⟩ := nextBlock_ne_zero hi.mainFirst
  have hnext : (s.hoisting c id content name log {}).Has c.main.func
      (s.func c.main.func).nextBlock := (has_hoisting hi).mpr (.inr ⟨rfl, rfl⟩)
  have hnil : (g.hoisting s c e id).callTargets (s.hoisting c id content name log {}) = [] := rfl
  have hnil' : (g.hoisting s c e id).loopExits (s.hoisting c id content name log {}) = [] := rfl
  constructor
  case steady =>
    have hs := hi.steady
    refine ⟨⟨_, rfl, hnext⟩, hs.entrySlots, hs.nilType, hm.hasBlock hs.entry,
      hm.name.trans hs.entryName, hs.onlyEntry hg.code fun f hf => name_of_le ?_, hs.entrySlots,
      hs.entryReturn, ?_, ?_, ?_, ?_, ?_, ?_, fun k hk => (hs.calls k hk).mono hg.code⟩
    · simpa [State.hoisting, State.withBlock, State.withModule] using hf
    · rw [hm.params]
      exact hs.entryParams
    · intro p hp
      rcases List.mem_cons.mp hp with rfl | hp
      · show s.builder.module.globals.size < (s.builder.module.addGlobal content).globals.size
        simp
      · exact lt_of_lt_of_le (hs.consts p hp) hg.code.globals
    · refine List.nodup_cons.mpr ⟨fun hm => ?_, hs.apart⟩
      obtain ⟨p, hp, he⟩ := List.mem_map.mp hm
      have hlt := hs.consts p hp
      rw [he] at hlt
      exact absurd hlt (lt_irrefl _)
    · intro gl hgl
      obtain ⟨hin, hno⟩ := hs.tables gl hgl
      refine ⟨lt_of_lt_of_le hin hg.code.globals, fun k hk => hno k (hg.consts k gl hk hin)⟩
    · intro p hp
      have hf := hs.foreign p hp
      have hpm : p.2 ≠ c.main.func := fun he => by
        have hb := hf.2
        have hfirst : (s.builder.module.function c.main.func).HasBlock ⟨0⟩ := hi.mainFirst
        rw [← he, IR.Function.HasBlock, hb] at hfirst
        simp at hfirst
      refine ⟨lt_of_lt_of_le hf.1 hg.code.functions, ?_⟩
      show ((s.hoisting c id content name log {}).func p.2).blocks = #[]
      rw [func_hoisting_of_ne hpm]
      exact hf.2
    · refine hs.distinct.grow hg.code ?_
      simp [State.hoisting, State.withBlock, State.withModule]
  case sound => exact sound_hoisting hi
  case vars => exact fun p hp => absurd hp (by simp [State.hoisting])
  case frames => exact fun fr hfr => absurd hfr (by simp [State.hoisting])
  case returnSlot =>
    intro v hv
    exact absurd (hi.steady.entryReturn.symm.trans hv) (by simp)
  case position =>
    intro b hp
    have hb : (s.func c.main.func).nextBlock = b := (Prod.mk.inj (Option.some.inj hp)).2
    subst hb
    refine ⟨hne, fun he => ?_, Ledger.own_self _ _ _ _⟩
    exact IR.Function.ne_nextBlock hi.tail.1 (Prod.mk.inj he).2.symm
  case tail => exact ⟨hg.has hi.tail.1, hi.tail.2⟩
  case aimed => refine ⟨?_, ?_, ?_, ?_⟩ <;> simp [hnil, hnil']
  case opened =>
    intro f b hf ht
    rcases (has_hoisting hi).mp hf with hf | ⟨rfl, rfl⟩
    · rw [block_hoisting hi hf] at ht
      rcases hi.opened f b hf ht with h | h | h
      · exact .inl (.inr h)
      · exact .inl (.inl h)
      · exact .inr (.inr h)
    · exact .inr (.inl rfl)
  case chained => exact chained_hoisting hi hd hnew

end

/-! ### An initializer is ended -/

/-- The ledger with one more initializer at the end of the chain. -/
def Ledger.link (g : Ledger) (r : Region) : Ledger := { g with chain := g.chain ++ [r] }

/-- The state with the end of the chain of initializers leading to a block, and with another end. -/
def State.link (s : State) (c : Context) (first last : BlockId) : State :=
  { s.ended c.main.func s.constTail (.br first) with constTail := last }

/-- The region of an initializer that ends now. -/
def State.region (s' s : State) (c : Context) (e : Entity) (g : Ledger) (id : ConstId)
    (last : BlockId) : Region where
  constant := id
  first := (s.func c.main.func).nextBlock
  last
  functions := s'.builder.module.functions.size
  outer := pending e g s

/-- What holds at the end of an initializer, before it is linked. -/
structure Hoisted (c : Context) (e : Entity) (g : Ledger) (s : State) (id : ConstId)
    (content : IR.Global) (name : String) (log : Log) (last : BlockId) (g' : Ledger)
    (s' : State) : Prop where
  inv : Inv c (.constant id) g' s'
  path : Path c ∅ (g.hoisting s c e id) (s.hoisting c id content name log {}) g' s'
  func_eq : s'.fn.func = c.main.func
  outer : g'.outer = (s.fn.func, e) :: g.outer
  waiting : g'.waiting = (g.hoisting s c e id).waiting
  position : s'.builder.position = some (c.main.func, last)
  depends : c.program.Depends e (.constant id)

theorem grows_link {first last : BlockId} : s.Grows (s.link c first last) :=
  have hg : s.Grows (s.ended c.main.func s.constTail (.br first)) := grows_ended
  ⟨hg.code, hg.consts⟩

theorem links_link {r : Region} : (g.link r).links c =
    g.links c ++ [((g.lasts c).getLast (List.cons_ne_nil _ _), r.first)] := by
  have hlen : (g.lasts c).length = (g.chain.map Region.first).length + 1 := by
    simp [Ledger.lasts]
  obtain ⟨init, x, hinit⟩ : ∃ init x, g.lasts c = init ++ [x] :=
    ⟨_, _, (List.dropLast_append_getLast (List.cons_ne_nil _ _)).symm⟩
  have hx : (g.lasts c).getLast (List.cons_ne_nil _ _) = x := by simp [hinit]
  have hlasts : (g.link r).lasts c = g.lasts c ++ [r.last] := by
    simp [Ledger.lasts, Ledger.link]
  rw [hinit, List.length_append, List.length_singleton, Nat.add_right_cancel_iff] at hlen
  rw [hx, Ledger.links, Ledger.links, hlasts, hinit]
  simp only [Ledger.link, List.map_append, List.map_cons, List.map_nil, List.append_assoc]
  have hfirst : (init ++ [x]).zip (g.chain.map Region.first) =
      init.zip (g.chain.map Region.first) := by
    rw [← List.append_nil (g.chain.map Region.first), List.zip_append (by simpa using hlen)]
    simp
  rw [List.zip_append hlen, hfirst]
  rfl

section

variable {last : BlockId} (hi : Inv c e g s) (h : Hoisted c e g s id content name log last g' s')
include h

theorem Hoisted.pending_eq :
    pending (.constant id) g' s' = (c.main.func, .constant id) :: pending e g s := by
  rw [pending, h.func_eq, h.outer]
  rfl

theorem Hoisted.isPosition : s'.builder.position = some (s'.fn.func, last) := by
  rw [h.func_eq]
  exact h.position

theorem Hoisted.has_last : s'.Has c.main.func last := by
  have hb := h.inv.has_position h.isPosition
  rwa [h.func_eq] at hb

/-- The block where an initializer ends belongs to it. -/
theorem Hoisted.owner_last : g'.owner c.main.func last = some (.constant id) := by
  have ho := (h.inv.position last h.isPosition).2.2
  rwa [h.func_eq] at ho

theorem Hoisted.not_has_last : ¬ s.Has c.main.func last := by
  have hold : ∀ {f b}, s.Has f b → (s.hoisting c id content name log {}).Has f b :=
    fun hb => grows_hoisting.has hb
  rcases h.path.position with hp | hp
  · have hlast : (s.func c.main.func).nextBlock = last :=
      (Prod.mk.inj (Option.some.inj (hp.symm.trans h.position))).2
    exact hlast ▸ IR.Function.not_hasBlock_nextBlock _
  · exact fun hb => (hp _ _ h.position).elim (Set.notMem_empty _) fun hn => hn (hold hb)

/-- What leads where after an initializer was linked. -/
theorem Hoisted.leads_link {f : FuncId} {b b' : BlockId}
    (hl : (s'.link c (s.func c.main.func).nextBlock last).Leads f b b') :
    s'.Leads f b b' ∨ f = c.main.func ∧ b = s'.constTail ∧
      b' = (s.func c.main.func).nextBlock := by
  have hl : (s'.ended c.main.func s'.constTail (.br (s.func c.main.func).nextBlock)).Leads f b b' :=
    hl
  cases ht : (s'.block c.main.func s'.constTail).term with
  | some t =>
    rw [ended_of_term h.inv.tail.1 ht] at hl
    exact .inl hl
  | none =>
    refine ((leads_ended h.inv.tail.1 ht).mp hl).imp_right fun ⟨hf, hb, hm⟩ => ⟨hf, hb, ?_⟩
    exact List.mem_singleton.mp hm

include hi

theorem Hoisted.has_first : s'.Has c.main.func (s.func c.main.func).nextBlock :=
  h.path.grows.has ((has_hoisting hi).mpr (.inr ⟨rfl, rfl⟩))

theorem Hoisted.noPhi_first : (s'.func c.main.func).NoPhi (s.func c.main.func).nextBlock := by
  refine h.path.noPhi c.main.func _ ((has_hoisting hi).mpr (.inr ⟨rfl, rfl⟩)) (Set.notMem_empty _)
    fun i hm => ?_
  rw [(block_hoisting_new hi (IR.Function.not_hasBlock_nextBlock _)).1] at hm
  exact absurd hm (by simp)

/-- Nothing leads to the start of an initializer before it is linked. -/
theorem Hoisted.not_leads_first {b : BlockId} :
    ¬ s'.Leads c.main.func b (s.func c.main.func).nextBlock := by
  intro hl
  rcases h.path.edges c.main.func b _ ((has_hoisting hi).mpr (.inr ⟨rfl, rfl⟩)) hl with hl | hm | hm
  · rw [leads_hoisting hi] at hl
    exact IR.Function.not_hasBlock_nextBlock _ ((hi.sound c.main.func).targets _ _ hl).1
  · exact absurd hm (Set.notMem_empty _)
  · rcases hm.2 with ha | ⟨t, ht, -⟩
    · exact absurd ha List.not_mem_nil
    · exact absurd ht List.not_mem_nil

theorem Hoisted.settled : Settled c e ((g'.link (s'.region s c e g id last)).resume g)
    ((s'.link c (s.func c.main.func).nextBlock last).resume s) g'.chain
    (s'.region s c e g id last) := by
  have hc := h.inv.chained
  have hpath := hc.path
  have hg : s'.Grows (s'.link c (s.func c.main.func).nextBlock last) := grows_link
  rw [h.pending_eq] at hpath
  constructor
  case outer =>
    intro p hp
    have hpw : ((c.main.func, Entity.constant id) :: pending e g s).Pairwise
        fun p q => c.program.Depends q.2 p.2 := by
      let R := fun p q : FuncId × Entity => c.program.Depends q.2 p.2
      have : Trans R R R := ⟨fun h₁ h₂ => Relation.TransGen.trans h₂ h₁⟩
      exact List.IsChain.pairwise (R := R) hpath
    exact (List.pairwise_cons.mp hpw).1 p hp
  case bound => exact hg.code.functions
  case entry => exact hi.chained.bottom
  case waiting =>
    intro p hp hne
    have hgen := hc.generated
    rw [h.pending_eq] at hgen
    exact (hgen p (List.mem_cons_of_mem _ hp) hne).imp_left hg.has
  case later => exact fun p hp => .inl (List.mem_map_of_mem hp)
  case callees =>
    intro f b _ i hm callee args hk
    have hm : i ∈ ((s'.ended c.main.func s'.constTail _).block f b).insts := hm
    have hk : (((s'.ended c.main.func s'.constTail _).func f).inst i).kind = _ := hk
    rw [insts_ended h.inv.tail.1] at hm
    rw [inst_ended h.inv.tail.1] at hk
    exact ((h.inv.sound f).callees b i hm callee args hk).inside
  case names =>
    intro f b _ v _ gl hgl k hk
    rcases (hc.started k).mp ⟨gl, hk⟩ with hk | hk
    · exact .inl hk
    · rw [h.pending_eq] at hk
      rcases List.mem_cons.mp hk with hk | hk
      · exact .inr (.inl (Entity.constant.inj hk))
      · exact .inr (.inr hk)

theorem Hoisted.chained (hnew : ∀ gl, (id, gl) ∉ s.consts) :
    Chained c e ((g'.link (s'.region s c e g id last)).resume g)
      ((s'.link c (s.func c.main.func).nextBlock last).resume s) := by
  have hc := h.inv.chained
  have hpath := hc.path
  have hstarted := hc.started
  have hrunning := hc.running
  rw [h.pending_eq] at hpath hrunning
  simp only [h.pending_eq] at hstarted
  have hg : s'.Grows (s'.link c (s.func c.main.func).nextBlock last) := grows_link
  have hhas : ∀ {f b}, (s'.link c (s.func c.main.func).nextBlock last).Has f b ↔ s'.Has f b :=
    has_ended h.inv.tail.1
  have hconst : ∀ k, k ∈ (g'.chain ++ [s'.region s c e g id last]).map Region.constant ↔
      k ∈ g'.chain.map Region.constant ∨ k = id := fun k => by
    simp [State.region]
  constructor
  case path => exact hpath.tail
  case bottom => exact hi.chained.bottom
  case started =>
    intro k
    refine (hstarted k).trans (Iff.trans ?_ (or_congr_left (hconst k)).symm)
    rw [List.map_cons, List.mem_cons, Entity.constant.injEq, or_assoc]
    rfl
  case once =>
    show ((g'.chain ++ [s'.region s c e g id last]).map Region.constant).Nodup
    rw [List.map_append, List.nodup_append]
    refine ⟨hc.once, List.nodup_singleton _, fun k hk k' hk' => ?_⟩
    rintro rfl
    rw [List.map_singleton, List.mem_singleton] at hk'
    exact hrunning k hk (List.mem_cons.mpr (.inl (congrArg Entity.constant hk')))
  case running =>
    intro k hk hm
    rcases (hconst k).mp hk with hk | rfl
    · exact hrunning k hk (List.mem_cons_of_mem _ hm)
    · obtain ⟨gl, hgl⟩ := (hi.chained.started k).mpr (.inr hm)
      exact hnew gl hgl
  case tail =>
    show last = _
    simp [Ledger.lasts, Ledger.resume, Ledger.link, State.region]
  case regions =>
    intro r hr b hrb
    rcases List.mem_append.mp hr with hr | hr
    · obtain ⟨hh, ho⟩ := hc.regions r hr b hrb
      exact ⟨hhas.mpr hh, ho⟩
    · rw [List.mem_singleton.mp hr] at hrb ⊢
      rcases hrb with rfl | rfl
      · refine ⟨hhas.mpr (h.has_first hi), ?_⟩
        exact (h.path.owner _ _ ((has_hoisting hi).mpr (.inr ⟨rfl, rfl⟩))).trans
          (Ledger.own_self _ _ _ _)
      · exact ⟨hhas.mpr h.has_last, h.owner_last⟩
  case edges =>
    intro b b' hl
    have hlinks := links_link (c := c) (g := g') (r := s'.region s c e g id last)
    rw [← hc.tail] at hlinks
    have hlinks : ((g'.link (s'.region s c e g id last)).resume g).links c = _ := hlinks
    rw [hlinks]
    rcases h.leads_link hl with hl | ⟨-, rfl, rfl⟩
    · exact (hc.edges b b' hl).imp_right (List.mem_append_left _)
    · exact .inr (List.mem_append_right _ (List.mem_singleton.mpr rfl))
  case firsts =>
    intro r hr b hl
    have hlinks := links_link (c := c) (g := g') (r := s'.region s c e g id last)
    rw [← hc.tail] at hlinks
    have hlinks : ((g'.link (s'.region s c e g id last)).resume g).links c = _ := hlinks
    rw [hlinks]
    rcases h.leads_link hl with hl | ⟨-, rfl, hfirst⟩
    · rcases List.mem_append.mp hr with hr | hr
      · exact List.mem_append_left _ (hc.firsts r hr b hl)
      · rw [List.mem_singleton.mp hr] at hl
        exact absurd hl (h.not_leads_first hi)
    · exact List.mem_append_right _ (List.mem_singleton.mpr (by rw [hfirst]; rfl))
  case slots => exact hc.slots
  case head => exact ⟨hhas.mpr hc.head.1, hc.head.2⟩
  case entities =>
    intro f hf hh
    obtain ⟨d', hn, hext, ho⟩ := hc.entities f hf (hhas.mp hh)
    refine ⟨d', ?_, hext, fun b hb' => ho b (hhas.mp hb')⟩
    rwa [show (((s'.link c _ last).resume s).func f).name = (s'.func f).name from
      (hg.code.function f (index_lt_of_hasBlock (hhas.mp hh))).name]
  case generated =>
    intro q hq hne
    have hgen := hc.generated
    rw [h.pending_eq] at hgen
    exact (hgen q (List.mem_cons_of_mem _ hq) hne).imp_left hhas.mpr
  case settled =>
    intro before r after hchain
    have hchain : g'.chain ++ [s'.region s c e g id last] = before ++ r :: after := hchain
    rcases List.eq_nil_or_concat after with rfl | ⟨after, r', rfl⟩
    · obtain ⟨rfl, hr⟩ := List.append_inj' hchain rfl
      rw [← (List.cons.inj hr).1]
      exact h.settled hi
    · rw [List.concat_eq_append, ← List.cons_append, ← List.append_assoc] at hchain
      have hs := hc.settled before r after (List.append_inj' hchain rfl).1
      have hlater := hs.later
      rw [h.pending_eq] at hlater
      refine ⟨hs.outer, hs.bound.trans hg.code.functions, hs.entry,
        fun q hq hne => (hs.waiting q hq hne).imp_left hhas.mpr, fun p hp => hlater p (List.mem_cons_of_mem _ hp), ?_, ?_⟩
      · intro f b hfb i hm callee args hk
        have hm : i ∈ ((s'.ended c.main.func s'.constTail _).block f b).insts := hm
        have hk : (((s'.ended c.main.func s'.constTail _).func f).inst i).kind = _ := hk
        rw [insts_ended h.inv.tail.1] at hm
        rw [inst_ended h.inv.tail.1] at hk
        exact hs.callees f b hfb i hm callee args hk
      · exact fun f b hfb v hv => hs.names f b hfb v (mentions_ended_br h.inv.tail.1 hv)

theorem Hoisted.path_link : Path c ∅ g s (g'.link (s'.region s c e g id last))
    (s'.link c (s.func c.main.func).nextBlock last) := by
  have hfresh : ¬ s.Has c.main.func (s.func c.main.func).nextBlock :=
    IR.Function.not_hasBlock_nextBlock _
  have hp : Path c ∅ g s g' s' := (path_hoisting hi).trans h.path
  have hq : Path c {p | ¬ s.Has p.1 p.2} g s g'
      (s'.ended c.main.func s'.constTail (.br (s.func c.main.func).nextBlock)) := by
    refine (hp.narrow fun _ _ hm => absurd hm (Set.notMem_empty _)).trans
      (.ended h.inv.tail.1 (.inr rfl) (.inr (.inr rfl)) fun _ b' hb' => .inl ?_)
    rw [List.mem_singleton.mp hb']
    exact hfresh
  have hr : Path c ∅ g s g'
      (s'.ended c.main.func s'.constTail (.br (s.func c.main.func).nextBlock)) :=
    hq.narrow fun _ _ hm => .inr hm
  exact
    { hr with
      grows := hp.grows.trans grows_link
      chain := hr.chain.trans (List.prefix_append _ _)
      tail := .inr h.not_has_last }

theorem Hoisted.resumes (hnew : ∀ gl, (id, gl) ∉ s.consts) :
    Resumes c e g s (g'.link (s'.region s c e g id last))
      (s'.link c (s.func c.main.func).nextBlock last) := by
  have htail := h.inv.tail.1
  have hhas : ∀ {f b}, (s'.link c (s.func c.main.func).nextBlock last).Has f b ↔ s'.Has f b :=
    has_ended htail
  constructor
  case path => exact h.path_link hi
  case edges =>
    intro b b' hl hhas
    rcases h.leads_link hl with hl | ⟨hf, -, rfl⟩
    · rcases h.path.edges s.fn.func b b' (grows_hoisting.has hhas) hl with hl | hm | hm
      · exact (leads_hoisting hi).mp hl
      · exact absurd hm (Set.notMem_empty _)
      · rcases hm.2 with ha | ⟨t, ht, -⟩
        · exact absurd ha (List.not_mem_nil)
        · exact absurd ht (List.not_mem_nil)
    · rw [hf] at hhas
      exact absurd hhas (IR.Function.not_hasBlock_nextBlock _)
  case targets =>
    intro t ht
    obtain ⟨m, hm, -⟩ := hi.aimed.awaits t ht
    obtain ⟨m', hm', -, -, -, hsame⟩ := h.path.targets t.index m hm
    show s'.targets[t.index]? = _
    rw [hm', hsame (List.not_mem_nil), hm]
  case steady =>
    have hs : Steady c (s'.ended c.main.func s'.constTail
        (.br (s.func c.main.func).nextBlock)) := h.inv.steady.modifyFunction htail grows_ended
    exact { hs with }
  case sound =>
    have hs : Sound c g' (s'.ended c.main.func s'.constTail
        (.br (s.func c.main.func).nextBlock)) :=
      h.inv.sound.jump htail (h.has_first hi) (nextBlock_ne_zero hi.mainFirst) (h.noPhi_first hi)
    exact Sound.mono hs ⟨.refl _, fun _ _ h _ => h⟩ (List.Subset.refl _)
  case tail =>
    refine ⟨hhas.mpr h.has_last, ?_⟩
    exact (h.inv.position last h.isPosition).1
  case opened =>
    intro f b hf ht
    have ht : ((s'.ended c.main.func s'.constTail _).block f b).term = none := ht
    have hne : (f, b) ≠ (c.main.func, s'.constTail) := by
      intro he
      obtain ⟨rfl, rfl⟩ := Prod.mk.inj he
      rw [State.block, func_ended_self htail, Build.block_ended_self htail] at ht
      simp at ht
    rw [block_ended_of_ne htail hne] at ht
    rcases h.inv.opened f b (hhas.mp hf) ht with hw | hp | ht
    · rw [h.waiting] at hw
      exact hw.elim (fun hw => .inr (.inl hw)) .inl
    · rw [h.position] at hp
      exact .inr (.inr (Option.some.inj hp).symm)
    · exact absurd ht hne
  case chained => exact h.chained hi hnew

end

/-! ### The code of an initializer -/

theorem emits_settle {a : Option Entity} {gl : GlobalId} {t : TypeId} {value : Value}
    (hg : MayWrite a s gl) (hv : Usable c a s value) :
    Emits c a s (settle gl t value) fun _ _ => True := by
  unfold settle
  refine .ask rfl ?_
  split
  · exact .build rfl (fun _ => .inr (.content _ fun _ => rfl)) fun _ => trivial
  · unfold assign
    rw [if_pos rfl]
    refine .ask rfl ?_
    split
    · exact (emits_load hv).kept.bind fun held s₁ _ h => emits_storeGlobal h.1 (hg.mono h.2.grows)
    · refine .ask rfl ?_
      split
      · exact (emits_coerce hv).kept.bind fun w s₁ _ h => emits_storeGlobal h.1 (hg.mono h.2.grows)
      · exact emits_storeGlobal hv hg

/-- The global of a constant can be written by its initializer. -/
theorem mayWrite_hoisting (hi : Inv c e g s) : MayWrite (some (.constant id))
    (s.hoisting c id content name log act) s.builder.module.nextGlobal := by
  refine ⟨?_, fun k hk => congrArg (some ∘ Entity.constant) (Eq.symm ?_)⟩
  · show s.builder.module.globals.size < (s.builder.module.addGlobal content).globals.size
    simp
  · rcases List.mem_cons.mp hk with hk | hk
    · rw [(Prod.mk.inj hk).1]
    · exact absurd (hi.steady.consts _ hk) (lt_irrefl _)

variable {visit : Visitor} (hv : Visits c visit)
include hv

theorem walks_initializer {gl : GlobalId} {d : ConstDef} {t : TypeId}
    (hd : c.program.const? id = some d)
    (hg : MayWrite (some (.constant id)) s gl) :
    Walks c (.constant id) ∅ g s (do
      let value ← visit d.value
      settle gl t value
      currentBlock) fun g' s' last => g'.waiting = g.waiting ∧
        s'.builder.position = some (s'.fn.func, last) := by
  have ho : c.program.Owns (.constant id) d.value.preorder := by
    have hcode := Program.owns_code (p := c.program) (a := .constant id) trivial
    rwa [Program.code, hd] at hcode
  refine (hv _ _ _ _ _ ho).bind fun value g₁ s₁ l₁ h₁ => ?_
  refine (emits_settle (hg.mono l₁.path.grows) h₁.usable).walks.bind fun _ g₂ s₂ _ h₂ => .assume fun hi => ?_
  obtain ⟨b, hp, -⟩ := hi.steady.position
  refine .congr (y := pure b) (gives_currentBlock hp) (.pure fun _ => ⟨?_, hp⟩)
  rw [h₂.1.ledger, h₁.waiting]

theorem gives_hoist (hi : Inv c e g s) {d : ConstDef} {t : TypeId}
    (hd : c.program.const? id = some d) (hdep : c.program.Depends e (.constant id))
    (hnew : ∀ gl, (id, gl) ∉ s.consts) {a : Unit}
    (h : Gives (hoist visit s.builder.module.nextGlobal d t) c (s.withConstant id content log) a s') :
    ∃ name log last g₁ s₁, Hoisted c e g s id content name log last g₁ s₁ ∧
      s' = (s₁.link c (s.func c.main.func).nextBlock last).resume s := by
  obtain ⟨⟨⟩, s₀, h₀, h⟩ := gives_bind.mp h
  obtain ⟨log', rfl⟩ : ∃ log', s₀ = s.withConstant id content log' := by
    have h₀ := gives_modify h₀
    exact ⟨log.push ⟨.debug, "hoisting initializer of constant " ++ d.name⟩, h₀⟩
  have hpos : (s.withConstant id content log').builder.position.isSome := hi.steady.position_isSome
  obtain ⟨s₁, haside, hs'⟩ := gives_aside hpos h
  have haside := gives_after
    (show Gives read c (s.withConstant id content log') c (s.withConstant id content log') from rfl)
    haside
  obtain ⟨⟨⟩, s₂, h₂, haside⟩ := gives_bind.mp haside
  cases gives_modify h₂
  obtain ⟨b, s₃, h₃, haside⟩ := gives_bind.mp haside
  obtain ⟨rfl, rfl⟩ := gives_emit h₃
  obtain ⟨⟨⟩, s₄, h₄, haside⟩ := gives_bind.mp haside
  obtain ⟨-, hs₄⟩ := gives_emit h₄
  have hs₄ : s₄ = s.hoisting c id content
    (Build.blockNameIn (s.func c.main.func) ("const_" ++ d.name)) log' s.act := hs₄
  obtain ⟨last, s₅, h₅, haside⟩ := gives_bind.mp haside
  subst hs₄
  have h₅ := gives_after (show Gives types c _ c.program.types _ from rfl) h₅
  obtain ⟨s₆, hinit, rfl⟩ := gives_withActivation h₅
  have hi₀ : Inv c (.constant id) (g.hoisting s c e id) (s.hoisting c id content
      (Build.blockNameIn (s.func c.main.func) ("const_" ++ d.name)) log' {}) :=
    hi.hoisting hdep hnew
  let act : Activation := { vars := [], scope := c.program.types.program? }
  obtain ⟨hi₁, hp₁⟩ : Inv c (.constant id) (g.hoisting s c e id) (State.under _ act []) ∧
      Path c ∅ _ _ _ _ := hi₀.bare rfl (fun p hp => absurd hp (by simp [act])) rfl rfl
  obtain ⟨g₂, hl₂, hw₂, hlast⟩ := walks_initializer hv hd
    ((mayWrite_hoisting hi).mono ⟨.refl _, fun _ _ h _ => h⟩) hi₁ last s₆ hinit
  have hfn : s₆.fn = c.main := hl₂.stay.fn
  have hget := gives_after (show Gives get c (s₆.under s.act s₆.blocks) (s₆.under s.act s₆.blocks) _
    from rfl) haside
  obtain ⟨⟨⟩, s₇, h₇, hget⟩ := gives_bind.mp hget
  obtain ⟨-, rfl⟩ := gives_emit h₇
  obtain ⟨⟨⟩, s₈, h₈, hget⟩ := gives_bind.mp hget
  obtain ⟨-, rfl⟩ := gives_emit h₈
  cases gives_modify hget
  refine ⟨_, log', last, g₂, s₆, ⟨hl₂.inv, hp₁.trans hl₂.path, congrArg FunctionState.func hfn,
    hl₂.stay.outer, hw₂, ?_, hdep⟩, ?_⟩
  · rw [hlast, hfn]
  · rw [hs']
    rfl

omit hv in
/-- A constant that an entity depends on can be read in its code. -/
theorem Inv.usable_constant {a : Entity} {gl : GlobalId} (hi : Inv c a g s)
    (hm : (id, gl) ∈ s.consts) (hdep : c.program.Depends e (.constant id)) :
    Usable c (some e) s (.global gl) := by
  refine ⟨hi.steady.consts _ hm, fun k hk => ⟨e, rfl, ?_⟩⟩
  have he := List.inj_on_of_nodup_map hi.steady.apart hk hm rfl
  rwa [(Prod.mk.inj he).1]

theorem walks_constantGlobal {d : ConstDef} {t : TypeId} (hd : c.program.const? id = some d)
    (hdep : c.program.Depends e (.constant id)) :
    Walks c e X g s (constantGlobal visit id d t) fun g' s' gl =>
      Visited c e g s g' s' (.global gl) := by
  unfold constantGlobal
  refine .ask rfl ?_
  split
  · rename_i gl hgl
    exact .pure fun hi => ⟨.refl hi, rfl, hi.usable_constant (mem_of_lookup hgl) hdep⟩
  · rename_i hnone
    have hnew : ∀ gl, (id, gl) ∉ s.consts := fun gl hm => by
      have := List.lookup_eq_none_iff.mp hnone _ hm
      simp at this
    refine (Walks.widen (P := fun g' s' gl => Visited c e g s g' s' (.global gl)) ?_).mono
      fun _ _ _ _ h => h.2
    intro hi gl s' h
    have h := gives_after (show Gives (irType t) c s (c.program.types.irType t) s from rfl) h
    obtain ⟨gl', s₁, h₁, h⟩ := gives_bind.mp h
    have h₁ := gives_after (show Gives get c s s s from rfl) h₁
    obtain ⟨content, rfl, rfl⟩ : ∃ content, gl' = s.builder.module.nextGlobal ∧
        s₁ = s.withModule (s.builder.module.addGlobal content) := ⟨_, gives_emit h₁⟩
    obtain ⟨⟨⟩, s₂, h₂, h⟩ := gives_bind.mp h
    have h₂ : s₂ = s.withConstant id content s.log := gives_modify h₂
    subst h₂
    obtain ⟨⟨⟩, s₃, h₃, h⟩ := gives_bind.mp h
    obtain ⟨name, log, last, g₁, s₄, hh, rfl⟩ := gives_hoist hv hi hd hdep hnew h₃
    obtain ⟨rfl, rfl⟩ := gives_pure.mp h
    have hl := Leg.resume hi (hh.resumes hi hnew)
    refine ⟨_, hl, hl, rfl, hl.inv.usable_constant ?_ hdep⟩
    exact hh.path.consts.subset List.mem_cons_self

theorem walks_constant (hdep : c.program.Depends e (.constant id)) :
    Walks c e X g s (constant visit id) (Visited c e g s) := by
  unfold constant
  refine .ask rfl ?_
  cases hd : c.program.const? id with
  | none => exact Walks.bind (P := fun _ _ _ => False) .fail fun _ _ _ _ h => h.elim
  | some d =>
    refine .ask (a := d) rfl (.ask rfl ((walks_constantGlobal hv hd hdep).bind
      fun gl g₁ s₁ _ h₁ => ?_))
    exact (emits_heldIn h₁.usable).visited.mono fun _ _ _ _ h₂ => h₁.trans h₂

end Lowering.Gen
