import Lowering.Gen.Function
import Lowering.Proofs.Aside
import Lowering.Proofs.Flow

/-!
# Generated functions

The function of a definition is begun with two empty blocks, filled while the code around it waits,
and ended by the jump from its block of stack slots to its entry.

* `Gen.emits_parameterScope`, `Gen.emits_functionActivation`: the variables of parameters;
* `Gen.State.entered`, `Gen.Inv.entered`: a function is begun;
* `Gen.walks_functionOf`, `Gen.walks_callFunction`.
-/

namespace Lowering.Gen

open IR (Ty Value FuncId BlockId GlobalId Build Module Inst Terminator)

section

variable {c : Context} {e : Option Entity} {s s' : State} {v : Value}

/-! ### Parameters -/

theorem emits_ownCopy {name : String} {t : TypeId} (hv : Usable c e s v) :
    Emits c e s (ownCopy name t v) fun s' x => Usable c e s' x.ptr := by
  unfold ownCopy
  refine .ask rfl (emits_alloca.bind fun slot s₁ k₁ hs => ?_)
  exact (emits_copyHeld hs (k₁.usable hv)).bind fun _ s₂ k₂ _ => .pure (k₂.usable hs)

theorem emits_receiverVariable {t : TypeId} (hv : Usable c e s v) :
    Emits c e s (receiverVariable t v) fun s' x => Usable c e s' x.ptr := by
  unfold receiverVariable
  refine .ask rfl ?_
  split
  · exact emits_ownCopy hv
  · exact .pure hv

theorem emits_argumentVariable {name : String} {t : TypeId} (hv : Usable c e s v) :
    Emits c e s (argumentVariable name t v) fun s' x => Usable c e s' x.ptr := by
  unfold argumentVariable
  refine .ask rfl ?_
  split
  · exact emits_ownCopy hv
  · refine .ask rfl (emits_alloca.bind fun slot s₁ k₁ hs => ?_)
    exact (emits_storeCoerced (k₁.usable hv) hs).bind fun _ s₂ k₂ _ => .pure (k₂.usable hs)

/-- The variables of a scope can be used. -/
def Visible (c : Context) (e : Option Entity) (s : State) (vars : Scope) : Prop :=
  ∀ p ∈ vars, Usable c e s p.2.ptr

theorem Visible.cons {vars : Scope} {name : String} {x : Variable} (hx : Usable c e s x.ptr)
    (h : Visible c e s vars) : Visible c e s ((name, x) :: vars) := by
  intro p hp
  rcases List.mem_cons.mp hp with rfl | hp
  · exact hx
  · exact h p hp

theorem Keeps.visible {vars : Scope} (k : Keeps c e s s') (h : Visible c e s vars) :
    Visible c e s' vars := fun p hp => k.usable (h p hp)

theorem emits_argumentScope {d : Def} {vars : Scope} {args : List Arg} {values : List Value}
    (hs : Visible c e s vars) (hv : ∀ v ∈ values, Usable c e s v) :
    Emits c e s (argumentScope d vars args values) (Visible c e) := by
  induction args generalizing s vars values with
  | nil => exact .pure hs
  | cons a args ih =>
    cases values with
    | nil => exact .fail
    | cons v values =>
      refine (emits_argumentVariable (hv v List.mem_cons_self)).bind fun x s₁ k₁ hx => ?_
      exact ih (.cons hx (k₁.visible hs)) fun v h => k₁.usable (hv v (List.mem_cons_of_mem _ h))

theorem emits_parameterScope {d : Def} {selfType : Option TypeId} {values : List Value}
    (hv : ∀ v ∈ values, Usable c e s v) :
    Emits c e s (parameterScope d selfType values) (Visible c e) := by
  have hnil : ∀ s, Visible c e s [] := fun s p hp => absurd hp (by simp)
  unfold parameterScope
  split
  · exact .fail
  · refine (emits_receiverVariable (hv _ List.mem_cons_self)).bind fun x s₁ k₁ hx => ?_
    exact emits_argumentScope (.cons hx (hnil s₁)) fun v h =>
      k₁.usable (hv v (List.mem_cons_of_mem _ h))
  · exact emits_argumentScope (hnil s) hv

theorem emits_functionActivation {d : Def} {selfType : Option TypeId}
    (hp : (s.func s.fn.func).params.length = (parameters d selfType).length) :
    Emits c e s (functionActivation d selfType) fun s' act =>
      Visible c e s' act.vars ∧ act.returnTarget = none ∧ act.breakTarget = none := by
  have hparam : ∀ i < (parameters d selfType).length, Usable c e s (.param i) := fun i hi => by
    show i < (s.func s.fn.func).params.length
    rwa [hp]
  unfold functionActivation
  split
  · refine .ask (a := primitiveScope d selfType) rfl (.pure ⟨fun p hq => ?_, rfl, rfl⟩)
    simp only [primitiveScope, List.mem_reverse, List.mem_map] at hq
    obtain ⟨⟨⟨n, t⟩, i⟩, hi, rfl⟩ := hq
    exact hparam i (by simpa using (List.mem_zipIdx hi).2.1)
  · refine (emits_parameterScope fun v hv => ?_).bind fun vars s₁ _ hvars =>
      .pure ⟨hvars, rfl, rfl⟩
    obtain ⟨i, hi, rfl⟩ := List.mem_map.mp hv
    exact hparam i (List.mem_range.mp hi)

theorem emits_coerceAll {ts : List Ty} {values : List Value} (hv : ∀ v ∈ values, Usable c e s v) :
    Emits c e s (coerceAll ts values) fun s' vs => ∀ v ∈ vs, Usable c e s' v := by
  induction ts generalizing s values with
  | nil => cases values <;> exact .pure hv
  | cons t ts ih =>
    cases values with
    | nil => exact .pure hv
    | cons v values =>
      refine (emits_coerce (hv v List.mem_cons_self)).bind fun w s₁ k₁ hw => ?_
      refine (ih fun v h => k₁.usable (hv v (List.mem_cons_of_mem _ h))).kept.bind
        fun ws s₂ _ h => .pure ?_
      intro v hv
      rcases List.mem_cons.mp hv with rfl | hv
      · exact h.2.usable hw
      · exact h.1 v hv

theorem emits_callResult {t : Option TypeId} (hv : Usable c e s v) :
    Emits c e s (callResult v t) fun s' r => Usable c e s' r.1 := by
  unfold callResult
  split
  · exact .ask rfl (.pure trivial)
  · refine .ask rfl ?_
    split
    · refine .ask rfl (emits_alloca.bind fun slot s₁ k₁ hs => ?_)
      exact (emits_store (k₁.usable hv) hs).bind fun _ s₂ k₂ _ => .pure (k₂.usable hs)
    · exact .pure hv

theorem emits_targetOf {call : String} {id : DefId} :
    Emits c e s (targetOf call id) fun _ d => c.program.def? id = some d :=
  .ask rfl (.orFail fun _ h => h)

theorem emits_noteSubprogram {name : String} {f : FuncId} {line : Nat} :
    Emits c e s (noteSubprogram name f line) fun s' _ =>
      s'.builder.module.function f = s.builder.module.function f ∧ s'.runtime = s.runtime := by
  refine .build (show _ = ((), { s.builder with module := { s.builder.module with
    debug := s.builder.module.debug.map fun d =>
      { d with subprograms := d.subprograms.push { name, function := f, line } } } }) from rfl)
    (fun _ => .inr (.note ⟨rfl, rfl, rfl, rfl, rfl, rfl, rfl, rfl, rfl, rfl, fun _ h => .inl h,
      rfl, rfl⟩)) fun _ => ⟨rfl, rfl⟩

/-- A function that was just declared for a definition. -/
structure Declared (s : State) (name : String) (d : Def) (selfType : Option TypeId) (s' : State)
    (f : FuncId) : Prop where
  foreign : Foreign s' f
  name_eq : (s'.func f).name = name
  params : (s'.func f).params.length = (parameters d selfType).length
  insts : (s'.func f).insts = #[]
  new : s.builder.module.functions.size ≤ f.index
  runtime : s'.runtime = s.runtime

theorem emits_declareFunction {name : String} {d : Def} {selfType : Option TypeId}
    (hn : name ≠ IR.entryName) (fresh : ∀ f : FuncId,
      f.index < s.builder.module.functions.size → (s.builder.module.function f).name ≠ name) :
    Emits c e s (declareFunction name d selfType) (Declared s name d selfType) := by
  unfold declareFunction
  refine .ask rfl ((emits_declare hn fresh).bind fun f s₁ k₁ h₁ => ?_)
  obtain ⟨hf, heq, hnew, hr⟩ := h₁
  refine emits_noteSubprogram.kept.bind fun _ s₂ _ h₂ => .pure ?_
  have hfn : s₂.func f = _ := h₂.1.1.trans heq
  exact ⟨h₂.2.foreign f hf, by rw [hfn], by rw [hfn]; simp, by rw [hfn], hnew, h₂.1.2.trans hr⟩

end

variable {α : Type} {c : Context} {e : Entity} {g g' : Ledger} {s s' : State}
  {X : Set (FuncId × BlockId)} {func : FuncId} {d : Def} {n₀ n₁ : String}

/-! ### A function is begun -/

/-- The state at the start of a function. -/
def State.entered (s : State) (func : FuncId) (d : Def) (n₀ n₁ : String) (act : Activation) :
    State :=
  { s with
    builder := { s.builder with
      module := s.builder.module.modifyFunction func fun f =>
        (f.withBlock { name := n₀ }).withBlock { name := n₁ }
      position := some (func, ⟨1⟩) }
    act
    fn := { func, allocaBlock := ⟨0⟩, entryBlock := ⟨1⟩, returnType := d.type }
    blocks := []
    definition := some d }

/-- The ledger at the start of a function. -/
def Ledger.entered (g : Ledger) (s : State) (e : Entity) (func : FuncId) (d : Def) : Ledger :=
  { owner := ((g.own func ⟨0⟩ none).own func ⟨1⟩ (some (.definition d))).owner
    chain := g.chain
    outer := (s.fn.func, e) :: g.outer
    waiting := insert (func, ⟨0⟩) ({p | s.builder.position = some p} ∪ g.waiting)
    parked := [] }

/-- A function can be begun when it is new. -/
structure Beginning (c : Context) (e : Entity) (g : Ledger) (s : State) (func : FuncId) (d : Def) :
    Prop where
  inside : func.index < s.builder.module.functions.size
  blocks : (s.func func).blocks = #[]
  insts : (s.func func).insts = #[]
  asks : c.program.Asks d (s.func func).name
  internal : d.external = none
  runtime : ∀ p ∈ s.runtime, p.2 ≠ func
  later : ∀ r ∈ g.chain, r.functions ≤ func.index
  depends : c.program.Depends e (.definition d)

section

variable {act : Activation} (hb : Beginning c e g s func d)

theorem func_entered_of_ne {f : FuncId} (h : f ≠ func) :
    (s.entered func d n₀ n₁ act).func f = s.func f :=
  Module.function_modifyFunction_of_ne h

theorem owner_entered_of_ne {f : FuncId} {b : BlockId} (h : f ≠ func) :
    (g.entered s e func d).owner f b = g.owner f b := by
  show ((g.own func ⟨0⟩ none).own func ⟨1⟩ _).owner f b = _
  rw [Ledger.own_of_ne fun hc => h hc.1, Ledger.own_of_ne fun hc => h hc.1]

include hb

theorem func_entered_self : (s.entered func d n₀ n₁ act).func func =
    ((s.func func).withBlock { name := n₀ }).withBlock { name := n₁ } :=
  Module.function_modifyFunction_self hb.inside

theorem Beginning.not_has (b : BlockId) : ¬ s.Has func b := by
  simp [State.Has, IR.Function.HasBlock, hb.blocks]

theorem has_entered_self {b : BlockId} :
    (s.entered func d n₀ n₁ act).Has func b ↔ b = ⟨0⟩ ∨ b = ⟨1⟩ := by
  rw [State.Has, func_entered_self hb]
  simp only [IR.Function.HasBlock, IR.Function.withBlock, hb.blocks]
  cases b with
  | mk i =>
    simp only [List.push_toArray, List.nil_append, List.cons_append, List.size_toArray,
      List.length_cons, List.length_nil, BlockId.mk.injEq]
    omega

theorem isBare_entered (b : BlockId) : ((s.entered func d n₀ n₁ act).func func).IsBare b := by
  rw [func_entered_self hb]
  exact (IR.Function.isBare_of_not_hasBlock (hb.not_has b)).withBlock.withBlock

theorem not_leads_entered (b b' : BlockId) : ¬ (s.entered func d n₀ n₁ act).Leads func b b' := by
  rintro ⟨t, ht, -⟩
  rw [(isBare_entered hb b).2] at ht
  cases ht

theorem Beginning.ne {f : FuncId} {b : BlockId} (h : s.Has f b) : f ≠ func := by
  rintro rfl
  exact hb.not_has b h

omit hb in
theorem grows_entered : s.Grows (s.entered func d n₀ n₁ act) :=
  ⟨.modifyFunction fun _ => (IR.Function.Grows.withBlock _).trans (.withBlock _), fun _ _ h _ => h⟩

omit hb in
theorem has_entered_of_ne {f : FuncId} {b : BlockId} (h : f ≠ func) :
    (s.entered func d n₀ n₁ act).Has f b ↔ s.Has f b := by
  rw [State.Has, func_entered_of_ne h]
  rfl

/-- A fact about the code in the blocks holds when it does for those of other functions. -/
theorem of_mem_entered {f : FuncId} {b : BlockId} {id : IR.InstId}
    (h : id ∈ ((s.entered func d n₀ n₁ act).block f b).insts) : f ≠ func ∧
      id ∈ (s.block f b).insts ∧ ((s.entered func d n₀ n₁ act).func f).inst id =
        (s.func f).inst id := by
  have hf : f ≠ func := by
    rintro rfl
    rw [State.block, (isBare_entered hb b).1] at h
    exact absurd h (by simp)
  rw [State.block, func_entered_of_ne hf] at h
  exact ⟨hf, h, by rw [func_entered_of_ne hf]⟩

theorem leads_entered {f : FuncId} {b b' : BlockId} :
    (s.entered func d n₀ n₁ act).Leads f b b' ↔ s.Leads f b b' := by
  by_cases h : f = func
  · subst h
    exact iff_of_false (not_leads_entered hb b b') fun hl => hb.not_has b hl.hasBlock
  · rw [State.Leads, func_entered_of_ne h]
    rfl

theorem sound_entered (hi : Inv c e g s) :
    Sound c (g.entered s e func d) (s.entered func d n₀ n₁ act) := by
  refine Sound.mono (fun f => ?_) grows_entered (List.Subset.refl _)
  by_cases hf : f = func
  · subst hf
    have hinst : ((s.entered f d n₀ n₁ act).func f).insts = #[] := by
      rw [func_entered_self hb]
      exact hb.insts
    have hnone : ∀ b (id : IR.InstId),
        id ∉ (((s.entered f d n₀ n₁ act).func f).block b).insts := fun b id => by
      rw [(isBare_entered hb b).1]
      simp
    refine ⟨fun id hid => absurd hid (by simp [hinst]), fun b id h => absurd h (hnone b id),
      fun b id h => absurd h (hnone b id), fun b id h => absurd h (hnone b id),
      fun b id h => absurd h (hnone b id), fun b => ?_, fun b id h => absurd h (hnone b id),
      fun b t ht => ?_, fun b b' hl => absurd hl (not_leads_entered hb b b')⟩
    · rw [(isBare_entered hb b).1]
      exact List.Pairwise.nil
    · rw [(isBare_entered hb b).2] at ht
      cases ht
  · rw [func_entered_of_ne hf]
    simp only [owner_entered_of_ne hf]
    exact hi.sound f

theorem chained_entered (hi : Inv c e g s) :
    Chained c (.definition d) (g.entered s e func d) (s.entered func d n₀ n₁ act) := by
  have h := hi.chained
  have hmain : c.main.func ≠ func := hb.ne hi.tail.1
  constructor
  case path => exact List.isChain_cons_cons.mpr ⟨hb.depends, h.path⟩
  case bottom => exact List.mem_cons_of_mem _ h.bottom
  case started =>
    intro k
    refine (h.started k).trans (or_congr_right ⟨List.mem_cons_of_mem _, fun hm => ?_⟩)
    rcases List.mem_cons.mp hm with hm | hm
    · cases hm
    · exact hm
  case once => exact h.once
  case running =>
    intro k hk hm
    rcases List.mem_cons.mp hm with hm | hm
    · cases hm
    · exact h.running k hk hm
  case tail => exact h.tail
  case regions =>
    intro r hr b hrb
    obtain ⟨hhas, ho⟩ := h.regions r hr b hrb
    exact ⟨grows_entered.has hhas, (owner_entered_of_ne hmain).trans ho⟩
  case edges =>
    intro b b' hl
    rw [leads_entered hb] at hl
    rw [owner_entered_of_ne hmain, owner_entered_of_ne hmain]
    exact h.edges b b' hl
  case firsts =>
    intro r hr b hl
    rw [leads_entered hb] at hl
    exact h.firsts r hr b hl
  case slots =>
    intro f
    by_cases hf : f = func
    · subst hf
      show ((g.own f ⟨0⟩ none).own f ⟨1⟩ _).owner f ⟨0⟩ = none
      rw [Ledger.own_of_ne (by simp), Ledger.own_self]
    · exact (owner_entered_of_ne hf).trans (h.slots f)
  case head => exact ⟨grows_entered.has h.head.1, (owner_entered_of_ne hmain).trans h.head.2⟩
  case entities =>
    intro f hf hhas
    by_cases he : f = func
    · subst he
      refine ⟨d, ?_, hb.internal, fun b hb' hne => ?_⟩
      · rw [func_entered_self hb]
        exact hb.asks
      · rcases (has_entered_self hb).mp hb' with rfl | rfl
        · exact absurd rfl hne
        · exact Ledger.own_self _ _ _ _
    · rw [has_entered_of_ne he] at hhas
      simp only [func_entered_of_ne he, has_entered_of_ne he, owner_entered_of_ne he]
      exact h.entities f hf hhas
  case generated =>
    intro q hq hne
    rcases List.mem_cons.mp hq with rfl | hq
    · exact ⟨(has_entered_self hb).mpr (.inr rfl), Ledger.own_self _ _ _ _⟩
    · obtain ⟨hhas, ho⟩ := h.generated q hq hne
      exact ⟨grows_entered.has hhas, (owner_entered_of_ne (hb.ne hhas)).trans ho⟩
  case settled =>
    intro before r after hc
    have hs := h.settled before r after hc
    refine ⟨hs.outer, hs.bound.trans grows_entered.code.functions, hs.entry, fun q hq hne => ?_,
      fun p hp => ?_, ?_, ?_⟩
    · obtain ⟨hhas, ho⟩ := hs.waiting q hq hne
      exact ⟨grows_entered.has hhas, (owner_entered_of_ne (hb.ne hhas)).trans ho⟩
    · rcases List.mem_cons.mp hp with rfl | hp
      · exact .inr (hb.later r (by
          have hc : g.chain = before ++ r :: after := hc
          simp [hc]))
      · exact hs.later p hp
    · intro f b hfb id hm callee args hk
      obtain ⟨hf, hm, hinst⟩ := of_mem_entered hb hm
      rw [owner_entered_of_ne hf] at hfb
      exact hs.callees f b hfb id hm callee args (hinst ▸ hk)
    · intro f b hfb v hv
      have hf : f ≠ func := by
        rintro rfl
        rcases hv with ⟨id, hm, -⟩ | ⟨t, ht, -⟩
        · exact (of_mem_entered hb hm).1 rfl
        · rw [State.block, (isBare_entered hb b).2] at ht
          cases ht
      have hv : s.Mentions f b v := hv.of_eq (fun id hm => (of_mem_entered hb hm).2)
        (by rw [State.block, func_entered_of_ne hf]; rfl)
      rw [owner_entered_of_ne hf] at hfb
      exact hs.names f b hfb v hv

theorem Inv.entered (hi : Inv c e g s) :
    Inv c (.definition d) (g.entered s e func d) (s.entered func d n₀ n₁ {}) := by
  have hmain : c.main.func ≠ func := hb.ne hi.tail.1
  have hentry : (s.entered func d n₀ n₁ {}).Has func ⟨1⟩ := (has_entered_self hb).mpr (.inr rfl)
  have hg : s.Grows (s.entered func d n₀ n₁ {}) := grows_entered
  have hnil : (g.entered s e func d).callTargets (s.entered func d n₀ n₁ {}) = [] := rfl
  have hnil' : (g.entered s e func d).loopExits (s.entered func d n₀ n₁ {}) = [] := rfl
  constructor
  case steady =>
    have hs := hi.steady
    have hm := hg.code.function _ (index_lt_of_hasBlock hs.entry)
    refine ⟨⟨⟨1⟩, rfl, hentry⟩, rfl, hs.nilType, hm.hasBlock hs.entry, hm.name.trans hs.entryName,
      hs.onlyEntry hg.code fun f hf => name_of_le ?_, hs.entrySlots, hs.entryReturn, ?_, hs.consts,
      hs.apart, hs.tables, fun p hp => ?_,
      hs.distinct.grow hg.code (Module.functions_modifyFunction_size ..),
      fun k hk => (hs.calls k hk).mono hg.code⟩
    · simpa [State.entered] using hf
    · rw [hm.params]
      exact hs.entryParams
    · have hf := hs.foreign p hp
      refine ⟨lt_of_lt_of_le hf.1 hg.code.functions, ?_⟩
      show ((s.entered func d n₀ n₁ {}).func p.2).blocks = #[]
      rw [func_entered_of_ne (hb.runtime p hp)]
      exact hf.2
  case sound => exact sound_entered hb hi
  case vars => exact fun p hp => absurd hp (by simp [State.entered])
  case frames => exact fun fr hfr => absurd hfr (by simp [State.entered])
  case returnSlot => exact fun v hv => by cases hv
  case position =>
    intro b hp
    have hbb : (⟨1⟩ : BlockId) = b := (Prod.mk.inj (Option.some.inj hp)).2
    subst hbb
    exact ⟨by simp, fun h => hmain (Prod.mk.inj h).1.symm, Ledger.own_self _ _ _ _⟩
  case tail => exact ⟨hg.has hi.tail.1, hi.tail.2⟩
  case aimed =>
    refine ⟨?_, ?_, ?_, ?_⟩ <;> simp [hnil, hnil']
  case opened =>
    intro f b hf ht
    by_cases he : f = func
    · subst he
      rcases (has_entered_self hb).mp hf with rfl | rfl
      · exact .inl (.inl rfl)
      · exact .inr (.inl rfl)
    · rw [has_entered_of_ne he] at hf
      rw [State.block, func_entered_of_ne he] at ht
      rcases hi.opened f b hf ht with h | h | h
      · exact .inl (.inr (.inr h))
      · exact .inl (.inr (.inl h))
      · exact .inr (.inr h)
  case chained => exact chained_entered hb hi

theorem path_entered : Path c ∅ g s (g.entered s e func d) (s.entered func d n₀ n₁ {}) where
  grows := grows_entered
  runtime := List.Subset.refl _
  consts := List.suffix_refl _
  owner _ _ hf := owner_entered_of_ne (hb.ne hf)
  chain := List.prefix_refl _
  func := .inr (.inr (hb.not_has _))
  position := .inr fun f b h => .inr fun hf => hb.ne hf (Prod.mk.inj (Option.some.inj h)).1.symm
  tail := .inl rfl
  insts f b hf _ _ _ := by rw [State.block, func_entered_of_ne (hb.ne hf)]; rfl
  terms f b hf _ _ _ := by rw [State.block, func_entered_of_ne (hb.ne hf)]; rfl
  others f hf _ _ := func_entered_of_ne (hb.ne hf)
  noPhi f b hf _ hn := by rwa [func_entered_of_ne (hb.ne hf)]
  edges f b b' _ hl := .inl ((leads_entered hb).mp hl)
  aims b h _ := by
    rcases h with h | ⟨t, ht, -⟩
    · exact absurd h (List.not_mem_nil)
    · exact absurd ht (List.not_mem_nil)
  callTargets t ht _ := absurd ht (List.not_mem_nil)
  targets _ m h := ⟨m, h, rfl, rfl, rfl, fun _ => rfl⟩
  accounts h := h.of_insts (fun _ => Module.insts_modifyFunction fun _ => rfl)
    (List.Subset.refl _) (List.Subset.refl _)
    (h.2.congr (Module.names_modifyFunction fun _ => rfl))

/-! ### A function is ended -/

/-- What holds at the end of the body of a function, before the jump to its entry is placed. -/
structure Filled (c : Context) (e : Entity) (g : Ledger) (s : State) (func : FuncId) (d : Def)
    (n₀ n₁ : String) (g' : Ledger) (s' : State) : Prop where
  inv : Inv c (.definition d) g' s'
  path : Path c ∅ (g.entered s e func d) (s.entered func d n₀ n₁ {}) g' s'
  func_eq : s'.fn.func = func
  outer : g'.outer = (s.fn.func, e) :: g.outer
  waiting : g'.waiting = (g.entered s e func d).waiting
  terminated : s'.builder.isTerminated = true

theorem Filled.chained (hi : Inv c e g s) (h : Filled c e g s func d n₀ n₁ g' s') :
    Chained c e (g'.resume g) ((s'.ended func ⟨0⟩ (.br ⟨1⟩)).resume s) := by
  have hc := h.inv.chained
  have hmain : c.main.func ≠ func := hb.ne hi.tail.1
  have hfirst : s'.Has func ⟨0⟩ := h.path.grows.has ((has_entered_self hb).mpr (.inl rfl))
  have hpend : pending (.definition d) g' s' =
      (func, .definition d) :: pending e (g'.resume g) ((s'.ended func ⟨0⟩ (.br ⟨1⟩)).resume s) := by
    rw [pending, h.func_eq, h.outer]
    rfl
  have hpath := hc.path
  have hbottom := hc.bottom
  have hstarted := hc.started
  have hrunning := hc.running
  rw [hpend] at hpath hbottom hrunning
  simp only [hpend] at hstarted
  have hhas : ∀ {f b}, (s'.ended func ⟨0⟩ (.br ⟨1⟩)).Has f b ↔ s'.Has f b := has_ended hfirst
  constructor
  case path => exact hpath.tail
  case bottom => exact (List.mem_cons.mp hbottom).resolve_left hmain
  case started =>
    intro k
    refine (hstarted k).trans (or_congr_right ⟨fun hm => ?_, List.mem_cons_of_mem _⟩)
    rcases List.mem_cons.mp hm with hm | hm
    · cases hm
    · exact hm
  case once => exact hc.once
  case running => exact fun k hk hm => hrunning k hk (List.mem_cons_of_mem _ hm)
  case tail => exact hc.tail
  case regions =>
    intro r hr b hrb
    obtain ⟨hh, ho⟩ := hc.regions r hr b hrb
    exact ⟨hhas.mpr hh, ho⟩
  case edges =>
    intro b b' hl
    have hl : ((s'.ended func ⟨0⟩ (.br ⟨1⟩)).func c.main.func).LeadsTo b b' := hl
    rw [func_ended_of_ne hmain] at hl
    exact hc.edges b b' hl
  case firsts =>
    intro r hr b hl
    have hl : ((s'.ended func ⟨0⟩ (.br ⟨1⟩)).func c.main.func).LeadsTo b r.first := hl
    rw [func_ended_of_ne hmain] at hl
    exact hc.firsts r hr b hl
  case slots => exact hc.slots
  case head => exact ⟨hhas.mpr hc.head.1, hc.head.2⟩
  case entities =>
    intro f hf hh
    obtain ⟨d', hn, hext, ho⟩ := hc.entities f hf (hhas.mp hh)
    refine ⟨d', ?_, hext, fun b hb' => ho b (hhas.mp hb')⟩
    rwa [show (((s'.ended func ⟨0⟩ (.br ⟨1⟩)).resume s).func f).name = (s'.func f).name from
      (grows_ended.code.function f (index_lt_of_hasBlock (hhas.mp hh))).name]
  case generated =>
    intro q hq hne
    have hgen := hc.generated
    rw [hpend] at hgen
    exact (hgen q (List.mem_cons_of_mem _ hq) hne).imp_left hhas.mpr
  case settled =>
    intro before r after hchain
    have hs := hc.settled before r after hchain
    have hlater := hs.later
    rw [hpend] at hlater
    refine ⟨hs.outer, hs.bound.trans grows_ended.code.functions, hs.entry,
      fun q hq hne => (hs.waiting q hq hne).imp_left hhas.mpr, fun p hp => hlater p (List.mem_cons_of_mem _ hp), ?_, ?_⟩
    · intro f b hfb id hm callee args hk
      have hm : id ∈ ((s'.ended func ⟨0⟩ (.br ⟨1⟩)).block f b).insts := hm
      have hk : (((s'.ended func ⟨0⟩ (.br ⟨1⟩)).func f).inst id).kind = _ := hk
      rw [insts_ended hfirst] at hm
      rw [inst_ended hfirst] at hk
      exact hs.callees f b hfb id hm callee args hk
    · exact fun f b hfb v hv => hs.names f b hfb v (mentions_ended_br hfirst hv)

theorem Filled.resumes (hi : Inv c e g s) (h : Filled c e g s func d n₀ n₁ g' s') :
    Resumes c e g s g' (s'.ended func ⟨0⟩ (.br ⟨1⟩)) := by
  have hmain : c.main.func ≠ func := hb.ne hi.tail.1
  have hne : s.fn.func ≠ func := by
    obtain ⟨b, -, hhas⟩ := hi.steady.position
    exact hb.ne hhas
  have hbegun : ∀ b, (s.entered func d n₀ n₁ {}).Has func b ↔ b = ⟨0⟩ ∨ b = ⟨1⟩ :=
    fun b => has_entered_self hb
  have hfirst : s'.Has func ⟨0⟩ := h.path.grows.has ((hbegun _).mpr (.inl rfl))
  have hentry : s'.Has func ⟨1⟩ := h.path.grows.has ((hbegun _).mpr (.inr rfl))
  have hopen : (s'.block func ⟨0⟩).term = none := by
    rw [h.path.terms func ⟨0⟩ ((hbegun _).mpr (.inl rfl)) (Set.notMem_empty _) (by
      simp [State.entered]) (fun he => hmain (Prod.mk.inj he).1.symm)]
    exact (isBare_entered hb _).2
  have hphi : (s'.func func).NoPhi ⟨1⟩ := by
    refine h.path.noPhi func ⟨1⟩ ((hbegun _).mpr (.inr rfl)) (Set.notMem_empty _) fun id hm => ?_
    rw [(isBare_entered hb _).1] at hm
    exact absurd hm (by simp)
  have hpath : Path c ∅ g s g' s' := (path_entered hb).trans h.path
  constructor
  case path =>
    refine ((hpath.narrow (Y := {p | ¬ s.Has p.1 p.2}) fun _ _ hm => absurd hm
      (Set.notMem_empty _)).trans (.ended hfirst (.inl h.func_eq.symm) (.inl (hb.not_has _))
        fun _ b' hb' => .inl ?_)).narrow fun _ _ hm => .inr hm
    rw [List.mem_singleton.mp hb']
    exact hb.not_has _
  case edges =>
    intro b b' hl hhas
    have hl : ((s'.ended func ⟨0⟩ (.br ⟨1⟩)).func s.fn.func).LeadsTo b b' := hl
    rw [func_ended_of_ne hne] at hl
    rcases h.path.edges s.fn.func b b' (grows_entered.has hhas) hl with hl | hm | hm
    · exact (leads_entered hb).mp hl
    · exact absurd hm (Set.notMem_empty _)
    · exact absurd hm.1 hne
  case targets =>
    intro t ht
    obtain ⟨m, hm, -⟩ := hi.aimed.awaits t ht
    obtain ⟨m', hm', -, -, -, hsame⟩ := h.path.targets t.index m hm
    rw [show (s'.ended func ⟨0⟩ (.br ⟨1⟩)).targets[t.index]? = some m' from hm',
      hsame (List.not_mem_nil), hm]
  case steady => exact h.inv.steady.modifyFunction hfirst grows_ended
  case sound =>
    refine Sound.mono (fun f => ?_) grows_ended (List.Subset.refl _)
    by_cases hf : f = func
    · subst hf
      rw [func_ended_self hfirst]
      refine (h.inv.sound f).ended hfirst hopen (fun v hv => absurd hv (by
        simp [IR.Terminator.operands])) fun b' hb' => ?_
      rw [List.mem_singleton.mp hb']
      exact ⟨hentry, by simp, hphi⟩
    · rw [func_ended_of_ne hf]
      exact h.inv.sound f
  case tail => exact ⟨(has_ended hfirst).mpr h.inv.tail.1, h.inv.tail.2⟩
  case opened =>
    intro f b hf ht
    by_cases he : (f, b) = (func, ⟨0⟩)
    · obtain ⟨rfl, rfl⟩ := Prod.mk.inj he
      rw [State.block, func_ended_self hfirst, Build.block_ended_self hfirst] at ht
      simp at ht
    · rw [block_ended_of_ne hfirst he] at ht
      rcases h.inv.opened f b ((has_ended hfirst).mp hf) ht with hw | hp | htail
      · rw [h.waiting] at hw
        rcases hw with hw | hw | hw
        · exact absurd hw he
        · exact .inr (.inl hw)
        · exact .inl hw
      · have hterm := h.terminated
        rw [isTerminated_eq hp, ht] at hterm
        cases hterm
      · exact .inr (.inr htail)
  case chained => exact h.chained hb hi

end

/-! ### The code of a function -/

/-- The state with another return slot. -/
def State.withReturnSlot (s : State) (slot : Option Value) : State :=
  { s with fn := { s.fn with returnSlot := slot } }

theorem Inv.withReturnSlot {slot : Option Value} (hi : Inv c e g s)
    (hs : ∀ v, slot = some v → Usable c (some e) s v) : Inv c e g (s.withReturnSlot slot) := by
  have hu : ∀ {v}, Usable c (some e) s v → Usable c (some e) (s.withReturnSlot slot) v :=
    fun h => UsableIn.mono ⟨.refl _, fun _ _ h _ => h⟩ h
  have hidle : ∀ {b}, Idle c e g s b → Idle c e g (s.withReturnSlot slot) b := fun h => { h with }
  have h := hi.chained
  exact
    { steady := { hi.steady with }
      sound := Sound.mono hi.sound ⟨.refl _, fun _ _ h _ => h⟩ (List.Subset.refl _)
      vars := fun p hp => hu (hi.vars p hp)
      frames := fun fr hfr => ⟨fun q hq => hu ((hi.frames fr hfr).1 q hq), (hi.frames fr hfr).2⟩
      returnSlot := fun v hv => hu (hs v hv)
      position := hi.position
      tail := hi.tail
      aimed := ⟨fun t ht => by
          obtain ⟨m, hm, hw⟩ := hi.aimed.awaits t ht
          exact ⟨m, hm, hidle hw.idle, fun v hv => hu (hw.slot v hv),
            fun p hp => hu (hw.operands p hp), hw.sources⟩,
        fun b hb => hidle (hi.aimed.exits b hb), hi.aimed.apart, hi.aimed.apartExits⟩
      opened := hi.opened
      chained := ⟨h.path, h.bottom, h.started, h.once, h.running, h.tail, h.regions, h.edges,
        h.firsts, h.slots, h.head, h.entities, h.generated, fun before r after hc =>
          { h.settled before r after hc with }⟩ }

theorem path_withReturnSlot {slot : Option Value} :
    Path c X g s g (s.withReturnSlot slot) :=
  { Path.refl c X g s with
    grows := ⟨.refl _, fun _ _ h _ => h⟩
    aims := fun _ h _ => .inr ⟨rfl, h⟩ }

theorem modifyFunction_modifyFunction (m : Module) (f : FuncId)
    (change change' : IR.Function → IR.Function) :
    (m.modifyFunction f change).modifyFunction f change' =
      m.modifyFunction f fun fn => change' (change fn) := by
  simp only [Module.modifyFunction]
  congr 1
  apply Array.ext_getElem?
  intro i
  simp only [Array.getElem?_modify]
  split
  · simp only [Option.map_map]
    rfl
  · rfl

/-- The first steps of a function. -/
theorem gives_begin {α : Type} {rest : Gen α} {a : α} (hin : func.index < s.builder.module.functions.size)
    (hblocks : (s.func func).blocks = #[])
    (h : Gives (do
      let allocaBlock ← emit (Build.appendBlock func "alloca")
      let entryBlock ← emit (Build.appendBlock func "entry")
      let fn : FunctionState := { func, allocaBlock, entryBlock, returnType := d.type }
      modify fun s => { s with fn, blocks := [], definition := some d }
      emit (Build.positionAt func entryBlock)
      rest) c s a s') :
    ∃ n₀ n₁, Gives rest c (s.entered func d n₀ n₁ s.act) a s' := by
  obtain ⟨b₀, s₁, h₀, h⟩ := gives_bind.mp h
  obtain ⟨rfl, rfl⟩ := gives_emit h₀
  obtain ⟨b₁, s₂, h₁, h⟩ := gives_bind.mp h
  obtain ⟨rfl, rfl⟩ := gives_emit h₁
  obtain ⟨⟨⟩, s₃, h₂, h⟩ := gives_bind.mp h
  cases gives_modify h₂
  obtain ⟨⟨⟩, s₄, h₃, h⟩ := gives_bind.mp h
  obtain ⟨-, rfl⟩ := gives_emit h₃
  let n₀ := Build.blockNameIn (s.func func) "alloca"
  let m₁ := s.builder.module.modifyFunction func fun f => f.withBlock { name := n₀ }
  let n₁ := Build.blockNameIn (m₁.function func) "entry"
  have hfirst : (⟨(s.builder.module.function func).blocks.size⟩ : BlockId) = ⟨0⟩ := by
    rw [show s.builder.module.function func = s.func func from rfl, hblocks]
    rfl
  have hsecond : (⟨(m₁.function func).blocks.size⟩ : BlockId) = ⟨1⟩ := by
    rw [Module.function_modifyFunction_self hin]
    show (⟨((s.func func).blocks.push _).size⟩ : BlockId) = ⟨1⟩
    rw [hblocks]
    rfl
  refine ⟨n₀, n₁, ?_⟩
  convert h using 1
  show s.entered func d n₀ n₁ s.act = { s with
    builder := { s.builder with
      module := m₁.modifyFunction func fun f => f.withBlock { name := n₁ }
      position := some (func, ⟨(m₁.function func).blocks.size⟩) }
    fn :=
      { func
        allocaBlock := ⟨(s.builder.module.function func).blocks.size⟩
        entryBlock := ⟨(m₁.function func).blocks.size⟩
        returnType := d.type }
    blocks := []
    definition := some d }
  rw [hfirst, hsecond, modifyFunction_modifyFunction]
  rfl

theorem gives_enterFunction (hi : Inv c e g s) (hb : Beginning c e g s func d) {a : Unit}
    (h : Gives (enterFunction func d) c s a s') :
    ∃ n₀ n₁ s₁ slot, Straight c none (s.entered func d n₀ n₁ s.act) s₁ ∧
      (∀ v, slot = some v → Usable c none s₁ v) ∧ s' = s₁.withReturnSlot slot := by
  obtain ⟨n₀, n₁, h⟩ := gives_begin hb.inside hb.blocks h
  have hs : Steady c (s.entered func d n₀ n₁ s.act) :=
    { (hi.entered hb : Inv c _ _ (s.entered func d n₀ n₁ {})).steady with }
  have hdone : ∀ s₁ : State, s₁.fn.returnSlot = none → s₁ = s₁.withReturnSlot none := fun s₁ h => by
    rw [State.withReturnSlot, ← h]
  split at h
  · rename_i t _
    have h := gives_after (show Gives (isAddressHeld t) c (s.entered func d n₀ n₁ s.act)
      (c.program.types.isAddressHeld t) _ from rfl) h
    split at h
    · have h := gives_after (show Gives (irType t) c (s.entered func d n₀ n₁ s.act)
        (c.program.types.irType t) _ from rfl) h
      obtain ⟨slot, s₁, h₁, h⟩ := gives_bind.mp h
      obtain ⟨hst, hslot⟩ := emits_alloca hs slot s₁ h₁
      refine ⟨n₀, n₁, s₁, some slot, hst, fun v hv => ?_, gives_modify h⟩
      rw [← Option.some.inj hv]
      exact hslot
    · obtain ⟨-, rfl⟩ := gives_pure.mp h
      exact ⟨n₀, n₁, _, none, .refl _, fun _ h => (by cases h), hdone _ rfl⟩
  · obtain ⟨-, rfl⟩ := gives_pure.mp h
    exact ⟨n₀, n₁, _, none, .refl _, fun _ h => (by cases h), hdone _ rfl⟩

theorem walks_functionBody {visit : Visitor} (hv : Visits c visit)
    (hd : c.program.Contains (.definition d)) :
    Walks c (.definition d) ∅ g s (functionBody visit d) fun g' s' _ =>
      g'.waiting = g.waiting ∧ s'.builder.isTerminated = true := by
  unfold functionBody
  refine (walks_operand hv (Program.owns_code hd)).bind fun r g₁ s₁ _ h₁ =>
    .ask rfl ?_
  split
  · rename_i ht
    exact .pure fun _ => ⟨h₁.waiting, ht⟩
  · refine (walks_returnFromFunction h₁.usable).mono fun g₂ s₂ _ _ h₂ => ⟨?_, h₂.2⟩
    rw [h₂.1, h₁.waiting]

/-- The start of the body of a function, under the activation of its parameters. -/
structure AtBody (c : Context) (e : Entity) (g : Ledger) (s : State) (func : FuncId) (d : Def)
    (act : Activation) (s₁ s₂ : State) : Prop where
  inv : Inv c (.definition d) (g.entered s e func d) (s₂.under act [])
  path : ∃ n₀ n₁, Path c ∅ (g.entered s e func d) (s.entered func d n₀ n₁ {})
    (g.entered s e func d) (s₂.under act [])
  callTargets : (g.entered s e func d).callTargets (s₂.under act []) = []
  blocks : s₂.blocks = []
  act_eq : s₂.act = s.act
  fn : s₂.fn = s₁.fn
  func_eq : s₁.fn.func = func
  allocaBlock : s₁.fn.allocaBlock = ⟨0⟩
  entryBlock : s₁.fn.entryBlock = ⟨1⟩
  returnType : s₁.fn.returnType = d.type
  definition : s₂.definition = some d

theorem atBody_of_gives (hi : Inv c e g s) (hb : Beginning c e g s func d)
    {selfType : Option TypeId} (hp : (s.func func).params.length = (parameters d selfType).length)
    {a : Unit} {act : Activation} {s₁ s₂ : State} (henter : Gives (enterFunction func d) c s a s₁)
    (hact : Gives (functionActivation d selfType) c s₁ act s₂) :
    AtBody c e g s func d act s₁ s₂ := by
  obtain ⟨n₀, n₁, s₀, slot, hst₀, hslot, rfl⟩ := gives_enterFunction hi hb henter
  -- The same steps, seen under an activation without anything in it.
  have hi₀ : Inv c (.definition d) (g.entered s e func d) (s.entered func d n₀ n₁ {}) :=
    hi.entered hb
  have hs₀ : Steady c (s.entered func d n₀ n₁ s.act) := { hi₀.steady with }
  have hk₀ := hst₀.keeps hs₀
  have hfn₀ : s₀.fn = (s.entered func d n₀ n₁ {}).fn := hk₀.same.fn
  obtain ⟨hu₀, hact₀⟩ : Straight c (some (.definition d)) (s.entered func d n₀ n₁ {})
      (s₀.under {} []) ∧ s₀.act = s.act := hst₀.under
  obtain ⟨hi₁, hp₁, -⟩ := hu₀.step hi₀
  have hi₂ : Inv c (.definition d) (g.entered s e func d) ((s₀.under {} []).withReturnSlot slot) :=
    hi₁.withReturnSlot fun v hv => UsableIn.mono ⟨.refl _, fun _ _ h _ => h⟩ (hslot v hv).of_none
  have hparams : ((s₀.withReturnSlot slot).func (s₀.withReturnSlot slot).fn.func).params.length =
      (parameters d selfType).length := by
    have hg : s.Grows s₀ := grows_entered.trans hk₀.grows
    rw [show (s₀.withReturnSlot slot).fn.func = func from congrArg FunctionState.func hfn₀, ← hp]
    exact congrArg List.length (hg.code.function func hb.inside).params
  have hs₂ : Steady c (s₀.withReturnSlot slot) := { hi₂.steady with }
  obtain ⟨hst₂, hvars, hret, hbrk⟩ :=
    emits_functionActivation (e := none) hparams hs₂ act s₂ hact
  have hk₂ := hst₂.keeps hs₂
  obtain ⟨hu₂, hact₂⟩ : Straight c (some (.definition d)) ((s₀.under {} []).withReturnSlot slot)
      (s₂.under {} []) ∧ _ := hst₂.under
  obtain ⟨hi₃, hp₃, -⟩ := hu₂.step hi₂
  obtain ⟨hi₄, hp₄⟩ : Inv c (.definition d) (g.entered s e func d) ((s₂.under {} []).under act []) ∧
      Path c ∅ _ _ _ _ := hi₃.bare rfl (fun p hp =>
    UsableIn.mono ⟨.refl _, fun _ _ h _ => h⟩ (hvars p hp).of_none) hret hbrk
  exact
    { inv := hi₄
      path := ⟨n₀, n₁, hp₁.trans ((path_withReturnSlot.trans hp₃).trans hp₄)⟩
      callTargets := by
        simp [Ledger.callTargets, Ledger.activations, Ledger.entered, State.under,
          Activation.callTargets, hret, hbrk]
      blocks := hk₂.same.blocks.trans hk₀.same.blocks
      act_eq := hact₂.trans hact₀
      fn := hk₂.same.fn
      func_eq := congrArg FunctionState.func hfn₀
      allocaBlock := congrArg FunctionState.allocaBlock hfn₀
      entryBlock := congrArg FunctionState.entryBlock hfn₀
      returnType := congrArg FunctionState.returnType hfn₀
      definition := hk₂.same.definition.trans hk₀.same.definition }

theorem gives_fillFunction {visit : Visitor} (hv : Visits c visit) (hi : Inv c e g s)
    (hb : Beginning c e g s func d) {selfType : Option TypeId}
    (hp : (s.func func).params.length = (parameters d selfType).length) {a : Unit}
    (h : Gives (fillFunction visit func d selfType) c s a s') :
    ∃ n₀ n₁ g₁ s₁, Filled c e g s func d n₀ n₁ g₁ s₁ ∧
      s' = (s₁.ended func ⟨0⟩ (.br ⟨1⟩)).resume s := by
  obtain ⟨s₅, hfill, rfl⟩ := gives_aside hi.steady.position_isSome h
  obtain ⟨⟨⟩, s₁, henter, hfill⟩ := gives_bind.mp hfill
  have hfill := gives_after (show Gives get c s₁ s₁ s₁ from rfl) hfill
  obtain ⟨r, s₂, hbody, hfill⟩ := gives_bind.mp hfill
  obtain ⟨⟨⟩, s₃, hpos, hfill⟩ := gives_bind.mp hfill
  obtain ⟨⟨⟩, s₄, hbr, hfill⟩ := gives_bind.mp hfill
  obtain ⟨rfl, rfl⟩ := gives_resume hfill
  obtain ⟨act, s₆, hact, hcode⟩ := gives_bind.mp (gives_attempted hbody)
  obtain ⟨s₇, hrun, rfl⟩ := gives_withActivation hcode
  have hat := atBody_of_gives hi hb hp henter hact
  obtain ⟨n₀, n₁, hpath⟩ := hat.path
  rw [hat.blocks] at hrun
  obtain ⟨g₇, hl₇, hw₇, ht₇⟩ := walks_functionBody hv hb.depends.contains hat.inv () s₇ hrun
  have hfn₇ : s₇.fn.func = func := by
    rw [hl₇.stay.fn, show (s₆.under act []).fn = s₁.fn from hat.fn, hat.func_eq]
  refine ⟨n₀, n₁, g₇, s₇, ⟨hl₇.inv, hpath.trans hl₇.path, hfn₇, hl₇.stay.outer, hw₇, ht₇⟩, ?_⟩
  rw [hat.allocaBlock] at hpos
  rw [hat.entryBlock] at hbr
  obtain ⟨-, rfl⟩ := gives_emit hpos
  obtain ⟨-, rfl⟩ := gives_emit hbr
  rw [hat.act_eq]
  rfl

/-! ### Functions and calls -/

/-- A function that was just declared for a definition can be begun. -/
theorem Declared.beginning {name : String} {selfType : Option TypeId} (hi : Inv c e g s)
    (h : Declared s name d selfType s' func) (hd : c.program.Calls e d name)
    (hext : d.external = none) : Beginning c e g s' func d where
  inside := h.foreign.1
  blocks := h.foreign.2
  insts := h.insts
  asks := h.name_eq ▸ hd.asks
  internal := hext
  runtime p hp := by
    rw [h.runtime] at hp
    have hold := (hi.steady.foreign p hp).1
    have hnew := h.new
    rintro rfl
    omega
  later r hr := by
    obtain ⟨before, after, hc⟩ := List.append_of_mem hr
    exact (hi.chained.settled before r after hc).bound.trans h.new
  depends := hd.depends

/-- What holds when the function of a name is there, of which the code may have been generated in
between. -/
structure Called (c : Context) (e : Entity) (name : String) (g : Ledger) (s : State) (g' : Ledger)
    (s' : State) (func : FuncId) : Prop where
  leg : Leg c e ∅ g s g' s'
  waiting : g'.waiting = g.waiting
  callable : Callable c (some e) s' func
  name_eq : (s'.builder.module.function func).name = name

/-- The function of a definition is called and the call is noted. -/
theorem emits_callNoted {a : Option Entity} {β : Type} {selfType : Option TypeId}
    {args : List Value} {next : Value → Gen β} {Q : State → β → Prop}
    (hc : Callable c a s func) (ha : ∀ v ∈ args, Usable c a s v)
    (hm : c.program.Means d selfType)
    (hname : (s.builder.module.function func).name = d.mangledName c.program.types selfType)
    (hnext : ∀ v s', Usable c a s' v → Emits c a s' (next v) Q) :
    Emits c a s (do
      let value ← Build.call func args
      noteCall d selfType value
      next value) Q := by
  intro hs r s' hg
  obtain ⟨v, s₁, h₁, hg⟩ := gives_bind.mp hg
  obtain ⟨⟨⟩, s₂, h₂, hg⟩ := gives_bind.mp hg
  have h₁ : Gives (emit (Build.push (.call func args) (s.builder.module.function func).ret none))
      c s v s₁ := h₁
  -- A call that would never run is neither placed nor noted; any other is one move with its note.
  obtain ⟨hmoves, hv⟩ : Straight c a s s₂ ∧ Usable c a s₂ v := by
    rcases gives_push hs h₁ with ⟨rfl, rfl⟩ | ⟨b, inst, hp, hopen, hkind, rfl, rfl⟩
    · obtain ⟨-, rfl⟩ := gives_pure.mp h₂
      exact ⟨.refl _, usable_undef⟩
    · cases gives_modify h₂
      have hsite : Site c a s s.fn.func b a := .position hp rfl
      have hfits : Fits c a s s.fn.func b inst.kind := hkind ▸ .call hc ha
      have hmove : Move c a s (s.placed s.fn.func b inst _) :=
        .place hsite hfits hopen (.call hkind hm hc.inside hname)
      refine ⟨.of_move hmove, ?_⟩
      show _ < ((s.builder.module.modifyFunction s.fn.func _).function s.fn.func).insts.size
      rw [Module.function_modifyFunction_self (index_lt_of_hasBlock (hs.site hsite))]
      simp
  obtain ⟨hmoves', hq⟩ := hnext v s₂ hv (hmoves.keeps hs).steady r s' hg
  exact ⟨hmoves.trans hmoves', hq⟩

variable {visit : Visitor} (hv : Visits c visit)
include hv

theorem walks_makeFunction {name : String} {selfType : Option TypeId}
    (hd : c.program.Calls e d name) (fresh : ∀ f : FuncId,
      f.index < s.builder.module.functions.size → (s.builder.module.function f).name ≠ name) :
    Walks c e X g s (makeFunction visit name d selfType) (Called c e name g s) := by
  refine (Walks.widen (P := Called c e name g s) ?_).mono fun _ _ _ _ h => h.2
  refine .assume fun hi => ?_
  have hn : name ≠ IR.entryName := fun hn =>
    fresh _ (index_lt_of_hasBlock hi.steady.entry) (hi.steady.entryName.trans hn.symm)
  refine (emits_declareFunction hn fresh).walks.bind fun f g₁ s₁ l₁ ⟨h₁, hf⟩ => ?_
  obtain rfl := h₁.ledger
  have hname : ∀ {s₂ : State}, s₁.Grows s₂ → (s₂.builder.module.function f).name = name :=
    fun hg => (hg.code.function f hf.foreign.1).name.trans hf.name_eq
  have hcall : ∀ {s₂ : State}, s₁.Grows s₂ → Callable c (some e) s₂ f := fun hg =>
    ⟨lt_of_lt_of_le hf.foreign.1 hg.code.functions, .inr ⟨e, d, rfl, by
      rw [hname hg]
      exact hd⟩⟩
  split
  · exact emits_note.walks.bind fun _ g₂ s₂ l₂ h₂ => .pure fun _ =>
      ⟨h₁.leg.trans l₂, by rw [h₂.1.ledger], hcall l₂.path.grows, hname l₂.path.grows⟩
  · rename_i hext
    have hb := hf.beginning hi hd (by simpa using hext)
    refine Walks.bind (P := fun g₂ s₂ _ => g₂ = g₁ ∧ Beginning c e g₁ s₂ f d ∧
      s₂.func f = s₁.func f) ?_ fun _ g₂ s₂ l₂ ⟨hg, hb₂, hsame⟩ => ?_
    · intro hi₁ a s₂ hg₂
      obtain ⟨g₂, l₂, h₂, -⟩ := emits_note.walks hi₁ a s₂ hg₂
      cases gives_modify hg₂
      exact ⟨g₂, l₂, h₂.ledger, { hb with }, rfl⟩
    · subst hg
      refine Walks.bind (P := fun g₃ s₃ _ => g₃.waiting = g₂.waiting) ?_ fun _ g₃ s₃ l₃ h₃ =>
        .pure fun _ => ⟨h₁.leg.trans (l₂.trans l₃), h₃, hcall (l₂.trans l₃).path.grows,
          hname (l₂.trans l₃).path.grows⟩
      intro hi₂ a s₃ hg₃
      have hp : (s₂.func f).params.length = (parameters d selfType).length := by
        rw [hsame]
        exact hf.params
      obtain ⟨n₀, n₁, g₃, s₄, h₃, rfl⟩ := gives_fillFunction hv hi₂ hb₂ hp hg₃
      exact ⟨g₃.resume g₂, .resume hi₂ (h₃.resumes hb₂ hi₂), rfl⟩

theorem walks_functionOf {selfType : Option TypeId}
    (hd : c.program.Calls e d (d.mangledName c.program.types selfType)) :
    Walks c e X g s (functionOf visit d selfType)
      (Called c e (d.mangledName c.program.types selfType) g s) := by
  unfold functionOf
  refine .ask rfl (.ask rfl ?_)
  split
  · rename_i f hf
    obtain ⟨hin, hname⟩ := Module.of_findFunction hf
    have hcall : c.program.Calls e d (s.builder.module.function f).name := hname ▸ hd
    exact .pure fun hi => ⟨.refl hi, rfl, ⟨hin, .inr ⟨e, d, rfl, hcall⟩⟩, hname⟩
  · rename_i hnone
    exact walks_makeFunction hv hd fun f hf => Module.name_ne_of_findFunction hnone hf

theorem walks_callFunction {selfType : Option TypeId} {args : List Value}
    (hd : c.program.Depends e (.definition d)) (hm : c.program.Means d selfType)
    (ha : ∀ v ∈ args, Usable c (some e) s v) :
    Walks c e X g s (callFunction visit d selfType args) fun g' s' r =>
      Visited c e g s g' s' r.1 := by
  unfold callFunction
  refine (walks_functionOf hv ⟨hd, hm.asks⟩).bind fun f g₁ s₁ _ h₁ => .ask rfl ?_
  have hx : Emits c (some e) s₁ (do
      let args ← coerceAll ((s₁.builder.module.function f).params.map IR.Param.type) args
      let value ← Build.call f args
      noteCall d selfType value
      callResult value d.type) fun s' r => Usable c (some e) s' r.1 := by
    have hin := h₁.callable.inside
    refine (emits_coerceAll fun v hv => h₁.leg.usable (ha v hv)).bind fun args s₂ k₂ ha₂ => ?_
    have hname := (k₂.grows.code.function f hin).name.trans h₁.name_eq
    exact emits_callNoted (k₂.callable h₁.callable) ha₂ hm hname
      fun v s₃ hv₃ => emits_callResult hv₃
  exact hx.walks.mono fun g₂ s₂ r l₂ h₂ =>
    ⟨h₁.leg.trans h₂.1.leg, by rw [h₂.1.ledger, h₁.waiting], h₂.2⟩

end Lowering.Gen
