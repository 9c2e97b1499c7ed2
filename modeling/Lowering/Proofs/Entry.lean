import Lowering.Generation
import Lowering.Proofs.Visit

/-!
# The entry function

A generation begins with an entry function of three empty blocks, visits the root in the last of
them, and ends the other two when everything else is done.

* `Gen.start?_eq`, `Gen.inv_start`: the state at the start;
* `Gen.Closed`, `Gen.Completed`, `Gen.completed_run?`: the state at the end;
* `Generation.result_failed`: what a generation that stopped comes to.
-/

namespace Lowering.Generation

/-- Whether and where the partly built module is kept makes no difference to the result. -/
theorem result_failed (o : Options) (log : Log) (m : IR.Module) (d : Diagnostic) :
    (failed o log m d).result = .error d := by
  unfold failed
  split
  · split <;> rfl
  · rfl

end Lowering.Generation

namespace Lowering.Gen

open IR (Ty Value FuncId BlockId GlobalId Build Module Inst Terminator)

variable {c : Context} {g : Ledger} {s s' : State}

/-! ### The start -/

/-- The entry function without code. -/
def entryFunction (p : Program) (n₀ n₁ n₂ : String) : IR.Function :=
  { name := IR.entryName, params := [⟨"argc", .i32⟩, ⟨"argv", .ptr .bytePtr⟩]
    ret := p.types.returnType (entryResult p), linkage := .external
    blocks := #[{ name := n₀ }, { name := n₁ }, { name := n₂ }] }

/-- What does not change during the generation of a program. -/
def startContext (p : Program) (o : Options) (nil : TypeId) : Context :=
  { program := p, debugInfo := o.debugInfo, nil
    main :=
      { func := ⟨0⟩, allocaBlock := ⟨0⟩, entryBlock := ⟨2⟩, returnType := entryResult p }
    constHead := ⟨1⟩, symbols := p.symbolSet }

/-- The state at the start of a generation. -/
def startState (p : Program) (o : Options) (nil : TypeId) (name : String) (entry : IR.Function) :
    State :=
  { builder :=
      { module := { name, functions := #[entry], debug := debugRecord p o ⟨0⟩ }
        position := some (⟨0⟩, ⟨2⟩) }
    act := { scope := p.types.program? }
    fn := (startContext p o nil).main
    constTail := ⟨1⟩
    last := ⟨nilValue, some nil⟩ }

theorem start?_eq {p : Program} {o : Options} (h : start? p o = some (c, s)) :
    ∃ nil name n₀ n₁ n₂, p.types.nil? = some nil ∧ c = startContext p o nil ∧
      s = startState p o nil name (entryFunction p n₀ n₁ n₂) := by
  unfold start? at h
  obtain ⟨nil, hnil, h⟩ := Option.bind_eq_some_iff.mp h
  have h := Option.some.inj h
  obtain ⟨hc, hs⟩ := Prod.mk.inj h
  exact ⟨nil, _, _, _, _, hnil, hc.symm, hs.symm⟩

/-- The ledger at the start: the block where the entry function goes on belongs to the root, and
that of its stack slots has to be ended. -/
def Ledger.start : Ledger where
  owner f b := if f = ⟨0⟩ ∧ b = ⟨2⟩ then some .root else none
  chain := []
  outer := []
  waiting := {(⟨0⟩, ⟨0⟩)}
  parked := []

section

variable {p : Program} {o : Options} {nil : TypeId} {name n₀ n₁ n₂ : String}

theorem has_start {f : FuncId} {b : BlockId} :
    (startState p o nil name (entryFunction p n₀ n₁ n₂)).Has f b ↔
      f = ⟨0⟩ ∧ (b = ⟨0⟩ ∨ b = ⟨1⟩ ∨ b = ⟨2⟩) := by
  obtain ⟨i⟩ := f
  obtain ⟨j⟩ := b
  cases i with
  | zero =>
    simp [State.Has, State.func, startState, Module.function, IR.Function.HasBlock, entryFunction]
    omega
  | succ i =>
    simp [State.Has, State.func, startState, Module.function, IR.Function.HasBlock, entryFunction]
    exact Nat.zero_le j

theorem isBare_start (f : FuncId) (b : BlockId) :
    ((startState p o nil name (entryFunction p n₀ n₁ n₂)).func f).IsBare b := by
  by_cases h : (startState p o nil name (entryFunction p n₀ n₁ n₂)).Has f b
  · obtain ⟨rfl, rfl | rfl | rfl⟩ := has_start.mp h <;> exact ⟨rfl, rfl⟩
  · exact IR.Function.isBare_of_not_hasBlock h

theorem not_mem_start {f : FuncId} {b : BlockId} {id : IR.InstId} :
    id ∉ ((startState p o nil name (entryFunction p n₀ n₁ n₂)).block f b).insts := by
  rw [State.block, (isBare_start f b).1]
  exact Array.not_mem_empty id

theorem not_leads_start {f : FuncId} {b b' : BlockId} :
    ¬ (startState p o nil name (entryFunction p n₀ n₁ n₂)).Leads f b b' := by
  rintro ⟨t, ht, -⟩
  rw [(isBare_start f b).2] at ht
  cases ht

theorem insts_start (f : FuncId) :
    ((startState p o nil name (entryFunction p n₀ n₁ n₂)).func f).insts = #[] := by
  obtain ⟨i⟩ := f
  cases i <;> rfl

theorem accounted_start :
    Accounted (startState p o nil name (entryFunction p n₀ n₁ n₂)) := by
  refine ⟨fun f id callee args hid => ?_, List.nodup_nil, fun p h => absurd h List.not_mem_nil,
    fun f g hfg hg _ => ?_⟩
  · have hid : id.index <
        ((startState p o nil name (entryFunction p n₀ n₁ n₂)).func f).insts.size := hid
    rw [insts_start] at hid
    exact absurd hid (Nat.not_lt_zero _)
  · have hg : g.index < 1 := hg
    omega

theorem sound_start :
    Sound (startContext p o nil) .start (startState p o nil name (entryFunction p n₀ n₁ n₂)) := by
  refine fun f => ⟨fun id h => ?_, fun b id hm => absurd hm not_mem_start,
    fun b id hm => absurd hm not_mem_start, fun b id hm => absurd hm not_mem_start,
    fun b id hm => absurd hm not_mem_start, fun b => ?_, fun b id hm => absurd hm not_mem_start,
    fun b t ht => ?_, fun b b' h => absurd h not_leads_start⟩
  · rw [insts_start] at h
    exact absurd h (Nat.not_lt_zero _)
  · rw [(isBare_start f b).1]
    exact List.Pairwise.nil
  · rw [(isBare_start f b).2] at ht
    cases ht

theorem owner_start {f : FuncId} {b : BlockId} (h : b ≠ ⟨2⟩) : Ledger.start.owner f b = none :=
  if_neg fun hc => h hc.2

theorem owner_start_entry : Ledger.start.owner ⟨0⟩ ⟨2⟩ = some .root := rfl

theorem chained_start : Chained (startContext p o nil) .root .start
    (startState p o nil name (entryFunction p n₀ n₁ n₂)) where
  path := List.isChain_singleton _
  bottom := List.mem_singleton_self _
  started k := by simp [startState, Ledger.start, pending]
  once := List.nodup_nil
  running k hk := absurd hk List.not_mem_nil
  tail := rfl
  regions r hr := absurd hr List.not_mem_nil
  edges b b' h := absurd h not_leads_start
  firsts r hr := absurd hr List.not_mem_nil
  slots f := owner_start (by decide)
  head := ⟨has_start.mpr ⟨rfl, .inr (.inl rfl)⟩, owner_start (b := ⟨1⟩) (by decide)⟩
  entities f hf h := absurd (has_start.mp h).1 hf
  generated q hq hne := absurd (congrArg Prod.fst (List.mem_singleton.mp hq)) hne
  settled before r after h := absurd h.symm (by simp [Ledger.start])

theorem inv_start (hn : p.types.nil? = some nil) : Inv (startContext p o nil) .root .start
    (startState p o nil name (entryFunction p n₀ n₁ n₂)) where
  steady :=
    { position := ⟨⟨2⟩, rfl, has_start.mpr ⟨rfl, .inr (.inr rfl)⟩⟩
      slots := rfl
      nilType := hn
      entry := has_start.mpr ⟨rfl, .inl rfl⟩
      entryName := rfl
      entryOnly := fun f h => by
        obtain ⟨i⟩ := f
        cases i with
        | zero => rfl
        | succ i => exact absurd h (name_of_le (Nat.succ_le_succ (Nat.zero_le i)))
      entrySlots := rfl
      entryReturn := rfl
      entryParams := rfl
      consts := fun _ h => absurd h List.not_mem_nil
      apart := List.nodup_nil
      tables := fun _ h => absurd h List.not_mem_nil
      foreign := fun _ h => absurd h List.not_mem_nil
      distinct := fun f g hf hg _ => .inl (by
        obtain ⟨i⟩ := f
        obtain ⟨j⟩ := g
        obtain rfl : i = 0 := Nat.lt_one_iff.mp hf
        obtain rfl : j = 0 := Nat.lt_one_iff.mp hg
        rfl)
      calls := fun _ h => absurd h List.not_mem_nil }
  sound := sound_start
  vars p hp := absurd hp List.not_mem_nil
  frames fr hfr := absurd hfr List.not_mem_nil
  returnSlot v hv := by cases hv
  position b hp := by
    have hb : (⟨2⟩ : BlockId) = b := (Prod.mk.inj (Option.some.inj hp)).2
    subst hb
    exact ⟨by decide, by simp [startState, startContext], owner_start_entry⟩
  tail := ⟨has_start.mpr ⟨rfl, .inr (.inl rfl)⟩, by simp [startState]⟩
  aimed :=
    { awaits := fun _ h => absurd h List.not_mem_nil
      exits := fun _ h => absurd h List.not_mem_nil
      apart := fun _ h => absurd h List.not_mem_nil
      apartExits := fun _ h => absurd h List.not_mem_nil }
  opened f b h _ := by
    obtain ⟨rfl, rfl | rfl | rfl⟩ := has_start.mp h
    · exact .inl rfl
    · exact .inr (.inr rfl)
    · exact .inr (.inl rfl)
  chained := chained_start

end

/-! ### The table of symbols -/

theorem emits_texts {e : Option Entity} {symbols : List String} :
    Emits c e s (symbols.mapM fun text => return stringAt (← stringGlobal text))
      fun _ _ => True := by
  induction symbols generalizing s with
  | nil => exact .pure trivial
  | cons text rest ih =>
    rw [List.mapM_cons]
    refine Emits.bind (P := fun _ _ => True) ?_ fun _ s₁ _ _ => ih.bind fun _ s₂ _ _ => .pure trivial
    exact emits_stringGlobal.bind fun _ s₁ _ _ => .pure trivial

theorem emits_prepareSymbols {e : Option Entity} :
    Emits c e s prepareSymbols fun _ _ => True := by
  unfold prepareSymbols
  refine .ask rfl ?_
  dsimp only
  split
  · exact .pure trivial
  · refine emits_texts.bind fun texts s₁ _ _ => .ask rfl ?_
    refine emits_addGlobal.bind fun g s₂ _ hg => ?_
    refine (Emits.note (P := fun _ _ => True) (.of_tables rfl rfl rfl rfl rfl rfl rfl rfl ?_ rfl
      rfl) trivial).bind fun _ s₃ _ _ => emits_note
    intro g' hg'
    simp only [State.tableGlobals, Option.toList_some, List.mem_append, List.mem_singleton]
      at hg' ⊢
    rcases hg' with ((h | rfl) | h) | h
    · exact .inl (.inl (.inl (.inl h)))
    · exact .inr hg
    · exact .inl (.inl (.inr h))
    · exact .inl (.inr h)

/-! ### The end -/

/-- The state with the first blocks of the entry function connected. -/
def State.connected (s : State) (c : Context) : State :=
  (s.ended c.main.func s.constTail (.br c.main.entryBlock)).ended c.main.func c.main.allocaBlock
    (.br c.constHead)

/-- What holds when the last block of the root was ended. -/
structure Done (c : Context) (g : Ledger) (s : State) (s' : State) : Prop where
  leg : Leg c .root ∅ g s g s'
  terminated : s'.builder.isTerminated = true

theorem gives_connect {a : Unit} (hm : s.fn = c.main) (h : Gives (do
      positionAt (← get).constTail
      Build.br c.main.entryBlock
      positionAt c.main.allocaBlock
      Build.br c.constHead
      let m := (← get).builder.module
      note .debug <| "entry function done: " ++ toString m.functions.size ++ " function(s), " ++
        toString m.globals.size ++ " global(s)") c s a s') :
    s'.builder.module = (s.connected c).builder.module ∧ s'.consts = s.consts ∧
      s'.calls = s.calls ∧ s'.runtime = s.runtime := by
  have h := gives_after (show Gives get c s s s from rfl) h
  obtain ⟨⟨⟩, s₁, h₁, h⟩ := gives_bind.mp h
  obtain ⟨⟨⟩, s₂, h₂, h⟩ := gives_bind.mp h
  obtain ⟨⟨⟩, s₃, h₃, h⟩ := gives_bind.mp h
  obtain ⟨⟨⟩, s₄, h₄, h⟩ := gives_bind.mp h
  have h := gives_after (show Gives get c s₄ s₄ s₄ from rfl) h
  cases gives_modify h
  cases gives_positionAt h₁
  cases gives_terminate rfl h₂
  cases gives_positionAt h₃
  cases gives_terminate rfl h₄
  refine ⟨?_, rfl, rfl, rfl⟩
  show Module.modifyFunction (Module.modifyFunction _ s.fn.func _) s.fn.func _ = _
  rw [hm]
  rfl

theorem gives_finish (hi : Inv c .root g s) (hm : s.fn = c.main) {v : Value} {a : Unit}
    (hv : Usable c (some .root) s v) (h : Gives (finish v) c s a s') :
    ∃ s₁, Done c g s s₁ ∧ s'.builder.module = (s₁.connected c).builder.module ∧
      s'.consts = s₁.consts ∧ s'.calls = s₁.calls ∧ s'.runtime = s₁.runtime := by
  have h := gives_after (show Gives read c s c s from rfl) h
  obtain ⟨⟨⟩, s₁, h₁, h₂⟩ := gives_bind.mp h
  clear h
  obtain rfl : s₁ = s := by rw [gives_modify h₁, ← hm]
  have h := gives_after (show Gives isTerminated c s₁ s₁.builder.isTerminated s₁ from rfl) h₂
  dsimp only at h
  split at h
  · split at h
    · have h := gives_after (show Gives get c s₁ s₁ s₁ from rfl) h
      obtain ⟨w, s₂, hw, h⟩ := gives_bind.mp h
      obtain ⟨⟨⟩, s₃, hr, h⟩ := gives_bind.mp h
      obtain ⟨g₂, l₂, h₂⟩ := (emits_convertExactly hv).walks (X := ∅) hi w s₂ hw
      obtain ⟨g₃, l₃, h₃⟩ := (walks_ret (X := ∅) fun v he => Option.some.inj he ▸ h₂.2)
        l₂.inv () s₃ hr
      obtain rfl := h₂.1.ledger
      obtain rfl := h₃.ledger
      exact ⟨s₃, ⟨l₂.trans l₃, h₃.terminated⟩,
        gives_connect (by rw [l₃.stay.fn, l₂.stay.fn, hm]) h⟩
    · obtain ⟨⟨⟩, s₂, hr, h⟩ := gives_bind.mp h
      obtain ⟨g₂, l₂, h₂⟩ := (walks_ret (X := ∅) (by simp)) hi () s₂ hr
      obtain rfl := h₂.ledger
      exact ⟨s₂, ⟨l₂, h₂.terminated⟩, gives_connect (by rw [l₂.stay.fn, hm]) h⟩
  · rename_i ht
    exact ⟨s₁, ⟨.refl hi, by simpa using ht⟩, gives_connect hm h⟩

/-! ### The whole -/

/-- What holds of the module of a generation that came to its end. -/
structure Closed (c : Context) (g : Ledger) (s : State) : Prop where
  sound : Sound c g s
  ended : ∀ f b, s.Has f b → ∃ t, (s.block f b).term = some t

section

variable {s₀ s₁ : State} {g₀ : Ledger} (hi : Inv c .root g s₁)
  (hp : Path c ∅ g₀ s₀ g s₁) (ht : s₁.builder.isTerminated = true)
  (hslots : c.main.allocaBlock = ⟨0⟩) (hw : g.waiting = {(c.main.func, ⟨0⟩)})
  (hentry : s₀.Has c.main.func c.main.entryBlock) (hne : c.main.entryBlock ≠ ⟨0⟩)
  (hbare : ∀ f b, (s₀.func f).IsBare b)
  (hhead : s₀.Has c.main.func c.constHead) (hne' : c.constHead ≠ ⟨0⟩)
include hi hp hslots hentry hne hbare hhead hne'

theorem sound_connected : Sound c g (s₁.connected c) := by
  have hnoPhi : ∀ {b}, s₀.Has c.main.func b → (s₁.func c.main.func).NoPhi b := fun hb =>
    hp.noPhi _ _ hb (Set.notMem_empty _) fun id hm => by
      rw [(hbare _ _).1] at hm
      exact absurd hm (Array.not_mem_empty id)
  have htail := hi.tail.1
  have h₁ := hi.sound.jump htail (hp.grows.has hentry) hne (hnoPhi hentry)
  rw [State.connected, hslots]
  exact h₁.jump ((has_ended htail).mpr hi.mainFirst) ((has_ended htail).mpr (hp.grows.has hhead))
    hne' (noPhi_ended htail (hnoPhi hhead))

include ht hw in
theorem closed_connected : Closed c g (s₁.connected c) := by
  refine ⟨sound_connected hi hp hslots hentry hne hbare hhead hne', fun f b hf => ?_⟩
  have htail := hi.tail.1
  have hfirst := (has_ended htail (t := .br c.main.entryBlock)).mpr hi.mainFirst
  rw [State.connected, hslots] at hf ⊢
  by_cases h₀ : (f, b) = (c.main.func, ⟨0⟩)
  · obtain ⟨rfl, rfl⟩ := Prod.mk.inj h₀
    rw [State.block, func_ended_self hfirst, Build.block_ended_self hfirst]
    exact Option.isSome_iff_exists.mp (by simp)
  rw [block_ended_of_ne hfirst h₀]
  rw [has_ended hfirst, has_ended htail] at hf
  by_cases h₁ : (f, b) = (c.main.func, s₁.constTail)
  · obtain ⟨rfl, rfl⟩ := Prod.mk.inj h₁
    rw [State.block, func_ended_self htail, Build.block_ended_self htail]
    exact Option.isSome_iff_exists.mp (by simp)
  rw [block_ended_of_ne htail h₁]
  -- every block without a terminator waits, is the current one or ends the chain
  refine Option.isSome_iff_exists.mp (Option.isSome_iff_ne_none.mpr fun ho => ?_)
  rcases hi.opened f b hf ho with h | h | h
  · rw [hw] at h
    exact h₀ h
  · obtain rfl : f = s₁.fn.func := by
      obtain ⟨b', hb', -⟩ := hi.steady.position
      rw [hb', Option.some.injEq] at h
      exact (Prod.mk.inj h).1.symm
    rw [isTerminated_eq h, ho] at ht
    cases ht
  · exact h₁ h

end

theorem owns_root {p : Program} {n : Node} (h : p.root = some n) : p.Owns .root n.preorder := by
  have hcode := Program.owns_code (p := p) (a := .root) trivial
  rwa [Program.code, h] at hcode

/-- What holds of the state of a generation that came to its end, before the first blocks of the
entry function are connected. -/
structure Completed (c : Context) (g : Ledger) (s : State) : Prop where
  inv : Inv c .root g s
  alone : pending .root g s = [(c.main.func, .root)]
  entry : s.Has c.main.func c.main.entryBlock
  ownEntry : g.owner c.main.func c.main.entryBlock = some .root
  fresh : ∀ b, ¬ s.Leads c.main.func b c.main.entryBlock
  closed : Closed c g (s.connected c)
  accounted : Accounted s

/-- What a generation leaves when it comes to its end, with its records. -/
theorem exists_completed {p : Program} {o : Options} (h : run? p o = some (.ok (), s)) :
    ∃ nil g s', Completed (startContext p o nil) g s' ∧
      s.builder.module = (s'.connected (startContext p o nil)).builder.module ∧
      s.consts = s'.consts ∧ s.calls = s'.calls ∧ s.runtime = s'.runtime := by
  obtain ⟨⟨c, s₀⟩, hstart, hrun⟩ := Option.map_eq_some_iff.mp h
  obtain ⟨nil, name, n₀, n₁, n₂, hnil, rfl, rfl⟩ := start?_eq hstart
  have hrun : Gives (whole p) (startContext p o nil) _ () s := hrun
  obtain ⟨⟨⟩, s₁, h₁, hrun⟩ := gives_bind.mp hrun
  obtain ⟨g₁, l₁, ⟨p₁, -⟩⟩ := emits_prepareSymbols.walks (X := ∅) (inv_start hnil) () s₁ h₁
  obtain rfl := p₁.ledger
  obtain ⟨v, s₂, g₂, v₂, hrun⟩ : ∃ v s₂ g₂, Visited _ .root Ledger.start s₁ g₂ s₂ v ∧
      Gives (finish v) (startContext p o nil) s₂ () s := by
    cases hroot : p.root with
    | none =>
      rw [hroot] at hrun
      exact ⟨nilValue, s₁, _, ⟨.refl l₁.inv, rfl, trivial⟩, hrun⟩
    | some n =>
      rw [hroot] at hrun
      obtain ⟨v, s₂, h₂, hrun⟩ := gives_bind.mp hrun
      obtain ⟨g₂, -, v₂⟩ := visits_visit _ _ ∅ _ _ n (owns_root hroot) l₁.inv v s₂ h₂
      exact ⟨v, s₂, g₂, v₂, hrun⟩
  have l₂ := v₂.leg
  obtain ⟨s₃, hd, hs, hrecords⟩ :=
    gives_finish l₂.inv (by rw [l₂.stay.fn, l₁.stay.fn]; rfl) v₂.usable hrun
  have hp := l₁.path.trans (l₂.path.trans hd.leg.path)
  have hentry : (startState p o nil name (entryFunction p n₀ n₁ n₂)).Has ⟨0⟩ ⟨2⟩ :=
    has_start.mpr ⟨rfl, .inr (.inr rfl)⟩
  have hclosed := closed_connected hd.leg.inv hp hd.terminated rfl v₂.waiting hentry
    (by simp [startContext]) isBare_start (has_start.mpr ⟨rfl, .inr (.inl rfl)⟩)
    (by simp [startContext])
  refine ⟨nil, g₂, s₃, ⟨hd.leg.inv, ?_, hp.grows.has hentry, ?_, fun b hl => ?_, hclosed,
    hp.accounts accounted_start⟩, hs, hrecords⟩
  · rw [pending, hd.leg.stay.fn, l₂.stay.fn, l₁.stay.fn, l₂.stay.outer]
    rfl
  · exact (hp.owner _ _ hentry).trans owner_start_entry
  · rcases hp.edges _ b _ hentry hl with hl | hm | hm
    · exact not_leads_start hl
    · exact absurd hm (Set.notMem_empty _)
    · rcases hm.2 with ha | ⟨t, ht, -⟩
      · exact absurd ha List.not_mem_nil
      · exact absurd ht List.not_mem_nil

/-- What a generation leaves when it comes to its end. -/
theorem completed_run? {p : Program} {o : Options} (h : run? p o = some (.ok (), s)) :
    ∃ nil g s', Completed (startContext p o nil) g s' ∧
      s.builder.module = (s'.connected (startContext p o nil)).builder.module ∧
      s.consts = s'.consts := by
  obtain ⟨nil, g, s', he, hm, hconsts, -⟩ := exists_completed h
  exact ⟨nil, g, s', he, hm, hconsts⟩

end Lowering.Gen
