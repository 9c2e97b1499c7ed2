import Lowering.Proofs.Invariant

/-!
# What a step of generation leaves alone

A step adds blocks and code, but of the blocks that there were it continues only the one at the
position, the block of stack slots, the end of the chain of initializers and the blocks that it was
given, and it adds jumps only to the latter and to those that `return` and `break` lead to.

* `Gen.Path`: what a step leaves alone, however far it goes;
* `Gen.Stay`: the function and the activation in which a step began and ended;
* `Gen.Landing`, `Gen.Idle.along`, `Gen.Awaits.along`: blocks that wait still wait afterwards.
-/

namespace Lowering.Gen

open IR (Ty Value FuncId BlockId GlobalId)

variable {c : Context} {e : Entity} {g g₁ g₂ g' : Ledger} {s s₁ s₂ s' : State}
  {X Y : Set (FuncId × BlockId)}

/-- What a step leaves alone that may take up some blocks. -/
structure Path (c : Context) (X : Set (FuncId × BlockId)) (g : Ledger) (s : State) (g' : Ledger)
    (s' : State) : Prop where
  grows : s.Grows s'
  runtime : s.runtime ⊆ s'.runtime
  consts : s.consts <:+ s'.consts
  owner : ∀ f b, s.Has f b → g'.owner f b = g.owner f b
  chain : g.chain <+: g'.chain
  func : s'.fn.func = s.fn.func ∨ s'.fn.func = c.main.func ∨ ¬ s.Has s'.fn.func ⟨0⟩
  position : s'.builder.position = s.builder.position ∨
    ∀ f b, s'.builder.position = some (f, b) → (f, b) ∈ X ∨ ¬ s.Has f b
  tail : s'.constTail = s.constTail ∨ ¬ s.Has c.main.func s'.constTail
  insts : ∀ f b, s.Has f b → (f, b) ∉ X → s.builder.position ≠ some (f, b) → b ≠ ⟨0⟩ →
    (s'.block f b).insts = (s.block f b).insts
  terms : ∀ f b, s.Has f b → (f, b) ∉ X → s.builder.position ≠ some (f, b) →
    (f, b) ≠ (c.main.func, s.constTail) → (s'.block f b).term = (s.block f b).term
  others : ∀ f, s.Has f ⟨0⟩ → f ≠ s.fn.func → f ≠ c.main.func → s'.func f = s.func f
  noPhi : ∀ f b, s.Has f b → (f, b) ∉ X → (s.func f).NoPhi b → (s'.func f).NoPhi b
  edges : ∀ f b b', s.Has f b' → s'.Leads f b b' →
    s.Leads f b b' ∨ (f, b') ∈ X ∨ f = s.fn.func ∧ g.Aims s b'
  aims : ∀ b, g'.Aims s' b → s.Has s'.fn.func b →
    (s'.fn.func, b) ∈ X ∨ s'.fn.func = s.fn.func ∧ g.Aims s b
  callTargets : ∀ t ∈ g'.callTargets s', t.index < s.targets.size → t ∈ g.callTargets s
  targets : ∀ t m, s.targets[t]? = some m → ∃ m', s'.targets[t]? = some m' ∧
    m'.block = m.block ∧ m'.type = m.type ∧ m'.slot = m.slot ∧ (⟨t⟩ ∉ g.callTargets s → m' = m)
  accounts : Accounted s → Accounted s'

theorem State.Grows.has (h : s.Grows s') {f : FuncId} {b : BlockId} (hb : s.Has f b) :
    s'.Has f b :=
  (h.code.function f (index_lt_of_hasBlock hb)).hasBlock hb

theorem State.Grows.leads (h : s.Grows s') {f : FuncId} {b b' : BlockId} (hl : s.Leads f b b') :
    s'.Leads f b b' :=
  (h.code.function f (index_lt_of_hasBlock (show s.Has f b from hl.hasBlock))).leadsTo hl

theorem State.Mentions.has {f : FuncId} {b : BlockId} {v : Value} (h : s.Mentions f b v) :
    s.Has f b := by
  rcases h with ⟨id, hm, -⟩ | ⟨t, ht, -⟩
  · exact IR.Function.hasBlock_of_mem hm
  · exact IR.Function.hasBlock_of_term ht

/-- A block mentions what it did when its code is the same. -/
theorem State.Mentions.of_eq {f : FuncId} {b : BlockId} {v : Value} (h : s'.Mentions f b v)
    (hi : ∀ id ∈ (s'.block f b).insts, id ∈ (s.block f b).insts ∧
      (s'.func f).inst id = (s.func f).inst id)
    (ht : (s'.block f b).term = (s.block f b).term) : s.Mentions f b v := by
  refine h.imp (fun ⟨id, hm, hv⟩ => ?_) fun ⟨t, hterm, hv⟩ => ⟨t, ht ▸ hterm, hv⟩
  obtain ⟨hm, he⟩ := hi id hm
  exact ⟨id, hm, he ▸ hv⟩

theorem State.has_first {f : FuncId} {b : BlockId} (h : s.Has f b) : s.Has f ⟨0⟩ :=
  lt_of_le_of_lt (Nat.zero_le _) h

namespace Path

theorem refl (c : Context) (X : Set (FuncId × BlockId)) (g : Ledger) (s : State) :
    Path c X g s g s where
  grows := .refl _
  runtime _ h := h
  consts := List.suffix_refl _
  owner _ _ _ := rfl
  chain := List.prefix_refl _
  func := .inl rfl
  position := .inl rfl
  tail := .inl rfl
  insts _ _ _ _ _ _ := rfl
  terms _ _ _ _ _ _ := rfl
  others _ _ _ _ := rfl
  noPhi _ _ _ _ h := h
  edges _ _ _ _ h := .inl h
  aims _ h _ := .inr ⟨rfl, h⟩
  callTargets _ h _ := h
  targets _ m h := ⟨m, h, rfl, rfl, rfl, fun _ => rfl⟩
  accounts h := h

theorem targets_size (h : Path c X g s g' s') {t : Nat} (ht : t < s.targets.size) :
    t < s'.targets.size := by
  obtain ⟨m, hm, -⟩ := h.targets t s.targets[t] (by simp [ht])
  exact (Array.getElem?_eq_some_iff.mp hm).1

theorem position_ne (h : Path c X g s g' s') {f : FuncId} {b : BlockId} (hb : s.Has f b)
    (hx : (f, b) ∉ X) (hp : s.builder.position ≠ some (f, b)) :
    s'.builder.position ≠ some (f, b) := by
  intro h'
  rcases h.position with hq | hq
  · exact hp (hq ▸ h')
  · exact (hq f b h').elim hx (absurd hb)

theorem tail_ne (h : Path c X g s g' s') {f : FuncId} {b : BlockId} (hb : s.Has f b)
    (ht : (f, b) ≠ (c.main.func, s.constTail)) : (f, b) ≠ (c.main.func, s'.constTail) := by
  intro h'
  obtain ⟨rfl, rfl⟩ := Prod.mk.inj h'
  exact h.tail.elim (fun hq => ht (by rw [hq])) fun hq => hq hb

/-- Blocks that there were not do not have to be given. -/
theorem narrow (h : Path c X g s g' s')
    (hx : ∀ f b, (f, b) ∈ X → (f, b) ∈ Y ∨ ¬ s.Has f b) : Path c Y g s g' s' :=
  have hn : ∀ f b, s.Has f b → (f, b) ∉ Y → (f, b) ∉ X := fun f b hb hy hm =>
    (hx f b hm).elim hy (absurd hb)
  { h with
    position := h.position.imp_right fun hq f b hp => (hq f b hp).elim (hx f b) .inr
    insts := fun f b hb hy => h.insts f b hb (hn f b hb hy)
    terms := fun f b hb hy => h.terms f b hb (hn f b hb hy)
    noPhi := fun f b hb hy => h.noPhi f b hb (hn f b hb hy)
    edges := fun f b b' hb hl => (h.edges f b b' hb hl).imp_right fun hq =>
      hq.imp_left fun hm => (hx f b' hm).resolve_right fun hnb => hnb hb
    aims := fun b hq hb => (h.aims b hq hb).imp_left fun hm =>
      (hx _ b hm).resolve_right fun hnb => hnb hb }

theorem trans (h₁ : Path c X g s g₁ s₁) (h₂ : Path c X g₁ s₁ g₂ s₂) : Path c X g s g₂ s₂ where
  grows := h₁.grows.trans h₂.grows
  runtime := fun _ h => h₂.runtime (h₁.runtime h)
  consts := h₁.consts.trans h₂.consts
  owner f b hb := (h₂.owner f b (h₁.grows.has hb)).trans (h₁.owner f b hb)
  chain := h₁.chain.trans h₂.chain
  func := by
    rcases h₂.func with h | h | h
    · rw [h]
      exact h₁.func
    · exact .inr (.inl h)
    · exact .inr (.inr fun hb => h (h₁.grows.has hb))
  position := by
    rcases h₂.position with h | h
    · rw [h]
      exact h₁.position
    · exact .inr fun f b hp => (h f b hp).imp_right fun hn hb => hn (h₁.grows.has hb)
  tail := by
    rcases h₂.tail with h | h
    · rw [h]
      exact h₁.tail
    · exact .inr fun hb => h (h₁.grows.has hb)
  insts f b hb hx hp hne := by
    rw [h₂.insts f b (h₁.grows.has hb) hx (h₁.position_ne hb hx hp) hne, h₁.insts f b hb hx hp hne]
  terms f b hb hx hp hne := by
    rw [h₂.terms f b (h₁.grows.has hb) hx (h₁.position_ne hb hx hp) ?_, h₁.terms f b hb hx hp hne]
    exact h₁.tail_ne hb hne
  others f hb hf hm := by
    rw [h₂.others f (h₁.grows.has hb) ?_ hm, h₁.others f hb hf hm]
    rintro rfl
    rcases h₁.func with h | h | h
    · exact hf h
    · exact hm h
    · exact h hb
  noPhi f b hb hx h := h₂.noPhi f b (h₁.grows.has hb) hx (h₁.noPhi f b hb hx h)
  edges f b b' hb hl := by
    rcases h₂.edges f b b' (h₁.grows.has hb) hl with h | h | ⟨rfl, h⟩
    · exact h₁.edges f b b' hb h
    · exact .inr (.inl h)
    · exact .inr (h₁.aims b' h hb)
  aims b h hb := by
    rcases h₂.aims b h (h₁.grows.has hb) with h | ⟨hf, h⟩
    · exact .inl h
    · rw [hf] at hb ⊢
      exact h₁.aims b h hb
  callTargets t h ht := h₁.callTargets t (h₂.callTargets t h (h₁.targets_size ht)) ht
  targets t m hm := by
    obtain ⟨m₁, hm₁, hb₁, ht₁, hs₁, he₁⟩ := h₁.targets t m hm
    obtain ⟨m₂, hm₂, hb₂, ht₂, hs₂, he₂⟩ := h₂.targets t m₁ hm₁
    refine ⟨m₂, hm₂, hb₂.trans hb₁, ht₂.trans ht₁, hs₂.trans hs₁, fun hn => ?_⟩
    have ht : t < s.targets.size := (Array.getElem?_eq_some_iff.mp hm).1
    rw [he₂ fun h => hn (h₁.callTargets ⟨t⟩ h ht), he₁ hn]
  accounts h := h₂.accounts (h₁.accounts h)

end Path

/-- A step ended in the function and the activation in which it began. -/
structure Stay (g : Ledger) (s : State) (g' : Ledger) (s' : State) : Prop where
  fn : s'.fn = s.fn
  definition : s'.definition = s.definition
  blocks : s'.blocks = s.blocks
  scope : s'.act.scope = s.act.scope
  returnTarget : s'.act.returnTarget = s.act.returnTarget
  breakTarget : s'.act.breakTarget = s.act.breakTarget
  parked : g'.parked = g.parked
  outer : g'.outer = g.outer

namespace Stay

theorem refl (g : Ledger) (s : State) : Stay g s g s := ⟨rfl, rfl, rfl, rfl, rfl, rfl, rfl, rfl⟩

theorem trans (h₁ : Stay g s g₁ s₁) (h₂ : Stay g₁ s₁ g₂ s₂) : Stay g s g₂ s₂ :=
  ⟨h₂.fn.trans h₁.fn, h₂.definition.trans h₁.definition, h₂.blocks.trans h₁.blocks,
    h₂.scope.trans h₁.scope, h₂.returnTarget.trans h₁.returnTarget,
    h₂.breakTarget.trans h₁.breakTarget, h₂.parked.trans h₁.parked, h₂.outer.trans h₁.outer⟩

theorem of_same (h : Same s s') : Stay g s g s' :=
  ⟨h.fn, h.definition, h.blocks, h.scope, h.returnTarget, h.breakTarget, rfl, rfl⟩

theorem callTargets (h : Stay g s g' s') : g'.callTargets s' = g.callTargets s := by
  simp only [Ledger.callTargets, Ledger.activations, List.flatMap_cons, h.blocks, h.parked,
    Activation.callTargets, h.returnTarget, h.breakTarget]

theorem loopExits (h : Stay g s g' s') : g'.loopExits s' = g.loopExits s := by
  simp only [Ledger.loopExits, Ledger.activations, List.flatMap_cons, h.blocks, h.parked,
    Activation.loopExits, h.breakTarget]

end Stay

/-! ### Blocks that wait -/

/-- A block of the current function to which jumps may lead. -/
structure Landing (c : Context) (e : Entity) (g : Ledger) (s : State) (b : BlockId) : Prop where
  inside : s.Has s.fn.func b
  notFirst : b ≠ ⟨0⟩
  noPhi : (s.func s.fn.func).NoPhi b
  owner : g.owner s.fn.func b = some e

theorem Idle.landing {b : BlockId} (h : Idle c e g s b) : Landing c e g s b where
  inside := h.inside
  notFirst := h.notFirst
  noPhi id hm := by
    have he : (s.block s.fn.func b).insts = #[] := h.empty
    rw [State.block] at he
    rw [he] at hm
    simp at hm
  owner := h.owner

theorem Landing.along {b : BlockId} (h : Landing c e g s b) (p : Path c X g s g' s')
    (hf : s'.fn = s.fn) (hx : (s.fn.func, b) ∉ X) : Landing c e g' s' b := by
  constructor
  · rw [hf]
    exact p.grows.has h.inside
  · exact h.notFirst
  · rw [hf]
    exact p.noPhi _ b h.inside hx h.noPhi
  · rw [hf, p.owner _ b h.inside, h.owner]

theorem Idle.along {b : BlockId} (h : Idle c e g s b) (p : Path c X g s g' s')
    (hf : s'.fn = s.fn) (hx : (s.fn.func, b) ∉ X) : Idle c e g' s' b := by
  constructor
  · rw [hf]
    exact p.grows.has h.inside
  · exact h.notFirst
  · rw [hf, p.insts _ b h.inside hx h.away h.notFirst, h.empty]
  · rw [hf, p.terms _ b h.inside hx h.away h.notTail, h.isOpen]
  · rw [hf]
    exact p.position_ne h.inside hx h.away
  · rw [hf]
    exact p.tail_ne h.inside h.notTail
  · rw [hf, p.owner _ b h.inside, h.owner]

theorem Awaits.along {t : MergeTarget} (h : Awaits c e g s t) (p : Path c X g s g' s')
    (hf : s'.fn = s.fn) (hx : (s.fn.func, t.block) ∉ X) (ha : ¬ g.Aims s t.block) :
    Awaits c e g' s' t := by
  refine ⟨h.idle.along p hf hx, fun v hv => (h.slot v hv).mono p.grows hf,
    fun q hq => (h.operands q hq).mono p.grows hf, fun hs ht => ?_⟩
  obtain ⟨hn, he⟩ := h.sources hs ht
  refine ⟨hn, fun b => (he b).trans ?_⟩
  rw [hf]
  refine ⟨p.grows.leads, fun hl => ?_⟩
  rcases p.edges _ b t.block h.idle.inside hl with h | h | h
  · exact h
  · exact absurd h hx
  · exact absurd h.2 ha

end Lowering.Gen
