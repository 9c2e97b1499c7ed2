import Lowering.Proofs.Merge

/-!
# Other activations

Some steps are made under another activation, or while a block is not pending.  The activation
around such a step is parked: jumps can still lead where it says, since it is taken up again.

* `Gen.Inv.under`, `Gen.Path.under`: a change of the activation and of the pending blocks;
* `Gen.Leg.bracket`: a step under another activation;
* `Gen.walks_withBreakTarget`, `Gen.walks_withActivation`.
-/

namespace Lowering.Gen

open IR (Ty Value FuncId BlockId GlobalId Build Module Inst Terminator)

variable {α : Type} {c : Context} {e : Entity} {g g₂ : Ledger} {s s₂ : State}
  {X : Set (FuncId × BlockId)} {act act' : Activation} {blocks : List BlockFrame}
  {parked : List Activation}

/-- The state under another activation and with other pending blocks. -/
def State.under (s : State) (act : Activation) (blocks : List BlockFrame) : State :=
  { s with act, blocks }

/-- The ledger with other activations that are taken up again. -/
def Ledger.park (g : Ledger) (parked : List Activation) : Ledger := { g with parked }

theorem Aimed.under (h : Aimed c e g s)
    (hc : (g.park parked).callTargets (s.under act blocks) ⊆ g.callTargets s)
    (hl : ∀ b ∈ (g.park parked).loopExits (s.under act blocks),
      b ∈ g.loopExits s ∨ Spare c e g s b) :
    Aimed c e (g.park parked) (s.under act blocks) := by
  have hidle : ∀ {b}, Idle c e g s b → Idle c e (g.park parked) (s.under act blocks) b :=
    fun h => { h with }
  refine ⟨fun t ht => ?_, fun b hb => ?_, fun t ht t' ht' => h.apart t (hc ht) t' (hc ht'),
    fun t ht m hm hb => ?_⟩
  · obtain ⟨m, hm, hw⟩ := h.awaits t (hc ht)
    exact ⟨m, hm, { hw with idle := hidle hw.idle }⟩
  · exact hidle ((hl b hb).elim (h.exits b) Spare.idle)
  · rcases hl _ hb with hb | hb
    · exact h.apartExits t (hc ht) m hm hb
    · exact hb.notAim (.inr ⟨t, hc ht, m, hm, rfl⟩)

theorem Inv.under (hi : Inv c e g s) (hv : ∀ p ∈ act.vars, Usable c (some e) s p.2.ptr)
    (hf : ∀ fr ∈ blocks, (∀ p ∈ fr.caller.vars, Usable c (some e) s p.2.ptr) ∧
      c.program.Owns e (blockCode fr.block))
    (ha : Aimed c e (g.park parked) (s.under act blocks)) :
    Inv c e (g.park parked) (s.under act blocks) := by
  have h := hi.chained
  exact
    { steady := { hi.steady with }
      sound := Sound.mono hi.sound ⟨.refl _, fun _ _ h _ => h⟩ (List.Subset.refl _)
      vars := fun p hp => (hv p hp).mono ⟨.refl _, fun _ _ h _ => h⟩ rfl
      frames := fun fr hfr => ⟨fun q hq => ((hf fr hfr).1 q hq).mono
        ⟨.refl _, fun _ _ h _ => h⟩ rfl, (hf fr hfr).2⟩
      returnSlot := hi.returnSlot
      position := hi.position
      tail := hi.tail
      aimed := ha
      opened := hi.opened
      chained :=
        ⟨h.path, h.bottom, h.started, h.once, h.running, h.tail, h.regions, h.edges, h.firsts,
          h.slots, h.head, h.entities, h.generated, fun before r after hc =>
            { h.settled before r after hc with }⟩ }

theorem Path.under
    (hc : (g.park parked).callTargets (s.under act blocks) ⊆ g.callTargets s)
    (hl : ∀ b ∈ (g.park parked).loopExits (s.under act blocks),
      b ∈ g.loopExits s ∨ (s.fn.func, b) ∈ X) :
    Path c X g s (g.park parked) (s.under act blocks) :=
  { Path.refl c X g s with
    grows := ⟨.refl _, fun _ _ h _ => h⟩
    aims := fun b h _ => by
      rcases h with h | ⟨t, ht, m, hm, hb⟩
      · exact (hl b h).elim (fun h => .inr ⟨rfl, .inl h⟩) .inl
      · exact .inr ⟨rfl, .inr ⟨t, hc ht, m, hm, hb⟩⟩
    callTargets := fun t ht _ => hc ht }

/-- An activation without targets, when nothing is parked. -/
theorem Inv.bare (hi : Inv c e g s) (hg : g.parked = [])
    (hv : ∀ p ∈ act.vars, Usable c (some e) s p.2.ptr) (hret : act.returnTarget = none)
    (hbrk : act.breakTarget = none) :
    Inv c e g (s.under act []) ∧ Path c X g s g (s.under act []) := by
  have hpark : g.park [] = g := by rw [← hg]; rfl
  have hcall : (g.park []).callTargets (s.under act []) = [] := by
    simp [Ledger.callTargets, Ledger.activations, Ledger.park, State.under,
      Activation.callTargets, hret, hbrk]
  have hexits : (g.park []).loopExits (s.under act []) = [] := by
    simp [Ledger.loopExits, Ledger.activations, Ledger.park, State.under,
      Activation.loopExits, hbrk]
  have hc : (g.park []).callTargets (s.under act []) ⊆ g.callTargets s := by
    rw [hcall]
    exact List.nil_subset _
  have hl : ∀ b ∈ (g.park []).loopExits (s.under act []), False := by
    rw [hexits]
    simp
  have hi' := hi.under hv (fun fr hfr => absurd hfr (by simp))
    (hi.aimed.under hc fun b hb => (hl b hb).elim)
  have hp' : Path c X g s (g.park []) (s.under act []) := .under hc fun b hb => (hl b hb).elim
  rw [hpark] at hi' hp'
  exact ⟨hi', hp'⟩

theorem callTargets_subset {g g' : Ledger} {s s' : State}
    (h : g.activations s ⊆ g'.activations s') : g.callTargets s ⊆ g'.callTargets s' := by
  intro t ht
  obtain ⟨a, ha, ht⟩ := List.mem_flatMap.mp ht
  exact List.mem_flatMap.mpr ⟨a, h ha, ht⟩

theorem loopExits_subset {g g' : Ledger} {s s' : State}
    (h : g.activations s ⊆ g'.activations s') : g.loopExits s ⊆ g'.loopExits s' := by
  intro t ht
  obtain ⟨a, ha, ht⟩ := List.mem_flatMap.mp ht
  exact List.mem_flatMap.mpr ⟨a, h ha, ht⟩

/-- A step in the current function under another activation, while the current ones can still be
jumped to. -/
theorem Leg.bracket {g₁ : Ledger} {s₁ : State} (hi : Inv c e g s) (hin : Path c X g s g₁ s₁)
    (hl : Leg c e X g₁ s₁ g₂ s₂) (hc₁ : g.callTargets s ⊆ g₁.callTargets s₁)
    (hx₁ : g.loopExits s ⊆ g₁.loopExits s₁)
    (hfn : s₁.fn = s.fn) (hdef : s₁.definition = s.definition) (hout : g₁.outer = g.outer)
    (hscope : act'.scope = s.act.scope) (hret : act'.returnTarget = s.act.returnTarget)
    (hbrk : act'.breakTarget = s.act.breakTarget)
    (hv : ∀ p ∈ act'.vars, Usable c (some e) s₂ p.2.ptr) :
    Leg c e X g s (g₂.park g.parked) (s₂.under act' s.blocks) := by
  have hst := hl.stay
  have hgrows := hin.grows.trans hl.path.grows
  have hcall : (g₂.park g.parked).callTargets (s₂.under act' s.blocks) = g.callTargets s := by
    simp only [Ledger.callTargets, Ledger.activations, List.flatMap_cons, State.under, Ledger.park,
      Activation.callTargets, hret, hbrk]
  have hexits : (g₂.park g.parked).loopExits (s₂.under act' s.blocks) = g.loopExits s := by
    simp only [Ledger.loopExits, Ledger.activations, List.flatMap_cons, State.under, Ledger.park,
      Activation.loopExits, hbrk]
  have hc : (g₂.park g.parked).callTargets (s₂.under act' s.blocks) ⊆ g₂.callTargets s₂ := by
    rw [hcall, hst.callTargets]
    exact hc₁
  have hx : ∀ b ∈ (g₂.park g.parked).loopExits (s₂.under act' s.blocks),
      b ∈ g₂.loopExits s₂ := by
    rw [hexits, hst.loopExits]
    exact fun b hb => hx₁ hb
  refine ⟨hl.inv.under hv (fun fr hfr => ?_) (hl.inv.aimed.under hc fun b hb => .inl (hx b hb)),
    hin.trans (hl.path.trans (.under hc fun b hb => .inl (hx b hb))), ?_⟩
  · obtain ⟨h, ho⟩ := hi.frames fr hfr
    exact ⟨fun q hq => (h q hq).mono hgrows (hst.fn.trans hfn), ho⟩
  · exact ⟨hst.fn.trans hfn, hst.definition.trans hdef, rfl, hscope, hret, hbrk, rfl,
      hst.outer.trans hout⟩

/-! ### Straight code under any activation -/

theorem Fits.of_none {f : FuncId} {b : BlockId} {kind : IR.InstKind} {a : Option Entity}
    (h : Fits c none s f b kind) : Fits c a s f b kind :=
  ⟨h.notPhi, fun v hv => (h.operands v hv).imp UsableIn.of_none Settles.of_none,
    fun callee args hk => ⟨(h.callee callee args hk).inside,
      (h.callee callee args hk).known.imp_right fun ⟨_, _, hn, _⟩ => by cases hn⟩, h.slot⟩

/-- What belongs to no entity can be placed under any activation, and does not change it. -/
theorem Move.under (h : Move c none s s₂) :
    Move c (some e) (s.under act blocks) (s₂.under act blocks) ∧ s₂.act = s.act := by
  cases h with
  | @place f b e' inst ks site fits open_ notes =>
    refine ⟨?_, rfl⟩
    have hsite : ∃ e'', Site c (some e) (s.under act blocks) f b e'' ∧
        Fits c e'' (s.under act blocks) f b inst.kind := by
      have hfits : ∀ a, Fits c a (s.under act blocks) f b inst.kind := fun a => by
        have hnone : Fits c none s f b inst.kind := by
          cases site <;> exact fits
        have h := hnone.of_none (a := a)
        have hg : s.Grows (s.under act blocks) := ⟨.refl _, fun _ _ h _ => h⟩
        exact ⟨h.notPhi, fun v hv => (h.operands v hv).imp (UsableIn.mono hg) (Settles.mono hg),
          fun callee args hk => ⟨(h.callee callee args hk).inside,
            (h.callee callee args hk).known⟩, h.slot⟩
      cases site with
      | position hp hf => exact ⟨some e, .position hp hf, hfits _⟩
      | slots => exact ⟨none, .slots, hfits _⟩
      | entry => exact ⟨none, .entry, hfits _⟩
    obtain ⟨e'', hs, hf⟩ := hsite
    exact .place hs hf open_ (notes.of_eq rfl rfl)
  | declare hb hins hn fresh => exact ⟨.declare hb hins hn fresh, rfl⟩
  | helper hb hins hn missing => exact ⟨.helper hb hins hn missing, rfl⟩
  | global g => exact ⟨.global g, rfl⟩
  | content id h => exact ⟨.content id h, rfl⟩
  | bind code => cases code
  | note h =>
    exact ⟨.note ⟨h.functions, h.globals, h.position, rfl, h.fn, h.definition, h.constTail, rfl,
      h.targets, h.consts, h.tables, h.runtime, h.calls⟩, h.act⟩

theorem Straight.under (h : Straight c none s s₂) :
    Straight c (some e) (s.under act blocks) (s₂.under act blocks) ∧ s₂.act = s.act := by
  induction h with
  | refl => exact ⟨.refl _, rfl⟩
  | tail _ hm ih =>
    obtain ⟨hu, hact⟩ := hm.under
    exact ⟨ih.1.trans (.of_move hu), hact.trans ih.2⟩

/-! ### Steps under another activation -/

theorem gives_withActivation {x : Gen α} {a : α} (h : Gives (withActivation act x) c s a s₂) :
    ∃ s₁, Gives x c (s.under act s.blocks) a s₁ ∧ s₂ = s₁.under s.act s₁.blocks := by
  have h := gives_after (show Gives get c s s s from rfl) h
  have h := gives_after (show Gives (modify fun s => { s with act }) c s ()
    (s.under act s.blocks) from rfl) h
  obtain ⟨s₁, hx, hy⟩ := gives_attempt h
  exact ⟨s₁, hx, gives_modify hy⟩

/-- The current activation is parked under another one. -/
theorem activations_parked :
    g.activations s ⊆ (g.park (s.act :: g.parked)).activations (s.under act s.blocks) := by
  intro a ha
  simp only [Ledger.activations, List.mem_cons, List.mem_append, Ledger.park, State.under] at ha ⊢
  tauto

theorem callTargets_parked (hc : act.callTargets ⊆ g.callTargets s) :
    (g.park (s.act :: g.parked)).callTargets (s.under act s.blocks) ⊆ g.callTargets s := by
  intro t ht
  simp only [Ledger.callTargets, Ledger.activations, List.flatMap_cons, Ledger.park, State.under,
    List.flatMap_append, List.mem_append] at ht ⊢
  rcases ht with ht | ht | ht | ht
  · have := hc ht
    simpa only [Ledger.callTargets, Ledger.activations, List.flatMap_cons, List.flatMap_append,
      List.mem_append] using this
  all_goals tauto

theorem loopExits_parked {P : BlockId → Prop} (hl : ∀ b ∈ act.loopExits, b ∈ g.loopExits s ∨ P b) :
    ∀ b ∈ (g.park (s.act :: g.parked)).loopExits (s.under act s.blocks),
      b ∈ g.loopExits s ∨ P b := by
  intro b hb
  have hold : b ∈ act.loopExits ∨ b ∈ g.loopExits s := by
    simp only [Ledger.loopExits, Ledger.activations, List.flatMap_cons, Ledger.park, State.under,
      List.flatMap_append, List.mem_append] at hb ⊢
    tauto
  exact hold.elim (hl b) .inl

/-- An activation of which the jumps lead where others lead already, or to a block that waits. -/
theorem Inv.parking (hi : Inv c e g s) (hv : ∀ p ∈ act.vars, Usable c (some e) s p.2.ptr)
    (hc : act.callTargets ⊆ g.callTargets s)
    (hl : ∀ b ∈ act.loopExits, b ∈ g.loopExits s ∨ Spare c e g s b) :
    Inv c e (g.park (s.act :: g.parked)) (s.under act s.blocks) :=
  hi.under hv hi.frames (hi.aimed.under (callTargets_parked hc) (loopExits_parked hl))

/-- A step under an activation of which the jumps lead where others lead already. -/
theorem walks_withActivation {x : Gen α} {P : Ledger → State → α → Prop}
    {Q : Ledger → State → α → Prop}
    (hv : ∀ p ∈ act.vars, Usable c (some e) s p.2.ptr)
    (hc : act.callTargets ⊆ g.callTargets s) (hl : act.loopExits ⊆ g.loopExits s)
    (hx : Walks c e X (g.park (s.act :: g.parked)) (s.under act s.blocks) x P)
    (hq : ∀ g₂ s₂ a, P g₂ s₂ a → Q (g₂.park g.parked) (s₂.under s.act s.blocks) a) :
    Walks c e X g s (withActivation act x) Q := by
  intro hi a s' hg
  obtain ⟨s₁, hg₁, rfl⟩ := gives_withActivation hg
  obtain ⟨g₂, hl₂, hp⟩ := hx (hi.parking hv hc fun b hb => .inl (hl hb)) a s₁ hg₁
  have hb : s₁.blocks = s.blocks := hl₂.stay.blocks
  rw [hb]
  refine ⟨g₂.park g.parked, .bracket hi (.under (callTargets_parked hc)
    (loopExits_parked fun b hb => .inl (hl hb))) hl₂ (callTargets_subset activations_parked)
    (loopExits_subset activations_parked) rfl rfl rfl rfl rfl rfl fun p hp => ?_, hq g₂ s₁ a hp⟩
  exact (hi.vars p hp).mono hl₂.path.grows hl₂.stay.fn

theorem gives_withBreakTarget {b : BreakTarget} {x : Gen α} {a : α}
    (h : Gives (withBreakTarget b x) c s a s₂) :
    ∃ s₁, Gives x c (s.under { s.act with breakTarget := some b } s.blocks) a s₁ ∧
      s₂ = s₁.under { s₁.act with breakTarget := s.act.breakTarget } s₁.blocks := by
  have h := gives_after (show Gives get c s s s from rfl) h
  have h := gives_after (show Gives (modify fun s =>
    { s with act := { s.act with breakTarget := some b } }) c s ()
      (s.under { s.act with breakTarget := some b } s.blocks) from rfl) h
  obtain ⟨s₁, hx, hy⟩ := gives_attempt h
  exact ⟨s₁, hx, gives_modify hy⟩

/-- The jumps of an activation inside a loop. -/
theorem callTargets_inLoop {b : BlockId} :
    Activation.callTargets { s.act with breakTarget := some (.loop b) } ⊆ g.callTargets s := by
  intro t ht
  refine List.mem_flatMap.mpr ⟨s.act, List.mem_cons_self, List.mem_append_left _ ?_⟩
  simpa [Activation.callTargets] using ht

theorem loopExits_inLoop {b : BlockId} {P : BlockId → Prop} (hb : P b) :
    ∀ b' ∈ Activation.loopExits { s.act with breakTarget := some (.loop b) },
      b' ∈ g.loopExits s ∨ P b' := by
  intro b' hb'
  rw [List.mem_singleton.mp hb']
  exact .inr hb

/-- A step inside a loop. -/
theorem walks_withBreakTarget {b : BlockId} {x : Gen α} {P Q : Ledger → State → α → Prop}
    (hb : Spare c e g s b) (hxb : (s.fn.func, b) ∈ X)
    (hx : Walks c e X (g.park (s.act :: g.parked))
      (s.under { s.act with breakTarget := some (.loop b) } s.blocks) x P)
    (hq : ∀ g₂ s₂ a, P g₂ s₂ a → Q (g₂.park g.parked)
      (s₂.under { s₂.act with breakTarget := s.act.breakTarget } s.blocks) a) :
    Walks c e X g s (withBreakTarget (.loop b) x) fun g' s' a =>
      Spare c e g' s' b ∧ Q g' s' a := by
  intro hi a s' hg
  obtain ⟨s₁, hg₁, rfl⟩ := gives_withBreakTarget hg
  obtain ⟨g₂, hl₂, hp⟩ := hx (hi.parking hi.vars callTargets_inLoop (loopExits_inLoop hb)) a s₁ hg₁
  have hst := hl₂.stay
  have hleg : Leg c e X g s (g₂.park g.parked)
      (s₁.under { s₁.act with breakTarget := s.act.breakTarget } s.blocks) :=
    .bracket hi (.under (callTargets_parked callTargets_inLoop)
      (loopExits_parked (loopExits_inLoop (P := fun b => (s.fn.func, b) ∈ X) hxb))) hl₂
      (callTargets_subset activations_parked) (loopExits_subset activations_parked) rfl rfl rfl
      hst.scope hst.returnTarget rfl hl₂.inv.vars
  rw [show s₁.blocks = s.blocks from hst.blocks]
  refine ⟨g₂.park g.parked, hleg, ⟨?_, hleg.notAim hi hb.notAim⟩, hq g₂ s₁ a hp⟩
  have hexit : b ∈ g₂.loopExits s₁ := by
    rw [hst.loopExits]
    simp [Ledger.loopExits, Ledger.activations, State.under, Activation.loopExits]
  exact { hl₂.inv.aimed.exits b hexit with }

end Lowering.Gen
