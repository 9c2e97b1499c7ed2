import Lowering.Proofs.Function

/-!
# Inlined calls

The body of a definition is generated in place, and so is a block at each `yield`.  Meanwhile the
activations around are parked, and jumps from the inlined code meet where it ends.

* `Gen.Inv.withTargets`: merge points come and go;
* `Gen.Aimed.pushed`: an inlined body can jump to its end;
* `Gen.walks_inlineCall`, `Gen.walks_yield`.
-/

namespace Lowering.Gen

open IR (Ty Value FuncId BlockId GlobalId Build Module Inst Terminator)

variable {c : Context} {e : Entity} {g g' : Ledger} {s s₁ s₂ s₃ s₄ s' : State}
  {X : Set (FuncId × BlockId)} {m : MergeTarget} {act : Activation}

/-! ### Merge points -/

/-- The state with other merge points. -/
def State.withTargets (s : State) (targets : Array MergeTarget) : State := { s with targets }

/-- Merge points that nothing can jump to are as good as none. -/
theorem Inv.withTargets {ts : Array MergeTarget} (hi : Inv c e g s)
    (h : ∀ t ∈ g.callTargets s, ts[t.index]? = s.targets[t.index]?) :
    Inv c e g (s.withTargets ts) := by
  have hc := hi.chained
  have hmono : ∀ {v}, Usable c (some e) s v → Usable c (some e) (s.withTargets ts) v :=
    UsableIn.mono ⟨.refl _, fun _ _ h _ => h⟩
  have hidle : ∀ {b}, Idle c e g s b → Idle c e g (s.withTargets ts) b := fun h => { h with }
  exact
    { steady := { hi.steady with }
      sound := Sound.mono hi.sound ⟨.refl _, fun _ _ h _ => h⟩ (List.Subset.refl _)
      vars := fun p hp => hmono (hi.vars p hp)
      frames := fun fr hfr => ⟨fun q hq => hmono ((hi.frames fr hfr).1 q hq), (hi.frames fr hfr).2⟩
      returnSlot := fun v hv => hmono (hi.returnSlot v hv)
      position := hi.position
      tail := hi.tail
      aimed := ⟨fun t ht => by
          obtain ⟨m, hm, hw⟩ := hi.aimed.awaits t ht
          exact ⟨m, (h t ht).trans hm, hidle hw.idle, fun v hv => hmono (hw.slot v hv),
            fun p hp => hmono (hw.operands p hp), hw.sources⟩,
        fun b hb => hidle (hi.aimed.exits b hb),
        fun t ht t' ht' m m' hm hm' => hi.aimed.apart t ht t' ht' m m' ((h t ht).symm.trans hm)
          ((h t' ht').symm.trans hm'),
        fun t ht m hm => hi.aimed.apartExits t ht m ((h t ht).symm.trans hm)⟩
      opened := hi.opened
      chained :=
        ⟨hc.path, hc.bottom, hc.started, hc.once, hc.running, hc.tail, hc.regions, hc.edges,
          hc.firsts, hc.slots, hc.head, hc.entities, hc.generated, fun before r after h =>
            { hc.settled before r after h with }⟩ }

theorem getElem?_push_of_awaits (hi : Inv c e g s) {t : TargetId} (ht : t ∈ g.callTargets s) :
    (s.targets.push m)[t.index]? = s.targets[t.index]? := by
  obtain ⟨m', hm', -⟩ := hi.aimed.awaits t ht
  have hlt := (Array.getElem?_eq_some_iff.mp hm').1
  rw [Array.getElem?_push_lt hlt, hm']
  exact (Array.getElem?_eq_some_iff.mp hm').2 ▸ rfl

theorem leg_withTarget (hi : Inv c e g s) : Leg c e ∅ g s g (s.withTargets (s.targets.push m)) where
  inv := hi.withTargets fun _ ht => getElem?_push_of_awaits hi ht
  path :=
    { Path.refl c ∅ g s with
      grows := ⟨.refl _, fun _ _ h _ => h⟩
      aims := fun b h _ => .inr ⟨rfl, by
        rcases h with h | ⟨t, ht, m', hm', hb⟩
        · exact .inl h
        · exact .inr ⟨t, ht, m', (getElem?_push_of_awaits hi ht).symm.trans hm', hb⟩⟩
      callTargets := fun t ht _ => ht
      targets := fun t m' hm' => ⟨m', by
        have hlt := (Array.getElem?_eq_some_iff.mp hm').1
        show (s.targets.push m)[t]? = some m'
        rw [Array.getElem?_push_lt hlt]
        exact congrArg some (Array.getElem?_eq_some_iff.mp hm').2, rfl, rfl, rfl, fun _ => rfl⟩ }
  stay := ⟨rfl, rfl, rfl, rfl, rfl, rfl, rfl, rfl⟩

/-! ### The body of a definition -/

/-- The state in the body of an inlined definition. -/
def State.pushed (s : State) (block : Block Node) (act : Activation) : State :=
  s.under act ({ block, caller := s.act } :: s.blocks)

section

variable {id : TargetId} {block : Block Node} {vars : Scope} {scope : Option TypeId}

theorem mem_callTargets_pushed {t : TargetId} :
    t ∈ g.callTargets (s.pushed block { vars, scope, returnTarget := some id }) ↔
      t = id ∨ t ∈ g.callTargets s := by
  simp [Ledger.callTargets, Ledger.activations, State.pushed, State.under, Activation.callTargets]

theorem loopExits_pushed :
    g.loopExits (s.pushed block { vars, scope, returnTarget := some id }) = g.loopExits s := by
  simp [Ledger.loopExits, Ledger.activations, State.pushed, State.under, Activation.loopExits]

/-- The end of an inlined body is one more block that jumps can lead to. -/
theorem Aimed.pushed (h : Aimed c e g s) (hm : s.targets[id.index]? = some m)
    (hheld : Held c e g s m) :
    Aimed c e g (s.pushed block { vars, scope, returnTarget := some id }) := by
  have hidle : ∀ {b}, Idle c e g s b →
      Idle c e g (s.pushed block { vars, scope, returnTarget := some id }) b := fun h => { h with }
  have hne : ∀ t ∈ g.callTargets s, ∀ m', s.targets[t.index]? = some m' → m'.block ≠ m.block :=
    fun t ht m' hm' he => hheld.notAim (.inr ⟨t, ht, m', hm', he⟩)
  constructor
  case awaits =>
    intro t ht
    rcases mem_callTargets_pushed.mp ht with rfl | ht
    · exact ⟨m, hm, { hheld.awaits with idle := hidle hheld.awaits.idle }⟩
    · obtain ⟨m', hm', hw⟩ := h.awaits t ht
      exact ⟨m', hm', { hw with idle := hidle hw.idle }⟩
  case exits =>
    rw [loopExits_pushed]
    exact fun b hb => hidle (h.exits b hb)
  case apart =>
    intro t ht t' ht' m₁ m₂ hm₁ hm₂ he
    rcases mem_callTargets_pushed.mp ht with ht | ht <;>
      rcases mem_callTargets_pushed.mp ht' with ht' | ht'
    · exact ht.trans ht'.symm
    · cases hm.symm.trans (ht ▸ hm₁)
      exact absurd he.symm (hne t' ht' m₂ hm₂)
    · cases hm.symm.trans (ht' ▸ hm₂)
      exact absurd he (hne t ht m₁ hm₁)
    · exact h.apart t ht t' ht' m₁ m₂ hm₁ hm₂ he
  case apartExits =>
    rw [loopExits_pushed]
    intro t ht m' hm' hb
    rcases mem_callTargets_pushed.mp ht with rfl | ht
    · cases hm.symm.trans hm'
      exact hheld.notAim (.inl hb)
    · exact h.apartExits t ht m' hm' hb

theorem Inv.pushed (hi : Inv c e g s) (hm : s.targets[id.index]? = some m)
    (hheld : Held c e g s m) (hvars : Visible c (some e) s vars)
    (hb : c.program.Owns e (blockCode block)) :
    Inv c e g (s.pushed block { vars, scope, returnTarget := some id }) := by
  show Inv c e (g.park g.parked) (s.under { vars, scope, returnTarget := some id } _)
  refine hi.under hvars (fun fr hfr => ?_) (hi.aimed.pushed hm hheld)
  rcases List.mem_cons.mp hfr with rfl | hfr
  · exact ⟨hi.vars, hb⟩
  · exact hi.frames fr hfr

/-- The first steps of an inlined call, up to its body. -/
theorem path_pushed (hid : s.targets.size ≤ id.index)
    (hl : Leg c e ∅ g s g s₁) (hm : s₁.targets[id.index]? = some m)
    (hx : (s.fn.func, m.block) ∈ X) :
    Path c X g s g (s₁.pushed block { vars, scope, returnTarget := some id }) :=
  { (hl.path.narrow (Y := X) fun _ _ h => absurd h (Set.notMem_empty _)) with
    grows := ⟨hl.path.grows.code, hl.path.grows.consts⟩
    aims := fun b h hb => by
      rcases h with h | ⟨t, ht, m', hm', hblock⟩
      · rw [loopExits_pushed, hl.stay.loopExits] at h
        exact .inr ⟨congrArg FunctionState.func hl.stay.fn, .inl h⟩
      · rcases mem_callTargets_pushed.mp ht with rfl | ht
        · cases hm.symm.trans hm'
          rw [← hblock, show (s₁.pushed block _).fn.func = s.fn.func from
            congrArg FunctionState.func hl.stay.fn]
          exact .inl hx
        · exact (hl.path.aims b (.inr ⟨t, ht, m', hm', hblock⟩) hb).imp_left fun h =>
            absurd h (Set.notMem_empty _)
    callTargets := fun t ht hlt => by
      rcases mem_callTargets_pushed.mp ht with rfl | ht
      · exact absurd hlt (not_lt.mpr hid)
      · exact hl.path.callTargets t ht hlt }

end

theorem gives_popFrame {fr : BlockFrame} {rest : List BlockFrame} {a : Unit}
    (hb : s.blocks = fr :: rest) (h : Gives popFrame c s a s') : s' = s.under fr.caller rest := by
  have h := gives_after (show Gives get c s s s from rfl) h
  simp only [hb] at h
  exact gives_modify h

theorem gives_takeIncoming {id : TargetId} {incoming : List (Value × BlockId)}
    (hm : s.targets[id.index]? = some m) (h : Gives (takeIncoming id) c s incoming s') :
    incoming = m.incoming ∧
      s' = s.withTargets (s.targets.modify id.index fun t => { t with incoming := [] }) := by
  have htarget : Gives (target id) c s m s := by
    show @Eq (Except Failure MergeTarget × State) (.ok (s.targets[id.index]?.getD default), s)
      (.ok m, s)
    rw [hm]
    rfl
  have h := gives_after htarget h
  obtain ⟨⟨⟩, s₁, h₁, h⟩ := gives_bind.mp h
  cases gives_modify h₁
  exact gives_pure.mp h

/-- What holds at the end of an inlined body, where the jumps out of it meet. -/
structure Inlined (c : Context) (e : Entity) (g : Ledger) (s : State) (m : MergeTarget)
    (g' : Ledger) (s' : State) (incoming : List (Value × BlockId)) : Prop where
  leg : Leg c e {(s.fn.func, m.block)} g s g' s'
  terminated : s'.builder.isTerminated = true
  held : Held c e g' s' { m with incoming }
  waiting : g'.waiting = g.waiting

section

variable {visit : Visitor} (hv : Visits c visit)
include hv

theorem walks_inlineBody {d : Def} {id : TargetId}
    (ho : c.program.Owns e (Node.preorderOption d.body)) (hid : id ∈ g.callTargets s) :
    Walks c e X g s (inlineBody visit d id) fun g' s' _ =>
      g'.waiting = g.waiting ∧ s'.builder.isTerminated = true := by
  unfold inlineBody
  refine (walks_operand hv ho).bind fun r g₁ s₁ _ h₁ => ?_
  refine (walks_jumpToTarget ?_ h₁.usable).mono fun g₂ s₂ _ _ h₂ => ⟨?_, h₂.2⟩
  · rwa [h₁.leg.stay.callTargets]
  · rw [h₂.1, h₁.waiting]

theorem gives_inlined {d : Def} {block : Block Node} {vars : Scope} {scope : Option TypeId}
    {s₅ s₆ : State} {incoming : List (Value × BlockId)} (hi : Inv c e g s) (hm : Held c e g s m)
    (ho : c.program.Owns e (Node.preorderOption d.body))
    (hb : c.program.Owns e (blockCode block)) (hl : Leg c e ∅ g s g s₂)
    (hs : Same (s.withTargets (s.targets.push m)) s₂) (hvars : Visible c (some e) s₂ vars)
    (h₄ : Gives (inlineBody visit d ⟨s.targets.size⟩) c
      (s₂.pushed block { vars, scope, returnTarget := some ⟨s.targets.size⟩ }) () s₄)
    (h₅ : Gives popFrame c s₄ () s₅)
    (h₆ : Gives (takeIncoming ⟨s.targets.size⟩) c s₅ incoming s₆) :
    ∃ g', Inlined c e g s m g' s₆ incoming := by
  have hm₂ : s₂.targets[s.targets.size]? = some m := by
    rw [hs.targets]
    exact Array.getElem?_push_size
  have held₂ : Held c e g s₂ m := hl.held hm (Set.notMem_empty _)
  have hi₃ : Inv c e g (s₂.pushed block { vars, scope, returnTarget := some ⟨s.targets.size⟩ }) :=
    hl.inv.pushed hm₂ held₂ hvars hb
  have hp₃ : Path c {(s.fn.func, m.block)} g s g
      (s₂.pushed block { vars, scope, returnTarget := some ⟨s.targets.size⟩ }) :=
    path_pushed le_rfl hl hm₂ rfl
  have hid : ⟨s.targets.size⟩ ∈ g.callTargets
      (s₂.pushed block { vars, scope, returnTarget := some ⟨s.targets.size⟩ }) :=
    mem_callTargets_pushed.mpr (.inl rfl)
  obtain ⟨g₄, hl₄, hw₄, ht₄⟩ := walks_inlineBody hv ho hid hi₃ () s₄ h₄
  -- Back in the activation of the caller.
  cases gives_popFrame hl₄.stay.blocks h₅
  have hblocks : s₂.blocks = s.blocks := hs.blocks
  rw [hblocks] at h₆
  have hl₅ : Leg c e {(s.fn.func, m.block)} g s (g₄.park g.parked) (s₄.under s₂.act s.blocks) := by
    refine .bracket hi hp₃ hl₄ (fun t ht => ?_) ?_ hs.fn hs.definition rfl hs.scope hs.returnTarget
      hs.breakTarget fun p hp => ?_
    · exact mem_callTargets_pushed.mpr (.inr (hl.stay.callTargets ▸ ht))
    · rw [loopExits_pushed, hl.stay.loopExits]
      exact List.Subset.refl _
    · exact (hl.inv.vars p hp).mono ⟨hl₄.path.grows.code, hl₄.path.grows.consts⟩ hl₄.stay.fn
  -- What was carried to the end of the body.
  obtain ⟨m', hm', hw'⟩ := hl₄.inv.aimed.awaits ⟨s.targets.size⟩ (by rwa [hl₄.stay.callTargets])
  obtain ⟨m'', hm'', hblock, htype, hslot, -⟩ := hl₄.path.targets s.targets.size m hm₂
  cases hm'.symm.trans hm''
  obtain ⟨rfl, rfl⟩ := gives_takeIncoming (s := s₄.under s₂.act s.blocks) hm' h₆
  have hold : ∀ t ∈ (g₄.park g.parked).callTargets (s₄.under s₂.act s.blocks),
      t.index ≠ s.targets.size := by
    intro t ht
    rw [hl₅.stay.callTargets] at ht
    obtain ⟨m₀, hm₀, -⟩ := hi.aimed.awaits t ht
    exact (Array.getElem?_eq_some_iff.mp hm₀).1.ne
  have hl₆ : Leg c e {(s.fn.func, m.block)} g s (g₄.park g.parked)
      ((s₄.under s₂.act s.blocks).retarget ⟨s.targets.size⟩ fun t =>
        { t with incoming := [] }) := by
    refine ⟨hl₅.inv.withTargets fun t ht => retarget_of_ne (hold t ht),
      hl₅.path.retarget (fun h => absurd h (lt_irrefl _)) fun _ => ⟨rfl, rfl, rfl⟩, ?_⟩
    exact { hl₅.stay with }
  refine ⟨g₄.park g.parked, hl₆, ht₄, ⟨?_, hl₆.notAim hi hm.notAim⟩, hw₄⟩
  have he : { m with incoming := m'.incoming } = m' := by
    rw [← hblock, ← htype, ← hslot]
  rw [he]
  exact { hw' with idle := { hw'.idle with } }

theorem walks_inlineCall {n : Node} {block : Block Node} {d : Def} {selfType : Option TypeId}
    {args : List Value} (hb : c.program.Owns e (blockCode block))
    (hd : c.program.Depends e (.definition d)) (ha : ∀ v ∈ args, Usable c (some e) s v) :
    Walks c e X g s (inlineCall visit n block d selfType args) fun g' s' r =>
      Visited c e g s g' s' r.1 := by
  refine (Walks.fresh (P := fun g' s' r => g'.waiting = g.waiting ∧ Usable c (some e) s' r.1)
    ?_).mono fun _ _ _ _ h => ⟨h.1, h.2.1, h.2.2⟩
  unfold inlineCall
  refine emits_note.walks.bind fun _ g₁ s₁ l₁ h₁ => ?_
  refine walks_appendBlock.bind fun exit g₂ s₂ l₂ h₂ => ?_
  refine emits_mergeSlot.walks.bind fun slot g₃ s₃ l₃ ⟨h₃, hslot⟩ => ?_
  have hfresh : ¬ s.Has s.fn.func exit := h₁.1.leg.absent h₂.fresh
  have hm : Held c e g₃ s₃ { block := exit, type := n.type, slot } :=
    (h₃.leg.held (h₂.held n.type) (Set.notMem_empty _)).slotted hslot
  have l₁₃ := l₁.trans (l₂.trans l₃)
  have ha₃ : ∀ v ∈ args, Usable c (some e) s₃ v := fun v hv => l₁₃.usable (ha v hv)
  have hw₃ : g₃.waiting = insert (s.fn.func, exit) g.waiting := by
    rw [h₃.ledger, h₂.waiting, h₁.1.ledger, l₁.stay.fn]
  intro hi r s' hg
  obtain ⟨id, s₄, h₄, hg⟩ := gives_bind.mp hg
  obtain ⟨rfl, rfl⟩ : id = ⟨s₃.targets.size⟩ ∧
      s₄ = s₃.withTargets (s₃.targets.push { block := exit, type := n.type, slot }) := by
    cases h₄
    exact ⟨rfl, rfl⟩
  have l₄ := leg_withTarget (m := { block := exit, type := n.type, slot }) hi
  obtain ⟨vars, s₅, h₅, hg⟩ := gives_bind.mp hg
  obtain ⟨g₅, l₅, ⟨h₅, hvars⟩⟩ :=
    (emits_parameterScope fun v hv => l₄.usable (ha₃ v hv)).walks (X := ∅) l₄.inv vars s₅ h₅
  cases h₅.ledger
  have hg := gives_after (show Gives get c s₅ s₅ s₅ from rfl) hg
  obtain ⟨⟨⟩, s₆, h₆, hbody⟩ := gives_bind.mp hg
  cases gives_modify h₆
  obtain ⟨o, s₇, h₇, hpop⟩ := gives_bind.mp hbody
  obtain ⟨⟨⟩, s₈, h₈, hresume⟩ := gives_bind.mp hpop
  obtain ⟨⟨⟩, s₉, h₉, htake⟩ := gives_bind.mp hresume
  obtain ⟨rfl, rfl⟩ := gives_resume h₉
  obtain ⟨incoming, s₁₀, h₁₀, hmerge⟩ := gives_bind.mp htake
  obtain ⟨g₁₀, h⟩ := gives_inlined hv hi hm hd.owns hb (l₄.trans l₅) h₅.keeps.same hvars
    (gives_attempted h₇) h₈ h₁₀
  have hx : (s₃.fn.func, exit) ∈ ({p | ¬ s.Has p.1 p.2} : Set (FuncId × BlockId)) :=
    l₁₃.mem_fresh hfresh
  have l₁₀ : Leg c e {p | ¬ s.Has p.1 p.2} g₃ s₃ g₁₀ s₁₀ := h.leg.narrow fun f b hb => .inl (by
    rw [Set.mem_singleton_iff.mp hb]
    exact hx)
  obtain ⟨v, s₁₁, h₁₁, hret⟩ := gives_bind.mp hmerge
  have hret := gives_after
    (show Gives (typeOf n) c s₁₁ (n.type.getD c.nil) s₁₁ from rfl) hret
  obtain ⟨rfl, rfl⟩ := gives_pure.mp hret
  obtain ⟨g₁₁, l₁₁, hw, hu⟩ := walks_merge (m := { block := exit, type := n.type, slot, incoming })
    (w := g.waiting) (X := {p | ¬ s.Has p.1 p.2}) h.held (by rw [l₁₀.stay.fn]; exact hx)
    h.terminated (by rw [h.waiting, hw₃, l₁₀.stay.fn, l₁₃.stay.fn]) l₁₀.inv v s' h₁₁
  exact ⟨g₁₁, l₁₀.trans l₁₁, hw, hu⟩

/-! ### Blocks -/

theorem walks_discard {nodes : List Node} (ho : c.program.Owns e (Node.preorderList nodes)) :
    Walks c e X g s (discard visit nodes) fun g' s' _ =>
      Leg c e ∅ g s g' s' ∧ g'.waiting = g.waiting := by
  induction nodes generalizing g s with
  | nil => exact .pure fun hi => ⟨.refl hi, rfl⟩
  | cons n rest ih =>
    rw [Node.preorderList, Program.Owns.append] at ho
    refine (hv e X g s n ho.1).bind fun v g₁ s₁ _ h₁ => ?_
    exact (ih ho.2).mono fun g₂ s₂ _ _ h₂ => ⟨h₁.leg.trans h₂.1, h₂.2.trans h₁.waiting⟩

omit hv in
theorem preorderList_drop {nodes : List Node} {k : Nat} :
    Node.preorderList (nodes.drop k) ⊆ Node.preorderList nodes := by
  induction k generalizing nodes with
  | zero => exact List.Subset.refl _
  | succ k ih =>
    cases nodes with
    | nil => exact List.Subset.refl _
    | cons n rest => exact List.Subset.trans ih (List.subset_append_right _ _)

omit hv in
theorem owns_drop {nodes : List Node} (ho : c.program.Owns e (Node.preorderList nodes)) (k : Nat) :
    c.program.Owns e (Node.preorderList (nodes.drop k)) :=
  ho.mono preorderList_drop

omit hv in
theorem owns_head {nodes : List Node} (ho : c.program.Owns e (Node.preorderList nodes)) :
    c.program.Owns e (Node.preorderOption nodes.head?) := by
  cases nodes with
  | nil => exact .nil
  | cons n rest =>
    rw [Node.preorderList, Program.Owns.append] at ho
    exact ho.1

omit hv in
theorem Leg.visible {vars : Scope} (h : Leg c e X g s g' s') (hv : Visible c (some e) s vars) :
    Visible c (some e) s' vars :=
  fun p hp => h.usable (hv p hp)

omit hv in
/-- What follows the value that a parameter of a block is given. -/
theorem walks_blockParameter {vars : Scope} {a : BlockArg} {v : Value} {t : TypeId}
    {x : Scope → Gen (Option Scope)} {P : Ledger → State → Option Scope → Prop}
    (hvars : Visible c (some e) s vars) (hu : Usable c (some e) s v)
    (hnone : s.builder.isTerminated = true → Inv c e g s → P g s none)
    (hsome : ∀ g₁ s₁ vars₁, Leg c e ∅ g s g₁ s₁ → g₁.waiting = g.waiting →
      Visible c (some e) s₁ vars₁ → Walks c e X g₁ s₁ (x vars₁) P) :
    Walks c e X g s (do
      if ← isTerminated then return none
      else
        let slot ← alloca (← irType a.type) (some a.name)
        assign slot a.type t v
        x ((a.name, { ptr := slot, type := a.type }) :: vars)) P := by
  refine .ask (a := s.builder.isTerminated) rfl ?_
  split
  · rename_i ht
    exact .pure (hnone ht)
  · refine .ask rfl (emits_alloca.walks.bind fun slot g₁ s₁ _ ⟨h₁, hslot⟩ => ?_)
    refine (emits_assign hslot (h₁.keeps.usable hu)).walks.bind fun _ g₂ s₂ _ ⟨h₂, _⟩ => ?_
    have hleg := h₁.leg.trans h₂.leg
    exact hsome g₂ s₂ _ hleg (by rw [h₂.ledger, h₁.ledger])
      (.cons (h₂.keeps.usable hslot) (hleg.visible hvars))

omit hv in
theorem owns_tail {nodes : List Node} (ho : c.program.Owns e (Node.preorderList nodes)) :
    c.program.Owns e (Node.preorderList nodes.tail) := by
  rw [← List.drop_one]
  exact owns_drop ho 1

/-- What holds when the parameters of a block have their values, unless code there never runs. -/
structure Bound (c : Context) (e : Entity) (g : Ledger) (s : State) (g' : Ledger) (s' : State)
    (o : Option Scope) : Prop where
  leg : Leg c e ∅ g s g' s'
  waiting : g'.waiting = g.waiting
  visible : ∀ vars, o = some vars → Visible c (some e) s' vars
  terminated : o = none → s'.builder.isTerminated = true

theorem walks_blockScope {vars : Scope} {args : List BlockArg} {values : List Node}
    (hvars : Visible c (some e) s vars) (ho : c.program.Owns e (Node.preorderList values)) :
    Walks c e X g s (blockScope visit vars args values) (Bound c e g s) := by
  induction args generalizing g s vars values with
  | nil =>
    refine .pure fun hi => ⟨.refl hi, rfl, fun vars' h => ?_, by simp⟩
    rw [← Option.some.inj h]
    exact hvars
  | cons a args ih =>
    refine (walks_operand hv (owns_head ho)).bind fun r g₁ s₁ _ h₁ => ?_
    obtain ⟨v, t⟩ := r
    refine walks_blockParameter (x := fun vars => blockScope visit vars args values.tail)
      (h₁.leg.visible hvars) h₁.usable (fun ht _ => ⟨h₁.leg, h₁.waiting, by simp, fun _ => ht⟩)
      fun g₂ s₂ vars₂ l₂ w₂ hvars₂ => ?_
    exact (ih hvars₂ (owns_tail ho)).mono fun _ _ _ _ h =>
      { h with leg := h₁.leg.trans (l₂.trans h.leg), waiting := by rw [h.waiting, w₂, h₁.waiting] }

omit hv in
/-- Jumps out of a block lead where the activation in which it was written leads, or to the end of
the call that it was given to. -/
theorem callTargets_inBlock {vars : Scope} {fr : BlockFrame} (hp : fr.caller ∈ g.parked) :
    Activation.callTargets
      { vars
        scope := fr.caller.scope
        returnTarget := fr.caller.returnTarget
        breakTarget := s.act.returnTarget.map BreakTarget.call } ⊆ g.callTargets s := by
  intro t ht
  rcases List.mem_append.mp ht with ht | ht
  · refine List.mem_flatMap.mpr ⟨fr.caller, ?_, List.mem_append_left _ ht⟩
    exact List.mem_cons_of_mem _ (List.mem_append_right _ hp)
  · refine List.mem_flatMap.mpr ⟨s.act, List.mem_cons_self, List.mem_append_left _ ?_⟩
    cases hret : s.act.returnTarget with
    | none => simp [hret] at ht
    | some id => simpa [hret] using ht

omit hv in
theorem loopExits_inBlock {vars : Scope} {fr : BlockFrame} :
    Activation.loopExits
      { vars
        scope := fr.caller.scope
        returnTarget := fr.caller.returnTarget
        breakTarget := s.act.returnTarget.map BreakTarget.call } ⊆ g.loopExits s := by
  intro b hb
  cases hret : s.act.returnTarget <;> simp [Activation.loopExits, hret] at hb

/-- The body of a block runs under the activation in which the block was written. -/
theorem walks_blockBody {vars : Scope} {fr : BlockFrame} (hvars : Visible c (some e) s vars)
    (hb : c.program.Owns e (blockCode fr.block)) (hp : fr.caller ∈ g.parked) :
    Walks c e X g s (withActivation
        { vars
          scope := fr.caller.scope
          returnTarget := fr.caller.returnTarget
          breakTarget := s.act.returnTarget.map BreakTarget.call }
        (operand visit fr.block.body)) fun g' s' r =>
      g'.waiting = g.waiting ∧ Usable c (some e) s' r.1 :=
  walks_withActivation hvars (callTargets_inBlock hp) loopExits_inBlock
    (P := fun g' s' r => g'.waiting = g.waiting ∧ Usable c (some e) s' r.1)
    ((walks_operand hv hb).mono fun _ _ _ _ h => ⟨h.waiting, h.usable⟩) fun g₂ s₂ r h =>
      ⟨h.1, by exact UsableIn.mono (s := s₂) ⟨.refl _, fun _ _ h _ => h⟩ h.2⟩

/-- What follows the values that a block is given. -/
theorem walks_blockAfter {n : Node} {vars : Scope} {fr : BlockFrame}
    (hvars : Visible c (some e) s vars) (hb : c.program.Owns e (blockCode fr.block))
    (hp : fr.caller ∈ g.parked) :
    Walks c e X g s (do
      if ← isTerminated then deadValue n.type
      else
        let act : Activation :=
          { vars
            scope := fr.caller.scope
            returnTarget := fr.caller.returnTarget
            breakTarget := (← get).act.returnTarget.map BreakTarget.call }
        let (value, source) ← withActivation act (operand visit fr.block.body)
        if ← isTerminated then deadValue n.type else asResult n.type value source)
      (Visited c e g s) := by
  refine (Walks.widen (P := fun g' s' v => g'.waiting = g.waiting ∧ Usable c (some e) s' v)
    ?_).mono fun _ _ _ _ h => ⟨h.1, h.2.1, h.2.2⟩
  have hdead : ∀ {g₁ s₁}, g₁.waiting = g.waiting → Walks c e ∅ g₁ s₁ (deadValue n.type)
      fun g' s' v => g'.waiting = g.waiting ∧ Usable c (some e) s' v := fun hw =>
    emits_deadValue.walks.mono fun _ _ _ _ h => ⟨by rw [h.1.ledger, hw], h.2⟩
  refine .ask rfl ?_
  split
  · exact hdead rfl
  · refine .ask rfl ((walks_blockBody hv hvars hb hp).bind
      fun r g₁ s₁ _ ⟨hw₁, hu₁⟩ => .ask (a := s₁.builder.isTerminated) rfl ?_)
    split
    · exact hdead hw₁
    · exact (emits_asResult hu₁).walks.mono fun _ _ _ _ h => ⟨by rw [h.1.ledger, hw₁], h.2⟩

theorem walks_inlineBlock {n : Node} {values : List Node} {fr : BlockFrame}
    (ho : c.program.Owns e (Node.preorderList values))
    (hvars : Visible c (some e) s fr.caller.vars)
    (hb : c.program.Owns e (blockCode fr.block)) (hp : fr.caller ∈ g.parked) :
    Walks c e X g s (inlineBlock visit n values fr) (Visited c e g s) := by
  unfold inlineBlock
  refine (walks_blockScope hv hvars ho).bind fun o g₁ s₁ _ h₁ => ?_
  have hscope : Visited c e g s g₁ s₁ nilValue := ⟨h₁.leg, h₁.waiting, trivial⟩
  cases o with
  | none => exact hscope.emits emits_deadValue
  | some vars =>
    refine (walks_discard hv (owns_drop ho _)).bind fun _ g₂ s₂ _ ⟨l₂, hw₂⟩ => ?_
    have hpark : fr.caller ∈ g₂.parked := by
      rw [l₂.stay.parked, h₁.leg.stay.parked]
      exact hp
    exact (walks_blockAfter hv (l₂.visible (h₁.visible vars rfl)) hb hpark).mono fun _ _ _ _ h =>
      hscope.trans (.trans (v := nilValue) ⟨l₂, hw₂, trivial⟩ h)

section

variable {fr : BlockFrame} {rest : List BlockFrame} (hblocks : s.blocks = fr :: rest)
include hblocks

omit hv in
theorem callTargets_yielding {t : TargetId} :
    t ∈ (g.park (fr.caller :: g.parked)).callTargets (s.under s.act rest) ↔
      t ∈ g.callTargets s := by
  simp only [Ledger.callTargets, Ledger.activations, hblocks, List.flatMap_cons, Ledger.park,
    State.under, List.flatMap_append, List.mem_append, List.map_cons, List.cons_append]
  tauto

omit hv in
theorem loopExits_yielding {b : BlockId} :
    b ∈ (g.park (fr.caller :: g.parked)).loopExits (s.under s.act rest) ↔ b ∈ g.loopExits s := by
  simp only [Ledger.loopExits, Ledger.activations, hblocks, List.flatMap_cons, Ledger.park,
    State.under, List.flatMap_append, List.mem_append, List.map_cons, List.cons_append]
  tauto

omit hv in
/-- The activation in which a block was written is parked while the block is not pending. -/
theorem Inv.yielding (hi : Inv c e g s) :
    Inv c e (g.park (fr.caller :: g.parked)) (s.under s.act rest) :=
  hi.under hi.vars (fun fr' hfr' => hi.frames fr' (hblocks ▸ List.mem_cons_of_mem _ hfr'))
    (hi.aimed.under (fun _ ht => (callTargets_yielding hblocks).mp ht)
      fun _ hb => .inl ((loopExits_yielding hblocks).mp hb))

end

omit hv in
/-- What holds of the pending block in place holds of a `yield`, after which it is pending again. -/
theorem walks_pending {n : Node} {values : List Node} {P : Ledger → State → Value → Prop}
    (hx : ∀ fr rest, Visible c (some e) (s.under s.act rest) fr.caller.vars →
      c.program.Owns e (blockCode fr.block) →
        Walks c e ∅ (g.park (fr.caller :: g.parked)) (s.under s.act rest)
          (inlineBlock visit n values fr) fun g' s' v =>
            P (g'.park g.parked) (s'.under s'.act s.blocks) v) :
    Walks c e ∅ g s (yield visit n values) P := by
  refine .ask rfl ?_
  cases hblocks : s.blocks with
  | nil => exact .fail
  | cons fr rest =>
  intro hi v s' hg
  obtain ⟨⟨⟩, s₁, h₁, hg₁⟩ := gives_bind.mp hg
  have h₁ : s₁ = s.under s.act rest := gives_modify h₁
  subst h₁
  obtain ⟨s₂, h₂, h₃⟩ := gives_attempt hg₁
  have h₃ : s' = s₂.under s₂.act (fr :: s₂.blocks) := gives_modify h₃
  subst h₃
  obtain ⟨hvars, hown⟩ := hi.frames fr (by simp [hblocks])
  have hc := fun t => callTargets_yielding (g := g) hblocks (t := t)
  have hl := fun b => loopExits_yielding (g := g) hblocks (b := b)
  have hvars₁ : Visible c (some e) (s.under s.act rest) fr.caller.vars := fun p hp =>
    UsableIn.mono ⟨.refl _, fun _ _ h _ => h⟩ (hvars p hp)
  obtain ⟨g₂, l₂, hd⟩ := hx fr rest hvars₁ hown (hi.yielding hblocks) v s₂ h₂
  have hleg : Leg c e ∅ g s (g₂.park g.parked) (s₂.under s₂.act s.blocks) := Leg.bracket hi
    (.under (fun t ht => (hc t).mp ht) fun b hb => .inl ((hl b).mp hb)) l₂
    (fun t ht => (hc t).mpr ht) (fun b hb => (hl b).mpr hb) rfl rfl rfl l₂.stay.scope
    l₂.stay.returnTarget l₂.stay.breakTarget l₂.inv.vars
  rw [show s₂.blocks = rest from l₂.stay.blocks, ← hblocks]
  exact ⟨_, hleg, hblocks ▸ hd⟩

theorem walks_yield {n : Node} {values : List Node}
    (ho : c.program.Owns e (Node.preorderList values)) :
    Walks c e X g s (yield visit n values) (Visited c e g s) := by
  refine (Walks.widen (P := fun g' s' v => g'.waiting = g.waiting ∧ Usable c (some e) s' v)
    ?_).mono fun _ _ _ _ h => ⟨h.1, h.2.1, h.2.2⟩
  exact walks_pending fun fr rest hvars hown =>
    (walks_inlineBlock hv ho hvars hown List.mem_cons_self).mono fun _ _ _ _ h =>
      ⟨h.waiting, UsableIn.mono ⟨.refl _, fun _ _ h _ => h⟩ h.usable⟩

end

end Lowering.Gen
