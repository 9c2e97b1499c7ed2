import Lowering.Proofs.Jump

/-!
# Merge points

Each jump to a merge point adds what it carries, so that when generation goes on there, what was
carried is one operand for each block from which the point is reached.

* `Gen.walks_deliver`, `Gen.walks_merge`: merge points of one expression;
* `Gen.walks_jumpToTarget`: merge points that `return` and `break` lead to.
-/

namespace Lowering.Gen

open IR (Ty Value FuncId BlockId GlobalId Build Module Inst Terminator)

variable {c : Context} {e : Entity} {g g' : Ledger} {s s' : State}
  {X : Set (FuncId × BlockId)} {m : MergeTarget} {value : Value} {source : TypeId}

theorem MergeTarget.reached_append (m : MergeTarget) (xs ys : List (Value × BlockId)) :
    m.reached (xs ++ ys) = (m.reached xs).reached ys := by
  simp [MergeTarget.reached]

@[simp] theorem MergeTarget.reached_nil (m : MergeTarget) : m.reached [] = m := by
  simp [MergeTarget.reached]

@[simp] theorem MergeTarget.reached_block (m : MergeTarget) (incoming : List (Value × BlockId)) :
    (m.reached incoming).block = m.block := rfl

theorem emits_mergeSlot {t : Option TypeId} :
    Emits c (some e) s (mergeSlot t) fun s' slot =>
      ∀ v, slot = some v → Usable c (some e) s' v := by
  unfold mergeSlot
  split
  · refine .ask rfl ?_
    split
    · refine .ask rfl (emits_alloca.bind fun v s₁ _ hv => .pure ?_)
      rintro w ⟨⟩
      exact hv
    · exact .pure (by simp)
  · exact .pure (by simp)

theorem gives_currentBlock {b : BlockId} (hp : s.builder.position = some (s.fn.func, b)) :
    Gives currentBlock c s b s := by
  refine gives_bind.mpr ⟨s, s, rfl, ?_⟩
  rw [hp]
  rfl

theorem emits_carry {b : BlockId} (hp : s.builder.position = some (s.fn.func, b))
    (hslot : ∀ v, m.slot = some v → Usable c (some e) s v) (hv : Usable c (some e) s value) :
    Emits c (some e) s (carry m.slot m.type value source) fun s' incoming =>
      Carried c e s' m b incoming := by
  unfold carry
  have hnone : ∀ s', (m.slot = none → ∀ k, m.type = some k → c.program.types.isNil k = true) →
      Carried c e s' m b [] := fun s' h => by
    refine ⟨fun _ hp => absurd hp (by simp), fun hs ⟨k, hk, hn⟩ => ?_⟩
    rw [h hs k hk] at hn
    cases hn
  split
  · rename_i slot t hs _
    exact (emits_assign (hslot slot hs) hv).bind fun _ s₁ _ _ =>
      .pure (hnone s₁ fun h => by rw [hs] at h; cases h)
  · rename_i t hs ht
    refine .ask rfl ?_
    split
    · rename_i hn
      refine .pure (hnone s fun _ k hk => ?_)
      rw [ht] at hk
      cases hk
      exact hn
    · refine (emits_convertExactly hv).bind fun w s₁ k₁ hw => ?_
      have hp₁ : s₁.builder.position = some (s₁.fn.func, b) := by
        rw [k₁.same.position, k₁.same.fn, hp]
      refine .ask (gives_currentBlock hp₁) (.pure ⟨fun p hp => ?_, fun _ _ => rfl⟩)
      rw [List.mem_singleton.mp hp]
      exact hw
  · rename_i ht
    refine .pure (hnone s fun _ k hk => ?_)
    rw [ht] at hk
    cases hk

/-- What holds after a jump to a merge point. -/
structure Delivered (c : Context) (e : Entity) (g : Ledger) (s : State) (m : MergeTarget)
    (g' : Ledger) (s' : State) (incoming : List (Value × BlockId)) : Prop where
  leg : Leg c e {(s.fn.func, m.block)} g s g' s'
  terminated : s'.builder.isTerminated = true
  held : Held c e g' s' (m.reached incoming)
  ledger : g' = g

theorem walks_deliver (hm : Held c e g s m) (hv : Usable c (some e) s value)
    (hx : (s.fn.func, m.block) ∈ X) :
    Walks c e X g s (deliver m.block m.slot m.type value source) (Delivered c e g s m) := by
  suffices h : Walks c e {(s.fn.func, m.block)} g s (deliver m.block m.slot m.type value source)
      fun g' s' incoming => s'.builder.isTerminated = true ∧
        Held c e g' s' (m.reached incoming) ∧ g' = g by
    refine (h.narrow fun f b hb => .inl ?_).mono fun g' s' incoming _ h =>
      ⟨h.1, h.2.1, h.2.2.1, h.2.2.2⟩
    rw [Set.mem_singleton_iff.mp hb]
    exact hx
  unfold deliver
  refine .ask (a := s.builder.isTerminated) rfl ?_
  split
  · rename_i ht
    exact .pure fun _ => ⟨ht, by rwa [MergeTarget.reached_nil], rfl⟩
  rename_i ht
  refine .assume fun hi => ?_
  obtain ⟨b, hp, -⟩ := hi.steady.position
  refine (emits_carry hp hm.awaits.slot hv).walks.bind fun incoming g₁ s₁ _ h₁ => ?_
  obtain ⟨⟨hl₁, hk₁, rfl, hterm⟩, hc⟩ := h₁
  have hm₁ := hl₁.held hm (Set.notMem_empty _)
  have hp₁ : s₁.builder.position = some (s₁.fn.func, b) := by
    rw [hk₁.same.position, hk₁.same.fn, hp]
  have ho₁ : (s₁.block s₁.fn.func b).term = none := by
    rw [isTerminated_eq hp₁, Bool.eq_false_iff.mpr ht] at hterm
    simpa using hterm
  refine (walks_br hm₁.spare.idle.landing (.inl ⟨?_, hm₁.notAim⟩)).bind fun _ g₂ s₂ _ h₂ => ?_
  · rw [hk₁.same.fn]
    rfl
  · obtain ⟨h₂, hs₂⟩ := h₂
    cases hs₂ b hp₁
    refine .pure fun _ => ⟨h₂.terminated, ⟨?_, (h₂.spare _ hm₁.spare).notAim⟩, h₂.ledger⟩
    rw [h₂.ledger]
    exact hm₁.awaits.reached hl₁.inv hp₁ ho₁ hc

/-- What was carried to a merge point gives its value, once generation goes on there. -/
theorem walks_arrived {b : BlockId} (hp : s.builder.position = some (s.fn.func, b))
    (hx : (s.fn.func, b) ∈ X) (ho : s.builder.isTerminated = false)
    (hempty : (s.block s.fn.func b).insts = #[])
    (hslot : ∀ v, m.slot = some v → Usable c (some e) s v)
    (hv : ∀ p ∈ m.incoming, Usable c (some e) s p.1)
    (hsources : m.slot = none → (∃ k, m.type = some k ∧ c.program.types.isNil k = false) →
      (m.incoming.map Prod.snd).Nodup ∧
        ∀ p, p ∈ m.incoming.map Prod.snd ↔ s.Leads s.fn.func p b) :
    Walks c e X g s (arrived m.slot m.type m.incoming) fun g' s' v =>
      g' = g ∧ Usable c (some e) s' v := by
  unfold arrived
  refine .ask (a := m.type.filter fun t => !c.program.types.isNil t) rfl ?_
  split
  · rename_i hs
    exact .pure fun _ => ⟨rfl, hslot _ hs⟩
  · rename_i t hs ht
    obtain ⟨hk, hn⟩ := Option.filter_eq_some_iff.mp ht
    obtain ⟨hnodup, hedges⟩ := hsources hs ⟨t, hk, by simpa using hn⟩
    split
    · rename_i w b' hin
      exact .pure fun _ => ⟨rfl, hv (w, b') (by simp [hin])⟩
    · exact .ask rfl (walks_phi hp hx ho hempty hv hnodup hedges)
  · exact .pure fun _ => ⟨rfl, trivial⟩

theorem emits_deadValue {t : Option TypeId} {e : Option Entity} :
    Emits c e s (deadValue t) (Usable c e) := by
  unfold deadValue
  split
  · refine .ask rfl (.ask rfl ?_)
    split <;> exact .pure trivial
  · exact .pure trivial

theorem walks_merge {w : Set (FuncId × BlockId)} (hm : Held c e g s m)
    (hx : (s.fn.func, m.block) ∈ X) (ht : s.builder.isTerminated = true)
    (hw : g.waiting ⊆ insert (s.fn.func, m.block) w) :
    Walks c e X g s (merge m.block m.slot m.type m.incoming) fun g' s' v =>
      g'.waiting = w ∧ Usable c (some e) s' v := by
  unfold merge
  refine (walks_positionAt hm.spare hx ht hw).bind fun _ g₁ s₁ hl₁ h₁ => ?_
  obtain ⟨-, hw₁, ho₁, -, rfl⟩ := h₁
  refine .ask rfl ?_
  split
  · refine walks_unreachable.bind fun _ g₂ s₂ _ h₂ => ?_
    refine (emits_deadValue.walks).mono fun g₃ s₃ v _ h₃ => ⟨?_, h₃.2⟩
    rw [h₃.1.ledger, h₂.ledger, hw₁]
  · refine (walks_arrived (s := s.atPosition (some (s.fn.func, m.block))) rfl hx ho₁ hm.spare.idle.empty hm.awaits.slot
      hm.awaits.operands hm.awaits.sources).mono fun g₂ s₂ v _ h₂ => ⟨?_, h₂.2⟩
    rw [h₂.1, hw₁]

theorem emits_asResult {t : Option TypeId} {e : Option Entity} (hv : Usable c e s value) :
    Emits c e s (asResult t value source) (Usable c e) := by
  unfold asResult
  refine .ask rfl ?_
  split
  · exact emits_convert hv
  · exact .pure trivial

/-! ### Targets of jumps -/

theorem retarget_of_eq {id : TargetId} {change : MergeTarget → MergeTarget}
    (h : ∀ m, change m = m) : s.retarget id change = s := by
  have : change = fun m => m := funext h
  show { s with targets := s.targets.modify id.index change } = s
  rw [this]
  have : s.targets.modify id.index (fun m => m) = s.targets := by
    apply Array.ext_getElem?
    intro i
    rw [Array.getElem?_modify]
    split <;> simp
  rw [this]

/-- A jump to a merge point that a `return` or a `break` leads to. -/
theorem walks_jumpToTarget {id : TargetId} (hid : id ∈ g.callTargets s)
    (hv : Usable c (some e) s value) :
    Walks c e X g s (jumpToTarget id value source) fun g' s' _ =>
      g' = g ∧ s'.builder.isTerminated = true := by
  intro hi a s' hg
  obtain ⟨m, hm, hw⟩ := hi.aimed.awaits id hid
  have htarget : Gives (target id) c s m s := by
    show @Eq (Except Failure MergeTarget × State) (.ok (s.targets[id.index]?.getD default), s)
      (.ok m, s)
    rw [hm]
    rfl
  have hg := gives_after htarget hg
  obtain ⟨incoming, s₂, hd, hmod⟩ := gives_bind.mp hg
  have hs' : s' = s₂.retarget id fun m => m.reached incoming := gives_modify hmod
  subst hs'
  clear hmod hg htarget
  unfold deliver at hd
  have hd := gives_after (show Gives isTerminated c s s.builder.isTerminated s from rfl) hd
  split at hd
  · rename_i ht
    obtain ⟨rfl, rfl⟩ := gives_pure.mp hd
    rw [retarget_of_eq MergeTarget.reached_nil]
    exact ⟨g, .refl hi, rfl, ht⟩
  rename_i ht
  obtain ⟨b, hp, -⟩ := hi.steady.position
  obtain ⟨inc, s₁, hcarry, hd⟩ := gives_bind.mp hd
  obtain ⟨⟨⟩, s₃, hbr, hd⟩ := gives_bind.mp hd
  obtain ⟨rfl, rfl⟩ := gives_pure.mp hd
  obtain ⟨g₁, hl₁, ⟨-, hk₁, rfl, hterm⟩, hc⟩ :=
    (emits_carry hp hw.slot hv).walks (X := X) hi incoming s₁ hcarry
  have hi₁ := hl₁.inv
  have hp₁ : s₁.builder.position = some (s₁.fn.func, b) := by
    rw [hk₁.same.position, hk₁.same.fn, hp]
  have ho₁ : (s₁.block s₁.fn.func b).term = none := by
    rw [isTerminated_eq hp₁, Bool.eq_false_iff.mpr ht] at hterm
    simpa using hterm
  have hid₁ : id ∈ g₁.callTargets s₁ := by rwa [hl₁.stay.callTargets]
  have hm₁ : s₁.targets[id.index]? = some m := by rw [hk₁.same.targets, hm]
  have haim : g₁.Aims s₁ m.block := .inr ⟨id, hid₁, m, hm₁, rfl⟩
  have hland := (hi₁.aimed.inside haim).landing
  have hj : Jump c e X g₁ s₁ (.br m.block) := by
    refine ⟨fun _ h => absurd h (by simp [IR.Terminator.operands]), fun b' h => ?_, fun b' h => ?_⟩
    · rw [List.mem_singleton.mp h]
      exact hland
    · rw [List.mem_singleton.mp h]
      exact .inr haim
  cases gives_terminate hp₁ hbr
  have hsame : Same s₁ (s₁.ended s₁.fn.func b (.br m.block)) := same_ended
  refine ⟨g₁, ⟨hi₁.ended hp₁ hj (hi₁.aimed.reached hi₁ hp₁ ho₁ hid₁ hm₁ hc), ?_, ?_⟩, rfl,
    terminated_ended (t := .br m.block) hi₁ hp₁⟩
  · exact (hl₁.path.trans (path_ended hi₁ hp₁ hj)).retarget
      (fun _ => by rwa [← hl₁.stay.callTargets]) fun m => ⟨rfl, rfl, rfl⟩
  · exact hl₁.stay.trans { (Stay.of_same hsame : Stay g₁ s₁ g₁ _) with }

end Lowering.Gen
