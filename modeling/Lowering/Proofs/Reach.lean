import Lowering.Proofs.Jump

/-!
# Code out of reach

Blocks that nothing leads to from what there was before an expression.  They stay so as generation
goes on elsewhere: a jump leads to blocks that its step was given, to new ones, and to those that
`return` and `break` lead to, which were there before.  And while generation goes on in them, what
is added is out of reach with them.

* `Gen.Since`: a state that generation has come to from an earlier one;
* `Gen.Shut`: new blocks to which no others lead; `Gen.Shut.along`, `Gen.Shut.through`;
* `Gen.OutOfReach`: generation goes on where nothing leads; `Gen.OutOfReach.along`,
  `Gen.OutOfReach.since`.
-/

namespace Lowering.Gen

open IR (Ty Value FuncId BlockId GlobalId Build Module Inst Terminator)
open Relation (ReflTransGen)

variable {α : Type} {c : Context} {e : Entity} {g g₁ g' : Ledger} {s₀ s s₁ s' : State}
  {X : Set (FuncId × BlockId)} {U V : Set BlockId}

/-! ### Since a state -/

/-- A state that generation has come to from an earlier one in the same function. -/
structure Since (c : Context) (e : Entity) (s₀ : State) (g : Ledger) (s : State) : Prop where
  begun : ∃ g₀ X, Inv c e g₀ s₀ ∧ Leg c e X g₀ s₀ g s

namespace Since

theorem refl (hi : Inv c e g s) : Since c e s g s := ⟨g, ∅, hi, .refl hi⟩

variable (h : Since c e s₀ g s)
include h

theorem inv : Inv c e g s := by
  obtain ⟨_, _, -, l⟩ := h
  exact l.inv

theorem has {b : BlockId} (hb : s₀.Has s.fn.func b) : s.Has s.fn.func b := by
  obtain ⟨_, _, -, l⟩ := h
  exact l.path.grows.has hb

theorem hasFirst : s₀.Has s.fn.func ⟨0⟩ := by
  obtain ⟨_, _, hi, l⟩ := h
  rw [l.stay.fn]
  exact hi.hasFirst

/-- A new block is none that `return` and `break` lead to. -/
theorem notAim {b : BlockId} (hb : ¬ s₀.Has s.fn.func b) : ¬ g.Aims s b := by
  obtain ⟨g₀, X, hi, l⟩ := h
  rw [l.stay.fn] at hb
  exact l.notAim hi fun ha => hb (hi.aimed.inside ha).inside

theorem along (l : Leg c e X g s g' s') : Since c e s₀ g' s' := by
  obtain ⟨g₀, Y, hi, l₀⟩ := h
  have hw : ∀ {Z W : Set (FuncId × BlockId)} {g₁ s₁ g₂ s₂}, Leg c e Z g₁ s₁ g₂ s₂ →
      Leg c e (Z ∪ W) g₁ s₁ g₂ s₂ := fun l => l.narrow fun _ _ hm => .inl (.inl hm)
  refine ⟨g₀, Y ∪ X, hi, (hw l₀).trans ?_⟩
  rw [Set.union_comm]
  exact hw l

end Since

/-! ### What leads to the blocks of an entity -/

/-- What is being generated is no initializer that was finished. -/
theorem Inv.ne_constant (hi : Inv c e g s) {r : Region} (hr : r ∈ g.chain) :
    e ≠ .constant r.constant := fun he =>
  hi.chained.running r.constant (List.mem_map_of_mem hr) (he ▸ List.mem_cons_self)

theorem Inv.owner_tail (hi : Inv c e g s) : g.owner c.main.func s.constTail ≠ some e := by
  have hmem : s.constTail ∈ g.lasts c := hi.chained.tail ▸ List.getLast_mem _
  rcases List.mem_cons.mp hmem with he | hmem
  · rw [he, hi.chained.head.2]
    nofun
  · obtain ⟨r, hr, he⟩ := List.mem_map.mp hmem
    rw [← he, (hi.chained.regions r hr _ (.inr rfl)).2]
    exact fun h => hi.ne_constant hr (Option.some.inj h).symm

/-- A block that leads to one of the current entity belongs to that entity. -/
theorem Inv.owner_of_leads {b b' : BlockId} (hi : Inv c e g s) (hl : s.Leads s.fn.func b b')
    (hne : b ≠ ⟨0⟩) (ho : g.owner s.fn.func b' = some e) : g.owner s.fn.func b = some e := by
  have hc := hi.chained
  by_cases hf : s.fn.func = c.main.func
  · rw [hf] at hl ho ⊢
    rcases hc.edges b b' hl with he | hlink
    · rw [he, ho]
    · obtain ⟨r, hr, rfl⟩ := List.mem_map.mp (List.of_mem_zip hlink).2
      rw [(hc.regions r hr _ (.inl rfl)).2] at ho
      exact absurd (Option.some.inj ho).symm (hi.ne_constant hr)
  · obtain ⟨d, -, -, hown⟩ := hc.entities _ hf hi.hasFirst
    rw [hown b hl.hasBlock hne, hi.entity hown]

/-- What has a terminator is as it was. -/
theorem Leg.frozen {b : BlockId} (l : Leg c e X g s g' s') (hb : s.Has s.fn.func b)
    (ht : (s.block s.fn.func b).term.isSome) : s'.block s.fn.func b = s.block s.fn.func b :=
  ((l.path.grows.code.function _ (index_lt_of_hasBlock hb)).block _ hb).frozen ht

/-- A block leads to one of the current entity as it did before a step, unless the step was given it
or goes on in it. -/
theorem Leg.leads_before {b b' : BlockId} (l : Leg c e X g s g' s') (hi : Inv c e g s)
    (hb' : s.Has s.fn.func b') (hl : s'.Leads s.fn.func b' b)
    (ho : g'.owner s.fn.func b = some e) : s.Leads s.fn.func b' b ∨ (s.fn.func, b') ∈ X ∨
      s.builder.position = some (s.fn.func, b') ∧ s.builder.isTerminated = false := by
  have hsame : (s'.block s.fn.func b').term = (s.block s.fn.func b').term →
      s.Leads s.fn.func b' b := fun he => by
    obtain ⟨t, ht, hm⟩ := hl
    exact ⟨t, he.symm.trans ht, hm⟩
  by_cases hX : (s.fn.func, b') ∈ X
  · exact .inr (.inl hX)
  by_cases hp : s.builder.position = some (s.fn.func, b')
  · cases ht : s.builder.isTerminated with
    | false => exact .inr (.inr ⟨hp, rfl⟩)
    | true =>
      rw [isTerminated_eq hp] at ht
      exact .inl (hsame (congrArg IR.BasicBlock.term (l.frozen hb' ht)))
  by_cases htail : (s.fn.func, b') = (c.main.func, s.constTail)
  · -- the last block of the initializers is another entity's, and leads to its blocks only
    obtain ⟨hmain, rfl⟩ := Prod.mk.inj htail
    have hfn : s'.fn.func = s.fn.func := congrArg FunctionState.func l.stay.fn
    have ho : g'.owner s.fn.func s.constTail = some e := by
      rw [← hfn] at hl ho ⊢
      exact l.inv.owner_of_leads hl hi.tail.2 ho
    rw [l.path.owner _ _ hb', hmain] at ho
    exact absurd ho hi.owner_tail
  · exact .inl (hsame (l.path.terms _ b' hb' hX hp htail))

/-! ### Blocks that are out of reach -/

/-- Blocks of the current function that are new since a state, and that no other block leads to. -/
structure Shut (c : Context) (e : Entity) (s₀ : State) (g : Ledger) (s : State)
    (U : Set BlockId) : Prop where
  since : Since c e s₀ g s
  inside : ∀ b ∈ U, s.Has s.fn.func b
  new : ∀ b ∈ U, ¬ s₀.Has s.fn.func b
  owner : ∀ b ∈ U, g.owner s.fn.func b = some e
  closed : ∀ b ∈ U, ∀ b', s.Leads s.fn.func b' b → b' ∈ U

/-- Generation goes on in some blocks, or in none. -/
def GoesOnIn (s : State) (U : Set BlockId) : Prop :=
  s.builder.isTerminated = true ∨ ∃ b ∈ U, s.builder.position = some (s.fn.func, b)

theorem GoesOnIn.mono (h : GoesOnIn s U) (hs : U ⊆ V) : GoesOnIn s V :=
  h.imp_right fun ⟨b, hb, hp⟩ => ⟨b, hs hb, hp⟩

/-- New blocks that nothing leads to are shut. -/
theorem Since.shut (h : Since c e s₀ g s) (hspare : ∀ b ∈ U, Spare c e g s b)
    (hnew : ∀ b ∈ U, ¬ s₀.Has s.fn.func b) (hn : ∀ b ∈ U, ∀ p, ¬ s.Leads s.fn.func p b) :
    Shut c e s₀ g s U :=
  ⟨h, fun b hb => (hspare b hb).idle.inside, hnew, fun b hb => (hspare b hb).idle.owner,
    fun b hb b' hl => absurd hl (hn b hb b')⟩

namespace Shut

theorem union (h : Shut c e s₀ g s U) (h' : Shut c e s₀ g s V) : Shut c e s₀ g s (U ∪ V) where
  since := h.since
  inside b := fun hb => hb.elim (h.inside b) (h'.inside b)
  new b := fun hb => hb.elim (h.new b) (h'.new b)
  owner b := fun hb => hb.elim (h.owner b) (h'.owner b)
  closed b hb b' hl := hb.imp (h.closed b · b' hl) (h'.closed b · b' hl)

/-- What is new since a state is so since earlier ones. -/
theorem earlier (h : Shut c e s g' s' U) (hs : Since c e s₀ g s) (l : Leg c e X g s g' s') :
    Shut c e s₀ g' s' U :=
  { h with
    since := hs.along l
    new := fun b hb h₀ => h.new b hb (by
      rw [l.stay.fn] at h₀ ⊢
      exact hs.has h₀) }

/-- Blocks that are shut stay so while others are taken up. -/
theorem along (h : Shut c e s₀ g s U) (l : Leg c e X g s g' s')
    (hx : ∀ b ∈ U, (s.fn.func, b) ∉ X) : Shut c e s₀ g' s' U := by
  refine ⟨h.since.along l, fun b hb => l.has (h.inside b hb), ?_, ?_, ?_⟩
  all_goals rw [l.stay.fn]
  · exact h.new
  · exact fun b hb => (l.path.owner _ b (h.inside b hb)).trans (h.owner b hb)
  · intro b hb b' hl
    rcases l.path.edges _ b' b (h.inside b hb) hl with hl | hm | ⟨-, ha⟩
    · exact h.closed b hb b' hl
    · exact absurd hm (hx b hb)
    · exact absurd ha (h.since.notAim (h.new b hb))

/-- While generation goes on in blocks that are shut, what it adds is shut with them. -/
theorem through (h : Shut c e s₀ g s U) (hin : GoesOnIn s U) (l : Leg c e X g s g' s')
    (hx : ∀ b, (s.fn.func, b) ∈ X → s.Has s.fn.func b → b ∈ U) :
    ∃ V, U ⊆ V ∧ (∀ b ∈ V, b ∈ U ∨ ¬ s.Has s.fn.func b) ∧ Shut c e s₀ g' s' V ∧ GoesOnIn s' V := by
  have hi := h.since.inv
  have hfn : s'.fn.func = s.fn.func := congrArg FunctionState.func l.stay.fn
  -- What is shut afterwards: also the new blocks, but for those of initializers begun meanwhile.
  let V := U ∪ {b | ¬ s.Has s.fn.func b ∧ s'.Has s.fn.func b ∧ g'.owner s.fn.func b = some e}
  have hV : ∀ b ∈ V, g'.owner s.fn.func b = some e := fun b hb =>
    hb.elim (fun hb => (l.path.owner _ b (h.inside b hb)).trans (h.owner b hb)) (·.2.2)
  refine ⟨V, Set.subset_union_left, fun b hb => hb.imp_right And.left, ?_, ?_⟩
  · refine ⟨h.since.along l, ?_, ?_, ?_, ?_⟩
    all_goals rw [hfn]
    · exact fun b hb => hb.elim (fun hb => l.path.grows.has (h.inside b hb)) (·.2.1)
    · exact fun b hb => hb.elim (h.new b) fun hb hs => hb.1 (h.since.has hs)
    · exact hV
    · intro b hb b' hl
      by_cases hb' : s.Has s.fn.func b'
      · rcases l.leads_before hi hb' hl (hV b hb) with hl | hX | ⟨hp, ht⟩
        · rcases hb with hb | ⟨hb, -⟩
          · exact .inl (h.closed _ hb _ hl)
          · exact absurd ((hi.sound _).targets _ _ hl).1 hb
        · exact .inl (hx b' hX hb')
        · rcases hin with ht' | ⟨p, hpU, hp'⟩
          · exact absurd (ht.symm.trans ht') Bool.false_ne_true
          · rw [hp, Option.some.injEq, Prod.mk.injEq] at hp'
            exact .inl (hp'.2 ▸ hpU)
      · have hne : b' ≠ ⟨0⟩ := fun h0 => hb' (h0 ▸ hi.hasFirst)
        refine .inr ⟨hb', hl.hasBlock, ?_⟩
        have ho := hV b hb
        rw [← hfn] at hl ho ⊢
        exact l.inv.owner_of_leads hl hne ho
  · obtain ⟨p, hp, hhas⟩ := l.inv.steady.position
    have hp : s'.builder.position = some (s.fn.func, p) := hfn ▸ hp
    have hnew : ¬ s.Has s.fn.func p → GoesOnIn s' V := fun hb =>
      .inr ⟨p, .inr ⟨hb, hfn ▸ hhas, hfn ▸ (l.inv.position p (hfn.symm ▸ hp)).2.2⟩, hfn.symm ▸ hp⟩
    rcases l.path.position with hsame | hmoved
    · rcases hin with ht | ⟨b, hb, hpb⟩
      · have hpos : s.builder.position = some (s.fn.func, p) := hsame.symm.trans hp
        rw [isTerminated_eq hpos] at ht
        refine .inl ?_
        rw [isTerminated_eq hp, l.frozen (hi.has_position hpos) ht]
        exact ht
      · exact .inr ⟨b, .inl hb, by rw [hsame, hpb, hfn]⟩
    · rcases hmoved _ p hp with hX | hb
      · by_cases hb : s.Has s.fn.func p
        · exact .inr ⟨p, .inl (hx p hX hb), by rw [hp, hfn]⟩
        · exact hnew hb
      · exact hnew hb

/-- The same when it may take up one more block, which is shut as well. -/
theorem toward {b : BlockId} (h : Shut c e s₀ g s U) (hin : GoesOnIn s U)
    (l : Leg c e {(s.fn.func, b)} g s g' s') (hb : b ∈ U) :
    ∃ V, U ⊆ V ∧ (∀ b ∈ V, b ∈ U ∨ ¬ s.Has s.fn.func b) ∧ Shut c e s₀ g' s' V ∧ GoesOnIn s' V :=
  h.through hin l fun _ hm _ => (Prod.mk.inj (Set.mem_singleton_iff.mp hm)).2 ▸ hb

/-- A jump out of blocks that are shut may lead anywhere. -/
theorem ended {b : BlockId} (h : Shut c e s₀ g s U) (hin : GoesOnIn s U)
    (l : Leg c e {(s.fn.func, b)} g s g' s') : ∃ V, U ⊆ V ∧ Shut c e s₀ g' s' V := by
  by_cases hb : b ∈ U
  · obtain ⟨V, hsub, -, hV, -⟩ := h.toward hin l hb
    exact ⟨V, hsub, hV⟩
  · exact ⟨U, subset_rfl, h.along l fun b' hb' => notMem_of_ne fun he => hb (he ▸ hb')⟩

end Shut

/-- Generation goes on where no jumps lead from what there was in an earlier state, or nowhere. -/
def OutOfReach (s₀ s : State) : Prop :=
  s.builder.isTerminated = true ∨ ∀ b₀ b, s₀.Has s.fn.func b₀ →
    s.builder.position = some (s.fn.func, b) → ¬ ReflTransGen (s.Leads s.fn.func) b₀ b

theorem Shut.outOfReach (h : Shut c e s₀ g s U) (hin : GoesOnIn s U) : OutOfReach s₀ s := by
  refine hin.imp_right fun ⟨b, hb, hp⟩ b₀ b' h₀ hp' hr => ?_
  rw [hp, Option.some.injEq, Prod.mk.injEq] at hp'
  cases hp'.2
  refine h.new b₀ ?_ h₀
  clear h₀
  induction hr using ReflTransGen.head_induction_on with
  | refl => exact hb
  | head hl _ ih => exact h.closed _ ih _ hl

namespace OutOfReach

/-- The blocks of the current entity that are out of reach are shut. -/
theorem exists_shut (h : OutOfReach s₀ s) (hs : Since c e s₀ g s) :
    ∃ U, Shut c e s₀ g s U ∧ GoesOnIn s U := by
  -- What leads to a block out of reach is out of reach, and of the same entity unless it is the
  -- entry, which is not.
  let U := {b | s.Has s.fn.func b ∧ g.owner s.fn.func b = some e ∧
    ∀ b₀, s₀.Has s.fn.func b₀ → ¬ ReflTransGen (s.Leads s.fn.func) b₀ b}
  refine ⟨U, ⟨hs, fun b hb => hb.1, fun b hb h₀ => hb.2.2 b h₀ .refl, fun b hb => hb.2.1,
    fun b hb b' hl => ?_⟩, h.imp_right fun h => ?_⟩
  · have hreach : ∀ b₀, s₀.Has s.fn.func b₀ → ¬ ReflTransGen (s.Leads s.fn.func) b₀ b' :=
      fun b₀ h₀ hr => hb.2.2 b₀ h₀ (hr.tail hl)
    have hne : b' ≠ ⟨0⟩ := fun h0 => hreach b' (h0 ▸ hs.hasFirst) .refl
    exact ⟨hl.hasBlock, hs.inv.owner_of_leads hl hne hb.2.1, hreach⟩
  · obtain ⟨b, hp, hb⟩ := hs.inv.steady.position
    exact ⟨b, ⟨hb, (hs.inv.position b hp).2.2, fun b₀ h₀ => h b₀ b h₀ hp⟩, hp⟩

/-- Blocks that were shut before a step are so with those that it ends in out of reach. -/
theorem joined (h : OutOfReach s s') (hU : Shut c e s₀ g s U) (l : Leg c e ∅ g s g' s') :
    ∃ V, U ⊆ V ∧ (∀ b ∈ V, b ∈ U ∨ ¬ s.Has s.fn.func b) ∧ Shut c e s₀ g' s' V ∧ GoesOnIn s' V := by
  obtain ⟨W, hW, hin⟩ := h.exists_shut (.along (.refl hU.since.inv) l)
  refine ⟨U ∪ W, Set.subset_union_left, fun b hb => hb.imp_right fun hb hs => hW.new b hb ?_,
    (hU.along l fun _ _ => Set.notMem_empty _).union (hW.earlier hU.since l),
    hin.mono Set.subset_union_right⟩
  rwa [l.stay.fn]

/-- What is out of reach stays so as generation goes on. -/
theorem along (h : OutOfReach s₀ s) (hs : Since c e s₀ g s) (l : Leg c e ∅ g s g' s') :
    OutOfReach s₀ s' := by
  obtain ⟨U, hU, hin⟩ := h.exists_shut hs
  obtain ⟨V, -, -, hV, hin⟩ := hU.through hin l fun _ hm => absurd hm (Set.notMem_empty _)
  exact hV.outOfReach hin

/-- What is out of reach of a state is so of earlier ones. -/
theorem since (h : OutOfReach s s') (hs : Since c e s₀ g s) (l : Leg c e X g s g' s') :
    OutOfReach s₀ s' :=
  h.imp_right fun h b₀ b h₀ => h b₀ b (by
    rw [l.stay.fn] at h₀ ⊢
    exact hs.has h₀)

end OutOfReach

end Lowering.Gen
