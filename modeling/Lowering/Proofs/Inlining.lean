import Lowering.Proofs.Begun

/-!
# Code that is inlined on the way

The body of a definition is generated in place of a call, while the block of the call waits, and a
block in place of a `yield`, while it does not wait.  Less is left to do in the body than for the
call, and in the block than where it waited.

* `Gen.sure_withActivation`: a step under another activation;
* `Gen.sure_inlineCall`, `Gen.sure_yield`.
-/

namespace Lowering.Gen

open IR (Ty Value FuncId BlockId GlobalId Build Module)

variable {α β : Type} {c : Context} {e : Entity} {g : Ledger} {s s' : State} {d : Def} {μ : Nat}
  {x y : Gen α} {selfType : Option TypeId} {m : MergeTarget} {block : Block Node}

/-! ### Other activations -/

theorem sure_withActivation {act : Activation} (hv : Visible c (some e) s act.vars)
    (hc : act.callTargets ⊆ g.callTargets s) (hl : act.loopExits ⊆ g.loopExits s)
    (ht : ∀ p ∈ act.vars, c.Knows p.2.type) (hs : ∀ t ∈ act.scope, c.Knows t)
    (h : Sure c e (g.park (s.act :: g.parked)) (s.under act s.blocks) x y) :
    Sure c e g s (withActivation act x) (withActivation act y) := by
  intro hr
  have hlisted : Listed c (g.park (s.act :: g.parked)) (s.under act s.blocks) :=
    { hr.listed with
      scope := hs
      targets := fun t ht => hr.listed.targets t (callTargets_parked hc ht) }
  exact .withActivation (h ⟨hr.inv.parking hv hc fun b hb => .inl (hl hb),
    { hr.tidy with types := ht }, hlisted⟩) hr.tidy.types

/-- A block that waits is still to be generated. -/
theorem load_pushed {p : Program} {act : Activation} :
    load p (s.pushed block act) = load p s + p.weightOption block.body := by
  simp only [load, State.pushed, State.under, List.map_cons, List.sum_cons]
  omega

/-- What is generated in place of a call while its block waits. -/
theorem sure_inPlace {vars : Scope} {scope : Option TypeId} {id : TargetId}
    (hm : s.targets[id.index]? = some m) (hheld : Held c e g s m)
    (hvars : Visible c (some e) s vars) (hb : c.program.Owns e (blockCode block))
    (htypes : ∀ p ∈ vars, c.Knows p.2.type) (hscope : ∀ t ∈ scope, c.Knows t)
    (hargs : ∀ a ∈ block.args, c.Knows a.type) (htype : ∀ t ∈ m.type, c.Knows t)
    (hx : ∀ s, s.InFunction → Restored s (outcome x c s).2)
    (h : Sure c e g (s.pushed block { vars, scope, returnTarget := some id }) x y) :
    Sure c e g s (inPlace block { vars, scope, returnTarget := some id } x)
      (inPlace block { vars, scope, returnTarget := some id } y) := by
  intro hr
  have hlisted : Listed c g (s.pushed block { vars, scope, returnTarget := some id }) := by
    constructor
    case scope => exact hscope
    case callers =>
      intro fr hfr
      rcases List.mem_cons.mp hfr with rfl | hfr
      · exact ⟨hr.tidy.types, hr.listed.scope⟩
      · exact hr.listed.callers fr hfr
    case blocks =>
      intro fr hfr
      rcases List.mem_cons.mp hfr with rfl | hfr
      · exact hargs
      · exact hr.listed.blocks fr hfr
    case targets =>
      intro t ht m' hm'
      rcases mem_callTargets_pushed.mp ht with rfl | ht
      · exact Option.some.inj (hm.symm.trans hm') ▸ htype
      · exact hr.listed.targets t ht m' hm'
    case result => exact hr.listed.result
    case definition => exact hr.listed.definition
  obtain ⟨b, hpos, -⟩ := hr.inv.steady.position
  exact .inPlace (h ⟨hr.inv.pushed hm hheld hvars hb, { hr.tidy with types := htypes }, hlisted⟩)
    hx ⟨b, hpos⟩ hr.tidy.types

theorem walks_addTarget {X : Set (FuncId × BlockId)} {exit : BlockId} {t : Option TypeId}
    {slot : Option Value} : Walks c e X g s (addTarget exit t slot) fun g' s' id => g' = g ∧
      id = ⟨s.targets.size⟩ ∧
        s' = s.withTargets (s.targets.push { block := exit, type := t, slot }) := by
  intro hi id s' h
  cases h
  exact ⟨g, (leg_withTarget hi).widen, rfl, rfl, rfl⟩

section

variable {visit visit' : Visitor} (hf : Follows c μ visit visit')
include hf

theorem sure_inlineBody {target : TargetId} (h : ∀ n ∈ d.body, Within c e μ s n) :
    Sure c e g s (inlineBody visit d target) (inlineBody visit' d target) :=
  (sure_operand hf h).last fun _ => restores_jumpToTarget.wide

theorem sure_inlineCall {n : Node} {args : List Value} (hback : Restoring c visit)
    (hb : c.program.Owns e (blockCode block)) (hd : c.program.Depends e (.definition d))
    (ha : ∀ v ∈ args, Usable c (some e) s v) (hself : ∀ t ∈ selfType, c.Knows t)
    (hparams : ∀ t ∈ d.argTypes, c.Knows t) (hargs : ∀ a ∈ block.args, c.Knows a.type)
    (htype : ∀ t ∈ n.type, c.Knows t)
    (hl : load c.program s + (c.program.weightOption block.body + c.program.weightOption d.body) < μ) :
    Sure c e g s (inlineCall visit n block d selfType args)
      (inlineCall visit' n block d selfType args) := by
  rw [inlineCall_eq, inlineCall_eq]
  refine Sure.bind (.leaf (restores_note (begins_nothing (a := 'i') (by simp) (by decide))))
    (emits_note.walks (X := ∅)) fun _ g₁ s₁ l₁ _ => ?_
  refine Sure.bind (.leaf restores_appendBlock) (walks_appendBlock (X := ∅))
    fun exit g₂ s₂ l₂ h₂ => ?_
  refine Sure.bind (.leaf restores_mergeSlot) (emits_mergeSlot.walks (X := ∅))
    fun slot g₃ s₃ l₃ ⟨h₃, hslot⟩ => ?_
  have hm : Held c e g₃ s₃ { block := exit, type := n.type, slot } :=
    (h₃.leg.held (h₂.held n.type) (Set.notMem_empty _)).slotted hslot
  refine Sure.bind (.leaf restores_addTarget) (walks_addTarget (X := ∅))
    fun id g₄ s₄ l₄ ⟨hg, hid, hs⟩ => ?_
  subst hg hid hs
  have l₁₄ := l₁.trans (l₂.trans (l₃.trans l₄))
  refine Sure.bind (.leaf restores_parameterScope) ((emits_parameterScope fun v hv =>
    l₁₄.usable (ha v hv)).walks (X := ∅)).traced fun vars g₅ s₅ l₅ ⟨⟨h₅, hvars⟩, hgives⟩ => ?_
  obtain rfl := h₅.ledger
  have hm₅ : s₅.targets[s₃.targets.size]? = some { block := exit, type := n.type, slot } := by
    rw [h₅.keeps.same.targets]
    exact Array.getElem?_push_size
  have held₅ := (l₄.trans l₅).held hm (Set.notMem_empty _)
  refine .ask rfl (.assume fun hr => .last ?_ fun _ => Restores.wide ?_)
  · refine sure_inPlace hm₅ held₅ hvars hb (types_of_parameterScope hgives hself hparams) ?_ hargs
      htype (fun s hs => (agree_inlineBody hback.alike d _ s hs).restored () trivial)
      (sure_inlineBody hf fun b hbody => ?_)
    · intro t ht
      rcases Option.or_eq_some_iff.mp ht with ht | ⟨-, ht⟩
      · exact hself t ht
      · exact hr.listed.scope t ht
    · have ho := hd.owns
      rw [Program.code, Option.mem_def.mp hbody] at ho
      refine ⟨ho, ?_⟩
      have hle := (l₁₄.trans l₅).load_le
      rw [load_pushed]
      rw [hbody, show c.program.weightOption (some b) = c.program.weight b from rfl] at hl
      omega
  · exact restores_takeIncoming.bind fun _ => restores_merge.bind fun _ =>
      restores_typeOf.bind fun _ => .pure _

/-! ### Blocks -/

omit hf in
theorem types_of_blockScope {args : List BlockArg} {values : List Node} {vars : Scope}
    {o : Option Scope} (h : Gives (blockScope visit vars args values) c s o s')
    {P : TypeId → Prop} (hv : ∀ p ∈ vars, P p.2.type) (ha : ∀ a ∈ args, P a.type) :
    ∀ vars' ∈ o, ∀ p ∈ vars', P p.2.type := by
  induction args generalizing s vars values with
  | nil =>
    rw [blockScope] at h
    obtain ⟨rfl, -⟩ := gives_pure.mp h
    intro vars' hvars'
    exact Option.some.inj hvars' ▸ hv
  | cons a args ih =>
    obtain ⟨r, s₁, -, h⟩ := gives_bind.mp h
    obtain ⟨done, s₂, -, h⟩ := gives_bind.mp h
    split at h
    · obtain ⟨rfl, -⟩ := gives_pure.mp h
      exact fun _ h => absurd h (by simp)
    · obtain ⟨type, s₃, -, h⟩ := gives_bind.mp h
      obtain ⟨slot, s₄, -, h⟩ := gives_bind.mp h
      obtain ⟨⟨⟩, s₅, -, h⟩ := gives_bind.mp h
      refine ih h (fun p hp => ?_) fun a' ha' => ha a' (List.mem_cons_of_mem _ ha')
      rcases List.mem_cons.mp hp with rfl | hp
      · exact ha a List.mem_cons_self
      · exact hv p hp

variable (hv : Visits c visit)
include hv

theorem sure_blockScope {vars : Scope} {args : List BlockArg} {values : List Node}
    (h : ∀ n ∈ values, Within c e μ s n) :
    Sure c e g s (blockScope visit vars args values) (blockScope visit' vars args values) := by
  induction args generalizing g s vars values with
  | nil => exact .pure _
  | cons a args ih =>
    have hhead : ∀ n ∈ values.head?, Within c e μ s n := fun n hn => h n (List.mem_of_mem_head? hn)
    refine (sure_operand hf hhead).bind (walks_operand (X := ∅) hv (owns_within hhead))
      fun r g₁ s₁ l₁ h₁ => .ask (a := s₁.builder.isTerminated) rfl ?_
    split
    · exact .pure _
    · refine .ask rfl (Sure.bind (.leaf restores_alloca) (emits_alloca.walks (X := ∅))
        fun slot g₂ s₂ l₂ ⟨h₂, hslot⟩ => ?_)
      refine Sure.bind (.leaf restores_assign)
        ((emits_assign hslot (h₂.keeps.usable h₁.usable)).walks (X := ∅)) fun _ g₃ s₃ l₃ _ => ?_
      exact ih fun n hn => (h n (List.mem_of_mem_tail hn)).along (l₁.trans (l₂.trans l₃))

theorem sure_discard {nodes : List Node} (h : ∀ n ∈ nodes, Within c e μ s n) :
    Sure c e g s (discard visit nodes) (discard visit' nodes) := by
  induction nodes generalizing g s with
  | nil => exact .pure ()
  | cons n rest ih =>
    have hn := h n List.mem_cons_self
    exact (hf e g s n hn).bind (hv e ∅ g s n hn.owns) fun v g₁ s₁ l₁ _ =>
      ih fun m hm => (h m (List.mem_cons_of_mem _ hm)).along l₁

theorem sure_inlineBlock {n : Node} {values : List Node} {fr : BlockFrame}
    (h : ∀ m ∈ values, Within c e μ s m) (hbody : ∀ m ∈ fr.block.body, Within c e μ s m)
    (hvars : Visible c (some e) s fr.caller.vars) (hp : fr.caller ∈ g.parked)
    (htypes : ∀ p ∈ fr.caller.vars, c.Knows p.2.type) (hscope : ∀ t ∈ fr.caller.scope, c.Knows t)
    (hargs : ∀ a ∈ fr.block.args, c.Knows a.type) :
    Sure c e g s (inlineBlock visit n values fr) (inlineBlock visit' n values fr) := by
  unfold inlineBlock
  refine (sure_blockScope hf hv h).bind (walks_blockScope (X := ∅) hv hvars (owns_list h)).traced
    fun o g₁ s₁ l₁ ⟨h₁, hgives⟩ => ?_
  cases o with
  | none => exact .leaf restores_deadValue
  | some vars =>
    have htypes₁ := types_of_blockScope hgives htypes hargs vars rfl
    have hdrop : ∀ m ∈ values.drop fr.block.args.length, Within c e μ s₁ m := fun m hm =>
      (h m (List.mem_of_mem_drop hm)).along l₁
    refine (sure_discard hf hv hdrop).bind (walks_discard (X := ∅) hv (owns_list hdrop))
      fun _ g₂ s₂ l₂ _ => .ask (a := s₂.builder.isTerminated) rfl ?_
    split
    · exact .leaf restores_deadValue
    · have hpark : fr.caller ∈ g₂.parked := by
        rw [l₂.stay.parked, l₁.stay.parked]
        exact hp
      refine .ask rfl (.last (sure_withActivation (l₂.visible (h₁.visible vars rfl))
        (callTargets_inBlock hpark) loopExits_inBlock htypes₁ hscope
          (sure_operand hf fun m hm => ?_)) fun r => ?_)
      · have hm := (hbody m hm).along (l₁.trans l₂)
        exact ⟨hm.owns, hm.less⟩
      · refine Restores.wide (restores_isTerminated.bind fun done => ?_)
        split
        · exact restores_deadValue
        · exact restores_asResult

theorem sure_yield {n : Node} {values : List Node} (h : ∀ m ∈ values, Within c e μ s m)
    (hl : load c.program s < μ) :
    Sure c e g s (yield visit n values) (yield visit' n values) := by
  intro hr
  cases hblocks : s.blocks with
  | nil =>
    have hx : ∀ w : Visitor, outcome (yield w n values) c s = _ :=
      fun w => outcome_yield_nil hblocks n values
    refine ⟨(hx visit).trans (hx visit').symm, ?_⟩
    rw [hx]
    exact ⟨hr.tidy, fun f hf => by cases hf; trivial⟩
  | cons fr rest =>
    have hready : Ready c e (g.park (fr.caller :: g.parked)) (s.under s.act rest) := by
      have hrest : rest ⊆ s.blocks := hblocks ▸ List.subset_cons_self _ _
      exact ⟨hr.inv.yielding hblocks, { hr.tidy with },
        { hr.listed with
          callers := fun fr' h => hr.listed.callers fr' (hrest h)
          blocks := fun fr' h => hr.listed.blocks fr' (hrest h)
          targets := fun t ht => hr.listed.targets t ((callTargets_yielding hblocks).mp ht) }⟩
    have hfr : fr ∈ s.blocks := hblocks ▸ List.mem_cons_self
    have hpopped : load c.program (s.under s.act rest) + _ = _ := load_popped hblocks
    have hvalues : ∀ m ∈ values, Within c e μ (s.under s.act rest) m := fun m hm =>
      ⟨(h m hm).owns, by have := (h m hm).less; omega⟩
    have hbody : ∀ m ∈ fr.block.body, Within c e μ (s.under s.act rest) m := fun m hm => by
      have ho := (hr.inv.frames fr hfr).2
      rw [blockCode, Option.mem_def.mp hm] at ho
      rw [Option.mem_def.mp hm, show c.program.weightOption (some m) = c.program.weight m from rfl]
        at hpopped
      exact ⟨ho, by omega⟩
    have hvars : Visible c (some e) (s.under s.act rest) fr.caller.vars := fun p hp =>
      UsableIn.mono ⟨.refl _, fun _ _ h _ => h⟩ ((hr.inv.frames fr hfr).1 p hp)
    obtain ⟨he, hends⟩ := sure_inlineBlock hf hv (n := n) hvalues hbody hvars List.mem_cons_self
      (hr.listed.callers fr hfr).1 (hr.listed.callers fr hfr).2 (hr.listed.blocks fr hfr) hready
    have he : outcome (inlineBlock visit n values fr) c { s with blocks := rest } =
      outcome (inlineBlock visit' n values fr) c { s with blocks := rest } := he
    constructor
    · rw [outcome_yield_cons hblocks, outcome_yield_cons hblocks, he]
    · rw [outcome_yield_cons hblocks]
      exact ⟨{ hends.tidy with }, hends.cause⟩

end

end Lowering.Gen
