import Lowering.Program.Draft
import Lowering.Proofs.Lookup
import Lowering.Proofs.Reach

/-!
# Transfers of control

An expression that always ends in a `return`, or in a `break`, is not left at its end: nothing leads
to the code after it.  That is so for each kind of expression when it is for those inside, in
whichever order their code is, and so for all of them by induction on the depth of nesting.  The one
exception are loops that run their body before the test, of which the body may leave before the test
is evaluated.

* `Gen.Passable`, `Gen.Transfers`: what is asked of the expressions, and of the ones at their ends;
* `Gen.Bars`: what is asked of the visitor that generates the expressions inside;
* `Gen.Walks.barred`, `Gen.Walks.past`: code is out of reach after the first, or the second, of two
  steps;
* `Gen.bars_branch`, `Gen.bars_loop`, `Gen.bars_visit`;
* `Gen.outOfReach_of_always`.
-/

namespace Lowering

theorem Node.alwaysAny_append {leaf : NodeKind Node → Bool} {xs ys : List Node} :
    alwaysAny leaf (xs ++ ys) = (alwaysAny leaf xs || alwaysAny leaf ys) := by
  induction xs with
  | nil => rfl
  | cons n xs ih => rw [List.cons_append, alwaysAny, alwaysAny, ih, Bool.or_assoc]

namespace Gen

open IR (Ty Value FuncId BlockId GlobalId Build Module Inst Terminator)
open Relation (ReflTransGen)

variable {α β : Type} {c : Context} {e : Entity} {g g₁ g' : Ledger} {s₀ s s₁ s' : State}
  {X : Set (FuncId × BlockId)} {U : Set BlockId} {leaf : NodeKind Node → Bool}

/-! ### Visitors -/

/-- The loops among some expressions that run their body before the test have a test that can be
passed. -/
def Passable (leaf : NodeKind Node → Bool) (nodes : List Node) : Prop :=
  ∀ n ∈ nodes, ∀ cond body, n.kind = .loop cond body true → cond.always leaf = false

theorem Passable.append {xs ys : List Node} :
    Passable leaf (xs ++ ys) ↔ Passable leaf xs ∧ Passable leaf ys :=
  List.forall_mem_append

/-- Expressions that leave what is around them. -/
def Transfers (leaf : NodeKind Node → Bool) : Prop :=
  ∀ kind, leaf kind = true → (∃ value, kind = .return value) ∨ ∃ value, kind = .break value

theorem Transfers.kind_ne_var (hl : Transfers leaf) (n : Node) (ha : n.always leaf = true)
    (name : String) : n.kind ≠ .var name := by
  obtain ⟨id, kind, type, location⟩ := n
  rintro rfl
  simp only [Node.always, Node.alwaysKind, Bool.or_false] at ha
  rcases hl _ ha with ⟨_, h⟩ | ⟨_, h⟩ <;> cases h

/-- A visitor after which generation is out of reach when the expression always transfers
control. -/
def Bars (c : Context) (leaf : NodeKind Node → Bool) (visit : Visitor) : Prop :=
  ∀ e X g s n, c.program.Owns e n.preorder → Passable leaf n.preorder → n.always leaf = true →
    Walks c e X g s (visit n) fun _ s' _ => OutOfReach s s'

/-- A walk has all facts that walks of the same step have of the state it leads to. -/
theorem Walks.also {x : Gen α} {P : Ledger → State → α → Prop} {Q : State → α → Prop}
    (hx : Walks c e X g s x P)
    (hq : Walks c e X g s x fun _ s' a => Q s' a) :
    Walks c e X g s x fun g' s' a => P g' s' a ∧ Q s' a := by
  intro hi a s' hg
  obtain ⟨g', l, hp⟩ := hx hi a s' hg
  obtain ⟨-, -, hq⟩ := hq hi a s' hg
  exact ⟨g', l, hp, hq⟩

/-- What follows a step after which generation is out of reach. -/
theorem OutOfReach.before {x : Gen α} {P : Ledger → State → α → Prop} (h : OutOfReach s₀ s)
    (hs : Since c e s₀ g s) (hx : Walks c e ∅ g s x P) :
    Walks c e X g s x fun _ s' _ => OutOfReach s₀ s' :=
  hx.widen.mono fun _ _ _ _ hl => h.along hs hl.1

/-- A step after which generation is out of reach, and one that follows. -/
theorem Walks.barred {x : Gen α} {f : α → Gen β} {P : Ledger → State → α → Prop}
    (hx : Walks c e X g s x fun g' s' a => P g' s' a ∧ OutOfReach s s')
    (hf : ∀ a g₁ s₁, P g₁ s₁ a → Walks c e ∅ g₁ s₁ (f a) fun _ _ _ => True) :
    Walks c e X g s (x >>= f) fun _ s' _ => OutOfReach s s' :=
  .assume fun hi => hx.bind fun a g₁ s₁ l₁ ⟨hp, hout⟩ =>
    hout.before (.along (.refl hi) l₁) (hf a g₁ s₁ hp)

/-- A step, and one that follows after which generation is out of reach. -/
theorem Walks.past {x : Gen α} {f : α → Gen β} {P : Ledger → State → α → Prop}
    (hx : Walks c e X g s x P)
    (hf : ∀ a g₁ s₁, P g₁ s₁ a → Walks c e X g₁ s₁ (f a) fun _ s' _ => OutOfReach s₁ s') :
    Walks c e X g s (x >>= f) fun _ s' _ => OutOfReach s s' :=
  .assume fun hi => hx.bind fun a g₁ s₁ l₁ hp =>
    (hf a g₁ s₁ hp).mono fun _ _ _ l₂ hout => hout.since (.along (.refl hi) l₁) l₂

theorem Walks.any {x : Gen α} {P : Ledger → State → α → Prop} (hx : Walks c e X g s x P) :
    Walks c e X g s x fun _ _ _ => True :=
  hx.mono fun _ _ _ _ _ => trivial

theorem NewBlocks.shut {bs : List BlockId} (h : NewBlocks c e g s g' s' bs) (hi : Inv c e g s)
    (hU : ∀ b ∈ U, b ∈ bs) : Shut c e s g' s' U := by
  refine (Since.along (.refl hi) h.leg).shut (fun b hb => h.spare b (hU b hb)) ?_ ?_ <;>
    rw [h.leg.stay.fn]
  · exact fun b hb => h.fresh b (hU b hb)
  · exact fun b hb => h.noEdges b (hU b hb)

section

variable {visit : Visitor} (hv : Visits c visit) (hb : Bars c leaf visit)
include hv hb

theorem bars_node {n : Node} (ho : c.program.Owns e n.preorder) (hp : Passable leaf n.preorder)
    (ha : n.always leaf = true) : Walks c e X g s (visit n) fun g' s' v =>
      Visited c e g s g' s' v ∧ OutOfReach s s' :=
  (hv e X g s n ho).also (hb e X g s n ho hp ha)

theorem bars_operand {n : Option Node} (ho : c.program.Owns e (Node.preorderOption n))
    (hp : Passable leaf (Node.preorderOption n)) (ha : Node.alwaysOption leaf n = true) :
    Walks c e X g s (operand visit n) fun g' s' r =>
      Visited c e g s g' s' r.1 ∧ OutOfReach s s' := by
  cases n with
  | none => cases ha
  | some n => exact (bars_node hv hb ho hp ha).bind fun v g₁ s₁ _ h₁ => .ask rfl (.pure fun _ => h₁)

theorem bars_sequence {nodes : List Node} (ho : c.program.Owns e (Node.preorderList nodes))
    (hp : Passable leaf (Node.preorderList nodes)) (ha : Node.alwaysAny leaf nodes = true)
    {last : Value} :
    Walks c e X g s (sequence visit last nodes) fun _ s' _ => OutOfReach s s' := by
  induction nodes generalizing g s last with
  | nil => cases ha
  | cons n rest ih =>
    rw [Node.preorderList, Program.Owns.append] at ho
    rw [Node.preorderList, Passable.append] at hp
    rw [Node.alwaysAny, Bool.or_eq_true] at ha
    rcases ha with ha | ha
    · refine (bars_node hv hb ho.1 hp.1 ha).barred fun v g₁ s₁ h₁ => .ask rfl ?_
      split
      · exact .pure fun _ => trivial
      · exact (walks_sequence hv ho.2 h₁.usable).any
    · refine (hv e X g s n ho.1).past fun v g₁ s₁ _ => .ask (a := s₁.builder.isTerminated) rfl ?_
      split
      · rename_i ht
        exact .pure fun _ => .inl ht
      · exact ih ho.2 hp.2 ha

/-! ### Branches -/

/-- An arm that always transfers control ends in blocks that are shut with the point where the arms
meet. -/
theorem bars_arm {block : BlockId} {m : MergeTarget} {w : Set (FuncId × BlockId)}
    {n : Option Node} (ho : c.program.Owns e (Node.preorderOption n))
    (hp : Passable leaf (Node.preorderOption n)) (ha : Node.alwaysOption leaf n = true)
    (hblock : Spare c e g s block) (hm : Held c e g s m) (ht : s.builder.isTerminated = true)
    (hw : g.waiting ⊆ insert (s.fn.func, block) w) (hx : (s.fn.func, block) ∈ X)
    (hxm : (s.fn.func, m.block) ∈ X) (hU : Shut c e s₀ g s U) (hout : block ∉ U)
    (hmem : m.block ∈ U) :
    Walks c e X g s (arm visit block m.block m.slot m.type n) fun g' s' incoming =>
      ArmEnded c e g s block m w g' s' incoming ∧ ∃ V, U ⊆ V ∧
        (∀ b ∈ V, b ∈ U ∨ ¬ s.Has s.fn.func b) ∧ Shut c e s₀ g' s' V := by
  have hne : m.block ≠ block := fun he => hout (he ▸ hmem)
  suffices h : Walks c e {(s.fn.func, block), (s.fn.func, m.block)} g s
      (arm visit block m.block m.slot m.type n) fun g' s' incoming =>
        (s'.builder.isTerminated = true ∧ Held c e g' s' (m.reached incoming) ∧ g'.waiting = w) ∧
          ∃ V, U ⊆ V ∧ (∀ b ∈ V, b ∈ U ∨ ¬ s.Has s.fn.func b) ∧ Shut c e s₀ g' s' V by
    refine (h.narrow fun f b hb => .inl ?_).mono fun g' s' incoming _ h =>
      ⟨⟨h.1, h.2.1.1, h.2.1.2.1, h.2.1.2.2⟩, h.2.2⟩
    rcases hb with h | h <;> rw [h] <;> assumption
  unfold arm
  refine (walks_positionAt hblock (.inl rfl) ht hw).bind fun _ g₁ s₁ _ h₁ => ?_
  have hU₁ : Shut c e s₀ g₁ s₁ U :=
    hU.along h₁.leg fun b hb => notMem_of_ne fun he => hout (he ▸ hb)
  have hm₁ := h₁.leg.held hm (notMem_of_ne hne)
  refine (bars_operand hv hb ho hp ha).bind fun r g₂ s₂ _ ⟨h₂, hout₂⟩ => ?_
  have hm₂ := h₂.leg.held hm₁ (Set.notMem_empty _)
  -- The jump to the point where the arms meet comes from blocks that nothing leads to.
  obtain ⟨W, hUW, hW, hshut, hin⟩ := hout₂.joined hU₁ h₂.leg
  have hfn : s₂.fn = s.fn := h₂.leg.stay.fn.trans h₁.leg.stay.fn
  refine (walks_deliver hm₂ h₂.usable (hfn ▸ .inr rfl)).mono fun g₃ s₃ incoming _ h₃ => ?_
  obtain ⟨V, hsub, hV, hshut, -⟩ := hshut.toward hin h₃.leg (hUW hmem)
  refine ⟨⟨h₃.terminated, h₃.held, ?_⟩, V, hUW.trans hsub, fun b hbV => ?_, hshut⟩
  · rw [h₃.ledger, h₂.waiting, h₁.waiting]
  · have hgrows := h₁.leg.path.grows
    rcases hV b hbV with hb | hb
    · refine (hW b hb).imp_right fun hb hs => hb ?_
      rw [h₁.leg.stay.fn]
      exact hgrows.has hs
    · refine .inr fun hs => hb ?_
      rw [hfn]
      exact h₂.leg.path.grows.has (hgrows.has hs)

theorem bars_branchOn {t : Option TypeId} {cond : Value} {whenTrue whenFalse : Option Node}
    (hc : Usable c (some e) s cond) (ho : c.program.Owns e (Node.preorderOption whenTrue))
    (ho' : c.program.Owns e (Node.preorderOption whenFalse))
    (hp : Passable leaf (Node.preorderOption whenTrue))
    (hp' : Passable leaf (Node.preorderOption whenFalse))
    (ha : Node.alwaysOption leaf whenTrue = true) (ha' : Node.alwaysOption leaf whenFalse = true) :
    Walks c e X g s (branchOn visit t cond whenTrue whenFalse) fun _ s' _ => OutOfReach s s' := by
  refine (Walks.fresh (P := fun _ s' _ => OutOfReach s s') (.assume fun hi => ?_)).mono
    fun _ _ _ _ h => h.2
  refine walks_appendBlock.bind fun b₁ g₁ s₁ _ h₁ => ?_
  refine walks_appendBlock.bind fun b₂ g₂ s₂ _ h₂ => ?_
  refine walks_appendBlock.bind fun b₃ g₃ s₃ _ h₃ => ?_
  have hnew : NewBlocks c e g s g₃ s₃ [b₁, b₂, b₃] :=
    .cons h₁ (.cons h₂ (.cons h₃ (.nil h₃.leg.inv)))
  have l₃ := hnew.leg
  obtain ⟨⟨n₁₂, n₁₃, n₂₃⟩, ⟨a₁, a₂, a₃⟩, ⟨p₁, p₂, -⟩, w₃⟩ := hnew.three
  -- Nothing but the arms leads to the point where they meet.
  have u₃ : Shut c e s g₃ s₃ {b₃} := hnew.shut hi (by simp)
  let Y : Set (FuncId × BlockId) := {(s₃.fn.func, b₁), (s₃.fn.func, b₂)}
  refine ((walks_condBr (X := Y) (l₃.usable hc) p₁.idle.landing (p₁.entry.free (.inl rfl))
    p₂.idle.landing (p₂.entry.free (.inr rfl))).narrow fun f b hb => .inl ?_).bind
      fun _ g₄ s₄ q₄ ⟨_, h₄⟩ => ?_
  · rcases hb with h | h <;> rw [h]
    · exact l₃.mem_fresh a₁
    · exact l₃.mem_fresh a₂
  have l₄ := l₃.widen.trans q₄
  have m₄ := h₄.held _ (h₃.held t) (by simp [n₁₃.symm, n₂₃.symm])
  have u₄ := u₃.along h₄.leg fun b hb hm => by
    rw [Set.mem_singleton_iff.mp hb] at hm
    rcases hm with hm | hm
    · exact n₁₃ (Prod.mk.inj hm).2.symm
    · exact n₂₃ (Prod.mk.inj hm).2.symm
  refine emits_mergeSlot.walks.bind fun slot g₅ s₅ _ ⟨h₅, hslot⟩ => ?_
  have l₅ := l₄.trans h₅.leg.widen
  have m₅ := (h₅.leg.held m₄ (Set.notMem_empty _)).slotted hslot
  have p₁ := h₅.leg.spare (h₄.spare _ p₁) (Set.notMem_empty _)
  have p₂ := h₅.leg.spare (h₄.spare _ p₂) (Set.notMem_empty _)
  refine (bars_arm hv hb ho hp ha (w := insert (s.fn.func, b₃) (insert (s.fn.func, b₂) g.waiting))
    p₁ m₅ (h₅.terminated.trans h₄.terminated) ?_ (l₅.mem_fresh a₁) (l₅.mem_fresh a₃)
    (u₄.along h₅.leg fun _ _ => Set.notMem_empty _) n₁₃ rfl).bind
      fun fromThen g₆ s₆ q₆ ⟨h₆, V, hsub, hV, u₆⟩ => ?_
  · rw [h₅.ledger, h₄.ledger, w₃, l₅.stay.fn]
    grind
  have l₆ := l₅.trans q₆
  let m : MergeTarget := { block := b₃, type := t, slot }
  refine (bars_arm hv hb ho' hp' ha' (m := m.reached fromThen)
    (w := insert (s.fn.func, b₃) g.waiting) (h₆.leg.spare p₂ (by simp [n₁₂.symm, n₂₃])) h₆.held
    h₆.terminated ?_ (l₆.mem_fresh a₂) (l₆.mem_fresh a₃) u₆
    (fun hmem => (hV b₂ hmem).elim n₂₃ fun h => h p₂.idle.inside) (hsub rfl)).bind fun fromElse g₇ s₇ q₇ ⟨h₇, W, hsub', _, u₇⟩ => ?_
  · rw [h₆.waiting, l₆.stay.fn]
    grind
  have l₇ := l₆.trans q₇
  refine ((walks_merge (X := {(s₇.fn.func, b₃)}) (m := (m.reached fromThen).reached fromElse)
    (w := g.waiting) h₇.held rfl h₇.terminated ?_).narrow fun f b hb => .inl ?_).mono
      fun g₈ s₈ _ _ ⟨l₈, _⟩ => ?_
  · rw [h₇.waiting, l₇.stay.fn]
    rfl
  · rw [Set.mem_singleton_iff.mp hb]
    exact l₇.mem_fresh a₃
  · obtain ⟨_, -, -, hshut, hin⟩ := u₇.toward (.inl h₇.terminated) l₈ (hsub' (hsub rfl))
    exact hshut.outOfReach hin

theorem bars_branch {t : Option TypeId} {cond : Node} {whenTrue whenFalse : Option Node}
    (ho : c.program.Owns e (Node.preorderKind (.branch cond whenTrue whenFalse)))
    (hp : Passable leaf (Node.preorderKind (.branch cond whenTrue whenFalse)))
    (ha : Node.alwaysKind leaf (.branch cond whenTrue whenFalse) = true) :
    Walks c e X g s (branch visit t cond whenTrue whenFalse) fun _ s' _ => OutOfReach s s' := by
  rw [Node.preorderKind, Program.Owns.append, Program.Owns.append] at ho
  rw [Node.preorderKind, Passable.append, Passable.append] at hp
  rw [Node.alwaysKind, Bool.or_eq_true, Bool.and_eq_true] at ha
  obtain ⟨⟨hoc, hot⟩, hof⟩ := ho
  obtain ⟨⟨hpc, hpt⟩, hpf⟩ := hp
  unfold branch
  rcases ha with ha | ⟨hat, haf⟩
  · exact (bars_node hv hb hoc hpc ha).barred fun v g₁ s₁ h₁ =>
      (walks_branchAfter hv h₁.usable hot hof).any
  refine (hv e X g s cond hoc).past fun v g₁ s₁ h₁ => .ask (a := s₁.builder.isTerminated) rfl ?_
  split
  · rename_i ht
    exact .assume fun hi => OutOfReach.before (.inl ht) (.refl hi) emits_deadValue.walks
  obtain ⟨known, hk⟩ : ∃ o, Gives (knownTruth? cond v) c s₁ o s₁ := exists_gives_knownTruth
  refine .ask hk ?_
  split
  · rename_i taken
    have htaken : c.program.Owns e (Node.preorderOption (if taken then whenTrue else whenFalse)) ∧
        Passable leaf (Node.preorderOption (if taken then whenTrue else whenFalse)) ∧
          Node.alwaysOption leaf (if taken then whenTrue else whenFalse) = true := by
      split
      · exact ⟨hot, hpt, hat⟩
      · exact ⟨hof, hpf, haf⟩
    obtain ⟨hor, hpr, har⟩ := htaken
    refine (bars_operand hv hb hor hpr har).barred fun r g₂ s₂ h₂ => .ask rfl ?_
    split
    · exact emits_deadValue.walks.any
    · exact (emits_asResult h₂.usable).walks.any
  · exact .ask rfl ((emits_truth h₁.usable).walks.past fun test g₂ s₂ h₂ =>
      bars_branchOn hv hb h₂.2 hot hof hpt hpf hat haf)

/-! ### Loops -/

/-- A loop that is entered at a test that always transfers control. -/
theorem bars_loop {cond : Node} {body : Option Node}
    (ho : c.program.Owns e (Node.preorderKind (.loop cond body false)))
    (hp : Passable leaf cond.preorder) (ha : cond.always leaf = true) :
    Walks c e X g s (loop visit cond body false) fun _ s' _ => OutOfReach s s' := by
  rw [Node.preorderKind, Program.Owns.append] at ho
  refine (Walks.fresh (P := fun _ s' _ => OutOfReach s s') (.assume fun hi => ?_)).mono
    fun _ _ _ _ h => h.2
  refine walks_appendBlock.bind fun head g₁ s₁ _ h₁ => ?_
  refine walks_appendBlock.bind fun bodyBlock g₂ s₂ _ h₂ => ?_
  refine walks_appendBlock.bind fun exit g₃ s₃ _ h₃ => ?_
  have hnew : NewBlocks c e g s g₃ s₃ [head, bodyBlock, exit] :=
    .cons h₁ (.cons h₂ (.cons h₃ (.nil h₃.leg.inv)))
  have l₃ := hnew.leg.widen (X := {p | ¬ s.Has p.1 p.2})
  obtain ⟨⟨n₁₂, n₁₃, n₂₃⟩, ⟨a₁, a₂, a₃⟩, ⟨p₁, p₂, p₃⟩, w₃⟩ := hnew.three
  -- Nothing leads to the body and to the end of the loop until the test has been generated.
  have u₃ : Shut c e s g₃ s₃ {bodyBlock, exit} := hnew.shut hi (by simp)
  have hout : head ∉ ({bodyBlock, exit} : Set BlockId) := fun hm => hm.elim n₁₂ n₁₃
  refine ((walks_br (X := {(s₃.fn.func, head)}) p₁.idle.landing (p₁.entry.free rfl)).narrow
    fun f b hb => .inl (Set.mem_singleton_iff.mp hb ▸ l₃.mem_fresh a₁)).bind
      fun _ g₄ s₄ q₄ h₄ => ?_
  obtain ⟨-, h₄, -⟩ := h₄
  have l₄ := l₃.trans q₄
  have u₄ := u₃.along h₄.leg fun b hb => notMem_of_ne fun he => hout (he ▸ hb)
  refine (walks_positionAt (h₄.spare _ p₁)
    (w := insert (s.fn.func, exit) (insert (s.fn.func, bodyBlock) g.waiting)) (l₄.mem_fresh a₁)
    h₄.terminated ?_).bind fun _ g₅ s₅ q₅ h₅ => ?_
  · rw [h₄.ledger, w₃, l₄.stay.fn]
    grind
  have l₅ := l₄.trans q₅
  have e₅ := h₅.entry _ (h₄.spare _ p₁).entry
  have p₂ := h₅.leg.spare (h₄.spare _ p₂) (notMem_of_ne n₁₂.symm)
  have p₃ := h₅.leg.spare (h₄.spare _ p₃) (notMem_of_ne n₁₃.symm)
  have u₅ := u₄.along h₅.leg fun b hb => notMem_of_ne fun he => hout (he ▸ hb)
  -- What follows the test is shut with them.
  refine (bars_node hv hb ho.1 hp ha).bind fun v g₆ s₆ q₆ h₆ => .ask rfl ?_
  obtain ⟨h₆, hout₆⟩ := h₆
  obtain ⟨V₆, hsub₆, -, u₆, hin⟩ := hout₆.joined u₅ h₆.leg
  have l₆ := l₅.trans q₆
  refine (emits_truth h₆.usable).walks.bind fun test g₇ s₇ q₇ h₇ => ?_
  obtain ⟨h₇, hu⟩ := h₇
  obtain ⟨V₇, hsub₇, -, u₇, hin⟩ := u₆.through hin h₇.leg
    fun _ hm => absurd hm (Set.notMem_empty _)
  have hsub₇ := hsub₆.trans hsub₇
  have l₇ := l₆.trans q₇
  have p₂ := h₇.leg.spare (h₆.leg.spare p₂ (Set.notMem_empty _)) (Set.notMem_empty _)
  have p₃ := h₇.leg.spare (h₆.leg.spare p₃ (Set.notMem_empty _)) (Set.notMem_empty _)
  let Y : Set (FuncId × BlockId) := {(s₇.fn.func, bodyBlock), (s₇.fn.func, exit)}
  refine ((walks_condBr (X := Y) hu p₂.idle.landing (p₂.entry.free (.inl rfl)) p₃.idle.landing
    (p₃.entry.free (.inr rfl))).narrow fun f b hb => .inl ?_).bind fun _ g₈ s₈ q₈ h₈ => ?_
  · rcases hb with h | h <;> rw [h]
    · exact l₇.mem_fresh a₂
    · exact l₇.mem_fresh a₃
  obtain ⟨-, h₈⟩ := h₈
  have l₈ := l₇.trans q₈
  have e₈ := h₈.entry _ (h₇.leg.entry (h₆.leg.entry e₅ (Set.notMem_empty _)) (Set.notMem_empty _))
  obtain ⟨V₈, hsub₈, -, u₈, -⟩ := u₇.through hin h₈.leg fun b hb _ => by
    rcases hb with h | h <;> rw [(Prod.mk.inj h).2]
    · exact hsub₇ (.inl rfl)
    · exact hsub₇ (.inr rfl)
  have hsub₈ := hsub₇.trans hsub₈
  -- The body, which goes back to the test: the only jump out of what is shut.
  refine (walks_positionAt (h₈.spare _ p₂) (w := insert (s.fn.func, exit) g.waiting)
    (l₈.mem_fresh a₂) h₈.terminated ?_).bind fun _ g₉ s₉ q₉ h₉ => ?_
  · rw [h₈.ledger, h₇.ledger, h₆.waiting, h₅.waiting, l₈.stay.fn]
    grind
  have l₉ := l₈.trans q₉
  obtain ⟨V₉, hsub₉, -, u₉, hin⟩ :=
    u₈.toward (.inl h₈.terminated) h₉.leg (hsub₈ (.inl rfl))
  have hsub₉ := hsub₈.trans hsub₉
  have p₃ := h₉.leg.spare (h₈.spare _ p₃) (notMem_of_ne n₂₃.symm)
  have hbody : Walks c e {(s₉.fn.func, exit)} g₉ s₉
      (withBreakTarget (.loop exit) (operand visit body)) fun g' s' _ =>
        Spare c e g' s' exit ∧ g'.waiting = g₉.waiting :=
    walks_withBreakTarget p₃ rfl (walks_operand hv ho.2) fun _ _ _ h => h.waiting
  refine (hbody.narrow fun f b hb => .inl ?_).bind fun _ g₁₀ s₁₀ q₁₀ h₁₀ => ?_
  · exact Set.mem_singleton_iff.mp hb ▸ l₉.mem_fresh a₃
  obtain ⟨h₁₀, p₃, w₁₀⟩ := h₁₀
  have l₁₀ := l₉.trans q₁₀
  obtain ⟨V₁₀, hsub₁₀, -, u₁₀, hin⟩ := u₉.toward hin h₁₀ (hsub₉ (.inr rfl))
  have hsub₁₀ := hsub₉.trans hsub₁₀
  have e₁₀ := h₁₀.entry (h₉.entry _ e₈) (notMem_of_ne n₁₃)
  refine ((walks_br (X := {(s₁₀.fn.func, head)}) e₁₀.landing (e₁₀.free rfl)).narrow
    fun f b hb => .inl (Set.mem_singleton_iff.mp hb ▸ l₁₀.mem_fresh a₁)).bind
      fun _ g₁₁ s₁₁ q₁₁ h₁₁ => ?_
  obtain ⟨-, h₁₁, -⟩ := h₁₁
  have l₁₁ := l₁₀.trans q₁₁
  obtain ⟨V₁₁, hsub₁₁, u₁₁⟩ := u₁₀.ended hin h₁₁.leg
  refine (walks_positionAt (h₁₁.spare _ p₃) (w := g.waiting) (l₁₁.mem_fresh a₃) h₁₁.terminated
    ?_).bind fun _ g₁₂ s₁₂ q₁₂ h₁₂ => .ask rfl ?_
  · rw [h₁₁.ledger, w₁₀, h₉.waiting, l₁₁.stay.fn]
  obtain ⟨_, -, -, u₁₂, hin⟩ :=
    u₁₁.toward (.inl h₁₁.terminated) h₁₂.leg (hsub₁₁ (hsub₁₀ (.inr rfl)))
  split
  · exact walks_unreachable.bind fun _ g₁₃ s₁₃ _ h₁₃ => .pure fun _ => .inl h₁₃.terminated
  · exact .pure fun _ => u₁₂.outOfReach hin

/-! ### Tests -/

theorem bars_membership {n : Node} {target : TypeId} (ho : c.program.Owns e n.preorder)
    (hp : Passable leaf n.preorder) (ha : n.always leaf = true) :
    Walks c e X g s (membership visit n target) fun _ s' _ => OutOfReach s s' :=
  (bars_node hv hb ho hp ha).barred fun _ _ _ h₁ => .ask rfl (emits_isA h₁.usable).walks.any

theorem bars_truthOf {n : Node} (ho : c.program.Owns e n.preorder) (hp : Passable leaf n.preorder)
    (ha : n.always leaf = true) :
    Walks c e X g s (truthOf visit n) fun _ s' _ => OutOfReach s s' :=
  (bars_node hv hb ho hp ha).barred fun _ _ _ h₁ => .ask rfl (emits_truth h₁.usable).walks.any

theorem bars_either {left right : Node} (hl : c.program.Owns e left.preorder)
    (hr : c.program.Owns e right.preorder) (hpl : Passable leaf left.preorder)
    (hpr : Passable leaf right.preorder) (ha : (left.always leaf || right.always leaf) = true) :
    Walks c e X g s (either visit left right) fun _ s' _ => OutOfReach s s' := by
  rcases Bool.or_eq_true_iff.mp ha with ha | ha
  · refine ((walks_truthOf hv hl).also (bars_truthOf hv hb hl hpl ha)).barred fun l g₁ s₁ h₁ => ?_
    refine (walks_truthOf hv hr).bind fun r g₂ s₂ _ h₂ => ?_
    exact (emits_or (h₂.leg.usable h₁.usable) h₂.usable).walks.any
  · refine (walks_truthOf hv hl).past fun l g₁ s₁ h₁ => ?_
    refine ((walks_truthOf hv hr).also (bars_truthOf hv hb hr hpr ha)).barred fun r g₂ s₂ h₂ => ?_
    exact (emits_or (h₂.leg.usable h₁.usable) h₂.usable).walks.any

/-! ### Assignments -/

theorem bars_assignment {n target value : Node} (ho : c.program.Owns e value.preorder)
    (hp : Passable leaf value.preorder) (ha : value.always leaf = true) :
    Walks c e X g s (assignment visit n target value) fun _ s' _ => OutOfReach s s' :=
  (bars_node hv hb ho hp ha).barred fun _ _ _ h₁ => (walks_assignAfter h₁.usable).any

theorem bars_detached {n : Node} (ho : c.program.Owns e n.preorder)
    (hp : Passable leaf n.preorder) (ha : n.always leaf = true) :
    Walks c e X g s (detached visit n) fun _ s' _ => OutOfReach s s' :=
  (bars_node hv hb ho hp ha).barred fun _ _ _ h₁ => (walks_detachedAfter h₁.usable).any

theorem bars_detachedAll {nodes : List Node} (ho : c.program.Owns e (Node.preorderList nodes))
    (hp : Passable leaf (Node.preorderList nodes)) (ha : Node.alwaysAny leaf nodes = true) :
    Walks c e X g s (nodes.mapM (detached visit)) fun _ s' _ => OutOfReach s s' := by
  induction nodes generalizing g s with
  | nil => cases ha
  | cons n rest ih =>
    rw [Node.preorderList, Program.Owns.append] at ho
    rw [Node.preorderList, Passable.append] at hp
    rw [Node.alwaysAny, Bool.or_eq_true] at ha
    rw [List.mapM_cons]
    rcases ha with ha | ha
    · refine ((walks_detached hv ho.1).also (bars_detached hv hb ho.1 hp.1 ha)).barred
        fun r g₁ s₁ _ => ?_
      exact (walks_detachedAll hv ho.2).bind fun rs g₂ s₂ _ _ => .pure fun _ => trivial
    · refine (walks_detached hv ho.1).past fun r g₁ s₁ _ => ?_
      exact ((walks_detachedAll hv ho.2).also (ih ho.2 hp.2 ha)).barred fun rs g₂ s₂ _ =>
        .pure fun _ => trivial

theorem bars_multiAssignment {targets values : List Node}
    (ho : c.program.Owns e (Node.preorderList values))
    (hp : Passable leaf (Node.preorderList values))
    (ha : Node.alwaysAny leaf values = true) :
    Walks c e X g s (multiAssignment visit targets values) fun _ s' _ => OutOfReach s s' := by
  unfold multiAssignment
  split
  · exact .fail
  · exact ((walks_detachedAll hv ho).also (bars_detachedAll hv hb ho hp ha)).barred
      fun rs g₁ s₁ h₁ => (walks_storesAfter h₁.usable).any

/-! ### Blocks -/

theorem bars_discard {nodes : List Node} (ho : c.program.Owns e (Node.preorderList nodes))
    (hp : Passable leaf (Node.preorderList nodes)) (ha : Node.alwaysAny leaf nodes = true) :
    Walks c e X g s (discard visit nodes) fun _ s' _ => OutOfReach s s' := by
  induction nodes generalizing g s with
  | nil => cases ha
  | cons n rest ih =>
    rw [Node.preorderList, Program.Owns.append] at ho
    rw [Node.preorderList, Passable.append] at hp
    rw [Node.alwaysAny, Bool.or_eq_true] at ha
    rcases ha with ha | ha
    · exact (bars_node hv hb ho.1 hp.1 ha).barred fun _ _ _ _ => (walks_discard hv ho.2).any
    · exact (hv e X g s n ho.1).past fun _ _ _ _ => ih ho.2 hp.2 ha

/-- One of the values that the parameters of a block are given always transfers control. -/
theorem bars_blockScope {vars : Scope} {args : List BlockArg} {values : List Node}
    (hvars : Visible c (some e) s vars) (ho : c.program.Owns e (Node.preorderList values))
    (hp : Passable leaf (Node.preorderList values))
    (ha : Node.alwaysAny leaf (values.take args.length) = true) :
    Walks c e X g s (blockScope visit vars args values) fun _ s' _ => OutOfReach s s' := by
  induction args generalizing g s vars values with
  | nil => cases ha
  | cons a args ih =>
    cases values with
    | nil => cases ha
    | cons n rest =>
    rw [Node.preorderList, Program.Owns.append] at ho
    rw [Node.preorderList, Passable.append] at hp
    rw [List.length_cons, List.take_succ_cons, Node.alwaysAny, Bool.or_eq_true] at ha
    have hhead : c.program.Owns e (Node.preorderOption (n :: rest).head?) := ho.1
    rcases ha with ha | ha
    · refine (bars_operand hv hb hhead hp.1 ha).barred fun r g₁ s₁ h₁ => ?_
      obtain ⟨v, t⟩ := r
      exact walks_blockParameter (x := fun vars => blockScope visit vars args rest)
        (h₁.leg.visible hvars) h₁.usable (fun _ _ => trivial) fun _ _ _ _ _ hvars =>
          (walks_blockScope hv hvars ho.2).any
    · refine (walks_operand hv hhead).past fun r g₁ s₁ h₁ => .assume fun hi => ?_
      obtain ⟨v, t⟩ := r
      refine walks_blockParameter (x := fun vars => blockScope visit vars args rest)
        (h₁.leg.visible hvars) h₁.usable (fun ht _ => .inl ht) fun g₂ s₂ _ l₂ _ hvars => ?_
      exact (ih hvars ho.2 hp.2 ha).mono fun _ _ _ l₃ hout => hout.since (.along (.refl hi) l₂) l₃

theorem bars_inlineBlock {n : Node} {values : List Node} {fr : BlockFrame}
    (ho : c.program.Owns e (Node.preorderList values))
    (hvars : Visible c (some e) s fr.caller.vars)
    (hown : c.program.Owns e (blockCode fr.block)) (hpark : fr.caller ∈ g.parked)
    (hp : Passable leaf (Node.preorderList values)) (ha : Node.alwaysAny leaf values = true) :
    Walks c e X g s (inlineBlock visit n values fr) fun _ s' _ => OutOfReach s s' := by
  unfold inlineBlock
  rw [← List.take_append_drop fr.block.args.length values, Node.alwaysAny_append,
    Bool.or_eq_true] at ha
  have hdrop := owns_drop ho fr.block.args.length
  rcases ha with ha | ha
  · refine ((walks_blockScope hv hvars ho).also (bars_blockScope hv hb hvars ho hp ha)).barred
      fun o g₁ s₁ h₁ => ?_
    cases o with
    | none => exact emits_deadValue.walks.any
    | some vars =>
      refine (walks_discard hv hdrop).bind fun _ g₂ s₂ _ ⟨l₂, _⟩ => ?_
      refine (walks_blockAfter hv (l₂.visible (h₁.visible vars rfl)) hown ?_).any
      rw [l₂.stay.parked, h₁.leg.stay.parked]
      exact hpark
  · refine (walks_blockScope hv hvars ho).past fun o g₁ s₁ h₁ => ?_
    cases o with
    | none =>
      exact .assume fun hi =>
        OutOfReach.before (.inl (h₁.terminated rfl)) (.refl hi) emits_deadValue.walks
    | some vars =>
      refine ((walks_discard hv hdrop).also (bars_discard hv hb hdrop ?_ ha)).barred
        fun _ g₂ s₂ ⟨l₂, _⟩ => ?_
      · exact fun n hn => hp n (preorderList_drop hn)
      refine (walks_blockAfter hv (l₂.visible (h₁.visible vars rfl)) hown ?_).any
      rw [l₂.stay.parked, h₁.leg.stay.parked]
      exact hpark

theorem bars_yield {n : Node} {values : List Node}
    (ho : c.program.Owns e (Node.preorderList values))
    (hp : Passable leaf (Node.preorderList values))
    (ha : Node.alwaysAny leaf values = true) :
    Walks c e X g s (yield visit n values) fun _ s' _ => OutOfReach s s' :=
  (Walks.widen (walks_pending (P := fun _ s' _ => OutOfReach s s') fun _ _ hvars hown =>
    bars_inlineBlock hv hb ho hvars hown List.mem_cons_self hp ha)).mono fun _ _ _ _ h => h.2

/-! ### Calls -/

theorem bars_receiverArgument {call : Call Node} {selfType : Option TypeId}
    (ho : c.program.Owns e (Node.preorderOption call.receiver))
    (hp : Passable leaf (Node.preorderOption call.receiver))
    (ha : Node.alwaysOption leaf call.receiver = true) :
    Walks c e X g s (receiverArgument visit call selfType) fun _ s' _ => OutOfReach s s' := by
  cases hr : call.receiver with
  | none => simp [hr, Node.alwaysOption] at ha
  | some r =>
    rw [hr] at ho hp ha
    cases selfType with
    | some t =>
      simp only [receiverArgument, hr]
      exact (bars_node hv hb ho hp ha).barred fun v g₁ s₁ h₁ => .ask rfl
        ((emits_convert h₁.usable).walks.bind fun _ _ _ _ _ => .pure fun _ => trivial)
    | none =>
      simp only [receiverArgument, hr]
      exact (bars_node hv hb ho hp ha).barred fun _ _ _ _ => .pure fun _ => trivial

theorem bars_passedArgument {n : Node} {param : Option Arg} (hk : ∀ name, n.kind ≠ .var name)
    (ho : c.program.Owns e n.preorder) (hp : Passable leaf n.preorder) (ha : n.always leaf = true) :
    Walks c e X g s (passedArgument visit n param) fun _ s' _ => OutOfReach s s' := by
  unfold passedArgument
  dsimp only
  split
  · -- a variable of which the address is taken is not evaluated
    exact absurd ‹_› (hk _)
  · refine (bars_node hv hb ho hp ha).barred fun v g₁ s₁ h₁ => ?_
    split
    · exact .ask rfl (emits_convert h₁.usable).walks.any
    · exact .pure fun _ => trivial

theorem bars_passedArguments {params : List Arg} {nodes : List Node}
    (hk : ∀ n : Node, n.always leaf = true → ∀ name, n.kind ≠ .var name)
    (ho : c.program.Owns e (Node.preorderList nodes)) (hp : Passable leaf (Node.preorderList nodes))
    (ha : Node.alwaysAny leaf nodes = true) :
    Walks c e X g s (passedArguments visit params nodes) fun _ s' _ => OutOfReach s s' := by
  induction nodes generalizing g s params with
  | nil => cases ha
  | cons n rest ih =>
    rw [Node.preorderList, Program.Owns.append] at ho
    rw [Node.preorderList, Passable.append] at hp
    rw [Node.alwaysAny, Bool.or_eq_true] at ha
    rw [passedArguments]
    refine .ask (a := s.builder.isTerminated) rfl ?_
    split
    · rename_i ht
      exact .pure fun _ => .inl ht
    · rcases ha with ha | ha
      · exact ((walks_passedArgument hv ho.1).also
          (bars_passedArgument hv hb (hk n ha) ho.1 hp.1 ha)).barred fun v g₁ s₁ _ =>
            (walks_passedArguments hv ho.2).bind fun _ _ _ _ _ => .pure fun _ => trivial
      · refine (walks_passedArgument hv ho.1).past fun v g₁ s₁ _ => ?_
        exact ((walks_passedArguments hv ho.2).also (ih ho.2 hp.2 ha)).barred fun _ _ _ _ =>
          .pure fun _ => trivial

theorem bars_staticCall {n : Node} {call : Call Node} {id : DefId}
    (hk : ∀ n : Node, n.always leaf = true → ∀ name, n.kind ≠ .var name)
    (ho : c.program.Owns e n.preorder) (hn : n.kind = .call call) (hid : call.targets = [id])
    (hp : Passable leaf (Node.preorderOption call.receiver))
    (hp' : Passable leaf (Node.preorderList call.args))
    (ha : (Node.alwaysOption leaf call.receiver || Node.alwaysAny leaf call.args) = true) :
    Walks c e X g s (staticCall visit n call id) fun _ s' _ => OutOfReach s s' := by
  obtain ⟨hor, hoa, hob⟩ := owns_call ho hn
  unfold staticCall
  refine emits_targetOf.walks.past fun d g₁ s₁ ⟨h₁, hdef⟩ => .ask rfl (.assume fun hi₁ => ?_)
  have hmem : id ∈ call.targets := by simp [hid]
  have hd := depends_of_target ho hn hmem hdef
  have hself : c.program.selfTypeOf call d =
      selfType? c.program.types d (c.program.receiverType? call) := by
    simp [Program.selfTypeOf, hid]
  refine .ask (gives_receiverType hi₁.steady) ?_
  have hcall : ∀ {g₃ s₃ self args g₂ s₂}, Passed c e g₁ s₁ g₂ s₂ self →
      Passed c e g₂ s₂ g₃ s₃ args → Walks c e ∅ g₃ s₃ _ fun _ _ _ => True := fun h₂ h₃ =>
    (walks_staticAfter (n := n) hv hob hd
      (fun hb => hself ▸ means_of_target ho hn hmem hdef hb) (h₂.append h₃).usable).any
  rcases Bool.or_eq_true_iff.mp ha with ha | ha
  · refine ((walks_receiverArgument hv hor).also (bars_receiverArgument hv hb hor hp ha)).barred
      fun self g₂ s₂ h₂ => ?_
    exact (walks_passedArguments hv hoa).bind fun args g₃ s₃ _ h₃ => hcall h₂ h₃
  · refine (walks_receiverArgument hv hor).past fun self g₂ s₂ h₂ => ?_
    exact ((walks_passedArguments hv hoa).also (bars_passedArguments hv hb hk hoa hp' ha)).barred
      fun args g₃ s₃ h₃ => hcall h₂ h₃

theorem bars_receiverOperand {call : Call Node}
    (ho : c.program.Owns e (Node.preorderOption call.receiver))
    (hp : Passable leaf (Node.preorderOption call.receiver))
    (ha : Node.alwaysOption leaf call.receiver = true) :
    Walks c e X g s (receiverOperand visit call) fun _ s' _ => OutOfReach s s' := by
  cases hr : call.receiver with
  | none => simp [hr, Node.alwaysOption] at ha
  | some r =>
    rw [hr] at ho hp ha
    simp only [receiverOperand, hr]
    exact (bars_node hv hb ho hp ha).barred fun v g₁ s₁ h₁ => .ask rfl
      ((emits_operandOf h₁.usable).walks.bind fun _ _ _ _ _ => .pure fun _ => trivial)

theorem bars_argumentOperands {nodes : List Node}
    (ho : c.program.Owns e (Node.preorderList nodes)) (hp : Passable leaf (Node.preorderList nodes))
    (ha : Node.alwaysAny leaf nodes = true) :
    Walks c e X g s (argumentOperands visit nodes) fun _ s' _ => OutOfReach s s' := by
  induction nodes generalizing g s with
  | nil => cases ha
  | cons n rest ih =>
    rw [Node.preorderList, Program.Owns.append] at ho
    rw [Node.preorderList, Passable.append] at hp
    rw [Node.alwaysAny, Bool.or_eq_true] at ha
    rcases ha with ha | ha
    · refine (bars_node hv hb ho.1 hp.1 ha).barred fun v g₁ s₁ h₁ => .ask rfl ?_
      refine (emits_operandOf h₁.usable).walks.bind fun o g₂ s₂ _ _ => .ask rfl ?_
      split
      · exact .pure fun _ => trivial
      · exact (walks_argumentOperands hv ho.2).bind fun _ _ _ _ _ => .pure fun _ => trivial
    · refine (hv e X g s n ho.1).past fun v g₁ s₁ h₁ => .ask rfl ?_
      refine (emits_operandOf h₁.usable).walks.past fun o g₂ s₂ _ =>
        .ask (a := s₂.builder.isTerminated) rfl ?_
      split
      · rename_i ht
        exact .pure fun _ => .inl ht
      · exact ((walks_argumentOperands hv ho.2).also (ih ho.2 hp.2 ha)).barred fun _ _ _ _ =>
          .pure fun _ => trivial

theorem bars_dispatch {n : Node} {call : Call Node}
    (ho : c.program.Owns e n.preorder) (hn : n.kind = .call call) (hlen : call.targets.length ≠ 1)
    (hp : Passable leaf (Node.preorderOption call.receiver))
    (hp' : Passable leaf (Node.preorderList call.args))
    (ha : (Node.alwaysOption leaf call.receiver || Node.alwaysAny leaf call.args) = true) :
    Walks c e X g s (dispatch visit n call) fun _ s' _ => OutOfReach s s' := by
  obtain ⟨hor, hoa, -⟩ := owns_call ho hn
  unfold dispatch
  refine emits_note.walks.past fun _ g₁ s₁ _ => ?_
  rcases Bool.or_eq_true_iff.mp ha with ha | ha
  · refine ((walks_receiverOperand hv hor).also (bars_receiverOperand hv hb hor hp ha)).barred
      fun self g₂ s₂ ⟨_, _, hs⟩ => ?_
    refine (walks_argumentOperands hv hoa).bind fun args g₃ s₃ _ ⟨l₃, _, ha⟩ => ?_
    exact (walks_dispatchAfter hv ho hn hlen (fun o h => l₃.operand (hs o h)) ha).any
  · refine (walks_receiverOperand hv hor).past fun self g₂ s₂ ⟨_, _, hs⟩ => ?_
    refine ((walks_argumentOperands hv hoa).also (bars_argumentOperands hv hb hoa hp' ha)).barred
      fun args g₃ s₃ ⟨l₃, _, ha⟩ => ?_
    exact (walks_dispatchAfter hv ho hn hlen (fun o h => l₃.operand (hs o h)) ha).any

theorem bars_call {n : Node} {call : Call Node}
    (hk : ∀ n : Node, n.always leaf = true → ∀ name, n.kind ≠ .var name)
    (ho : c.program.Owns e n.preorder) (hn : n.kind = .call call)
    (hp : Passable leaf (Node.preorderOption call.receiver))
    (hp' : Passable leaf (Node.preorderList call.args))
    (ha : (Node.alwaysOption leaf call.receiver || Node.alwaysAny leaf call.args) = true) :
    Walks c e X g s (Gen.call visit n call) fun _ s' _ => OutOfReach s s' := by
  unfold Gen.call
  split
  · exact .fail
  · rename_i id hids
    exact bars_staticCall hv hb hk ho hn hids hp hp' ha
  · rename_i hne
    have hlen : call.targets.length ≠ 1 := fun h => (List.length_eq_one_iff.mp h).elim hne
    exact bars_dispatch hv hb ho hn hlen hp hp' ha

/-! ### Expressions -/

theorem bars_visitWith (hl : Transfers leaf) {n : Node} (ho : c.program.Owns e n.preorder)
    (hp : Passable leaf n.preorder) (ha : n.always leaf = true) :
    Walks c e X g s (visitWith visit n) fun _ s' _ => OutOfReach s s' := by
  have hsub : Node.preorderKind n.kind ⊆ n.preorder := by
    rw [Node.preorder_eq]
    exact List.subset_cons_self _ _
  have hkind : c.program.Owns e (Node.preorderKind n.kind) := ho.mono hsub
  have hpass : Passable leaf (Node.preorderKind n.kind) := fun m hm => hp m (hsub hm)
  have ha : leaf n.kind = true ∨ Node.alwaysKind leaf n.kind = true := by
    obtain ⟨id, kind, type, location⟩ := n
    rwa [Node.always, Bool.or_eq_true] at ha
  unfold visitWith
  by_cases hleaf : (∃ value, n.kind = .return value) ∨ ∃ value, n.kind = .break value
  · rcases hleaf with ⟨value, hk⟩ | ⟨value, hk⟩ <;> rw [hk, Node.preorderKind] at hkind <;> rw [hk]
    · exact (walks_leave hv hkind).mono fun _ _ _ _ h => .inl h.2
    · exact (walks_exit hv hkind).mono fun _ _ _ _ h => .inl h.2
  -- The transfer is one of an expression inside that is always evaluated.
  have ha := ha.resolve_left fun h => hleaf (hl _ h)
  cases hk : n.kind with
  | assign target value =>
    rw [hk, Node.preorderKind, Program.Owns.append] at hkind
    rw [hk, Node.preorderKind, Passable.append] at hpass
    rw [hk, Node.alwaysKind] at ha
    exact bars_assignment hv hb hkind.2 hpass.2 ha
  | multiAssign targets values =>
    rw [hk, Node.preorderKind, Program.Owns.append] at hkind
    rw [hk, Node.preorderKind, Passable.append] at hpass
    rw [hk, Node.alwaysKind] at ha
    exact bars_multiAssignment hv hb hkind.2 hpass.2 ha
  | expressions nodes =>
    rw [hk, Node.preorderKind] at hkind hpass
    rw [hk, Node.alwaysKind] at ha
    exact bars_sequence hv hb hkind hpass ha
  | branch cond whenTrue whenFalse =>
    rw [hk] at hkind hpass ha
    exact bars_branch hv hb hkind hpass ha
  | loop cond body runOnce =>
    rw [hk] at hkind
    rw [hk, Node.preorderKind, Passable.append] at hpass
    rw [hk, Node.alwaysKind] at ha
    cases runOnce with
    | true =>
      -- the test can be passed
      rw [hp n (Node.mem_preorder n) cond body hk] at ha
      cases ha
    | false => exact bars_loop hv hb hkind hpass.1 ha
  | yield values =>
    rw [hk, Node.preorderKind] at hkind hpass
    rw [hk, Node.alwaysKind] at ha
    exact bars_yield hv hb hkind hpass ha
  | call call =>
    obtain ⟨receiver, name, args, targets, block, scope⟩ := call
    rw [hk, Node.preorderKind, Node.preorderCall, Passable.append, Passable.append] at hpass
    rw [hk, Node.alwaysKind, Node.alwaysCall] at ha
    exact bars_call hv hb hl.kind_ne_var ho hk hpass.1.1 hpass.1.2 ha
  | isA value target =>
    rw [hk, Node.preorderKind] at hkind hpass
    rw [hk, Node.alwaysKind] at ha
    exact bars_membership hv hb hkind hpass ha
  | simpleOr left right =>
    rw [hk, Node.preorderKind, Program.Owns.append] at hkind
    rw [hk, Node.preorderKind, Passable.append] at hpass
    rw [hk, Node.alwaysKind] at ha
    exact bars_either hv hb hkind.1 hkind.2 hpass.1 hpass.2 ha
  | «return» value => exact absurd (.inl ⟨value, hk⟩) hleaf
  | «break» value => exact absurd (.inr ⟨value, hk⟩) hleaf
  | _ => simp [hk, Node.alwaysKind] at ha

end

/-- After an expression that always transfers control, generation is out of reach. -/
theorem bars_visit (hl : Transfers leaf) (depth : Nat) : Bars c leaf (visit depth) := by
  induction depth with
  | zero => exact fun _ _ _ _ _ _ _ _ => .fail
  | succ depth ih =>
    intro e X g s n ho hp ha
    have hv := visits_visit (c := c) depth
    have hlocated : ∀ {g s}, Walks c e X g s (located n (visitWith (visit depth) n))
        fun g' s' v => Visited c e g s g' s' v ∧ OutOfReach s s' := fun hi v s' hg =>
      Walks.atLocation (P := fun g s g' s' v => Visited c e g s g' s' v ∧ OutOfReach s s')
        ((walks_visitWith hv ho).also (bars_visitWith hv ih hl ho hp ha))
        (fun h₁ hi ⟨h, hout⟩ =>
          ⟨(Visited.of_plainly (v := nilValue) h₁ trivial).trans h,
            hout.since (.along (.refl hi) h₁.leg) h.leg⟩)
        (fun hi ⟨h, hout⟩ h₂ => ⟨h.trans (.of_plainly h₂ (h₂.keeps.usable h.usable)),
          hout.along (.along (.refl hi) h.leg) h₂.leg⟩) hi v s' (gives_located hg)
    -- The position is set before the code of the expression and back after it.
    refine emits_note.walks.past fun _ g₁ s₁ _ => ?_
    exact hlocated.barred fun v g₂ s₂ _ =>
      emits_record.walks.bind fun _ _ _ _ _ => .pure fun _ => trivial

theorem transfers_isReturn : Transfers NodeKind.isReturn := fun kind h => by
  cases kind <;> simp_all [NodeKind.isReturn]

theorem transfers_isBreak : Transfers NodeKind.isBreak := fun kind h => by
  cases kind <;> simp_all [NodeKind.isBreak]

/-- Code after an expression that always ends in a `return`, or in a `break`, is not reached from
what there was before the expression. Loops that run their body before the test are left out when
the test always ends so: the body may leave before the test is evaluated. -/
theorem outOfReach_of_always {p : Program} {o : Options} {n : Node} {depth : Nat} {v : Value}
    (hvalid : p.IsValid) (hinlining : p.InliningEnds) (h : Reached p o c depth n s)
    (hg : Gives (visit depth n) c s v s') :
    (n.returns = true → Passable NodeKind.isReturn n.preorder → OutOfReach s s') ∧
      (n.breaks = true → Passable NodeKind.isBreak n.preorder → OutOfReach s s') := by
  obtain ⟨-, e, g, hready, hw⟩ := ready_of_reached hvalid hinlining h
  refine ⟨fun ha hp => ?_, fun ha hp => ?_⟩
  · obtain ⟨-, -, hout⟩ :=
      bars_visit transfers_isReturn depth e ∅ g s n hw.owns hp ha hready.inv v s' hg
    exact hout
  · obtain ⟨-, -, hout⟩ :=
      bars_visit transfers_isBreak depth e ∅ g s n hw.owns hp ha hready.inv v s' hg
    exact hout

/-- A loop that runs its body before the test: the test always returns, and the body leaves the loop
before it. -/
def skippedTest : Program :=
  let build : Drafting Node := do
    let one ← Draft.int 1
    let test ← Draft.node (.return (some one)) none
    let body ← Draft.node (.break none) none
    Draft.node (.loop test (some body) true) none
  let (root, draft) := build.run Draft.new
  draft.program root

/-- The test of such a loop may not be reached: the loop is left at its end although it counts as an
expression that always returns. -/
theorem skippedTest_left : ∃ c depth n s v s', Reached skippedTest {} c depth n s ∧
    n.returns = true ∧ Gives (visit depth n) c s v s' ∧ ¬ OutOfReach s s' := by
  obtain ⟨n, hroot, cs, hstart, hreturns, hsymbols, v, hv, hopen, hposition, hhas, hentry, hbody⟩ :
      ∃ n ∈ skippedTest.root, ∃ cs ∈ start? skippedTest {}, n.returns = true ∧
        (outcome prepareSymbols cs.1 cs.2).1 = .ok () ∧
        let s := (outcome prepareSymbols cs.1 cs.2).2
        let o := outcome (visit skippedTest.nestingBound n) cs.1 s
        let fn := o.2.func o.2.fn.func
        ∃ v ∈ o.1.toOption, o.2.builder.isTerminated = false ∧
          o.2.builder.position = some (o.2.fn.func, ⟨5⟩) ∧
          2 < (s.func o.2.fn.func).blocks.size ∧ (fn.block ⟨2⟩).term = some (.br ⟨4⟩) ∧
          (fn.block ⟨4⟩).term = some (.br ⟨5⟩) := by decide +kernel
  have hgives : (outcome (visit skippedTest.nestingBound n) cs.1
      (outcome prepareSymbols cs.1 cs.2).2).1 = .ok v := by
    revert hv
    cases (outcome (visit skippedTest.nestingBound n) cs.1 _).1 with
    | error f => exact nofun
    | ok w => exact congrArg Except.ok ∘ Option.some.inj
  refine ⟨cs.1, _, n, _, v, _, .root hstart (Prod.ext hsymbols rfl) hroot, hreturns,
    Prod.ext hgives rfl, ?_⟩
  rintro (ht | hout)
  · exact absurd (hopen.symm.trans ht) Bool.false_ne_true
  · -- the block before the loop leads to the body, and that to the end
    exact hout ⟨2⟩ ⟨5⟩ hhas hposition (.head ⟨_, hentry, List.mem_singleton_self _⟩
      (.single ⟨_, hbody, List.mem_singleton_self _⟩))

end Gen

end Lowering
