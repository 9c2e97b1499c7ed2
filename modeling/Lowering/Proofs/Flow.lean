import Lowering.Gen.Flow
import Lowering.Proofs.Frame

/-!
# Control flow

Sequences, branches, loops and transfers, when the expressions inside are generated well.

* `Gen.NewBlocks`: blocks that were just appended;
* `Gen.Visits`: what is asked of the visitor that generates the expressions inside;
* `Gen.Begins`, `Gen.Arms`, `Gen.BranchedOn`, `Gen.Looped`: where the code of arms and bodies
  begins;
* `Gen.walks_branch`, `Gen.walks_loop`, `Gen.walks_leave`, `Gen.walks_exit`.
-/

namespace Lowering.Gen

open IR (Ty Value FuncId BlockId GlobalId Build Module Inst Terminator)

variable {c : Context} {e : Entity} {g g' : Ledger} {s s' : State}
  {X : Set (FuncId × BlockId)} {visit : Visitor}

/-! ### New blocks -/

/-- New blocks, which nothing leads to and which wait to be taken up. -/
structure NewBlocks (c : Context) (e : Entity) (g : Ledger) (s : State) (g' : Ledger) (s' : State)
    (bs : List BlockId) : Prop where
  leg : Leg c e ∅ g s g' s'
  nodup : bs.Nodup
  fresh : ∀ b ∈ bs, ¬ s.Has s.fn.func b
  spare : ∀ b ∈ bs, Spare c e g' s' b
  noEdges : ∀ b ∈ bs, ∀ p, ¬ s'.Leads s.fn.func p b
  waiting : g'.waiting = bs.foldl (fun w b => insert (s.fn.func, b) w) g.waiting
  kept : ∀ f b, s.Has f b → s'.block f b = s.block f b
  position : s'.builder.position = s.builder.position

namespace NewBlocks

variable {b : BlockId} {bs : List BlockId} {g₁ : Ledger} {s₁ : State}

theorem nil (hi : Inv c e g s) : NewBlocks c e g s g s [] where
  leg := .refl hi
  nodup := List.nodup_nil
  fresh _ hb := absurd hb List.not_mem_nil
  spare _ hb := absurd hb List.not_mem_nil
  noEdges _ hb := absurd hb List.not_mem_nil
  waiting := rfl
  kept _ _ _ := rfl
  position := rfl

theorem cons (h₁ : Appended c e g s g₁ s₁ b) (h : NewBlocks c e g₁ s₁ g' s' bs) :
    NewBlocks c e g s g' s' (b :: bs) := by
  have hfn : s₁.fn = s.fn := h₁.leg.stay.fn
  have hb : s₁.Has s.fn.func b := hfn ▸ h₁.spare.idle.inside
  refine ⟨h₁.leg.trans h.leg, List.nodup_cons.mpr ⟨fun hm => ?_, h.nodup⟩, ?_, ?_, ?_, ?_, ?_,
    h.position.trans h₁.position⟩
  · exact h.fresh b hm (hfn.symm ▸ hb)
  · exact List.forall_mem_cons.mpr ⟨h₁.fresh, fun b' hb' => h₁.leg.absent (h.fresh b' hb')⟩
  · exact List.forall_mem_cons.mpr
      ⟨h.leg.spare h₁.spare (Set.notMem_empty _), h.spare⟩
  · refine List.forall_mem_cons.mpr ⟨fun p hl => ?_, fun b' hb' => hfn ▸ h.noEdges b' hb'⟩
    rcases h.leg.path.edges _ p b hb hl with hl | hm | ⟨-, ha⟩
    · exact h₁.noEdges p hl
    · exact absurd hm (Set.notMem_empty _)
    · exact h₁.spare.notAim ha
  · rw [h.waiting, h₁.waiting, hfn]
    rfl
  · exact fun f b' hb' => (h.kept f b' (h₁.leg.path.grows.has hb')).trans (h₁.kept f b' hb')

/-- Three new blocks one by one. -/
theorem three {b₁ b₂ b₃ : BlockId} (h : NewBlocks c e g s g' s' [b₁, b₂, b₃]) :
    (b₁ ≠ b₂ ∧ b₁ ≠ b₃ ∧ b₂ ≠ b₃) ∧
      (¬ s.Has s.fn.func b₁ ∧ ¬ s.Has s.fn.func b₂ ∧ ¬ s.Has s.fn.func b₃) ∧
        (Spare c e g' s' b₁ ∧ Spare c e g' s' b₂ ∧ Spare c e g' s' b₃) ∧
          g'.waiting =
            insert (s.fn.func, b₃) (insert (s.fn.func, b₂) (insert (s.fn.func, b₁) g.waiting)) :=
  ⟨by simpa [and_assoc] using h.nodup, by simpa using h.fresh, by simpa using h.spare, h.waiting⟩

end NewBlocks

/-! ### Visitors -/

/-- What holds after the code of an expression, with an operand that stands for its value. -/
structure Visited (c : Context) (e : Entity) (g : Ledger) (s : State) (g' : Ledger) (s' : State)
    (v : Value) : Prop where
  leg : Leg c e ∅ g s g' s'
  waiting : g'.waiting = g.waiting
  usable : Usable c (some e) s' v

/-- A visitor that can be relied on. -/
def Visits (c : Context) (visit : Visitor) : Prop :=
  ∀ e X g s n, c.program.Owns e n.preorder → Walks c e X g s (visit n) (Visited c e g s)

theorem Visited.of_plainly {v : Value} (h : Plainly c e g s g' s')
    (hv : Usable c (some e) s' v) : Visited c e g s g' s' v :=
  ⟨h.leg, by rw [h.ledger], hv⟩

/-- Straight code with an operand for its value. -/
theorem Emits.visited {x : Gen Value} (h : Emits c (some e) s x (Usable c (some e))) :
    Walks c e X g s x (Visited c e g s) :=
  h.walks.mono fun _ _ _ _ h => .of_plainly h.1 h.2

theorem Visited.trans {g₁ : Ledger} {s₁ : State} {v v' : Value} (h₁ : Visited c e g s g₁ s₁ v)
    (h₂ : Visited c e g₁ s₁ g' s' v') : Visited c e g s g' s' v' :=
  ⟨h₁.leg.trans h₂.leg, h₂.waiting.trans h₁.waiting, h₂.usable⟩

variable (hv : Visits c visit)
include hv

theorem walks_operand {n : Option Node} (ho : c.program.Owns e (Node.preorderOption n)) :
    Walks c e X g s (operand visit n) fun g' s' r => Visited c e g s g' s' r.1 := by
  cases n with
  | none => exact .ask rfl (.pure fun hi => ⟨.refl hi, rfl, trivial⟩)
  | some n =>
    refine (hv e X g s n ho).bind fun v g₁ s₁ _ h₁ => .ask rfl (.pure fun _ => h₁)

theorem walks_sequence {nodes : List Node} (ho : c.program.Owns e (Node.preorderList nodes))
    {last : Value} (hl : Usable c (some e) s last) :
    Walks c e X g s (sequence visit last nodes) (Visited c e g s) := by
  induction nodes generalizing g s last with
  | nil => exact .pure fun hi => ⟨.refl hi, rfl, hl⟩
  | cons n rest ih =>
    rw [Node.preorderList, Program.Owns.append] at ho
    refine (hv e X g s n ho.1).bind fun v g₁ s₁ _ h₁ => .ask rfl ?_
    split
    · exact .pure fun _ => h₁
    · exact (ih ho.2 h₁.usable).mono fun _ _ _ _ h₂ => h₁.trans h₂

/-! ### Branches -/

/-- Generation is at the beginning of a block. -/
structure Begins (s : State) (f : FuncId) (b : BlockId) : Prop where
  position : s.builder.position = some (f, b)
  inside : s.Has f b
  empty : (s.block f b).insts = #[]
  isOpen : (s.block f b).term = none

omit hv in
theorem Started.begins {b : BlockId} {w : Set (FuncId × BlockId)} (h : Started c e g s b w g' s')
    (hb : Spare c e g s b) : Begins s' s.fn.func b := by
  rw [h.state]
  exact ⟨rfl, hb.idle.inside, hb.idle.empty, hb.idle.isOpen⟩

/-- The code of an optional operand is in a module, from the beginning of a block on. -/
def OperandAt (c : Context) (visit : Visitor) (n : Option Node) (f : FuncId) (b : BlockId)
    (m : Module) : Prop :=
  ∃ s r s', Begins s f b ∧ Gives (operand visit n) c s r s' ∧ s'.builder.module.Grows m

/-- A branch on an operand ended the block at the position, and is in a module. -/
def Branched (c : Context) (test : Value) (yes no : BlockId) (s : State) (m : Module) : Prop :=
  s.builder.module.Grows m ∧ ∃ s₁ s₂, s₁.builder.position = s.builder.position ∧
    (∀ f b, s.Has f b → s₁.Has f b ∧ s₁.block f b = s.block f b) ∧
    Gives (emit (Build.condBr test yes no)) c s₁ () s₂ ∧ s₂.builder.module.Grows m

/-- The arms of a branch are generated one after the other, each from the beginning of its block on,
and meet. -/
structure Arms (c : Context) (visit : Visitor) (f : FuncId) (t : Option TypeId)
    (whenTrue whenFalse : Option Node) (yes no : BlockId) (r : Value) (s' : State) : Prop where
  thenCode : OperandAt c visit whenTrue f yes s'.builder.module
  elseCode : OperandAt c visit whenFalse f no s'.builder.module
  meet : ∃ exit slot s₁ fromThen s₂ fromElse s₃,
    Gives (arm visit yes exit slot t whenTrue) c s₁ fromThen s₂ ∧
      Gives (arm visit no exit slot t whenFalse) c s₂ fromElse s₃ ∧
        Gives (merge exit slot t (fromThen ++ fromElse)) c s₃ r s'

/-- A branch on an operand is generated, with both its arms. -/
def BranchedOn (c : Context) (visit : Visitor) (t : Option TypeId) (test : Value)
    (whenTrue whenFalse : Option Node) (s : State) (r : Value) (s' : State) : Prop :=
  ∃ yes no, Branched c test yes no s s'.builder.module ∧
    Arms c visit s.fn.func t whenTrue whenFalse yes no r s'

omit hv in
theorem Branched.mono {test : Value} {yes no : BlockId} {m m' : Module}
    (h : Branched c test yes no s m) (hm : m.Grows m') : Branched c test yes no s m' := by
  obtain ⟨hgrows, s₁, s₂, hp, hkept, hg, hs⟩ := h
  exact ⟨hgrows.trans hm, s₁, s₂, hp, hkept, hg, hs.trans hm⟩

omit hv in
theorem OperandAt.mono {n : Option Node} {f : FuncId} {b : BlockId} {m m' : Module}
    (h : OperandAt c visit n f b m) (hm : m.Grows m') : OperandAt c visit n f b m' := by
  obtain ⟨s, r, s', hb, hg, hs⟩ := h
  exact ⟨s, r, s', hb, hg, hs.trans hm⟩

/-- What holds after an arm of a branch. -/
structure ArmEnded (c : Context) (e : Entity) (g : Ledger) (s : State) (block : BlockId)
    (m : MergeTarget) (w : Set (FuncId × BlockId)) (g' : Ledger) (s' : State)
    (incoming : List (Value × BlockId)) : Prop where
  leg : Leg c e {(s.fn.func, block), (s.fn.func, m.block)} g s g' s'
  terminated : s'.builder.isTerminated = true
  held : Held c e g' s' (m.reached incoming)
  waiting : g'.waiting = w

theorem walks_arm {block : BlockId} {m : MergeTarget} {w : Set (FuncId × BlockId)}
    {n : Option Node} (ho : c.program.Owns e (Node.preorderOption n)) (hb : Spare c e g s block)
    (hm : Held c e g s m) (hne : m.block ≠ block) (ht : s.builder.isTerminated = true)
    (hw : g.waiting ⊆ insert (s.fn.func, block) w) (hx : (s.fn.func, block) ∈ X)
    (hxm : (s.fn.func, m.block) ∈ X) :
    Walks c e X g s (arm visit block m.block m.slot m.type n) fun g' s' incoming =>
      ArmEnded c e g s block m w g' s' incoming ∧
        OperandAt c visit n s.fn.func block s'.builder.module := by
  suffices h : Walks c e {(s.fn.func, block), (s.fn.func, m.block)} g s
      (arm visit block m.block m.slot m.type n) fun g' s' incoming =>
        s'.builder.isTerminated = true ∧ Held c e g' s' (m.reached incoming) ∧
          g'.waiting = w ∧ OperandAt c visit n s.fn.func block s'.builder.module by
    refine (h.narrow fun f b hb => .inl ?_).mono fun g' s' incoming _ h =>
      ⟨⟨h.1, h.2.1, h.2.2.1, h.2.2.2.1⟩, h.2.2.2.2⟩
    rcases hb with h | h <;> rw [h] <;> assumption
  unfold arm
  refine (walks_positionAt hb (.inl rfl) ht hw).bind fun _ g₁ s₁ _ h₁ => ?_
  have hm₁ := h₁.leg.held hm (notMem_of_ne hne)
  refine (walks_operand hv ho).traced.bind fun r g₂ s₂ _ ⟨h₂, hgives⟩ => ?_
  have hm₂ := h₂.leg.held hm₁ (Set.notMem_empty _)
  refine (walks_deliver hm₂ h₂.usable ?_).mono fun g₃ s₃ incoming leg₃ h₃ =>
    ⟨h₃.terminated, h₃.held, ?_, s₁, r, s₂, h₁.begins hb, hgives, leg₃.path.grows.code⟩
  · rw [h₂.leg.stay.fn, h₁.leg.stay.fn]
    exact .inr rfl
  · rw [h₃.ledger, h₂.waiting, h₁.waiting]

theorem walks_branchOn {t : Option TypeId} {cond : Value} {whenTrue whenFalse : Option Node}
    (hc : Usable c (some e) s cond) (ho : c.program.Owns e (Node.preorderOption whenTrue))
    (ho' : c.program.Owns e (Node.preorderOption whenFalse)) :
    Walks c e X g s (branchOn visit t cond whenTrue whenFalse) fun g' s' v =>
      Visited c e g s g' s' v ∧ BranchedOn c visit t cond whenTrue whenFalse s v s' := by
  refine (Walks.fresh (P := fun g' s' v => g'.waiting = g.waiting ∧ Usable c (some e) s' v ∧
    BranchedOn c visit t cond whenTrue whenFalse s v s') ?_).mono fun _ _ _ _ h =>
      ⟨⟨h.1, h.2.1, h.2.2.1⟩, h.2.2.2⟩
  -- The blocks of the arms, and the one where they meet.
  refine walks_appendBlock.bind fun b₁ g₁ s₁ _ h₁ => ?_
  refine walks_appendBlock.bind fun b₂ g₂ s₂ _ h₂ => ?_
  refine walks_appendBlock.bind fun b₃ g₃ s₃ _ h₃ => ?_
  have hnew : NewBlocks c e g s g₃ s₃ [b₁, b₂, b₃] :=
    .cons h₁ (.cons h₂ (.cons h₃ (.nil h₃.leg.inv)))
  have l₃ := hnew.leg
  obtain ⟨⟨n₁₂, n₁₃, n₂₃⟩, ⟨a₁, a₂, a₃⟩, ⟨p₁, p₂, -⟩, w₃⟩ := hnew.three
  refine (walks_condBr (l₃.usable hc) p₁.idle.landing (p₁.entry.free (l₃.mem_fresh a₁))
    p₂.idle.landing (p₂.entry.free (l₃.mem_fresh a₂))).traced.bind fun _ g₄ s₄ _ ⟨h₄, hgives⟩ => ?_
  have l₄ := l₃.widen.trans h₄.leg
  have m₄ := h₄.held _ (h₃.held t) (by simp [n₁₃.symm, n₂₃.symm])
  refine emits_mergeSlot.walks.bind fun slot g₅ s₅ _ h₅ => ?_
  obtain ⟨h₅, hslot⟩ := h₅
  have l₅ := l₄.trans h₅.leg.widen
  have m₅ := (h₅.leg.held m₄ (Set.notMem_empty _)).slotted hslot
  -- The arms, each of which jumps there.
  refine (walks_arm hv ho (w := insert (s.fn.func, b₃) (insert (s.fn.func, b₂) g.waiting))
    (h₅.leg.spare (h₄.spare _ p₁) (Set.notMem_empty _)) m₅ n₁₃.symm
    (h₅.terminated.trans h₄.terminated) ?_ (l₅.mem_fresh a₁) (l₅.mem_fresh a₃)).traced.bind
    fun fromThen g₆ s₆ q₆ ⟨⟨h₆, hthen⟩, garm⟩ => ?_
  · rw [h₅.ledger, h₄.ledger, w₃, l₅.stay.fn]
    grind
  have l₆ := l₅.trans q₆
  have p₆ := h₆.leg.spare (h₅.leg.spare (h₄.spare _ p₂) (Set.notMem_empty _))
    (b := b₂) (by simp [n₁₂.symm, n₂₃])
  let m : MergeTarget := { block := b₃, type := t, slot }
  refine (walks_arm hv ho' (m := m.reached fromThen) (w := insert (s.fn.func, b₃) g.waiting) p₆
    h₆.held n₂₃.symm h₆.terminated ?_ (l₆.mem_fresh a₂) (l₆.mem_fresh a₃)).traced.bind
    fun fromElse g₇ s₇ q₇ ⟨⟨h₇, helse⟩, garm'⟩ => ?_
  · rw [h₆.waiting, l₆.stay.fn]
    grind
  have l₇ := l₆.trans q₇
  refine (walks_merge (m := (m.reached fromThen).reached fromElse) (w := g.waiting) h₇.held
    (l₇.mem_fresh a₃) h₇.terminated ?_).traced.mono fun g₈ s₈ _ q₈ ⟨h₈, gmerge⟩ => ?_
  · rw [h₇.waiting, l₇.stay.fn]
    rfl
  rw [l₅.stay.fn] at hthen
  rw [l₆.stay.fn] at helse
  have grows₄ := h₅.leg.path.grows.trans (q₆.path.grows.trans (q₇.path.grows.trans q₈.path.grows))
  have grows := l₄.path.grows.trans grows₄
  refine ⟨h₈.1, h₈.2, b₁, b₂,
    ⟨grows.code, s₃, s₄, hnew.position,
      fun f b hb => ⟨l₃.path.grows.has hb, hnew.kept f b hb⟩, hgives, grows₄.code⟩,
    ⟨hthen.mono (q₇.path.grows.trans q₈.path.grows).code, helse.mono q₈.path.grows.code,
      b₃, slot, s₅, fromThen, s₆, fromElse, s₇, garm, garm', gmerge⟩⟩

omit hv in
theorem exists_gives_knownTruth {cond : Node} {value : Value} :
    ∃ o, Gives (knownTruth? cond value) c s o s := by
  cases h : cond.yields with
  | true => exact ⟨none, by unfold knownTruth?; rw [if_pos h]; rfl⟩
  | false =>
    refine ⟨(truthByType? c.program.types (cond.type.getD c.nil)).or value.constBool?, ?_⟩
    unfold knownTruth?
    rw [if_neg (by simp [h])]
    rfl

omit hv in
/-- Straight code at the end of an expression. -/
theorem Visited.emits {x : Gen Value} {g₁ : Ledger} {s₁ : State} {v : Value}
    (h₁ : Visited c e g s g₁ s₁ v) (h : Emits c (some e) s₁ x (Usable c (some e))) :
    Walks c e X g₁ s₁ x (Visited c e g s) :=
  h.visited.mono fun _ _ _ _ h₂ => h₁.trans h₂

/-- What follows the condition of a branch. -/
theorem walks_branchAfter {t : Option TypeId} {cond : Node} {whenTrue whenFalse : Option Node}
    {v : Value} (hu : Usable c (some e) s v) (hot : c.program.Owns e (Node.preorderOption whenTrue))
    (hof : c.program.Owns e (Node.preorderOption whenFalse)) :
    Walks c e X g s (do
      if ← isTerminated then deadValue t
      else
        match ← knownTruth? cond v with
        | some taken =>
          let (value, source) ← operand visit (if taken then whenTrue else whenFalse)
          if ← isTerminated then deadValue t else asResult t value source
        | none =>
          let test ← truth v (← typeOf cond)
          branchOn visit t test whenTrue whenFalse) (Visited c e g s) := by
  refine .ask rfl ?_
  split
  · exact emits_deadValue.visited
  obtain ⟨known, hk⟩ : ∃ o, Gives (knownTruth? cond v) c s o s := exists_gives_knownTruth
  refine .ask hk ?_
  split
  · rename_i taken
    have hor : c.program.Owns e (Node.preorderOption (if taken then whenTrue else whenFalse)) := by
      split <;> assumption
    refine (walks_operand hv hor).bind fun r g₁ s₁ _ h₁ => .ask rfl ?_
    split
    · exact h₁.emits emits_deadValue
    · exact h₁.emits (emits_asResult h₁.usable)
  · refine .ask rfl ((emits_truth hu).visited.bind fun test g₁ s₁ _ h₁ => ?_)
    exact (walks_branchOn hv h₁.usable hot hof).mono fun _ _ _ _ h₂ => h₁.trans h₂.1

theorem walks_branch {t : Option TypeId} {cond : Node} {whenTrue whenFalse : Option Node}
    (ho : c.program.Owns e (Node.preorderKind (.branch cond whenTrue whenFalse))) :
    Walks c e X g s (branch visit t cond whenTrue whenFalse) fun g' s' v =>
      Visited c e g s g' s' v ∧ ∀ v s₁, Gives (visit cond) c s v s₁ →
        s₁.builder.module.Grows s'.builder.module := by
  rw [Node.preorderKind, Program.Owns.append, Program.Owns.append] at ho
  obtain ⟨⟨hoc, hot⟩, hof⟩ := ho
  unfold branch
  refine (hv e X g s cond hoc).traced.bind fun v g₁ s₁ _ ⟨h₁, hcond⟩ => ?_
  refine (walks_branchAfter hv h₁.usable hot hof).mono fun g' s' v' l h =>
    ⟨h₁.trans h, fun v s₁ hg => ?_⟩
  rw [← (hcond.unique hg).2]
  exact l.path.grows.code

/-! ### Loops -/

/-- The body of a loop is in a module, from the beginning of a block on, and goes back to the
test. -/
def BodyAt (c : Context) (visit : Visitor) (body : Option Node) (f : FuncId)
    (b head exit : BlockId) (m : Module) : Prop :=
  ∃ s r s₁ s', Begins s f b ∧
    Gives (withBreakTarget (.loop exit) (operand visit body)) c s r s₁ ∧
      Gives (emit (Build.br head)) c s₁ () s' ∧ s'.builder.module.Grows m

/-- The test of a loop is generated, with the body, and goes on where the loop ends unless nothing
leads there. -/
def Looped (c : Context) (visit : Visitor) (f : FuncId) (cond : Node) (body : Option Node)
    (s' : State) : Prop :=
  ∃ head yes no s₁ v s₂ test s₃, Begins s₁ f head ∧ Gives (visit cond) c s₁ v s₂ ∧
    (∃ b, s₂.builder.position = some (f, b)) ∧
    Gives (truth v (cond.type.getD c.nil)) c s₂ test s₃ ∧
    Branched c test yes no s₃ s'.builder.module ∧
    BodyAt c visit body f yes head no s'.builder.module ∧ ((∃ b, s'.Leads f b no) → Begins s' f no)

omit hv in
theorem isEmpty_predecessors {f : FuncId} {b b' target : BlockId}
    (hp : s.builder.position = some (f, b)) (hl : s.Leads f b' target) :
    (s.builder.predecessors target).isEmpty = false := by
  have hm : b' ∈ s.builder.predecessors target := by
    rw [IR.Builder.predecessors, hp]
    exact IR.Function.mem_predecessors.mpr hl
  exact List.isEmpty_eq_false_iff_exists_mem.mpr ⟨b', hm⟩

theorem walks_loop {cond : Node} {body : Option Node} {runOnce : Bool}
    (ho : c.program.Owns e (Node.preorderKind (.loop cond body runOnce))) :
    Walks c e X g s (loop visit cond body runOnce) fun g' s' v =>
      Visited c e g s g' s' v ∧ Looped c visit s.fn.func cond body s' := by
  rw [Node.preorderKind, Program.Owns.append] at ho
  refine (Walks.fresh (P := fun g' s' v => g'.waiting = g.waiting ∧ Usable c (some e) s' v ∧
    Looped c visit s.fn.func cond body s') ?_).mono fun _ _ _ _ h =>
      ⟨⟨h.1, h.2.1, h.2.2.1⟩, h.2.2.2⟩
  refine walks_appendBlock.bind fun head g₁ s₁ _ h₁ => ?_
  refine walks_appendBlock.bind fun bodyBlock g₂ s₂ _ h₂ => ?_
  refine walks_appendBlock.bind fun exit g₃ s₃ _ h₃ => ?_
  have hnew : NewBlocks c e g s g₃ s₃ [head, bodyBlock, exit] :=
    .cons h₁ (.cons h₂ (.cons h₃ (.nil h₃.leg.inv)))
  have l₃ := hnew.leg.widen (X := {p | ¬ s.Has p.1 p.2})
  obtain ⟨⟨n₁₂, n₁₃, n₂₃⟩, ⟨a₁, a₂, a₃⟩, ⟨p₁, p₂, p₃⟩, w₃⟩ := hnew.three
  have entry : Spare c e g₃ s₃ (if runOnce then bodyBlock else head) ∧
      ¬ s.Has s.fn.func (if runOnce then bodyBlock else head) := by
    split
    · exact ⟨p₂, a₂⟩
    · exact ⟨p₁, a₁⟩
  refine (walks_br entry.1.idle.landing (entry.1.entry.free (l₃.mem_fresh entry.2))).bind
    fun _ g₄ s₄ q₄ h₄ => ?_
  obtain ⟨h₄, -⟩ := h₄
  have l₄ := l₃.trans q₄
  -- The test.
  refine (walks_positionAt (h₄.spare _ p₁)
    (w := insert (s.fn.func, exit) (insert (s.fn.func, bodyBlock) g.waiting)) (l₄.mem_fresh a₁)
    h₄.terminated ?_).bind fun _ g₅ s₅ q₅ h₅ => ?_
  · rw [h₄.ledger, w₃, l₄.stay.fn]
    grind
  have l₅ := l₄.trans q₅
  have b₁ := h₅.begins (h₄.spare _ p₁)
  have e₅ := h₅.entry _ (h₄.spare _ p₁).entry
  have p₂ := h₅.leg.spare (h₄.spare _ p₂) (notMem_of_ne n₁₂.symm)
  have p₃ := h₅.leg.spare (h₄.spare _ p₃) (notMem_of_ne n₁₃.symm)
  refine (hv e _ g₅ s₅ cond ho.1).traced.bind fun v g₆ s₆ q₆ ⟨h₆, hcond⟩ => .ask rfl ?_
  refine (h₆.emits (emits_truth h₆.usable)).traced.bind fun test g₇ s₇ q₇ ⟨h₇, htest⟩ => ?_
  have l₇ := (l₅.trans q₆).trans q₇
  have p₂ := h₇.leg.spare p₂ (Set.notMem_empty _)
  have p₃ := h₇.leg.spare p₃ (Set.notMem_empty _)
  refine (walks_condBr h₇.usable p₂.idle.landing (p₂.entry.free (l₇.mem_fresh a₂))
    p₃.idle.landing (p₃.entry.free (l₇.mem_fresh a₃))).traced.bind
    fun _ g₈ s₈ q₈ ⟨h₈, hbranch⟩ => ?_
  have l₈ := l₇.trans q₈
  have e₈ := h₈.entry _ (h₇.leg.entry e₅ (Set.notMem_empty _))
  -- The body, which goes back to the test.
  refine (walks_positionAt (h₈.spare _ p₂) (w := insert (s.fn.func, exit) g.waiting)
    (l₈.mem_fresh a₂) h₈.terminated ?_).bind fun _ g₉ s₉ q₉ h₉ => ?_
  · rw [h₈.ledger, h₇.waiting, h₅.waiting, l₈.stay.fn]
    grind
  have l₉ := l₈.trans q₉
  have p₃ := h₉.leg.spare (h₈.spare _ p₃) (notMem_of_ne n₂₃.symm)
  have b₂ := h₉.begins (h₈.spare _ p₂)
  have hbody : Walks c e {(s₉.fn.func, exit)} g₉ s₉
      (withBreakTarget (.loop exit) (operand visit body)) fun g' s' _ =>
        Spare c e g' s' exit ∧ g'.waiting = g₉.waiting :=
    walks_withBreakTarget p₃ rfl (walks_operand hv ho.2) fun _ _ _ h => h.waiting
  refine (hbody.narrow fun f b hb => .inl ?_).traced.bind fun _ g₁₀ s₁₀ q₁₀ ⟨h₁₀, gbody⟩ => ?_
  · rw [Set.mem_singleton_iff.mp hb]
    exact l₉.mem_fresh a₃
  obtain ⟨leg₁₀, p₃, w₁₀⟩ := h₁₀
  have l₁₀ := l₉.trans q₁₀
  have e₁₀ := leg₁₀.entry (h₉.entry _ e₈) (notMem_of_ne n₁₃)
  refine (walks_br e₁₀.landing (e₁₀.free (l₁₀.mem_fresh a₁))).traced.bind
    fun _ g₁₁ s₁₁ q₁₁ ⟨⟨h₁₁, _⟩, gback⟩ => ?_
  have l₁₁ := l₁₀.trans q₁₁
  refine (walks_positionAt (h₁₁.spare _ p₃) (w := g.waiting) (l₁₁.mem_fresh a₃) h₁₁.terminated
    ?_).bind fun _ g₁₂ s₁₂ q₁₂ h₁₂ => .ask rfl ?_
  · rw [h₁₁.ledger, w₁₀, h₉.waiting, l₁₁.stay.fn]
  have b₃ := h₁₂.begins (h₁₁.spare _ p₃)
  have grows₈ := ((q₉.trans q₁₀).trans q₁₁).path.grows.trans q₁₂.path.grows
  rw [l₁₁.stay.fn] at b₃
  rw [l₈.stay.fn] at b₂
  rw [l₄.stay.fn] at b₁
  have position₆ : ∃ b, s₆.builder.position = some (s.fn.func, b) := by
    obtain ⟨b, hb, -⟩ := q₆.inv.steady.position
    exact ⟨b, by rw [hb, (l₅.trans q₆).stay.fn]⟩
  have looped : ∀ s', s₁₂.Grows s' → ((∃ b, s'.Leads s.fn.func b exit) → Begins s' s.fn.func exit) →
      Looped c visit s.fn.func cond body s' := fun s' hs hexit =>
    ⟨head, bodyBlock, exit, s₅, v, s₆, test, s₇, b₁, hcond, position₆, htest,
      ⟨(q₈.path.grows.trans (grows₈.trans hs)).code, s₇, s₈, rfl, fun _ _ hb => ⟨hb, rfl⟩, hbranch,
        (grows₈.trans hs).code⟩,
      ⟨s₉, _, s₁₀, s₁₁, b₂, gbody, gback, (q₁₂.path.grows.trans hs).code⟩, hexit⟩
  split
  · rename_i hnone
    refine walks_unreachable.widen.bind fun _ g₁₃ s₁₃ _ ⟨q₁₃, h₁₃⟩ =>
      .pure fun _ => ⟨?_, trivial, ?_⟩
    · rw [h₁₃.ledger, h₁₂.waiting]
    · -- nothing leads to the end of the loop
      refine looped s₁₃ q₁₃.path.grows fun ⟨b, hl⟩ => ?_
      rcases q₁₃.path.edges _ b exit b₃.inside hl with hl | hm | ⟨-, ha⟩
      · rw [isEmpty_predecessors b₃.position hl] at hnone
        cases hnone
      · exact absurd hm (Set.notMem_empty _)
      · exact absurd ha (h₁₂.entry exit (h₁₁.spare _ p₃).entry).notAim
  · refine .pure fun _ => ⟨h₁₂.waiting, trivial, looped s₁₂ (.refl _) fun _ => b₃⟩

/-! ### Transfers -/

omit hv in
theorem walks_returnFromFunction {value : Value} {source : TypeId}
    (hu : Usable c (some e) s value) :
    Walks c e X g s (returnFromFunction value source) fun g' s' _ => g' = g ∧
      s'.builder.isTerminated = true := by
  unfold returnFromFunction
  refine .assume fun hi => .ask rfl ?_
  dsimp only
  split
  · exact (walks_ret (by simp)).mono fun _ _ _ _ h => ⟨h.ledger, h.terminated⟩
  refine .ask rfl ?_
  split
  · refine (Emits.orFail (P := fun s' v => Usable c (some e) s' v) fun v hr =>
      hi.returnSlot v hr).walks.bind fun slot g₁ s₁ _ h₁ => ?_
    refine (emits_assign h₁.2 (h₁.1.leg.usable hu)).walks.bind fun _ g₂ s₂ _ h₂ => ?_
    refine (emits_load (h₂.1.leg.usable h₁.2)).walks.bind fun whole g₃ s₃ _ h₃ => ?_
    refine (walks_ret fun v hw => ?_).mono fun _ _ _ _ h => ⟨?_, h.terminated⟩
    · rw [← Option.some.inj hw]
      exact h₃.2
    · rw [h.ledger, h₃.1.ledger, h₂.1.ledger, h₁.1.ledger]
  · refine (emits_convertExactly hu).walks.bind fun w g₁ s₁ _ h₁ => ?_
    refine (walks_ret fun v hw => ?_).mono fun _ _ _ _ h => ⟨?_, h.terminated⟩
    · rw [← Option.some.inj hw]
      exact h₁.2
    · rw [h.ledger, h₁.1.ledger]

omit hv in
theorem mem_returnTarget {id : TargetId} (h : s.act.returnTarget = some id) :
    id ∈ g.callTargets s := by
  simp [Ledger.callTargets, Ledger.activations, Activation.callTargets, h]

omit hv in
theorem mem_breakTarget {id : TargetId} (h : s.act.breakTarget = some (.call id)) :
    id ∈ g.callTargets s := by
  simp [Ledger.callTargets, Ledger.activations, Activation.callTargets, h]

omit hv in
theorem mem_loopExit {b : BlockId} (h : s.act.breakTarget = some (.loop b)) :
    b ∈ g.loopExits s := by
  simp [Ledger.loopExits, Ledger.activations, Activation.loopExits, h]

omit hv in
/-- A step without a value at the end of an expression. -/
theorem Visited.leave {x : Gen Unit} {g₁ : Ledger} {s₁ : State} {v : Value}
    (h₁ : Visited c e g s g₁ s₁ v)
    (h : Walks c e ∅ g₁ s₁ x fun g' s' _ => g' = g₁ ∧ s'.builder.isTerminated = true) :
    Walks c e X g₁ s₁ (do x; return nilValue) fun g' s' v =>
      Visited c e g s g' s' v ∧ s'.builder.isTerminated = true := by
  refine h.widen.bind fun _ g₂ s₂ _ h₂ => .pure fun _ => ?_
  obtain ⟨hl, rfl, ht⟩ := h₂
  exact ⟨⟨h₁.leg.trans hl, h₁.waiting, trivial⟩, ht⟩

theorem walks_leave {n : Option Node} (ho : c.program.Owns e (Node.preorderOption n)) :
    Walks c e X g s (leave visit n) fun g' s' v =>
      Visited c e g s g' s' v ∧ s'.builder.isTerminated = true := by
  unfold leave
  refine (walks_operand hv ho).bind fun r g₁ s₁ _ h₁ =>
    .ask (a := s₁.builder.isTerminated) rfl ?_
  split
  · rename_i ht
    exact .pure fun _ => ⟨{ h₁ with usable := trivial }, ht⟩
  refine .ask rfl ?_
  split
  · rename_i id hid
    exact h₁.leave (walks_jumpToTarget (mem_returnTarget hid) h₁.usable)
  · exact h₁.leave (walks_returnFromFunction h₁.usable)

theorem walks_exit {n : Option Node} (ho : c.program.Owns e (Node.preorderOption n)) :
    Walks c e X g s (exit visit n) fun g' s' v =>
      Visited c e g s g' s' v ∧ s'.builder.isTerminated = true := by
  unfold exit
  refine (walks_operand hv ho).bind fun r g₁ s₁ _ h₁ => .ask rfl ?_
  split
  · rename_i b hb
    have hexit := mem_loopExit (g := g₁) hb
    refine h₁.leave (.assume fun hi => ?_)
    exact (walks_br (hi.aimed.exits b hexit).landing (.inr hexit)).mono fun _ _ _ _ h =>
      ⟨h.1.ledger, h.1.terminated⟩
  · rename_i id hid
    exact h₁.leave (walks_jumpToTarget (mem_breakTarget hid) h₁.usable)
  · exact .fail

/-! ### Tests -/

theorem walks_membership {n : Node} {target : TypeId} (ho : c.program.Owns e n.preorder) :
    Walks c e X g s (membership visit n target) (Visited c e g s) :=
  (hv e X g s n ho).bind fun _ _ _ _ h₁ => .ask rfl (h₁.emits (emits_isA h₁.usable))

theorem walks_truthOf {n : Node} (ho : c.program.Owns e n.preorder) :
    Walks c e X g s (truthOf visit n) (Visited c e g s) :=
  (hv e X g s n ho).bind fun _ _ _ _ h₁ => .ask rfl (h₁.emits (emits_truth h₁.usable))

theorem walks_either {left right : Node} (hl : c.program.Owns e left.preorder)
    (hr : c.program.Owns e right.preorder) :
    Walks c e X g s (either visit left right) (Visited c e g s) := by
  refine (walks_truthOf hv hl).bind fun l g₁ s₁ _ h₁ => ?_
  refine (walks_truthOf hv hr).bind fun r g₂ s₂ _ h₂ => ?_
  exact (h₁.trans h₂).emits (emits_or (h₂.leg.usable h₁.usable) h₂.usable)

end Lowering.Gen
