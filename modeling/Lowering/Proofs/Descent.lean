import Lowering.Proofs.Agreement
import Lowering.Proofs.Measure

/-!
# Generation goes down

An expression has others generated for it, in states where there is less to generate.  So the answer
of a visitor matters only for expressions and states with less to do, and what is kept for them is
kept for the expression.

* `Gen.Tidy`, `Gen.Listed`, `Gen.Ready`: states from which generation goes on;
* `Gen.Sure`: two steps that come to the same in such a state and end well, with its rules;
* `Gen.Within`, `Gen.Follows`: expressions with less to do, and visitors that come to the same there;
* `Gen.sure_branch`, `Gen.sure_loop`, `Gen.sure_leave`, `Gen.sure_exit`: control flow.
-/

namespace Lowering.Gen

open IR (Ty Value FuncId BlockId GlobalId Build)

variable {α β : Type} {c : Context} {e : Entity} {g g₁ g' : Ledger} {s s₁ s' : State}
  {X : Set (FuncId × BlockId)} {μ : Nat}

/-! ### States from which generation goes on -/

/-- The table of the program has a type. -/
def Context.Knows (c : Context) (t : TypeId) : Prop := c.program.types.contains t = true

/-- What holds of the program of a generation. -/
structure Reviewed (c : Context) : Prop where
  valid : c.program.IsValid
  nil : c.program.types.nil? = some c.nil
  symbols : c.symbols = c.program.symbolSet
  inlining : c.program.InliningEnds
  result : ∀ t ∈ c.main.returnType, c.Knows t

/-- The record that the code of a function is begun. -/
def functionRecord (name : String) : Log.Record := ⟨.debug, "generating " ++ name⟩

/-- The record that the initializer of a constant is begun. -/
def initializerRecord (p : Program) (id : ConstId) : Log.Record :=
  ⟨.debug, "hoisting initializer of constant " ++ (p.const? id).elim "" ConstDef.name⟩

/-- The code of each function and each initializer was begun at most once, and the variables in
scope have types of the table. -/
structure Tidy (c : Context) (s : State) : Prop where
  once : (s.log.about "generating ").Nodup
  named : ∀ r ∈ s.log.about "generating ", ∃ name ∈ s.builder.module.names, r = functionRecord name
  hoisted : s.log.about "hoisting initializer of constant " =
    (s.consts.map Prod.fst).reverse.map (initializerRecord c.program)
  keys : (s.consts.map Prod.fst).Nodup
  constants : ∀ q ∈ s.consts, q.1.index < c.program.consts.length
  types : ∀ p ∈ s.act.vars, c.Knows p.2.type

/-- The types around the code at hand are types of the table. -/
structure Listed (c : Context) (g : Ledger) (s : State) : Prop where
  scope : ∀ t ∈ s.act.scope, c.Knows t
  callers : ∀ fr ∈ s.blocks, (∀ p ∈ fr.caller.vars, c.Knows p.2.type) ∧
    ∀ t ∈ fr.caller.scope, c.Knows t
  blocks : ∀ fr ∈ s.blocks, ∀ a ∈ fr.block.args, c.Knows a.type
  targets : ∀ t ∈ g.callTargets s, ∀ m, s.targets[t.index]? = some m → ∀ k ∈ m.type, c.Knows k
  result : ∀ t ∈ s.fn.returnType, c.Knows t
  definition : ∀ d ∈ s.definition, d ∈ c.program.defs

/-- A state from which generation goes on. -/
structure Ready (c : Context) (e : Entity) (g : Ledger) (s : State) : Prop where
  inv : Inv c e g s
  tidy : Tidy c s
  listed : Listed c g s

/-- How a step ends: also a failure leaves the books in order. -/
structure Ends (c : Context) (o : Except Failure α × State) : Prop where
  tidy : Tidy c o.2
  cause : ∀ f, o.1 = .error f → f.cause.Ordinary

/-- Two steps that come to the same in a state, and end well. -/
structure Met (c : Context) (s : State) (x y : Gen α) : Prop where
  same : outcome x c s = outcome y c s
  ends : Ends c (outcome x c s)

/-- Two steps that come to the same in a state from which generation goes on, and end well. -/
def Sure (c : Context) (e : Entity) (g : Ledger) (s : State) (x y : Gen α) : Prop :=
  Ready c e g s → Met c s x y

theorem Tidy.quiet {F : Cause → Prop} {r : Except Failure α} (h : Tidy c s)
    (hq : Quiet c.Knows F s (r, s')) : Tidy c s' where
  once := by
    rw [hq.begun _ (by simp [beginnings])]
    exact h.once
  named := by
    rw [hq.begun _ (by simp [beginnings])]
    intro r hr
    obtain ⟨name, hname, hr⟩ := h.named r hr
    exact ⟨name, hq.names hname, hr⟩
  hoisted := by
    rw [hq.begun _ (by simp [beginnings]), hq.consts]
    exact h.hoisted
  keys := by
    rw [hq.consts]
    exact h.keys
  constants := by
    rw [hq.consts]
    exact h.constants
  types p hp := by
    rcases hq.types p hp with ⟨q, hq, he⟩ | ht
    · exact he ▸ h.types q hq
    · exact ht

theorem Listed.along (h : Listed c g s) (hi : Inv c e g s) (l : Leg c e X g s g' s') :
    Listed c g' s' where
  scope := by
    rw [l.stay.scope]
    exact h.scope
  callers := by
    rw [l.stay.blocks]
    exact h.callers
  blocks := by
    rw [l.stay.blocks]
    exact h.blocks
  targets := by
    intro t ht m hm
    rw [l.stay.callTargets] at ht
    obtain ⟨m₀, hm₀, -⟩ := hi.aimed.awaits t ht
    obtain ⟨m₁, hm₁, -, htype, -⟩ := l.path.targets t.index m₀ hm₀
    obtain rfl : m = m₁ := Option.some.inj (hm.symm.trans hm₁)
    rw [htype]
    exact h.targets t ht m₀ hm₀
  result := by
    rw [l.stay.fn]
    exact h.result
  definition := by
    rw [l.stay.definition]
    exact h.definition

theorem Ready.along (h : Ready c e g s) (l : Leg c e X g s g' s') (ht : Tidy c s') :
    Ready c e g' s' :=
  ⟨l.inv, ht, h.listed.along h.inv l⟩

/-! ### Rules -/

namespace Met

variable {x y x' y' : Gen α} {f f' : α → Gen β} {z : Gen Unit} {t : State}

theorem quiet (h : Tidy c s) (hq : Quiet c.Knows Cause.Ordinary s (outcome x c s)) :
    Met c s x x :=
  ⟨rfl, h.quiet (r := (outcome x c s).1) hq, hq.cause⟩

/-- A step that generates no expressions. -/
theorem step (h : Tidy c s) (hx : Restores c x c.Knows) : Met c s x x := quiet h (hx s).2

theorem pure (h : Tidy c s) (a : α) : Met c s (pure a : Gen α) (pure a) := step h (.pure a)

theorem congr (hx : outcome x c s = outcome x' c t) (hy : outcome y c s = outcome y' c t)
    (h : Met c t x' y') : Met c s x y :=
  ⟨hx.trans (h.same.trans hy.symm), hx ▸ h.ends⟩

/-- A step of which the outcome is known. -/
theorem skip {a : α} (h : Gives x c s a t) (hf : Met c t (f a) (f' a)) :
    Met c s (x >>= f) (x >>= f') :=
  congr (outcome_after h) (outcome_after h) hf

theorem bind (h : Met c s x y)
    (hf : ∀ a t, Gives x c s a t → Tidy c t → Met c t (f a) (f' a)) :
    Met c s (x >>= f) (y >>= f') := by
  obtain ⟨he, hends⟩ := h
  cases ho : outcome x c s with
  | mk r t =>
    rw [ho] at he hends
    cases r with
    | error e =>
      have hx : outcome (x >>= f) c s = (.error e, t) := by rw [outcome_bind, ho]; rfl
      have hy : outcome (y >>= f') c s = (.error e, t) := by rw [outcome_bind, ← he]; rfl
      exact ⟨hx.trans hy.symm, hx ▸ ⟨hends.tidy, fun f hf => hends.cause f (by cases hf; rfl)⟩⟩
    | ok a => exact congr (outcome_after ho) (outcome_after he.symm) (hf a t ho hends.tidy)

/-- The rest of a step generates no expressions. -/
theorem last (h : Met c s x y) (hf : ∀ a, Restores c (f a) c.Knows) :
    Met c s (x >>= f) (y >>= f) :=
  h.bind fun a _ _ ht => step ht (hf a)

theorem resume {r : Except Failure α} (h : Ends c (r, s)) :
    Met c s (resume r) (Gen.resume r) := by
  have hr : outcome (Gen.resume r) c s = (r, s) := by cases r <;> rfl
  exact ⟨rfl, hr ▸ h⟩

/-- A step that is attempted, with what follows. -/
theorem attempt {f f' : Except Failure α → Gen β} (h : Met c s x y)
    (hf : ∀ r t, Ends c (r, t) → Met c t (f r) (f' r)) :
    Met c s (attempt x >>= f) (attempt y >>= f') :=
  congr (outcome_after (a := (outcome x c s).1) (t := (outcome x c s).2) rfl)
    (outcome_after (a := (outcome x c s).1) (t := (outcome x c s).2) (by rw [h.same]; rfl))
    (hf _ _ h.ends)

theorem withActivation {act : Activation} (h : Met c { s with act } x y)
    (ht : ∀ p ∈ s.act.vars, c.Knows p.2.type) :
    Met c s (withActivation act x) (withActivation act y) := by
  obtain ⟨he, hends⟩ := h
  constructor
  · rw [outcome_withActivation, outcome_withActivation, he]
  · rw [outcome_withActivation]
    exact ⟨{ hends.tidy with types := ht }, hends.cause⟩

theorem withBreakTarget {b : BreakTarget}
    (h : Met c { s with act := { s.act with breakTarget := some b } } x y) :
    Met c s (withBreakTarget b x) (withBreakTarget b y) := by
  obtain ⟨he, hends⟩ := h
  constructor
  · rw [outcome_withBreakTarget, outcome_withBreakTarget, he]
  · rw [outcome_withBreakTarget]
    exact ⟨{ hends.tidy with }, hends.cause⟩

theorem aside (h : Met c s x y) : Met c s (aside x) (aside y) := by
  obtain ⟨he, hends⟩ := h
  constructor
  · rw [outcome_aside, outcome_aside, he]
  · rw [outcome_aside]
    exact ⟨{ hends.tidy with }, hends.cause⟩

theorem inPlace {block : Block Node} {act : Activation}
    (h : Met c { s with act, blocks := { block, caller := s.act } :: s.blocks } x y)
    (hr : ∀ s : State, s.InFunction → Restored s (outcome x c s).2) (hs : s.InFunction)
    (ht : ∀ p ∈ s.act.vars, c.Knows p.2.type) :
    Met c s (inPlace block act x) (inPlace block act y) := by
  obtain ⟨he, hends⟩ := h
  have hx := hr { s with act, blocks := { block, caller := s.act } :: s.blocks } hs
  constructor
  · rw [outcome_inPlace hx, outcome_inPlace (he ▸ hx), he]
  · rw [outcome_inPlace hx]
    exact ⟨{ hends.tidy with types := ht }, hends.cause⟩

end Met

namespace Sure

variable {x y : Gen α} {f f' : α → Gen β}

/-- A step that generates no expressions. -/
theorem step (hx : Restores c x c.Knows) : Sure c e g s x x := fun h => .step h.tidy hx

/-- A step that generates no expressions and brings no variable into scope. -/
theorem leaf (hx : Restores c x) : Sure c e g s x x := step hx.wide

theorem pure (a : α) : Sure c e g s (pure a) (pure a) := step (.pure a)

theorem fail {cause : Cause} (h : cause.Ordinary) :
    Sure c e g s (Gen.fail cause : Gen α) (Gen.fail cause) :=
  step (.fail cause h)

theorem assume (h : Ready c e g s → Sure c e g s x y) : Sure c e g s x y := fun hr => h hr hr

theorem bind {P : Ledger → State → α → Prop} (hx : Sure c e g s x y) (hw : Walks c e X g s x P)
    (hf : ∀ a g₁ s₁, Leg c e X g s g₁ s₁ → P g₁ s₁ a → Sure c e g₁ s₁ (f a) (f' a)) :
    Sure c e g s (x >>= f) (y >>= f') := fun hr =>
  (hx hr).bind fun a t hg ht => by
    obtain ⟨g₁, hl, hp⟩ := hw hr.inv a t hg
    exact hf a g₁ t hl hp (hr.along hl ht)

/-- After the last expression of a step, the rest generates none. -/
theorem last (hx : Sure c e g s x y) (hf : ∀ a, Restores c (f a) c.Knows) :
    Sure c e g s (x >>= f) (y >>= f) := fun hr => (hx hr).last hf

/-- A question leaves the state as it is. -/
theorem ask {a : α} (hx : Gives x c s a s) (hf : Sure c e g s (f a) (f' a)) :
    Sure c e g s (x >>= f) (x >>= f') := fun hr => .skip hx (hf hr)

end Sure

/-! ### Visitors -/

/-- An expression that a step may have generated in a state: it belongs to the code at hand, and
there is less to do for it than for the step. -/
structure Within (c : Context) (e : Entity) (μ : Nat) (s : State) (n : Node) : Prop where
  owns : c.program.Owns e n.preorder
  less : load c.program s + c.program.weight n < μ

theorem Leg.load_le (l : Leg c e X g s g' s') : load c.program s' ≤ load c.program s :=
  Gen.load_le l.path.grows.code l.path.consts.subset l.stay.blocks

theorem Within.along {n : Node} (h : Within c e μ s n) (l : Leg c e X g s g' s') :
    Within c e μ s' n :=
  ⟨h.owns, (Nat.add_le_add_right l.load_le _).trans_lt h.less⟩

/-- An expression that belongs to the code at hand, and that there is not more to do for than for a
step. -/
structure Due (c : Context) (e : Entity) (μ : Nat) (s : State) (n : Node) : Prop where
  owns : c.program.Owns e n.preorder
  less : load c.program s + c.program.weight n ≤ μ

namespace Due

variable {n m : Node}

theorem along (h : Due c e μ s n) (l : Leg c e X g s g' s') : Due c e μ s' n :=
  ⟨h.owns, (Nat.add_le_add_right l.load_le _).trans h.less⟩

theorem mem_nodes (h : Due c e μ s n) : n ∈ c.program.nodes := (h.owns n (Node.mem_preorder n)).1

theorem load_lt (h : Due c e μ s n) : load c.program s < μ :=
  (Nat.lt_add_of_pos_right (Program.weight_pos n)).trans_le h.less

/-- There is less to do for the expressions below. -/
theorem child (h : Due c e μ s n) (hm : m ∈ n.children) : Within c e μ s m := by
  refine ⟨h.owns.mono ?_, (Nat.add_lt_add_left (Program.weight_children hm) _).trans_le h.less⟩
  rw [Node.preorder_eq n]
  exact List.Subset.trans (Node.preorder_subset_of_mem_children hm) (List.subset_cons_self _ _)

end Due

theorem owns_within {o : Option Node} (h : ∀ n ∈ o, Within c e μ s n) :
    c.program.Owns e (Node.preorderOption o) := by
  cases o with
  | none => exact .nil
  | some n => exact (h n rfl).owns

theorem owns_list {nodes : List Node} (h : ∀ n ∈ nodes, Within c e μ s n) :
    c.program.Owns e (Node.preorderList nodes) := by
  induction nodes with
  | nil => exact .nil
  | cons n rest ih =>
    rw [Node.preorderList, Program.Owns.append]
    exact ⟨(h n List.mem_cons_self).owns, ih fun m hm => h m (List.mem_cons_of_mem _ hm)⟩

/-- Two visitors that come to the same for all expressions with less to do. -/
def Follows (c : Context) (μ : Nat) (visit visit' : Visitor) : Prop :=
  ∀ e g s n, Within c e μ s n → Sure c e g s (visit n) (visit' n)

section

variable {visit visit' : Visitor} (hv : Visits c visit) (hf : Follows c μ visit visit')
include hf

/-! ### Control flow -/

theorem sure_operand {n : Option Node} (h : ∀ m ∈ n, Within c e μ s m) :
    Sure c e g s (operand visit n) (operand visit' n) := by
  cases n with
  | none => exact .leaf (restores_nil.bind fun _ => .pure _)
  | some n => exact (hf e g s n (h n rfl)).last fun _ => (restores_typeOf.bind fun _ => .pure _).wide

/-- An arm of a branch, which begins in a block that waits. -/
theorem sure_arm {block exit : BlockId} {slot : Option Value} {t : Option TypeId}
    {n : Option Node} (h : ∀ m ∈ n, Within c e μ s m) (hb : Spare c e g s block)
    (ht : s.builder.isTerminated = true) :
    Sure c e g s (arm visit block exit slot t n) (arm visit' block exit slot t n) :=
  Sure.bind (.leaf restores_positionAt)
    (walks_positionAt hb (Set.mem_univ _) ht (Set.subset_insert _ g.waiting)) fun _ _ _ l₁ _ =>
      (sure_operand hf fun m hm => (h m hm).along l₁).last fun _ => restores_deliver.wide

theorem sure_leave {n : Option Node} (h : ∀ m ∈ n, Within c e μ s m) :
    Sure c e g s (leave visit n) (leave visit' n) :=
  (sure_operand hf h).last fun r => by
    refine restores_isTerminated.wide.bind fun done => ?_
    split
    · exact .pure _
    · refine restores_get.wide.bind fun s => Restores.wide ?_
      split
      · exact restores_jumpToTarget.bind fun _ => .pure _
      · exact restores_returnFromFunction.bind fun _ => .pure _

theorem sure_exit {n : Option Node} (h : ∀ m ∈ n, Within c e μ s m) :
    Sure c e g s (exit visit n) (exit visit' n) :=
  (sure_operand hf h).last fun r => by
    refine restores_get.wide.bind fun s => Restores.wide ?_
    split
    · exact still_br.restores.bind fun _ => .pure _
    · exact restores_jumpToTarget.bind fun _ => .pure _
    · exact .bind (.fail _ trivial) fun _ => .pure _

theorem sure_membership {n : Node} {target : TypeId} (h : Within c e μ s n) :
    Sure c e g s (membership visit n target) (membership visit' n target) :=
  (hf e g s n h).last fun _ => (restores_typeOf.bind fun _ => restores_isA).wide

theorem sure_truthOf {n : Node} (h : Within c e μ s n) :
    Sure c e g s (truthOf visit n) (truthOf visit' n) :=
  (hf e g s n h).last fun _ => (restores_typeOf.bind fun _ => restores_truth).wide

include hv

theorem sure_either {left right : Node} (hl : Within c e μ s left) (hr : Within c e μ s right) :
    Sure c e g s (either visit left right) (either visit' left right) :=
  (sure_truthOf hf hl).bind (walks_truthOf (X := ∅) hv hl.owns) fun _ _ _ l₁ _ =>
    (sure_truthOf hf (hr.along l₁)).last fun _ => still_or.restores.wide

theorem sure_sequence {nodes : List Node} {last : Value} (h : ∀ n ∈ nodes, Within c e μ s n) :
    Sure c e g s (sequence visit last nodes) (sequence visit' last nodes) := by
  induction nodes generalizing g s last with
  | nil => exact .pure last
  | cons n rest ih =>
    have hn := h n List.mem_cons_self
    refine (hf e g s n hn).bind (hv e ∅ g s n hn.owns) fun v g₁ s₁ l₁ _ =>
      .ask (a := s₁.builder.isTerminated) rfl ?_
    split
    · exact .pure v
    · exact ih fun m hm => (h m (List.mem_cons_of_mem _ hm)).along l₁

theorem sure_branchOn {t : Option TypeId} {cond : Value} {whenTrue whenFalse : Option Node}
    (hc : Usable c (some e) s cond) (h : ∀ m ∈ whenTrue, Within c e μ s m)
    (h' : ∀ m ∈ whenFalse, Within c e μ s m) :
    Sure c e g s (branchOn visit t cond whenTrue whenFalse)
      (branchOn visit' t cond whenTrue whenFalse) := by
  unfold branchOn
  refine Sure.bind (.leaf restores_appendBlock) (walks_appendBlock (X := Set.univ))
    fun b₁ g₁ s₁ q₁ h₁ => ?_
  refine Sure.bind (.leaf restores_appendBlock) (walks_appendBlock (X := Set.univ))
    fun b₂ g₂ s₂ q₂ h₂ => ?_
  refine Sure.bind (.leaf restores_appendBlock) (walks_appendBlock (X := Set.univ))
    fun b₃ g₃ s₃ q₃ h₃ => ?_
  have l₃ := q₁.trans (q₂.trans q₃)
  have n₁₂ : b₁ ≠ b₂ := h₂.ne h₁.spare.idle.inside
  have n₁₃ : b₁ ≠ b₃ := h₃.ne (h₂.leg.has h₁.spare.idle.inside)
  have n₂₃ : b₂ ≠ b₃ := h₃.ne h₂.spare.idle.inside
  have p₁ := h₃.leg.spare (h₂.leg.spare h₁.spare (Set.notMem_empty _)) (Set.notMem_empty _)
  have p₂ := h₃.leg.spare h₂.spare (Set.notMem_empty _)
  refine Sure.bind (.leaf still_condBr.restores) (walks_condBr (l₃.usable hc) p₁.idle.landing
    (p₁.entry.free (Set.mem_univ _)) p₂.idle.landing (p₂.entry.free (Set.mem_univ _)))
    fun _ g₄ s₄ q₄ h₄ => ?_
  have m₄ := h₄.held _ (h₃.held t) (by simp [n₁₃.symm, n₂₃.symm])
  refine Sure.bind (.leaf restores_mergeSlot) (emits_mergeSlot.walks (X := Set.univ))
    fun slot g₅ s₅ q₅ ⟨h₅, hslot⟩ => ?_
  have l₅ := (l₃.trans q₄).trans q₅
  have m₅ := (h₅.leg.held m₄ (Set.notMem_empty _)).slotted hslot
  have p₅ := h₅.leg.spare (h₄.spare _ p₁) (Set.notMem_empty _)
  have t₅ := h₅.terminated.trans h₄.terminated
  -- The second arm begins where the first one is not.
  refine Sure.bind (sure_arm hf (fun m hm => (h m hm).along l₅) p₅ t₅) (walks_arm
    (m := { block := b₃, type := t, slot }) hv (owns_within h) p₅ m₅ n₁₃.symm t₅ (Set.subset_insert _ g₅.waiting) (Set.mem_univ _)
    (Set.mem_univ _)) fun fromThen g₆ s₆ q₆ ⟨h₆, _⟩ => ?_
  have p₆ := h₆.leg.spare (h₅.leg.spare (h₄.spare _ p₂) (Set.notMem_empty _))
    (b := b₂) (by simp [n₁₂.symm, n₂₃])
  exact (sure_arm hf (fun m hm => (h' m hm).along (l₅.trans q₆)) p₆ h₆.terminated).last
    fun _ => restores_merge.wide

theorem sure_branch {t : Option TypeId} {cond : Node} {whenTrue whenFalse : Option Node}
    (hc : Within c e μ s cond) (h : ∀ m ∈ whenTrue, Within c e μ s m)
    (h' : ∀ m ∈ whenFalse, Within c e μ s m) :
    Sure c e g s (branch visit t cond whenTrue whenFalse)
      (branch visit' t cond whenTrue whenFalse) := by
  refine (hf e g s cond hc).bind (hv e ∅ g s cond hc.owns) fun v g₁ s₁ l₁ h₁ =>
    .ask (a := s₁.builder.isTerminated) rfl ?_
  split
  · exact .leaf restores_deadValue
  obtain ⟨known, hk⟩ : ∃ o, Gives (knownTruth? cond v) c s₁ o s₁ := exists_gives_knownTruth
  refine .ask hk ?_
  cases known with
  | some taken =>
    have hm : ∀ m ∈ if taken then whenTrue else whenFalse, Within c e μ s₁ m := by
      cases taken with
      | true => exact fun m hm => (h m hm).along l₁
      | false => exact fun m hm => (h' m hm).along l₁
    refine (sure_operand hf hm).last fun r => restores_isTerminated.wide.bind fun done => ?_
    split
    · exact restores_deadValue.wide
    · exact restores_asResult.wide
  | none =>
    refine .ask rfl (Sure.bind (.leaf restores_truth) ((emits_truth h₁.usable).walks (X := ∅))
      fun test g₂ s₂ l₂ ⟨_, h₂⟩ => ?_)
    exact sure_branchOn hv hf h₂ (fun m hm => ((h m hm).along l₁).along l₂)
      fun m hm => ((h' m hm).along l₁).along l₂

omit hv hf in
/-- A step inside a loop. -/
theorem sure_withBreakTarget {b : BlockId} {x y : Gen α} (hb : Spare c e g s b)
    (h : Sure c e (g.park (s.act :: g.parked))
      (s.under { s.act with breakTarget := some (.loop b) } s.blocks) x y) :
    Sure c e g s (withBreakTarget (.loop b) x) (withBreakTarget (.loop b) y) := by
  intro hr
  have hlisted : Listed c (g.park (s.act :: g.parked))
      (s.under { s.act with breakTarget := some (.loop b) } s.blocks) :=
    { hr.listed with
      targets := fun t ht => hr.listed.targets t (callTargets_parked callTargets_inLoop ht) }
  exact .withBreakTarget (h ⟨hr.inv.parking hr.inv.vars callTargets_inLoop (loopExits_inLoop hb),
    { hr.tidy with }, hlisted⟩)

theorem sure_loop {cond : Node} {body : Option Node} {runOnce : Bool} (hc : Within c e μ s cond)
    (h : ∀ m ∈ body, Within c e μ s m) :
    Sure c e g s (loop visit cond body runOnce) (loop visit' cond body runOnce) := by
  unfold loop
  refine Sure.bind (.leaf restores_appendBlock) (walks_appendBlock (X := Set.univ))
    fun head g₁ s₁ q₁ h₁ => ?_
  refine Sure.bind (.leaf restores_appendBlock) (walks_appendBlock (X := Set.univ))
    fun bodyBlock g₂ s₂ q₂ h₂ => ?_
  refine Sure.bind (.leaf restores_appendBlock) (walks_appendBlock (X := Set.univ))
    fun exit g₃ s₃ q₃ h₃ => ?_
  have l₃ := q₁.trans (q₂.trans q₃)
  have n₁₂ : head ≠ bodyBlock := h₂.ne h₁.spare.idle.inside
  have n₁₃ : head ≠ exit := h₃.ne (h₂.leg.has h₁.spare.idle.inside)
  have n₂₃ : bodyBlock ≠ exit := h₃.ne h₂.spare.idle.inside
  have p₁ := h₃.leg.spare (h₂.leg.spare h₁.spare (Set.notMem_empty _)) (Set.notMem_empty _)
  have p₂ := h₃.leg.spare h₂.spare (Set.notMem_empty _)
  have p₃ := h₃.spare
  have entry : Spare c e g₃ s₃ (if runOnce then bodyBlock else head) := by
    split
    · exact p₂
    · exact p₁
  refine Sure.bind (.leaf still_br.restores) (walks_br entry.idle.landing
    (entry.entry.free (Set.mem_univ _))) fun _ g₄ s₄ q₄ ⟨h₄, _⟩ => ?_
  -- The test.
  refine Sure.bind (.leaf restores_positionAt) (walks_positionAt (h₄.spare _ p₁) (Set.mem_univ _)
    h₄.terminated (Set.subset_insert _ g₄.waiting)) fun _ g₅ s₅ q₅ h₅ => ?_
  have l₅ := (l₃.trans q₄).trans q₅
  have p₂ := h₅.leg.spare (h₄.spare _ p₂) (notMem_of_ne n₁₂.symm)
  have p₃ := h₅.leg.spare (h₄.spare _ p₃) (notMem_of_ne n₁₃.symm)
  have hc₅ := hc.along l₅
  refine (hf e g₅ s₅ cond hc₅).bind (hv e Set.univ g₅ s₅ cond hc₅.owns)
    fun v g₆ s₆ q₆ h₆ => .ask rfl ?_
  refine Sure.bind (.leaf restores_truth) ((emits_truth h₆.usable).walks (X := Set.univ))
    fun test g₇ s₇ q₇ ⟨h₇, hu⟩ => ?_
  have p₂ := h₇.leg.spare (h₆.leg.spare p₂ (Set.notMem_empty _)) (Set.notMem_empty _)
  have p₃ := h₇.leg.spare (h₆.leg.spare p₃ (Set.notMem_empty _)) (Set.notMem_empty _)
  refine Sure.bind (.leaf still_condBr.restores) (walks_condBr hu p₂.idle.landing
    (p₂.entry.free (Set.mem_univ _)) p₃.idle.landing (p₃.entry.free (Set.mem_univ _)))
    fun _ g₈ s₈ q₈ h₈ => ?_
  -- The body, after which no expression follows.
  refine Sure.bind (.leaf restores_positionAt) (walks_positionAt (h₈.spare _ p₂) (Set.mem_univ _)
    h₈.terminated (Set.subset_insert _ g₈.waiting)) fun _ g₉ s₉ q₉ h₉ => ?_
  have p₃ := h₉.leg.spare (h₈.spare _ p₃) (notMem_of_ne n₂₃.symm)
  have l₉ := l₅.trans (q₆.trans (q₇.trans (q₈.trans q₉)))
  have hbody : ∀ m ∈ body, Within c e μ s₉ m := fun m hm => (h m hm).along l₉
  refine (sure_withBreakTarget p₃ (sure_operand hf fun m hm => ?_)).last fun _ =>
    Restores.wide ?_
  · exact ⟨(hbody m hm).owns, (hbody m hm).less⟩
  refine still_br.restores.bind fun _ => restores_positionAt.bind fun _ => ?_
  refine restores_get.bind fun s => ?_
  split
  · exact still_unreachable.restores.bind fun _ => .pure _
  · exact .bind (.pure _) fun _ => .pure _

end

end Lowering.Gen
