import Lowering.Proofs.Entry
import Lowering.Proofs.Truth

/-!
# Conditions

Where a run goes from a condition: to the arm of a branch, the body of a loop or its end that the
truth of the value chooses, in the code that is emitted for them.

* `Gen.Spot.Leaves`: from the operand of a condition to the block that depends on it;
* `Gen.BranchFollows`, `Gen.LoopFollows`, `Gen.EitherFollows`: constructs that go by their conditions;
* `Gen.Truthful`: what is asked of tests and of these constructs;
* `Gen.conditions_truthful`: all of it, for every type table with one nil and one truth type.
-/

namespace Lowering.Gen

open IR (Ty Value FuncId BlockId Build Module)
open Exec (RtValue)

variable {c : Context} {w : Setting} {k k₁ : Spot} {v test : Value} {yes no : BlockId} {b : Bool}

/-! ### The end of a block -/

/-- What is left of the block at a spot leads to another block and leaves memory alone; its last
step, the one of its terminator, is taken when the run has a step left. -/
structure Spot.Leaves (w : Setting) (k k' : Spot) (target : BlockId) : Prop where
  runs : k.Runs w k'
  memory : k'.run.memory = k.run.memory
  last : ((w.module.function w.func).block w.block).insts = (k'.gen.block w.func w.block).insts
  goes : k'.run.steps < k'.run.stepLimit →
    Exec.Run.Returns (Exec.Run.terminator (w.module.function w.func)
      ((w.module.function w.func).block w.block) k'.frame) k'.run (.goto target) k'.run.ticked

theorem returns_br {fn : IR.Function} {block : IR.BasicBlock} {fr : Exec.Run.Frame} {σ : Exec.State}
    {target : BlockId} (ht : block.term = some (.br target)) (hs : σ.steps < σ.stepLimit) :
    Exec.Run.Returns (Exec.Run.terminator fn block fr) σ (.goto target) σ.ticked := by
  refine (Exec.Run.returns_tick hs).bind ?_
  rw [ht]
  exact Exec.Run.returns_pure _ _

theorem returns_condBr {fn : IR.Function} {block : IR.BasicBlock} {fr : Exec.Run.Frame}
    {σ : Exec.State} (ht : block.term = some (.condBr test yes no)) (hs : σ.steps < σ.stepLimit)
    (hv : fr.value? σ.globals test = some (bit b)) :
    Exec.Run.Returns (Exec.Run.terminator fn block fr) σ (.goto (if b then yes else no)) σ.ticked := by
  refine (Exec.Run.returns_tick hs).bind ?_
  rw [ht]
  refine (Exec.Run.returns_operand (σ := σ.ticked) hv).bind ?_
  cases b <;> exact Exec.Run.returns_pure _ _

/-- A terminator that was placed ends the block in every later module. -/
theorem Spot.Open.ended (ho : k.Open w) {s₁ s₂ : State} {t : IR.Terminator} {m : Module}
    (hp : s₁.builder.position = k.gen.builder.position)
    (hkept : ∀ f b, k.gen.Has f b → s₁.Has f b ∧ s₁.block f b = k.gen.block f b)
    (hg : Gives (emit (Build.terminate t)) c s₁ () s₂) (hm : s₂.builder.module.Grows m) :
    (m.function w.func).block w.block = { k.gen.block w.func w.block with term := some t } := by
  obtain ⟨hin, hblock⟩ := hkept _ _ ho.inside
  rw [ho.position] at hp
  cases gives_terminate hp hg
  have hself : (s₁.ended w.func w.block t).block w.func w.block =
      { k.gen.block w.func w.block with term := some t } := by
    rw [State.block, func_ended_self hin, Build.block_ended_self hin]
    show { s₁.block w.func w.block with term := (s₁.block w.func w.block).term.or (some t) } = _
    rw [hblock, ho.isOpen, Option.none_or]
  have hin' := (has_ended (t := t) hin).mpr hin
  rw [← hself]
  exact ((hm.function w.func (index_lt_of_hasBlock hin')).block w.block hin').frozen
    (by rw [← State.func, ← State.block, hself]; rfl)

/-- A branch on an operand ends the block, by a jump when the operand is constant. -/
theorem Spot.Open.branched {m : Module} (ho : k.Open w) (hv : k.Holds w test .i1 (bit b))
    (he : Exact test) (hb : Branched c test yes no k.gen m) :
    ∃ t, (m.function w.func).block w.block = { k.gen.block w.func w.block with term := some t } ∧
      (t = .br (if b then yes else no) ∨ t = .condBr test yes no) := by
  obtain ⟨-, s₁, s₂, hp, hkept, hg, hgrows⟩ := hb
  cases hconst : test.constBool? with
  | some b' =>
    obtain rfl := hv.constBool he hconst
    have hg : Gives (emit (Build.terminate (.br (if b' then yes else no)))) c s₁ () s₂ := by
      rw [Build.condBr, hconst] at hg
      cases b' <;> exact hg
    exact ⟨_, ho.ended hp hkept hg hgrows, .inl rfl⟩
  | none =>
    rw [Build.condBr, hconst] at hg
    exact ⟨_, ho.ended hp hkept hg hgrows, .inr rfl⟩

/-- The block that the truth of an operand chooses is one that the branch leads to. -/
theorem Spot.Open.leads {s : State} (ho : k.Open w) (hv : k.Holds w test .i1 (bit b))
    (he : Exact test) (hb : Branched c test yes no k.gen s.builder.module) :
    s.Leads w.func w.block (if b then yes else no) := by
  obtain ⟨t, hblock, ht⟩ := ho.branched hv he hb
  refine ⟨t, by rw [State.func, hblock], ?_⟩
  rcases ht with rfl | rfl
  · exact List.mem_singleton_self _
  · rw [IR.Terminator.successors]
    cases b <;> split <;> simp_all

/-- A branch on an operand leads to the block that its truth chooses. -/
theorem Spot.Open.leaves (ho : k₁.Open w) (hr : k.Runs w k₁) (hg : k.Gets w .i1 (bit b) k₁ test)
    (hb : Branched c test yes no k₁.gen w.module) : k.Leaves w k₁ (if b then yes else no) := by
  obtain ⟨t, hblock, ht⟩ := ho.branched hg.holds hg.exact hb
  refine ⟨hr, hg.memory, by rw [hblock], fun hs => ?_⟩
  rcases ht with rfl | rfl
  · exact returns_br (by rw [hblock]) hs
  · exact returns_condBr (by rw [hblock]) hs hg.holds.value

/-! ### Where a condition leads -/

/-- The static type of a condition. -/
def Context.typeOf (c : Context) (n : Node) : TypeId := n.type.getD c.nil

/-- The truth of the value of a condition. -/
def Context.countsAsTrue (c : Context) (n : Node) (t : TypeId) (x : RtValue) : Bool :=
  Gen.countsAsTrue c.program.types (c.typeOf n) t x

/-- The operand of a condition stands for a value. -/
def Spot.Meets (w : Setting) (c : Context) (k : Spot) (n : Node) (v : Value) (t : TypeId)
    (x : RtValue) : Prop :=
  k.Shows w c.program.types v (c.typeOf n) t x

/-- The code of a branch whose condition is decided: that of the arm which is taken. -/
def onlyArm (visit : Visitor) (t : Option TypeId) (n : Option Node) : Gen Value := do
  let (value, source) ← operand visit n
  if ← isTerminated then deadValue t else asResult t value source

/-- A branch that was generated takes the arm that the truth of its condition chooses: the arm is the
only one when the truth is the same for every value, and the block of the arm is the one where a run
goes on otherwise. -/
def BranchFollows (c : Context) (visit : Visitor) (t : Option TypeId) (cond : Node)
    (whenTrue whenFalse : Option Node) (s : State) (r : Value) (s' : State) : Prop :=
  ∀ v s₁, Gives (visit cond) c s v s₁ → s₁.builder.isTerminated = false →
    (∃ taken, Gives (knownTruth? cond v) c s₁ (some taken) s₁ ∧
      Gives (onlyArm visit t (if taken then whenTrue else whenFalse)) c s₁ r s' ∧
      ∀ (w : Setting) (k : Spot) ty x, k.gen = s₁ → k.Meets w c cond v ty x →
        c.countsAsTrue cond ty x = taken) ∨
    ∃ yes no, Arms c visit s.fn.func t whenTrue whenFalse yes no r s' ∧
      ∀ (w : Setting) (k : Spot) ty x, k.gen = s₁ → s'.builder.module.Grows w.module → k.Open w →
        k.Meets w c cond v ty x →
        w.func = s.fn.func ∧ ∃ k', k.Leaves w k' (if c.countsAsTrue cond ty x then yes else no)

/-- A loop that was generated evaluates its condition in a block of its own.  From there a run goes to
the body, which leads back, when the condition is true and to where the loop ends when it is false. -/
def LoopFollows (c : Context) (visit : Visitor) (cond : Node) (body : Option Node)
    (s s' : State) : Prop :=
  ∃ head yes no s₁ v s₂, Begins s₁ s.fn.func head ∧ Gives (visit cond) c s₁ v s₂ ∧
    BodyAt c visit body s.fn.func yes head no s'.builder.module ∧
    ∀ (w : Setting) (k : Spot) ty x, k.gen = s₂ → s'.builder.module.Grows w.module → k.Open w →
      k.Meets w c cond v ty x →
      w.func = s.fn.func ∧ (∃ k', k.Leaves w k' (if c.countsAsTrue cond ty x then yes else no)) ∧
        (c.countsAsTrue cond ty x = false → Begins s' s.fn.func no)

/-- A disjunction that was generated evaluates and tests both operands, and is true when one of them
is.  Between the two tests the run may come to another block, with other memory. -/
def EitherFollows (c : Context) (visit : Visitor) (left right : Node) (s : State) (r : Value)
    (s' : State) : Prop :=
  ∃ v s₁ s₂ v' s₃, Gives (visit left) c s v s₁ ∧ Gives (visit right) c s₂ v' s₃ ∧
    ∀ (w : Setting) (k : Spot) t x, k.gen = s₁ → s'.builder.module.Grows w.module → k.Open w →
      k.Meets w c left v t x →
      ∃ k₁ : Spot, k₁.gen = s₂ ∧ k.Runs w k₁ ∧ k₁.Open w ∧ k₁.run.memory = k.run.memory ∧
        ∀ (b : BlockId) (k₂ : Spot) t' x', k₂.gen = s₃ → k₁.Keeps w k₂ →
          k₂.Open { w with block := b } → k₂.Meets { w with block := b } c right v' t' x' →
          ∃ k₃ : Spot, k₃.gen = s' ∧ k₂.Runs { w with block := b } k₃ ∧
            k₃.Open { w with block := b } ∧ k₂.Gets { w with block := b } .i1
              (bit (c.countsAsTrue left t x || c.countsAsTrue right t' x')) k₃ r

/-- Truth is one law: what is decided of a condition, what its test finds out and where branches,
loops and disjunctions go follow it. -/
structure Truthful (c : Context) (visit : Visitor) : Prop where
  /-- A test is emitted for every operand. -/
  total : ∀ v u, Total c (truth v u)
  /-- A test does not fail when it runs, and gives the truth of the value. -/
  test : ∀ (w : Setting) (k : Spot) v u t x, k.Shows w c.program.types v u t x →
    Performs w c k (truth v u) (k.Gets w .i1 (bit (Gen.countsAsTrue c.program.types u t x)))
  /-- What is decided of a condition is its truth for every value, and what a test would give. -/
  known : ∀ (w : Setting) (k : Spot) cond v t x b s', k.Meets w c cond v t x →
    Gives (knownTruth? cond v) c k.gen (some b) s' →
    c.countsAsTrue cond t x = b ∧ Performs w c k (truth v (c.typeOf cond)) (k.Gets w .i1 (bit b))
  branch : ∀ {e g s t cond whenTrue whenFalse r s'}, Inv c e g s →
    c.program.Owns e (Node.preorderKind (.branch cond whenTrue whenFalse)) →
    Gives (branch visit t cond whenTrue whenFalse) c s r s' →
    BranchFollows c visit t cond whenTrue whenFalse s r s'
  loop : ∀ {e g s cond body runOnce r s'}, Inv c e g s →
    c.program.Owns e (Node.preorderKind (.loop cond body runOnce)) →
    Gives (loop visit cond body runOnce) c s r s' → LoopFollows c visit cond body s s'
  either : ∀ {e g s left right r s'}, Inv c e g s →
    c.program.Owns e (Node.preorderKind (.simpleOr left right)) →
    Gives (either visit left right) c s r s' → EitherFollows c visit left right s r s'

/-! ### Branches, loops and disjunctions -/

section

variable {visit : Visitor} {e : Entity} {g : Ledger} {s s' : State} {t : Option TypeId} {ty : TypeId}
  {x : RtValue} {cond left right : Node} {whenTrue whenFalse body : Option Node} {runOnce : Bool}
  {r : Value}

theorem Inv.func_eq (hi : Inv c e g k.gen) (ho : k.Open w) : k.gen.fn.func = w.func := by
  obtain ⟨b, hp, -⟩ := hi.steady.position
  rw [ho.position] at hp
  exact (Prod.mk.inj (Option.some.inj hp)).1.symm

theorem Spot.Open.isTerminated (ho : k.Open w) : k.gen.builder.isTerminated = false := by
  rw [isTerminated_eq ho.position, ho.isOpen]
  rfl

theorem branch_follows (hc : c.Typed) (hb : c.program.types.OneBool) (hv : Visits c visit)
    (hi : Inv c e g s) (ho : c.program.Owns e (Node.preorderKind (.branch cond whenTrue whenFalse)))
    (hg : Gives (branch visit t cond whenTrue whenFalse) c s r s') :
    BranchFollows c visit t cond whenTrue whenFalse s r s' := by
  rw [Node.preorderKind, Program.Owns.append, Program.Owns.append] at ho
  obtain ⟨⟨hoc, hot⟩, hof⟩ := ho
  rintro v s₁ hcond hopen
  obtain ⟨g₁, l₁, h₁⟩ := hv e ∅ g s cond hoc hi v s₁ hcond
  have hg := gives_after hcond hg
  have hg := gives_after (show Gives isTerminated c s₁ s₁.builder.isTerminated s₁ from rfl) hg
  rw [hopen, if_neg Bool.false_ne_true] at hg
  obtain ⟨known, hknown⟩ : ∃ o, Gives (knownTruth? cond v) c s₁ o s₁ := exists_gives_knownTruth
  have hg := gives_after hknown hg
  cases known with
  | some taken =>
    refine .inl ⟨taken, hknown, hg, ?_⟩
    rintro w k ty x rfl hx
    exact hx.known hknown
  | none =>
    have hg := gives_after (show Gives (typeOf cond) c s₁ (c.typeOf cond) s₁ from rfl) hg
    obtain ⟨test, s₂, htest, hg⟩ := gives_bind.mp hg
    obtain ⟨g₂, l₂, h₂⟩ :=
      Visited.emits (X := ∅) h₁ (emits_truth h₁.usable) h₁.leg.inv test s₂ htest
    obtain ⟨g₃, l₃, -, yes, no, hbranched, harms⟩ :=
      walks_branchOn (X := ∅) (t := t) hv h₂.usable hot hof l₂.inv r s' hg
    rw [l₂.stay.fn, l₁.stay.fn] at harms
    refine .inr ⟨yes, no, harms, ?_⟩
    rintro w k ty x rfl hm hk hx
    obtain ⟨k', rfl, hr, ho, hgets⟩ :=
      performs_truth hc hb hx hk test s₂ htest (l₃.path.grows.code.trans hm)
    have hfunc := l₁.inv.func_eq hk
    rw [l₁.stay.fn] at hfunc
    exact ⟨hfunc.symm, k', ho.leaves hr hgets (hbranched.mono hm)⟩

theorem loop_follows (hc : c.Typed) (hb : c.program.types.OneBool) (hv : Visits c visit)
    (hi : Inv c e g s) (ho : c.program.Owns e (Node.preorderKind (.loop cond body runOnce)))
    (hg : Gives (loop visit cond body runOnce) c s r s') :
    LoopFollows c visit cond body s s' := by
  obtain ⟨g', -, -, head, yes, no, s₁, v, s₂, test, s₃, hhead, hcond, hp, htest, hbranched, hbody,
    hexit⟩ := walks_loop (X := ∅) hv ho hi r s' hg
  refine ⟨head, yes, no, s₁, v, s₂, hhead, hcond, hbody, ?_⟩
  rintro w k ty x rfl hm hk hx
  obtain ⟨b, hp⟩ := hp
  rw [hk.position] at hp
  obtain ⟨hf, -⟩ := Prod.mk.inj (Option.some.inj hp)
  obtain ⟨k', rfl, hr, ho', hgets⟩ :=
    performs_truth hc hb hx hk test s₃ htest (hbranched.1.trans hm)
  refine ⟨hf, ⟨k', ho'.leaves hr hgets (hbranched.mono hm)⟩, fun hfalse => ?_⟩
  -- the end of the loop is reached, so that it is not marked as unreachable
  have hleads := ho'.leads hgets.holds hgets.exact hbranched
  rw [show Gen.countsAsTrue c.program.types (c.typeOf cond) ty x = false from hfalse, hf] at hleads
  exact hexit ⟨w.block, hleads⟩

theorem either_follows (hc : c.Typed) (hb : c.program.types.OneBool) (hv : Visits c visit)
    (hi : Inv c e g s) (ho : c.program.Owns e (Node.preorderKind (.simpleOr left right)))
    (hg : Gives (either visit left right) c s r s') : EitherFollows c visit left right s r s' := by
  rw [Node.preorderKind, Program.Owns.append] at ho
  obtain ⟨l, s₂, hleft, hg⟩ := gives_bind.mp hg
  obtain ⟨l', s₄, hright, hor⟩ := gives_bind.mp hg
  obtain ⟨v, s₁, hvisit, htest⟩ := gives_bind.mp hleft
  obtain ⟨v', s₃, hvisit', htest'⟩ := gives_bind.mp hright
  have htest := gives_after (show Gives (typeOf left) c s₁ (c.typeOf left) s₁ from rfl) htest
  have htest' := gives_after (show Gives (typeOf right) c s₃ (c.typeOf right) s₃ from rfl) htest'
  refine ⟨v, s₁, s₂, v', s₃, hvisit, hvisit', ?_⟩
  rintro w k ty x rfl hm hk hx
  -- what is emitted after the first test only adds to the module
  obtain ⟨g₁, -, h₁⟩ := hv e ∅ g s left ho.1 hi v k.gen hvisit
  obtain ⟨g₂, l₂, -⟩ := Visited.emits (X := ∅) h₁ (emits_truth h₁.usable) h₁.leg.inv l s₂ htest
  obtain ⟨g₃, l₃, -⟩ := hv e ∅ g₂ s₂ right ho.2 l₂.inv v' s₃ hvisit'
  have grows₄ := (grow_or c s₄ r s' hor).trans hm
  have grows₃ := (grow_truth c s₃ l' s₄ htest').trans grows₄
  obtain ⟨k₁, rfl, hr₁, ho₁, hget₁⟩ :=
    performs_truth hc hb hx hk l s₂ htest (l₃.path.grows.code.trans grows₃)
  refine ⟨k₁, rfl, hr₁, ho₁, hget₁.memory, ?_⟩
  rintro b k₂ ty' x' rfl hkeeps hk₂ hx'
  -- the first test is still known where the second operand has been evaluated
  have hleft := hget₁.holds.keeps ho₁ hkeeps hk₂.position
  obtain ⟨k₃, rfl, hr₃, ho₃, hget₃⟩ := performs_truth hc hb hx' hk₂ l' s₄ htest' grows₄
  obtain ⟨k₄, rfl, hr₄, ho₄, hget₄⟩ :=
    performs_or (hleft.along hk₂ hr₃ ho₃) hget₃.holds hget₁.exact hget₃.exact ho₃ r s' hor hm
  exact ⟨k₄, rfl, hr₃.trans hr₄ hk₂, ho₄, hget₄.after hget₃.memory⟩

end

/-! ### A variable that holds `false` -/

section

/-- Nil, truths, integers, and a union of them. -/
def optionTypes : TypeTable :=
  ⟨#[⟨.program, true⟩, ⟨.nil, true⟩, ⟨.bool, true⟩, ⟨.int 32, true⟩,
    ⟨.union [⟨3⟩, ⟨2⟩, ⟨1⟩], true⟩]⟩

/-- A variable of the union type after `false` is assigned to it. -/
def optionNode : Node :=
  let x : Node := { id := 0, kind := .var "x", type := some ⟨4⟩ }
  let value : Node := { id := 1, kind := .boolLiteral false, type := some ⟨2⟩ }
  let assign : Node := { id := 2, kind := .assign x value, type := some ⟨2⟩ }
  { id := 3, kind := .expressions [assign, x], type := some ⟨4⟩ }

def firstNode : Node := { id := 4, kind := .intLiteral 1, type := some ⟨3⟩ }

def secondNode : Node := { id := 5, kind := .intLiteral 2, type := some ⟨3⟩ }

def optionProgram : Program where
  types := optionTypes
  root := some
    { id := 6, kind := .branch optionNode (some firstNode) (some secondNode), type := some ⟨3⟩ }

def optionContext : Context := startContext optionProgram {} ⟨1⟩

def optionState : State :=
  startState optionProgram {} ⟨1⟩ "m" (entryFunction optionProgram "alloca" "const" "entry")

/-- The storage of a union with `false` in it. -/
def optionMemory : Exec.Memory := ⟨#[{ size := 8, written := #[2] }]⟩

theorem optionContext_typed : optionContext.Typed :=
  Context.typed_of_lt (by decide) (by decide) (by decide) (by decide)

theorem optionTypes_oneBool : optionTypes.OneBool := TypeTable.oneBool_of_lt (by decide)

theorem owns_option : optionProgram.Owns .root
    (Node.preorderKind (.branch optionNode (some firstNode) (some secondNode))) :=
  (Program.owns_code (a := .root) trivial).mono fun _ hn => List.mem_cons_of_mem _ hn

/-- The condition gives the address of the variable. -/
theorem gives_option : ∃ s₁, Gives (visit 3 optionNode) optionContext optionState (.inst ⟨0⟩) s₁ ∧
    s₁.builder.position = some (⟨0⟩, ⟨2⟩) ∧ s₁.Has ⟨0⟩ ⟨2⟩ ∧ (s₁.block ⟨0⟩ ⟨2⟩).term = none ∧
    0 < (s₁.func ⟨0⟩).insts.size ∧
    s₁.builder.typeOf (.inst ⟨0⟩) = .ptr (optionTypes.irType ⟨4⟩) := by
  have hand : ∃ v s₁, Gives (visit 3 optionNode) optionContext optionState v s₁ ∧ decide (
      v = .inst ⟨0⟩ ∧ s₁.builder.position = some (⟨0⟩, ⟨2⟩) ∧
        2 < (s₁.func ⟨0⟩).blocks.size ∧ (s₁.block ⟨0⟩ ⟨2⟩).term.isNone ∧
        0 < (s₁.func ⟨0⟩).insts.size ∧
        s₁.builder.typeOf (.inst ⟨0⟩) = .ptr (optionTypes.irType ⟨4⟩)) = true :=
    exists_gives_and (by decide +kernel)
  obtain ⟨v, s₁, hg, hand⟩ := hand
  obtain ⟨rfl, hp, hin, hterm, hinst, htype⟩ := of_decide_eq_true hand
  exact ⟨s₁, hg, hp, hin, Option.isNone_iff_eq_none.mp hterm, hinst, htype⟩

/-- A run that comes to the test, with the storage of the variable. -/
def optionSpot (w : Setting) (s₁ : State) : Spot :=
  let k := Spot.start w s₁ [] optionMemory
  { k with frame := k.frame.set ⟨0⟩ (.ptr (Exec.baseAddress 0)) }

theorem option_holds_false {w : Setting} {s₁ : State} (hw : w.func = ⟨0⟩)
    (hinst : 0 < (s₁.func ⟨0⟩).insts.size)
    (htype : s₁.builder.typeOf (.inst ⟨0⟩) = .ptr (optionTypes.irType ⟨4⟩))
    (hm : s₁.builder.module.Grows w.module) (hin : s₁.Has ⟨0⟩ ⟨2⟩) :
    (optionSpot w s₁).Meets w optionContext optionNode (.inst ⟨0⟩) ⟨2⟩ (bit false) := by
  have hsize : 0 < (w.module.function w.func).insts.size := by
    rw [hw]
    exact lt_of_lt_of_le hinst (hm.function ⟨0⟩ (index_lt_of_hasBlock hin)).insts_size
  have haddress : (optionSpot w s₁).Holds w (.inst ⟨0⟩) (.ptr (optionTypes.irType ⟨4⟩))
      (.ptr (Exec.baseAddress 0)) := by
    refine ⟨?_, htype, Exec.Run.Frame.value?_set_self ?_⟩
    · show 0 < (s₁.func w.func).insts.size
      rw [hw]
      exact hinst
    · rw [Spot.start, Array.size_replicate]
      exact hsize
  have hroom : optionMemory.Room (Exec.baseAddress 0) (optionTypes.irType ⟨4⟩).size := by
    rw [show (optionTypes.irType ⟨4⟩).size = 8 by decide +kernel]
    exact ⟨by decide, by decide, { size := 8, written := #[2] }, rfl, rfl, by decide⟩
  have hcarried : Carries optionTypes optionMemory (Exec.baseAddress 0) ⟨4⟩ ⟨2⟩ (bit false) :=
    .tagged (n := 4) rfl hroom (by decide +kernel) (by decide +kernel)
  exact .tagged (n := 4) rfl haddress hcarried (.int (by decide) (by decide)) (.inl (by decide))

end

end Lowering.Gen
