import Lowering.Gen.Visit
import Lowering.Proofs.Operations
import Lowering.Proofs.Shape

/-!
# The state between two steps of generation

A generation is in the middle of many things at once: functions and initializers wait for the one
that is being generated, and blocks wait for the jumps that lead to them.  The invariant says what
each of them can rely on when its turn comes.

* `Gen.Ledger`: whose code each block holds, the chain of finished initializers, and what waits;
* `Gen.Idle`, `Gen.Awaits`: blocks that wait, with the values that were carried to them;
* `Gen.Aimed`: the blocks that `return` and `break` lead to;
* `Gen.Chained`: the order of the initializers;
* `Gen.Inv`: all of it.
-/

namespace Lowering.Gen

open IR (Ty Value FuncId BlockId GlobalId)

variable {c : Context} {e : Entity} {s s' : State}

/-! ### Parts of the module -/

namespace State

/-- A function of the module that is being generated. -/
def func (s : State) (f : FuncId) : IR.Function := s.builder.module.function f

/-- A block of the module that is being generated. -/
def block (s : State) (f : FuncId) (b : BlockId) : IR.BasicBlock := (s.func f).block b

/-- A function has a block. -/
def Has (s : State) (f : FuncId) (b : BlockId) : Prop := (s.func f).HasBlock b

/-- A block of a function leads to another one. -/
def Leads (s : State) (f : FuncId) (b b' : BlockId) : Prop := (s.func f).LeadsTo b b'

/-- An instruction or the terminator of a block has an operand. -/
def Mentions (s : State) (f : FuncId) (b : BlockId) (v : Value) : Prop :=
  (∃ id ∈ (s.block f b).insts, v ∈ ((s.func f).inst id).kind.operands) ∨
    ∃ t, (s.block f b).term = some t ∧ v ∈ t.operands

end State

/-! ### The ledger -/

/-- A finished initializer: its constant, its first and last block, and what there was when it was
finished: the number of functions, and what was being generated around it. -/
structure Region where
  constant : ConstId
  first : BlockId
  last : BlockId
  functions : Nat
  outer : List (FuncId × Entity)

/-- What a generation does not write down: the entity whose code each block holds, the initializers
in the order in which they were finished, the functions and entities that wait for what is being
generated, innermost first, the blocks that have to be ended later, and the activations that are
taken up again later. -/
structure Ledger where
  owner : FuncId → BlockId → Option Entity
  chain : List Region
  outer : List (FuncId × Entity)
  waiting : Set (FuncId × BlockId)
  parked : List Activation

namespace Ledger

/-- The blocks from which the chain goes on. -/
def lasts (g : Ledger) (c : Context) : List BlockId := c.constHead :: g.chain.map Region.last

/-- The links of the chain. -/
def links (g : Ledger) (c : Context) : List (BlockId × BlockId) :=
  (g.lasts c).zip (g.chain.map Region.first)

/-- The ledger when one more block belongs to an entity and has to be ended. -/
def own (g : Ledger) (f : FuncId) (b : BlockId) (e : Option Entity) : Ledger :=
  { g with
    owner := fun f' b' => if f' = f ∧ b' = b then e else g.owner f' b'
    waiting := insert (f, b) g.waiting }

theorem own_self (g : Ledger) (f : FuncId) (b : BlockId) (e : Option Entity) :
    (g.own f b e).owner f b = e :=
  if_pos ⟨rfl, rfl⟩

theorem own_of_ne {g : Ledger} {f f' : FuncId} {b b' : BlockId} {e : Option Entity}
    (h : ¬ (f' = f ∧ b' = b)) : (g.own f b e).owner f' b' = g.owner f' b' :=
  if_neg h

end Ledger

variable {g : Ledger}

/-- The functions and entities that are being generated, innermost first. -/
def pending (e : Entity) (g : Ledger) (s : State) : List (FuncId × Entity) :=
  (s.fn.func, e) :: g.outer

/-- The functions of the module have the shape that they should have. -/
def Sound (c : Context) (g : Ledger) (s : State) : Prop :=
  ∀ f, (s.func f).Sound (fun b => UsableIn c (g.owner f b) s f) (fun b => Settles (g.owner f b) s)
    fun b => Callable c (g.owner f b) s

/-! ### Blocks that wait -/

/-- A block of the current function that nothing was placed in so far. -/
structure Idle (c : Context) (e : Entity) (g : Ledger) (s : State) (b : BlockId) : Prop where
  inside : s.Has s.fn.func b
  notFirst : b ≠ ⟨0⟩
  empty : (s.block s.fn.func b).insts = #[]
  isOpen : (s.block s.fn.func b).term = none
  away : s.builder.position ≠ some (s.fn.func, b)
  notTail : (s.fn.func, b) ≠ (c.main.func, s.constTail)
  owner : g.owner s.fn.func b = some e

/-- A merge point that waits for jumps: what they carried so far can be used, and without a slot it
belongs to the blocks that lead there. -/
structure Awaits (c : Context) (e : Entity) (g : Ledger) (s : State) (t : MergeTarget) : Prop where
  idle : Idle c e g s t.block
  slot : ∀ v, t.slot = some v → Usable c (some e) s v
  operands : ∀ p ∈ t.incoming, Usable c (some e) s p.1
  sources : t.slot = none → (∃ k, t.type = some k ∧ c.program.types.isNil k = false) →
    (t.incoming.map Prod.snd).Nodup ∧
      ∀ b, b ∈ t.incoming.map Prod.snd ↔ s.Leads s.fn.func b t.block

namespace Activation

/-- The merge points that a `return` and a `break` lead to. -/
def callTargets (a : Activation) : List TargetId :=
  a.returnTarget.toList ++
    match a.breakTarget with
    | some (.call t) => [t]
    | _ => []

/-- The end of the loop that a `break` leaves. -/
def loopExits (a : Activation) : List BlockId :=
  match a.breakTarget with
  | some (.loop b) => [b]
  | _ => []

end Activation

namespace Ledger

/-- The current activation, those of the callers that wait with a block, and those that are taken up
again later. -/
def activations (g : Ledger) (s : State) : List Activation :=
  s.act :: (s.blocks.map BlockFrame.caller ++ g.parked)

/-- The merge points that jumps can still lead to. -/
def callTargets (g : Ledger) (s : State) : List TargetId :=
  (g.activations s).flatMap Activation.callTargets

/-- The ends of loops that jumps can still lead to. -/
def loopExits (g : Ledger) (s : State) : List BlockId :=
  (g.activations s).flatMap Activation.loopExits

/-- The blocks that jumps can still lead to. -/
def Aims (g : Ledger) (s : State) (b : BlockId) : Prop :=
  b ∈ g.loopExits s ∨ ∃ t ∈ g.callTargets s, ∃ m, s.targets[t.index]? = some m ∧ m.block = b

end Ledger

/-- The blocks that jumps can still lead to wait for them, and no two merge points share one. -/
structure Aimed (c : Context) (e : Entity) (g : Ledger) (s : State) : Prop where
  awaits : ∀ t ∈ g.callTargets s, ∃ m, s.targets[t.index]? = some m ∧ Awaits c e g s m
  exits : ∀ b ∈ g.loopExits s, Idle c e g s b
  apart : ∀ t ∈ g.callTargets s, ∀ t' ∈ g.callTargets s, ∀ m m', s.targets[t.index]? = some m →
    s.targets[t'.index]? = some m' → m.block = m'.block → t = t'
  apartExits : ∀ t ∈ g.callTargets s, ∀ m, s.targets[t.index]? = some m → m.block ∉ g.loopExits s

/-! ### The order of the initializers -/

/-- The globals that an operand names. -/
def named : Value → Option GlobalId
  | .global g | .const (.globalAddr g _) => some g
  | _ => none

/-- What holds of an initializer that was finished after those of `before`: its code, and all code
that was finished before it, calls functions that there were, and names constants that were
finished or waited for it. -/
structure Settled (c : Context) (e : Entity) (g : Ledger) (s : State) (before : List Region)
    (r : Region) : Prop where
  outer : ∀ p ∈ r.outer, c.program.Depends p.2 (.constant r.constant)
  bound : r.functions ≤ s.builder.module.functions.size
  entry : c.main.func ∈ r.outer.map Prod.fst
  waiting : ∀ p ∈ r.outer, p.1 ≠ c.main.func → s.Has p.1 ⟨1⟩ ∧ g.owner p.1 ⟨1⟩ = some p.2
  later : ∀ p ∈ pending e g s, p.1 ∈ r.outer.map Prod.fst ∨ r.functions ≤ p.1.index
  callees : ∀ f b, f = c.main.func ∧ g.owner f b = some (.constant r.constant) ∨
      f ∉ r.outer.map Prod.fst ∧ f.index < r.functions → ∀ id ∈ (s.block f b).insts,
    ∀ callee args, ((s.func f).inst id).kind = .call callee args → callee.index < r.functions
  names : ∀ f b, f = c.main.func ∧ g.owner f b = some (.constant r.constant) ∨
      f ∉ r.outer.map Prod.fst ∧ f.index < r.functions → ∀ v, s.Mentions f b v →
    ∀ gl, named v = some gl → ∀ k, (k, gl) ∈ s.consts →
      k ∈ before.map Region.constant ∨ k = r.constant ∨ .constant k ∈ r.outer.map Prod.snd

/-- The initializers are in a chain of regions of the entry function, each begun and finished once,
and functions and initializers wait only for what they depend on. -/
structure Chained (c : Context) (e : Entity) (g : Ledger) (s : State) : Prop where
  path : (pending e g s).IsChain fun p q => c.program.Depends q.2 p.2
  bottom : c.main.func ∈ (pending e g s).map Prod.fst
  started : ∀ k, (∃ gl, (k, gl) ∈ s.consts) ↔
    k ∈ g.chain.map Region.constant ∨ Entity.constant k ∈ (pending e g s).map Prod.snd
  once : (g.chain.map Region.constant).Nodup
  running : ∀ k, k ∈ g.chain.map Region.constant → .constant k ∉ (pending e g s).map Prod.snd
  tail : s.constTail = (g.lasts c).getLast (List.cons_ne_nil _ _)
  regions : ∀ r ∈ g.chain, ∀ b, b = r.first ∨ b = r.last →
    s.Has c.main.func b ∧ g.owner c.main.func b = some (.constant r.constant)
  edges : ∀ b b', s.Leads c.main.func b b' →
    g.owner c.main.func b = g.owner c.main.func b' ∨ (b, b') ∈ g.links c
  firsts : ∀ r ∈ g.chain, ∀ b, s.Leads c.main.func b r.first → (b, r.first) ∈ g.links c
  slots : ∀ f, g.owner f ⟨0⟩ = none
  head : s.Has c.main.func c.constHead ∧ g.owner c.main.func c.constHead = none
  entities : ∀ f, f ≠ c.main.func → s.Has f ⟨0⟩ →
    ∃ d, c.program.Asks d (s.func f).name ∧ d.external = none ∧
      ∀ b, s.Has f b → b ≠ ⟨0⟩ → g.owner f b = some (.definition d)
  generated : ∀ p ∈ pending e g s, p.1 ≠ c.main.func →
    s.Has p.1 ⟨1⟩ ∧ g.owner p.1 ⟨1⟩ = some p.2
  settled : ∀ before r after, g.chain = before ++ r :: after → Settled c e g s before r

/-! ### The invariant -/

/-- The nodes of a block. -/
def blockCode (b : Block Node) : List Node := Node.preorderOption b.body

/-- What holds between any two steps of generation. -/
structure Inv (c : Context) (e : Entity) (g : Ledger) (s : State) : Prop where
  steady : Steady c s
  sound : Sound c g s
  vars : Scoped c (some e) s
  frames : ∀ fr ∈ s.blocks, (∀ p ∈ fr.caller.vars, Usable c (some e) s p.2.ptr) ∧
    c.program.Owns e (blockCode fr.block)
  returnSlot : ∀ v, s.fn.returnSlot = some v → Usable c (some e) s v
  position : ∀ b, s.builder.position = some (s.fn.func, b) →
    b ≠ ⟨0⟩ ∧ (s.fn.func, b) ≠ (c.main.func, s.constTail) ∧ g.owner s.fn.func b = some e
  tail : s.Has c.main.func s.constTail ∧ s.constTail ≠ ⟨0⟩
  aimed : Aimed c e g s
  opened : ∀ f b, s.Has f b → (s.block f b).term = none → (f, b) ∈ g.waiting ∨
    s.builder.position = some (f, b) ∨ (f, b) = (c.main.func, s.constTail)
  chained : Chained c e g s

end Lowering.Gen
