import Lowering.Proofs.Bounded

/-!
# Lookups in range

Generation looks up types, definitions, constants, merge points, functions, globals, blocks and
instructions by number.  The numbers come from the program, which a review has seen, and from the
state, and in both they are in range.

* `Node.InRange`, `Program.InRange`: numbers in a program;
* `Gen.State.InRange`: numbers in a state, `Gen.Ready.inRange`;
* `Gen.ready_of_reached`: states in which expressions are generated;
* `Gen.generation_in_range`.
-/

namespace Lowering

open IR (Value FuncId BlockId GlobalId Module)

/-! ### Numbers in a program -/

/-- The numbers in a node, those below it apart, and the symbol of a literal, are in the tables of
a program. -/
structure Node.InRange (p : Program) (n : Node) : Prop where
  type : ∀ t ∈ n.type, p.types.contains t = true
  targets : ∀ k, n.kind = .call k → ∀ id ∈ k.targets, id.index < p.defs.length
  scope : ∀ k, n.kind = .call k → ∀ t ∈ k.scope, p.types.contains t = true
  blockArgs : ∀ k b, n.kind = .call k → k.block = some b → ∀ a ∈ b.args,
    p.types.contains a.type = true
  constant : ∀ id, n.kind = .const id → id.index < p.consts.length
  tested : ∀ v t, n.kind = .isA v t → p.types.contains t = true
  symbol : ∀ s, n.kind = .symbolLiteral s → s ∈ p.symbolSet

/-- The numbers in the tables of a program are in range. -/
structure Program.InRange (p : Program) : Prop where
  types : p.types.Closed
  owners : ∀ d ∈ p.defs, p.types.contains d.owner = true
  args : ∀ d ∈ p.defs, ∀ a ∈ d.args, p.types.contains a.type = true
  results : ∀ d ∈ p.defs, ∀ t ∈ d.type, p.types.contains t = true
  globals : ∀ g ∈ p.globals, p.types.contains g.type = true
  nodes : ∀ n ∈ p.nodes, n.InRange p

namespace Program

variable {p : Program}

theorem IsValid.node_inRange (h : p.IsValid) {n : Node} (hn : n ∈ p.nodes) : n.InRange p where
  type _ ht := h.contains_type hn ht
  targets _ hk _ hid := h.target_lt hn hk hid
  scope _ hk _ ht := h.contains_scope hn hk ht
  blockArgs _ _ hk hb _ ha := h.contains_blockArg hn hk hb ha
  constant _ hk := h.const_lt hn hk
  tested _ _ hk := h.contains_tested hn hk
  symbol _ hk := mem_symbolSet.mpr (.inr ⟨n, hn, hk⟩)

theorem IsValid.inRange (h : p.IsValid) : p.InRange where
  types := h.closed
  owners _ hd := h.contains_owner hd
  args _ hd _ ha := h.contains_argType hd (List.mem_map_of_mem ha)
  results _ hd _ ht := h.contains_resultType hd ht
  globals _ hg := h.contains_global hg
  nodes _ hn := h.node_inRange hn

end Program

/-! ### Numbers in a module -/

namespace IR

/-- The numbers in the code of a function are in range. -/
structure Module.CodeInRange (m : Module) (f : FuncId) : Prop where
  insts : ∀ b, ∀ id ∈ ((m.function f).block b).insts, id.index < (m.function f).insts.size
  operands : ∀ b, ∀ id ∈ ((m.function f).block b).insts,
    ∀ v ∈ ((m.function f).inst id).kind.operands, m.Defines f v
  callees : ∀ b, ∀ id ∈ ((m.function f).block b).insts, ∀ callee args,
    ((m.function f).inst id).kind = .call callee args → callee.index < m.functions.size
  sources : ∀ b, ∀ id ∈ ((m.function f).block b).insts, ∀ incoming,
    ((m.function f).inst id).kind = .phi incoming →
      ∀ q ∈ incoming, (m.function f).HasBlock q.2
  results : ∀ b t, ((m.function f).block b).term = some t → ∀ v ∈ t.operands, m.Defines f v
  targets : ∀ b b', (m.function f).LeadsTo b b' → (m.function f).HasBlock b'

end IR

namespace Gen

variable {c : Context} {e : Entity} {g : Ledger} {s s' : State} {n : Node} {v : Value}

/-- A value names what there is in the function at hand. -/
def State.Defines (s : State) (v : Value) : Prop := s.builder.module.Defines s.fn.func v

/-- The numbers in a merge point are in range. -/
structure MergeTarget.InRange (c : Context) (s : State) (m : MergeTarget) : Prop where
  block : s.Has s.fn.func m.block
  type : ∀ t ∈ m.type, c.Knows t
  slot : ∀ v ∈ m.slot, s.Defines v
  values : ∀ q ∈ m.incoming, s.Defines q.1
  sources : m.slot = none → (∃ t, m.type = some t ∧ c.program.types.isNil t = false) →
    ∀ q ∈ m.incoming, s.Has s.fn.func q.2

/-- The numbers in an activation are in range. -/
structure Activation.InRange (c : Context) (s : State) (a : Activation) : Prop where
  types : ∀ p ∈ a.vars, c.Knows p.2.type
  values : ∀ p ∈ a.vars, s.Defines p.2.ptr
  scope : ∀ t ∈ a.scope, c.Knows t
  targets : ∀ t ∈ a.callTargets, ∃ m, s.targets[t.index]? = some m ∧ m.InRange c s
  exits : ∀ b ∈ a.loopExits, s.Has s.fn.func b

/-- The numbers in a state, which generation looks things up by, are in range. -/
structure State.InRange (c : Context) (s : State) : Prop where
  position : ∃ b, s.builder.position = some (s.fn.func, b) ∧ s.Has s.fn.func b
  slots : s.Has s.fn.func s.fn.allocaBlock
  main : s.Has c.main.func c.main.allocaBlock ∧ s.Has c.main.func s.constTail
  result : ∀ t ∈ s.fn.returnType, c.Knows t
  returnSlot : ∀ v ∈ s.fn.returnSlot, s.Defines v
  definition : ∀ d ∈ s.definition, d ∈ c.program.defs
  act : s.act.InRange c s
  callers : ∀ fr ∈ s.blocks, fr.caller.InRange c s
  blockArgs : ∀ fr ∈ s.blocks, ∀ a ∈ fr.block.args, c.Knows a.type
  bodies : ∀ fr ∈ s.blocks, ∀ n ∈ blockCode fr.block, n ∈ c.program.nodes
  constants : ∀ q ∈ s.consts, q.1.index < c.program.consts.length ∧
    q.2.index < s.builder.module.globals.size
  globals : ∀ g ∈ s.tableGlobals, g.index < s.builder.module.globals.size
  runtime : ∀ q ∈ s.runtime, q.2.index < s.builder.module.functions.size
  code : ∀ f, s.builder.module.CodeInRange f

/-! ### States from which generation goes on -/

theorem Usable.defines {a : Option Entity} (h : Usable c a s v) (hs : Sound c g s) : s.Defines v :=
  UsableIn.defines h (hs s.fn.func).placed

theorem has_of_leads {f : FuncId} {b b' : BlockId} (h : s.Leads f b b') : s.Has f b := by
  obtain ⟨t, ht, -⟩ := h
  exact IR.Function.hasBlock_of_term ht

theorem Awaits.inRange {m : MergeTarget} (h : Awaits c e g s m) (hs : Sound c g s)
    (ht : ∀ t ∈ m.type, c.Knows t) : m.InRange c s where
  block := h.idle.inside
  type := ht
  slot v hv := (h.slot v hv).defines hs
  values q hq := (h.operands q hq).defines hs
  sources hslot htype q hq :=
    has_of_leads (((h.sources hslot htype).2 q.2).mp (List.mem_map_of_mem hq))

theorem Ready.activation (h : Ready c e g s) {a : Activation} (ha : a ∈ g.activations s)
    (hv : ∀ p ∈ a.vars, Usable c (some e) s p.2.ptr ∧ c.Knows p.2.type)
    (hscope : ∀ t ∈ a.scope, c.Knows t) : a.InRange c s where
  types p hp := (hv p hp).2
  values p hp := (hv p hp).1.defines h.inv.sound
  scope := hscope
  targets t ht := by
    have hmem : t ∈ g.callTargets s := List.mem_flatMap.mpr ⟨a, ha, ht⟩
    obtain ⟨m, hm, hawaits⟩ := h.inv.aimed.awaits t hmem
    exact ⟨m, hm, hawaits.inRange h.inv.sound (h.listed.targets t hmem m hm)⟩
  exits b hb := (h.inv.aimed.exits b (List.mem_flatMap.mpr ⟨a, ha, hb⟩)).inside

theorem Sound.codeInRange (h : Sound c g s) (f : FuncId) : s.builder.module.CodeInRange f where
  insts := (h f).within
  operands b id hm v hv := ((h f).operands b id hm v hv).elim
    (fun hu => hu.defines (h f).placed) Settles.defines
  callees b id hm callee args hk := ((h f).callees b id hm callee args hk).inside
  sources b id hm incoming hk q hq :=
    has_of_leads ((((h f).phiEdges b id hm incoming hk).2 q.2).mp (List.mem_map_of_mem hq))
  results b t ht v hv := ((h f).results b t ht v hv).defines (h f).placed
  targets b b' hl := ((h f).targets b b' hl).1

theorem Ready.inRange (h : Ready c e g s) : s.InRange c := by
  obtain ⟨b, hb, hhas⟩ := h.inv.steady.position
  constructor
  case position => exact ⟨b, hb, hhas⟩
  case slots =>
    rw [h.inv.steady.slots]
    exact (Nat.zero_le _).trans_lt hhas
  case main =>
    rw [h.inv.steady.entrySlots]
    exact ⟨h.inv.steady.entry, h.inv.tail.1⟩
  case result => exact h.listed.result
  case returnSlot => exact fun v hv => (h.inv.returnSlot v hv).defines h.inv.sound
  case definition => exact h.listed.definition
  case act =>
    exact h.activation List.mem_cons_self (fun p hp => ⟨h.inv.vars p hp, h.tidy.types p hp⟩)
      h.listed.scope
  case callers =>
    intro fr hfr
    refine h.activation ?_ (fun p hp => ⟨(h.inv.frames fr hfr).1 p hp,
      (h.listed.callers fr hfr).1 p hp⟩) (h.listed.callers fr hfr).2
    exact List.mem_cons_of_mem _ (List.mem_append_left _ (List.mem_map_of_mem hfr))
  case blockArgs => exact h.listed.blocks
  case bodies => exact fun fr hfr n hn => ((h.inv.frames fr hfr).2 n hn).1
  case constants => exact fun q hq => ⟨h.tidy.constants q hq, h.inv.steady.consts q hq⟩
  case globals => exact fun gl hg => (h.inv.steady.tables gl hg).1
  case runtime => exact fun q hq => (h.inv.steady.foreign q hq).1
  case code => exact h.inv.sound.codeInRange

/-! ### Every expression of a generation -/

variable {p : Program} {o : Options} {nil : TypeId}

/-- An expression for which another one is generated in a state has it generated in a state from
which generation goes on, and with less to do. -/
theorem within_of_consults (hr : Reviewed c) {depth : Nat} {m : Node} {t : State}
    (hs : Ready c e g s) (hn : Due c e depth s n) (h : Consults c (visit depth) n s m t) :
    ∃ e' g', Ready c e' g' t ∧ Within c e' depth t m := by
  by_contra hnot
  obtain ⟨other, hsame, hne⟩ := h
  -- then the other visitor differs only where it does not matter
  have hfollows : Follows c depth (visit depth) other := fun e' g' s' n' hw hready => by
    have hmet := follows_visit hr (le_refl depth) (le_refl depth) e' g' s' n' hw hready
    have hother := hsame n' s' fun ⟨hm, ht⟩ => hnot ⟨e', g', ht ▸ hready, hm ▸ ht ▸ hw⟩
    exact ⟨hother.symm, hmet.ends⟩
  have hmet := sure_visitOnce hr hfollows (visits_visit depth) (restoring_visit depth) hn hs
  exact hne hmet.same.symm

/-- Every expression is generated in a state from which generation goes on. -/
theorem ready_of_reached (hv : p.IsValid) (hi : p.InliningEnds) {depth : Nat}
    (h : Reached p o c depth n s) :
    Reviewed c ∧ ∃ e g, Ready c e g s ∧ Within c e depth s n := by
  induction h with
  | root start symbols root =>
    obtain ⟨nil, name, n₀, n₁, n₂, hnil, rfl, rfl⟩ := start?_eq start
    have hr := reviewed_start (o := o) hv hi hnil
    have hready := ready_start name n₀ n₁ n₂ hr
    obtain ⟨g, l, -⟩ := emits_prepareSymbols.walks (X := ∅) hready.inv () _ symbols
    have hends : Ends _ (outcome prepareSymbols _ _) :=
      (Met.quiet hready.tidy (restored_prepareSymbols rfl).2).ends
    rw [show outcome prepareSymbols _ _ = _ from symbols] at hends
    exact ⟨hr, .root, g, hready.along l hends.tidy, within_body (owns_root root)
      (Program.mem_bodies.mpr (.inl root)) (load_lt_nestingBound l.stay.blocks).le⟩
  | inner outer consults ih =>
    obtain ⟨hr, e, g, hready, hw⟩ := ih
    exact ⟨hr, within_of_consults hr hready ⟨hw.owns, Nat.le_of_lt_succ hw.less⟩ consults⟩

/-- The value of an expression is recorded with the type of the expression. -/
theorem last_of_visit {depth : Nat} (h : Gives (visit depth n) c s v s') :
    s'.last = ⟨v, n.type⟩ := by
  cases depth with
  | zero => cases h
  | succ depth =>
    obtain ⟨⟨⟩, s₁, -, h⟩ := gives_bind.mp h
    obtain ⟨w, s₂, -, h⟩ := gives_bind.mp h
    obtain ⟨⟨⟩, s₃, h₃, h⟩ := gives_bind.mp h
    obtain ⟨rfl, rfl⟩ := gives_pure.mp h
    cases gives_modify h₃
    rfl

/-- After an expression of a generation, its value names what there is. -/
theorem inRange_visited (hr : Reviewed c) {depth : Nat} (hs : Ready c e g s)
    (hn : Within c e depth s n) (h : Gives (visit depth n) c s v s') :
    s'.InRange c ∧ s'.Defines v ∧ ∀ t ∈ s'.last.type, c.Knows t := by
  obtain ⟨g', l, hvisited⟩ := visits_visit depth e ∅ g s n hn.owns hs.inv v s' h
  have hends := (follows_visit hr (le_refl depth) (le_refl depth) e g s n hn hs).ends
  rw [show outcome (visit depth n) c s = (.ok v, s') from h] at hends
  refine ⟨(hs.along l hends.tidy).inRange, hvisited.usable.defines l.inv.sound, ?_⟩
  rw [last_of_visit h]
  exact fun t ht => hr.valid.contains_type (hn.owns n (Node.mem_preorder n)).1 ht

theorem exists_start (h : p.types.nil? ≠ none) : ∃ c s, start? p o = some (c, s) := by
  obtain ⟨nil, hnil⟩ := Option.ne_none_iff_exists'.mp h
  exact ⟨_, _, by rw [start?, hnil]; rfl⟩

end Gen

end Lowering
