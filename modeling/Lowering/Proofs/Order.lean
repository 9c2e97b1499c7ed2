import Lowering.Proofs.Finished
import Lowering.Proofs.Trace

/-!
# The order of the initializers in a run

In a program without a constant that depends on itself, every run goes through the initializers one
after the other, each of them once, and comes upon the global behind a constant only after the
initializer of that constant, apart from the stores by which the initializer itself fills it.

* `Program.Acyclic`, `Program.SymbolsApart`: what the order relies on;
* `Exec.Stage`, `Exec.gatesOf`: the initializers in the entry function;
* `Exec.Event.Names`, `Exec.Initialized`: what a run does with the globals behind constants;
* `Gen.Completed.phased`, `Gen.Completed.late`: the blocks and the functions of each initializer;
* `Gen.constants_initialized`.
-/

namespace Lowering

open IR (Ty Value FuncId BlockId GlobalId InstId InstKind Module Terminator)

namespace Program

/-- No constant depends on itself. -/
def Acyclic (p : Program) : Prop :=
  ∀ k, ¬ p.Depends (.constant k) (.constant k)

/-- No call asks for the entry function, and calls that ask for the same symbol mean the same
definition, foreign functions apart. -/
structure SymbolsApart (p : Program) : Prop where
  entry : ∀ d symbol, p.Asks d symbol → symbol ≠ IR.entryName
  same : ∀ d d' symbol, p.Asks d symbol → p.Asks d' symbol → d'.external = none → d = d'

/-- The root, the definitions and the constants of a program. -/
def entities (p : Program) : List Entity :=
  .root :: p.defs.map .definition ++ (List.range p.consts.length).map fun i => .constant ⟨i⟩

/-- The definitions that the calls of a program mean, with the symbols that they ask for. -/
def requests (p : Program) : List (DefId × String) := p.nodes.flatMap p.asked

variable {p : Program}

theorem mem_entities {a : Entity} (h : p.Contains a) {n : Node} (hn : n ∈ p.code a) :
    a ∈ p.entities := by
  cases a with
  | root => exact List.mem_cons_self
  | definition d =>
    exact List.mem_append_left _ (List.mem_cons_of_mem _ (List.mem_map_of_mem h))
  | constant id =>
    refine List.mem_append_right _ (List.mem_map.mpr ⟨id.index, List.mem_range.mpr ?_, rfl⟩)
    by_contra hlt
    rw [code, Program.const?, List.getElem?_eq_none (not_lt.mp hlt)] at hn
    exact absurd hn List.not_mem_nil

/-- A program in which references lead from higher to lower ranks. -/
theorem acyclic_of_rank (rank : Entity → Nat)
    (h : ∀ a ∈ p.entities, ∀ n ∈ p.code a, ∀ b ∈ p.references n, rank b < rank a) :
    p.Acyclic := by
  have hstep : ∀ {a b}, p.Contains a → p.Refers a b → rank b < rank a :=
    fun ha ⟨n, hn, hb⟩ => h _ (mem_entities ha hn) n hn _ hb
  have hdep : ∀ {a b}, p.Contains a → p.Depends a b → rank b < rank a := by
    intro a b ha hd
    induction hd with
    | single hr => exact hstep ha hr
    | tail hd hr ih => exact (hstep (Depends.contains hd) hr).trans ih
  exact fun k hk => lt_irrefl _ (hdep (a := .constant k) trivial hk)

/-- A program in which no symbol is asked for by calls that mean different definitions. -/
theorem symbolsApart_of_requests (hentry : ∀ q ∈ p.requests, q.2 ≠ IR.entryName)
    (hsame : ∀ q ∈ p.requests, ∀ q' ∈ p.requests, q.2 = q'.2 → q.1 = q'.1) :
    p.SymbolsApart where
  entry := by
    rintro d symbol ⟨n, hn, id, -, hm⟩
    exact hentry (id, symbol) (List.mem_flatMap.mpr ⟨n, hn, hm⟩)
  same := by
    rintro d d' symbol ⟨n, hn, id, hd, hm⟩ ⟨n', hn', id', hd', hm'⟩ -
    have he : id = id' := hsame (id, symbol) (List.mem_flatMap.mpr ⟨n, hn, hm⟩) (id', symbol)
      (List.mem_flatMap.mpr ⟨n', hn', hm'⟩) rfl
    rw [he, hd'] at hd
    exact (Option.some.inj hd).symm

end Program

namespace Exec

/-! ### What is said of a run -/

/-- An initializer in the entry function: its constant, its first and its last block. -/
structure Stage where
  constant : ConstId
  first : BlockId
  last : BlockId

/-- The jumps that lead from one initializer to the next one. -/
def gatesOf (head : BlockId) (stages : List Stage) (entry : BlockId) :
    List (BlockId × BlockId) :=
  (head :: stages.map Stage.last).zip (stages.map Stage.first ++ [entry])

namespace Event

variable (m : Module)

/-- The operands of an event: of the phis of a block those that belong to the edge by which it is
entered. -/
def operands : Event → List Value
  | .enter f source b => ((m.function f).block b).insts.toList.flatMap fun id =>
    match ((m.function f).inst id).kind with
    | .phi incoming => (incoming.filter fun p => some p.2 == source).map Prod.fst
    | _ => []
  | .perform f _ id => ((m.function f).inst id).kind.operands
  | .leave f b _ => ((m.function f).block b).term.elim [] Terminator.operands

/-- An event has the address of a global among its operands. -/
def Names (g : GlobalId) (ev : Event) : Prop := ∃ v ∈ ev.operands m, Gen.named v = some g

instance (g : GlobalId) (ev : Event) : Decidable (ev.Names m g) :=
  inferInstanceAs (Decidable (∃ v ∈ ev.operands m, Gen.named v = some g))

/-- An event stores a value into a global. -/
def Fills (g : GlobalId) (ev : Event) : Prop :=
  ∃ f b id w, ev = .perform f b id ∧ ((m.function f).inst id).kind = .store w (.global g)

end Event

/-- An initializer was begun. -/
def Stage.Begun (st : Stage) (main : FuncId) (gates : List (BlockId × BlockId))
    (past : List Event) : Prop :=
  ∃ b, (b, st.first) ∈ gates ∧ .leave main b (some st.first) ∈ past

/-- An initializer was gone through to its end. -/
def Stage.Finished (st : Stage) (main : FuncId) (gates : List (BlockId × BlockId))
    (past : List Event) : Prop :=
  ∃ next, (st.last, next) ∈ gates ∧ .leave main st.last (some next) ∈ past

/-- The initializers of the entry function `main`, whose blocks are numbered by the initializer that
they belong to: those before the initializers by zero, those after them by one more than their
number. -/
structure Staged (m : Module) (main : FuncId) (head entry : BlockId) (stages : List Stage)
    (phase : BlockId → Nat) (consts : List (ConstId × GlobalId)) : Prop where
  found : m.findFunction IR.entryName = some main
  one : (stages.map Stage.constant).Nodup
  all : ∀ k, k ∈ stages.map Stage.constant ↔ ∃ gl, (k, gl) ∈ consts
  phased : Phased m main (gatesOf head stages entry) phase
  inside : ∀ i st, stages[i]? = some st → phase st.first = i + 1 ∧ phase st.last = i + 1
  after : phase entry = stages.length + 1

/-- A run goes through the initializers in their order, each of them once and all of them before
the entry block, and names the global behind a constant only after the initializer of the constant
was gone through, unless that initializer fills it. -/
structure Initialized (m : Module) (main : FuncId) (entry : BlockId)
    (gates : List (BlockId × BlockId)) (stages : List Stage) (consts : List (ConstId × GlobalId))
    (events : List Event) : Prop where
  order : events.filter (Event.isMilestone main gates) <+: itinerary main gates
  once : (∃ source, .enter main source entry ∈ events) →
    ∀ st ∈ stages, events.countP (Event.isEntry main st.first) = 1
  before : Throughout (fun past ev => ev.isEntry main entry → ∀ st ∈ stages,
    st.Finished main gates past) events
  names : ∀ st ∈ stages, ∀ g, (st.constant, g) ∈ consts →
    Throughout (fun past ev => ev.Names m g → st.Finished main gates past ∨
      ev.Fills m g ∧ ev.func = main ∧ st.Begun main gates past ∧
        ¬ st.Finished main gates past) events

end Exec

namespace Gen

open Exec (Event Stage Phased Throughout Timely itinerary gatesOf)

variable {c : Context} {g : Ledger} {s : State}

/-! ### The blocks of the entry function -/

/-- An initializer as a stage of the entry function. -/
def Region.stage (r : Region) : Stage := ⟨r.constant, r.first, r.last⟩

namespace Ledger

/-- The blocks that the chain leads to. -/
def stops (g : Ledger) (c : Context) : List BlockId :=
  g.chain.map Region.first ++ [c.main.entryBlock]

/-- The links of the chain, with the one that leads to the entry block. -/
def gates (g : Ledger) (c : Context) : List (BlockId × BlockId) := (g.lasts c).zip (g.stops c)

/-- The place in the order of the entry function of a block: before the initializers, in one of
them or after them. -/
def phase (g : Ledger) (c : Context) (b : BlockId) : Nat :=
  match g.owner c.main.func b with
  | none => 0
  | some (.constant k) => (g.chain.map Region.constant).idxOf k + 1
  | some _ => g.chain.length + 1

/-- The stages of the initializers. -/
def stages (g : Ledger) : List Stage := g.chain.map Region.stage

theorem gates_eq (g : Ledger) (c : Context) :
    g.gates c = gatesOf c.constHead g.stages c.main.entryBlock := by
  simp [gates, gatesOf, lasts, stops, stages, Region.stage, Function.comp_def]

end Ledger

/-! ### The connected state -/

section

variable (h : Completed c g s)
include h

theorem Completed.hasFirst : (s.ended c.main.func s.constTail (.br c.main.entryBlock)).Has
    c.main.func c.main.allocaBlock := by
  rw [h.inv.steady.entrySlots]
  exact (has_ended h.inv.tail.1).mpr h.inv.mainFirst

theorem Completed.insts (f : FuncId) (b : BlockId) :
    ((s.connected c).block f b).insts = (s.block f b).insts := by
  rw [State.connected, insts_ended h.hasFirst, insts_ended h.inv.tail.1]

theorem Completed.inst (f : FuncId) (id : InstId) :
    ((s.connected c).func f).inst id = (s.func f).inst id := by
  rw [State.connected, inst_ended h.hasFirst, inst_ended h.inv.tail.1]

theorem Completed.has {f : FuncId} {b : BlockId} : (s.connected c).Has f b ↔ s.Has f b := by
  rw [State.connected, has_ended h.hasFirst, has_ended h.inv.tail.1]

theorem Completed.mentions {f : FuncId} {b : BlockId} {v : Value}
    (hv : (s.connected c).Mentions f b v) : s.Mentions f b v :=
  mentions_ended_br h.inv.tail.1 (mentions_ended_br h.hasFirst hv)

/-- What leads where once the first blocks are connected. -/
theorem Completed.leads {b b' : BlockId} (hl : (s.connected c).Leads c.main.func b b') :
    s.Leads c.main.func b b' ∨ b = s.constTail ∧ b' = c.main.entryBlock ∨
      b = ⟨0⟩ ∧ b' = c.constHead := by
  have hjump : ∀ {s : State} {b₀ b₁ : BlockId}, s.Has c.main.func b₀ →
      (s.ended c.main.func b₀ (.br b₁)).Leads c.main.func b b' →
      s.Leads c.main.func b b' ∨ b = b₀ ∧ b' = b₁ := by
    intro s b₀ b₁ hb hl
    cases ht : (s.block c.main.func b₀).term with
    | some t =>
      rw [ended_of_term hb ht] at hl
      exact .inl hl
    | none =>
      refine ((leads_ended hb ht).mp hl).imp_right fun ⟨_, hb, hm⟩ => ⟨hb, ?_⟩
      exact List.mem_singleton.mp hm
  rcases hjump h.hasFirst hl with hl | ⟨hb, hb'⟩
  · exact (hjump h.inv.tail.1 hl).imp_right .inl
  · exact .inr (.inr ⟨hb.trans h.inv.steady.entrySlots, hb'⟩)

/-! ### Phases -/

theorem Completed.phase_region {i : Nat} {r : Region} {b : BlockId} (hr : g.chain[i]? = some r)
    (hb : g.owner c.main.func b = some (.constant r.constant)) : g.phase c b = i + 1 := by
  have hget : (g.chain.map Region.constant)[i]? = some r.constant := by
    rw [List.getElem?_map, hr]
    rfl
  obtain ⟨hlt, he⟩ := List.getElem?_eq_some_iff.mp hget
  rw [Ledger.phase, hb]
  show (g.chain.map Region.constant).idxOf r.constant + 1 = i + 1
  rw [← he, h.inv.chained.once.idxOf_getElem]

omit h in
theorem phase_none {b : BlockId} (hb : g.owner c.main.func b = none) : g.phase c b = 0 := by
  rw [Ledger.phase, hb]

omit h in
/-- The blocks of the root come after all initializers. -/
theorem phase_of_not_mem {b : BlockId} {e : Entity} (hb : g.owner c.main.func b = some e)
    (he : ¬ ∃ r, r ∈ g.chain ∧ e = .constant r.constant) :
    g.phase c b = g.chain.length + 1 := by
  rw [Ledger.phase, hb]
  cases e with
  | constant k =>
    have hk : k ∉ g.chain.map Region.constant := by
      intro hm
      obtain ⟨r, hr, rfl⟩ := List.mem_map.mp hm
      exact he ⟨r, hr, rfl⟩
    show (g.chain.map Region.constant).idxOf k + 1 = _
    rw [List.idxOf_eq_length hk, List.length_map]
  | _ => rfl

theorem Completed.phase_entry : g.phase c c.main.entryBlock = g.chain.length + 1 := by
  rw [Ledger.phase, h.ownEntry]

/-- The blocks from which the gates lead on are in the phases in their order. -/
theorem Completed.phase_lasts {i : Nat} {b : BlockId} (hb : (g.lasts c)[i]? = some b) :
    g.phase c b = i := by
  cases i with
  | zero =>
    rw [Ledger.lasts, List.getElem?_cons_zero, Option.some.injEq] at hb
    exact phase_none (hb ▸ h.inv.chained.head.2)
  | succ i =>
    rw [Ledger.lasts, List.getElem?_cons_succ, List.getElem?_map, Option.map_eq_some_iff] at hb
    obtain ⟨r, hr, rfl⟩ := hb
    exact h.phase_region hr
      (h.inv.chained.regions r (List.mem_of_getElem? hr) _ (.inr rfl)).2

omit h in
/-- A block that a gate leads to is the first of an initializer or the entry block. -/
theorem Ledger.stops_cases (g : Ledger) {i : Nat} {b : BlockId} (hb : (g.stops c)[i]? = some b) :
    (∃ r, g.chain[i]? = some r ∧ b = r.first) ∨ i = g.chain.length ∧ b = c.main.entryBlock := by
  rw [Ledger.stops, List.getElem?_append] at hb
  split at hb
  · rw [List.getElem?_map, Option.map_eq_some_iff] at hb
    obtain ⟨r, hr, hb⟩ := hb
    exact .inl ⟨r, hr, hb.symm⟩
  · rename_i hi
    obtain ⟨hlt, he⟩ := List.getElem?_eq_some_iff.mp hb
    rw [List.length_map, List.length_singleton] at hlt
    rw [List.length_map] at hi
    rw [List.getElem_singleton] at he
    exact .inr ⟨by omega, he.symm⟩

/-- The blocks that the gates lead to are in the phases after those from which they lead. -/
theorem Completed.phase_stops {i : Nat} {b : BlockId} (hb : (g.stops c)[i]? = some b) :
    g.phase c b = i + 1 := by
  rcases g.stops_cases hb with ⟨r, hr, rfl⟩ | ⟨rfl, rfl⟩
  · exact h.phase_region hr (h.inv.chained.regions r (List.mem_of_getElem? hr) _ (.inl rfl)).2
  · exact h.phase_entry

omit h in
theorem Ledger.gate_iff (g : Ledger) {i : Nat} {b b' : BlockId} : (g.gates c)[i]? = some (b, b') ↔
    (g.lasts c)[i]? = some b ∧ (g.stops c)[i]? = some b' := by
  rw [Ledger.gates, List.getElem?_zip_eq_some]

theorem Completed.not_mem_stops {b : BlockId} (hb : g.phase c b = 0) : b ∉ g.stops c := by
  intro hm
  obtain ⟨i, hi⟩ := List.mem_iff_getElem?.mp hm
  rw [h.phase_stops hi] at hb
  exact absurd hb (Nat.succ_ne_zero i)

omit h in
theorem map_snd_gates (g : Ledger) (c : Context) : (g.gates c).map Prod.snd = g.stops c := by
  rw [Ledger.gates, List.map_snd_zip]
  simp [Ledger.stops, Ledger.lasts]

/-- A link of the chain is a gate. -/
theorem Completed.gate_of_link {b b' : BlockId} (hl : (b, b') ∈ g.links c) :
    (g.gates c)[g.phase c b]? = some (b, b') := by
  obtain ⟨i, hi⟩ := List.mem_iff_getElem?.mp hl
  rw [Ledger.links, List.getElem?_zip_eq_some] at hi
  rw [h.phase_lasts hi.1]
  refine g.gate_iff.mpr ⟨hi.1, ?_⟩
  rw [Ledger.stops, List.getElem?_append_left (List.getElem?_eq_some_iff.mp hi.2).1]
  exact hi.2

/-- The end of the chain leads to the entry block. -/
theorem Completed.gate_tail :
    (g.gates c)[g.phase c s.constTail]? = some (s.constTail, c.main.entryBlock) := by
  have hlast : (g.lasts c)[g.chain.length]? = some s.constTail := by
    have hlast : (g.lasts c).getLast? = some s.constTail := by
      rw [h.inv.chained.tail]
      exact List.getLast?_eq_some_getLast _
    rwa [List.getLast?_eq_getElem?, show (g.lasts c).length - 1 = g.chain.length by
      simp [Ledger.lasts]] at hlast
  rw [h.phase_lasts hlast]
  refine g.gate_iff.mpr ⟨hlast, ?_⟩
  rw [Ledger.stops, List.getElem?_append_right (by simp)]
  simp

/-- Jumps of the entry function stay in a phase or pass the gate to the next one. -/
theorem Completed.step {b b' : BlockId} (hl : (s.connected c).Leads c.main.func b b') :
    (g.phase c b' = g.phase c b ∧ (b, b') ∉ g.gates c ∧ b' ∉ (g.gates c).map Prod.snd) ∨
      (g.gates c)[g.phase c b]? = some (b, b') ∧ g.phase c b' = g.phase c b + 1 := by
  have hgate : ∀ {b b'}, (g.gates c)[g.phase c b]? = some (b, b') →
      g.phase c b' = g.phase c b + 1 := fun hg => h.phase_stops (g.gate_iff.mp hg).2
  rw [map_snd_gates]
  rcases h.leads hl with hl | ⟨rfl, rfl⟩ | ⟨rfl, rfl⟩
  · by_cases hlink : (b, b') ∈ g.links c
    · exact .inr ⟨h.gate_of_link hlink, hgate (h.gate_of_link hlink)⟩
    · have hstop : b' ∉ g.stops c := by
        intro hm
        rcases List.mem_append.mp hm with hm | hm
        · obtain ⟨r, hr, rfl⟩ := List.mem_map.mp hm
          exact hlink (h.inv.chained.firsts r hr b hl)
        · rw [List.mem_singleton.mp hm] at hl
          exact h.fresh b hl
      refine .inl ⟨?_, fun hm => hstop (List.of_mem_zip hm).2, hstop⟩
      rw [Ledger.phase, ← (h.inv.chained.edges b b' hl).resolve_right hlink]
      rfl
  · exact .inr ⟨h.gate_tail, hgate h.gate_tail⟩
  · have hslots := phase_none (c := c) (h.inv.chained.slots c.main.func)
    have hhead := phase_none (c := c) h.inv.chained.head.2
    have hstop := h.not_mem_stops hhead
    exact .inl ⟨hhead.trans hslots.symm, fun hm => hstop (List.of_mem_zip hm).2, hstop⟩

end

/-! ### Calls -/

section

variable (h : Completed c g s) {f callee : FuncId} {b : BlockId}
include h

theorem Completed.callable (hc : (s.connected c).builder.module.CallsFrom f b callee) :
    Callable c (g.owner f b) s callee := by
  obtain ⟨id, hm, args, hk⟩ := hc
  have hm : id ∈ ((s.connected c).block f b).insts := hm
  have hk : (((s.connected c).func f).inst id).kind = _ := hk
  rw [h.insts] at hm
  rw [h.inst] at hk
  exact (h.inv.sound f).callees b id hm callee args hk

/-- A function of the runtime has no blocks. -/
theorem Completed.not_has_foreign {n : String} (hf : (n, f) ∈ s.runtime) : ¬ s.Has f b := by
  have hblocks : (s.func f).blocks = #[] := (h.inv.steady.foreign _ hf).2
  rw [State.Has, IR.Function.HasBlock, hblocks]
  exact Nat.not_lt_zero _

theorem Completed.has_of_callsFrom (hc : (s.connected c).builder.module.CallsFrom f b callee) :
    s.Has f b := by
  obtain ⟨id, hm, -⟩ := hc
  exact h.has.mp (IR.Function.hasBlock_of_mem hm)

variable (hsym : c.program.SymbolsApart)
include hsym

/-- The entry function is not called. -/
theorem Completed.ne_main (hc : (s.connected c).builder.module.CallsFrom f b callee) :
    callee ≠ c.main.func := by
  rintro rfl
  rcases (h.callable hc).known with ⟨n, hn⟩ | ⟨a, d, -, hd⟩
  · exact h.not_has_foreign hn h.inv.mainFirst
  · exact hsym.entry d _ hd.asks h.inv.steady.entryName

theorem Completed.not_reaches_main (hf : f ≠ c.main.func) :
    ¬ (s.connected c).builder.module.Reaches f c.main.func := by
  intro hr
  rcases Relation.ReflTransGen.cases_tail hr with he | ⟨f', -, b, hc⟩
  · exact hf he.symm
  · exact h.ne_main hsym hc rfl

/-- The blocks of the entry function are in phases. -/
theorem Completed.phased :
    Phased (s.connected c).builder.module c.main.func (g.gates c) (g.phase c) where
  start := by
    have hslots := phase_none (c := c) (h.inv.chained.slots c.main.func)
    rw [map_snd_gates]
    exact ⟨hslots, h.not_mem_stops hslots⟩
  step _ _ hl := h.step hl
  alone _ _ hc := h.not_reaches_main hsym (h.ne_main hsym hc)

end

/-! ### The code of an initializer -/

/-- A function that was finished before an initializer was, and holds code of an entity that the
constant depends on. -/
structure Region.Within (r : Region) (c : Context) (g : Ledger) (s : State) (f : FuncId) :
    Prop where
  old : f.index < r.functions
  done : f ∉ r.outer.map Prod.fst
  owners : ∀ b, s.Has f b → b ≠ ⟨0⟩ →
    ∃ a, g.owner f b = some a ∧ c.program.Depends (.constant r.constant) a

/-- A block of an initializer, or of a function that it reaches. -/
def Region.Holds (r : Region) (c : Context) (g : Ledger) (s : State) (f : FuncId) (b : BlockId) :
    Prop :=
  f = c.main.func ∧ g.owner f b = some (.constant r.constant) ∨ r.Within c g s f

section

variable (h : Completed c g s) {f callee : FuncId} {b : BlockId} {before after : List Region}
  {r : Region} (hr : g.chain = before ++ r :: after)
include h hr

omit hr in
/-- What code of an initializer refers to its constant depends on. -/
theorem Completed.depends_of_holds (hb : r.Holds c g s f b) (hhas : s.Has f b) {a : Entity}
    (ha : g.owner f b = some a) {a' : Entity} (hd : c.program.Depends a a') :
    c.program.Depends (.constant r.constant) a' := by
  rcases hb with ⟨-, ho⟩ | hw
  · rw [ho] at ha
    exact Option.some.inj ha ▸ hd
  · have hne : b ≠ ⟨0⟩ := by
      rintro rfl
      rw [h.inv.chained.slots f] at ha
      cases ha
    obtain ⟨a₁, ho, hd₁⟩ := hw.owners b hhas hne
    rw [ho] at ha
    exact hd₁.trans (Option.some.inj ha ▸ hd)

variable (hacyclic : c.program.Acyclic) (hsym : c.program.SymbolsApart)
include hacyclic hsym

/-- A function that code of an initializer calls was finished before the initializer was. -/
theorem Completed.within_of_calls (hb : r.Holds c g s f b)
    (hc : (s.connected c).builder.module.CallsFrom f b callee) : r.Within c g s callee := by
  have hset := h.inv.chained.settled before r after hr
  have hmain := h.ne_main hsym hc
  have hhas := h.has_of_callsFrom hc
  have hwait : ∀ q ∈ r.outer, q.1 = callee → s.Has callee ⟨1⟩ ∧ g.owner callee ⟨1⟩ = some q.2 := by
    rintro q hq rfl
    exact hset.waiting q hq hmain
  constructor
  case old =>
    obtain ⟨id, hm, args, hk⟩ := hc
    have hm : id ∈ ((s.connected c).block f b).insts := hm
    have hk : (((s.connected c).func f).inst id).kind = _ := hk
    rw [h.insts] at hm
    rw [h.inst] at hk
    exact hset.callees f b (hb.imp_right fun hw => ⟨hw.done, hw.old⟩) id hm callee args hk
  case done =>
    intro hm
    obtain ⟨q, hq, he⟩ := List.mem_map.mp hm
    obtain ⟨hfirst, ho⟩ := hwait q hq he
    rcases (h.callable hc).known with ⟨n, hn⟩ | ⟨a, d, ha, hd⟩
    · exact h.not_has_foreign hn hfirst
    · obtain ⟨d', hasks, hext, howner⟩ := h.inv.chained.entities callee hmain (State.has_first hfirst)
      obtain rfl : d = d' := hsym.same d d' _ hd.asks hasks hext
      rw [howner ⟨1⟩ hfirst (by simp)] at ho
      have hdep := h.depends_of_holds hb hhas ha hd.depends
      exact hacyclic r.constant (hdep.trans (Option.some.inj ho ▸ hset.outer q hq))
  case owners =>
    intro b' hb' hne
    rcases (h.callable hc).known with ⟨n, hn⟩ | ⟨a, d, ha, hd⟩
    · exact absurd hb' (h.not_has_foreign hn)
    · obtain ⟨d', hasks, hext, howner⟩ := h.inv.chained.entities callee hmain (State.has_first hb')
      obtain rfl : d = d' := hsym.same d d' _ hd.asks hasks hext
      exact ⟨_, howner b' hb' hne, h.depends_of_holds hb hhas ha hd.depends⟩

theorem Completed.within_of_reaches (hw : r.Within c g s f)
    (hreach : (s.connected c).builder.module.Reaches f callee) : r.Within c g s callee := by
  induction hreach with
  | refl => exact hw
  | tail _ hc ih =>
    obtain ⟨b, hc⟩ := hc
    exact h.within_of_calls hr hacyclic hsym (.inr ih) hc

omit hsym in
/-- Code of an initializer names only constants that are initialized before. -/
theorem Completed.mem_before (hb : r.Holds c g s f b) {v : Value} {gl : GlobalId} {k : ConstId}
    (hv : s.Mentions f b v) (hn : named v = some gl) (hk : (k, gl) ∈ s.consts) {a : Entity}
    (ha : g.owner f b = some a) (hd : c.program.Depends a (.constant k)) :
    k ∈ before.map Region.constant := by
  have hset := h.inv.chained.settled before r after hr
  have hdep := h.depends_of_holds hb hv.has ha hd
  rcases hset.names f b (hb.imp_right fun hw => ⟨hw.done, hw.old⟩) v hv gl hn k hk
    with hm | rfl | hm
  · exact hm
  · exact absurd hdep (hacyclic _)
  · obtain ⟨q, hq, he⟩ := List.mem_map.mp hm
    exact absurd (hdep.trans (he ▸ hset.outer q hq)) (hacyclic _)

end

/-! ### Events -/

theorem mentions_of_operand {ev : Event} {v : Value} (hv : v ∈ ev.operands s.builder.module)
    (ho : ev.Occurs s.builder.module) : s.Mentions ev.func ev.block v := by
  cases ev with
  | enter f source b =>
    obtain ⟨id, hm, hv⟩ := List.mem_flatMap.mp hv
    refine .inl ⟨id, Array.mem_toList_iff.mp hm, ?_⟩
    show v ∈ ((s.builder.module.function f).inst id).kind.operands
    split at hv
    · rename_i incoming hk
      obtain ⟨q, hq, rfl⟩ := List.mem_map.mp hv
      rw [hk]
      exact List.mem_map_of_mem (List.mem_of_mem_filter hq)
    · exact absurd hv List.not_mem_nil
  | perform f b id => exact .inl ⟨id, ho, hv⟩
  | leave f b next =>
    cases ht : ((s.builder.module.function f).block b).term with
    | none =>
      rw [Event.operands, ht] at hv
      exact absurd hv List.not_mem_nil
    | some t =>
      rw [Event.operands, ht] at hv
      exact .inr ⟨t, ht, hv⟩

theorem UsableIn.mayRead {e : Option Entity} {f : FuncId} {v : Value} {gl : GlobalId}
    (h : UsableIn c e s f v) (hn : named v = some gl) : MayRead c e s gl := by
  cases v with
  | global =>
    cases hn
    exact h.2
  | const k =>
    cases k with
    | globalAddr =>
      cases hn
      exact h.2
    | _ => cases hn
  | _ => cases hn

section

variable (h : Completed c g s) {ev : Event} {gl : GlobalId} {k : ConstId}
  (hk : (k, gl) ∈ s.consts) (ho : ev.Occurs (s.connected c).builder.module)
include h hk ho

/-- What names the global behind a constant is code of an entity that depends on the constant, or
the store by which the initializer fills it. -/
theorem Completed.depends_or_fills {v : Value}
    (hv : v ∈ ev.operands (s.connected c).builder.module) (hn : named v = some gl) :
    (∃ a, g.owner ev.func ev.block = some a ∧ c.program.Depends a (.constant k)) ∨
      ev.Fills (s.connected c).builder.module gl ∧
        g.owner ev.func ev.block = some (.constant k) := by
  have hread : UsableIn c (g.owner ev.func ev.block) (s.connected c) ev.func v →
      ∃ a, g.owner ev.func ev.block = some a ∧ c.program.Depends a (.constant k) :=
    fun hu => hu.mayRead hn k hk
  have hsound := h.closed.sound ev.func
  cases ev with
  | enter f source b =>
    obtain ⟨id, hm, hv⟩ := List.mem_flatMap.mp hv
    split at hv
    · rename_i incoming hkind
      obtain ⟨q, hq, rfl⟩ := List.mem_map.mp hv
      have hop : q.1 ∈ (((s.connected c).func f).inst id).kind.operands := by
        rw [show (((s.connected c).func f).inst id).kind = _ from hkind]
        exact List.mem_map_of_mem (List.mem_of_mem_filter hq)
      rcases hsound.operands b id (Array.mem_toList_iff.mp hm) q.1 hop with hu | ⟨w, gl', hs, -⟩
      · exact .inl (hread hu)
      · exact absurd (hkind.symm.trans hs) (by simp)
    · exact absurd hv List.not_mem_nil
  | perform f b id =>
    rcases hsound.operands b id ho v hv with hu | ⟨w, gl', hs, rfl, hw⟩
    · exact .inl (hread hu)
    · cases hn
      exact .inr ⟨⟨f, b, id, w, rfl, hs⟩, hw.2 k hk⟩
  | leave f b next =>
    cases ht : ((s.connected c).block f b).term with
    | none =>
      rw [Event.operands, show (((s.connected c).builder.module.function f).block b).term = _
        from ht] at hv
      exact absurd hv List.not_mem_nil
    | some t =>
      rw [Event.operands, show (((s.connected c).builder.module.function f).block b).term = _
        from ht] at hv
      exact .inl (hread (hsound.results b t ht v hv))

omit hk ho in
/-- Code that belongs to an initializer is in the entry function. -/
theorem Completed.func_of_owner (hhas : s.Has ev.func ev.block)
    (howner : g.owner ev.func ev.block = some (.constant k)) : ev.func = c.main.func := by
  by_contra hne
  obtain ⟨d, -, -, howners⟩ := h.inv.chained.entities ev.func hne (State.has_first hhas)
  by_cases hb : ev.block = ⟨0⟩
  · rw [hb, h.inv.chained.slots] at howner
    cases howner
  · rw [howners _ hhas hb] at howner
    cases howner

end

/-- A constant among the first ones of the chain has a place among them. -/
theorem Completed.lt_of_mem_take (h : Completed c g s) {i j : Nat} {r : Region}
    (hr : g.chain[i]? = some r) (hm : r.constant ∈ (g.chain.take j).map Region.constant) :
    i < j := by
  obtain ⟨i', hi'⟩ := List.mem_iff_getElem?.mp hm
  rw [List.map_take, List.getElem?_take] at hi'
  split at hi'
  · rename_i hlt
    have hget : (g.chain.map Region.constant)[i]? = some r.constant := by
      rw [List.getElem?_map, hr]
      rfl
    have hin := (List.getElem?_eq_some_iff.mp hget).1
    rwa [(List.getElem?_inj hin h.inv.chained.once).mp (hget.trans hi'.symm)]
  · cases hi'

theorem eq_take_append {i : Nat} {r : Region} (hr : g.chain[i]? = some r) :
    g.chain = g.chain.take i ++ r :: g.chain.drop (i + 1) := by
  obtain ⟨hlt, rfl⟩ := List.getElem?_eq_some_iff.mp hr
  rw [← List.drop_eq_getElem_cons hlt, List.take_append_drop]

section

variable (h : Completed c g s) (hacyclic : c.program.Acyclic) (hsym : c.program.SymbolsApart)
include h hacyclic hsym

/-- Code that an initializer runs is its own or that of a function that it reaches. -/
theorem Completed.holds_of_at {before after : List Region} {r : Region} {b : BlockId} {ev : Event}
    (hr : g.chain = before ++ r :: after)
    (hb : g.owner c.main.func b = some (.constant r.constant))
    (hat : Exec.At (s.connected c).builder.module c.main.func b ev) :
    r.Holds c g s ev.func ev.block := by
  rcases hat with ⟨hf, hblock⟩ | ⟨callee, hcall, hreach⟩
  · rw [hf, hblock]
    exact .inl ⟨rfl, hb⟩
  · exact .inr (h.within_of_reaches hr hacyclic hsym
      (h.within_of_calls hr hacyclic hsym (.inl ⟨rfl, hb⟩) hcall) hreach)

omit hacyclic hsym in
/-- What belongs to no entity calls nothing that has code. -/
theorem Completed.not_has_of_none {b b' : BlockId} {f callee : FuncId}
    (hb : g.owner c.main.func b = none)
    (hcall : (s.connected c).builder.module.CallsFrom c.main.func b callee)
    (hreach : (s.connected c).builder.module.Reaches callee f) : ¬ s.Has f b' := by
  rcases (h.callable hcall).known with ⟨n, hn⟩ | ⟨a, d, ha, -⟩
  · rcases Relation.ReflTransGen.cases_head hreach with rfl | ⟨f', ⟨b'', hc⟩, -⟩
    · exact h.not_has_foreign hn
    · exact absurd (h.has_of_callsFrom hc) (h.not_has_foreign hn)
  · rw [hb] at ha
    cases ha

/-- An event names the global behind a constant in a phase after that of its initializer, or where
the initializer fills the global. -/
theorem Completed.late {i : Nat} {r : Region} {b : BlockId} {ev : Event} {gl : GlobalId}
    (hr : g.chain[i]? = some r) (hk : (r.constant, gl) ∈ s.consts)
    (ho : ev.Occurs (s.connected c).builder.module)
    (hat : Exec.At (s.connected c).builder.module c.main.func b ev)
    (hn : ev.Names (s.connected c).builder.module gl) :
    i + 2 ≤ g.phase c b ∨ ev.Fills (s.connected c).builder.module gl ∧
      ev.func = c.main.func ∧ g.phase c b = i + 1 := by
  obtain ⟨v, hv, hname⟩ := hn
  have hmen := h.mentions (mentions_of_operand hv ho)
  have hlt := (List.getElem?_eq_some_iff.mp hr).1
  rcases h.depends_or_fills hk ho hv hname with ⟨a, ha, hd⟩ | ⟨hfills, howner⟩
  · refine .inl ?_
    cases hb : g.owner c.main.func b with
    | none =>
      rcases hat with ⟨hf, hblock⟩ | ⟨callee, hcall, hreach⟩
      · rw [hf, hblock, hb] at ha
        cases ha
      · exact absurd hmen.has (h.not_has_of_none hb hcall hreach)
    | some e =>
      by_cases hin : ∃ r', r' ∈ g.chain ∧ e = .constant r'.constant
      · obtain ⟨r', hr', rfl⟩ := hin
        obtain ⟨j, hj⟩ := List.mem_iff_getElem?.mp hr'
        have hchain := eq_take_append hj
        have hbefore := h.mem_before hchain hacyclic
          (h.holds_of_at hacyclic hsym hchain hb hat) hmen hname hk ha hd
        have hij := h.lt_of_mem_take hr hbefore
        rw [h.phase_region hj hb]
        omega
      · rw [phase_of_not_mem hb hin]
        omega
  · have hf := h.func_of_owner hmen.has howner
    refine .inr ⟨hfills, hf, ?_⟩
    rcases hat with ⟨-, hblock⟩ | ⟨callee, hcall, hreach⟩
    · rw [hf, hblock] at howner
      exact h.phase_region hr howner
    · exact absurd (hf ▸ hreach) (h.not_reaches_main hsym (h.ne_main hsym hcall))

end

/-! ### Runs -/

section

variable (h : Completed c g s)
include h

theorem Completed.nodup_stops : (g.stops c).Nodup := by
  refine List.nodup_iff_getElem?_ne_getElem?.mpr fun i j hij hj he => ?_
  have hget := List.getElem?_eq_getElem hj
  have hi := h.phase_stops (he.trans hget)
  have hj := h.phase_stops hget
  omega

/-- The last gate leads to the entry block, and no other one does. -/
theorem Completed.gates_concat : ∃ gates b, g.gates c = gates ++ [(b, c.main.entryBlock)] ∧
    c.main.entryBlock ∉ gates.map Prod.snd := by
  obtain ⟨gates, ⟨b, b'⟩, he⟩ : ∃ gates gate, g.gates c = gates ++ [gate] := by
    refine (List.eq_nil_or_concat' (g.gates c)).resolve_left fun hnil => ?_
    have hgate := h.gate_tail
    rw [hnil] at hgate
    cases hgate
  have hstops := (map_snd_gates g c).symm
  rw [he, List.map_append, Ledger.stops] at hstops
  obtain ⟨-, hlast⟩ := List.append_inj' hstops rfl
  obtain rfl : c.main.entryBlock = b' := (List.cons.inj hlast).1
  refine ⟨gates, b, he, fun hm => ?_⟩
  have hnodup := h.nodup_stops
  rw [← map_snd_gates, he, List.map_append, List.nodup_append] at hnodup
  exact hnodup.2.2 _ hm _ List.mem_cons_self rfl

variable {i n : Nat} {r : Region} {past : List Event} (hr : g.chain[i]? = some r)
  (hpast : past.filterMap (Event.passed? c.main.func (g.gates c)) = (g.gates c).take n)
include hr hpast

omit h in
/-- Who has come to the phase of an initializer has begun it. -/
theorem Region.begun (hn : i + 1 ≤ n) : r.stage.Begun c.main.func (g.gates c) past := by
  have hlt := (List.getElem?_eq_some_iff.mp hr).1
  obtain ⟨b, hb⟩ : ∃ b, (g.lasts c)[i]? = some b :=
    ⟨_, List.getElem?_eq_getElem (by simp [Ledger.lasts]; omega)⟩
  have hgate : (g.gates c)[i]? = some (b, r.first) := by
    refine g.gate_iff.mpr ⟨hb, ?_⟩
    rw [Ledger.stops, List.getElem?_append_left (by simpa using hlt), List.getElem?_map, hr]
    rfl
  have hm : (b, r.first) ∈ (g.gates c).take n := by
    refine List.mem_of_getElem? (i := i) ?_
    rw [List.getElem?_take_of_lt hn, hgate]
  exact ⟨b, Exec.mem_passed.mp (hpast ▸ hm)⟩

omit h in
/-- Who has come to a phase after that of an initializer has gone through it. -/
theorem Region.finished (hn : i + 2 ≤ n) :
    r.stage.Finished c.main.func (g.gates c) past := by
  have hlt := (List.getElem?_eq_some_iff.mp hr).1
  obtain ⟨next, hnext⟩ : ∃ next, (g.stops c)[i + 1]? = some next :=
    ⟨_, List.getElem?_eq_getElem (by simp [Ledger.stops]; omega)⟩
  have hgate : (g.gates c)[i + 1]? = some (r.last, next) := by
    refine g.gate_iff.mpr ⟨?_, hnext⟩
    rw [Ledger.lasts, List.getElem?_cons_succ, List.getElem?_map, hr]
    rfl
  have hm : (r.last, next) ∈ (g.gates c).take n := by
    refine List.mem_of_getElem? (i := i + 1) ?_
    rw [List.getElem?_take_of_lt hn, hgate]
  exact ⟨next, Exec.mem_passed.mp (hpast ▸ hm)⟩

/-- Who is in the phase of an initializer has not gone through it. -/
theorem Completed.not_finished (hn : n ≤ i + 1) :
    ¬ r.stage.Finished c.main.func (g.gates c) past := by
  rintro ⟨next, hgate⟩
  have hm := Exec.mem_passed.mpr hgate
  rw [hpast] at hm
  obtain ⟨j, hj⟩ := List.mem_iff_getElem?.mp hm
  rw [List.getElem?_take] at hj
  split at hj
  · have hphase := h.phase_lasts (g.gate_iff.mp hj).1
    have hregion := h.phase_region hr
      (h.inv.chained.regions r (List.mem_of_getElem? hr) _ (.inr rfl)).2
    have hregion : g.phase c r.stage.last = i + 1 := hregion
    omega
  · cases hj

end

/-- What a run does with the initializers and the globals that they fill. -/
theorem Completed.initialized (h : Completed c g s) (hacyclic : c.program.Acyclic)
    (hsym : c.program.SymbolsApart) {events : List Event}
    (hroute : Exec.Route (s.connected c).builder.module c.main.func none ⟨0⟩ events) :
    Exec.Initialized (s.connected c).builder.module c.main.func c.main.entryBlock (g.gates c)
      g.stages s.consts events := by
  have hphased := h.phased hsym
  have hstart := hphased.start.1
  have hoccurs : Throughout (fun _ ev => ev.Occurs (s.connected c).builder.module) events :=
    fun past ev later he => (hroute.reaches ev (by simp [he])).2
  have horder := hphased.milestones hroute
  rw [if_neg hphased.start.2, hstart, List.drop_zero, List.nil_append] at horder
  have htimely : ∀ past ev later, events = past ++ ev :: later →
      ∃ b, Exec.At (s.connected c).builder.module c.main.func b ev ∧
        past.filterMap (Event.passed? c.main.func (g.gates c)) = (g.gates c).take (g.phase c b) := by
    intro past ev later he
    obtain ⟨b, hat, -, hpast⟩ := hphased.throughout hroute past ev later he
    rw [hstart, List.drop_zero] at hpast
    exact ⟨b, hat, hpast⟩
  constructor
  case order => exact horder
  case once =>
    rintro ⟨source, hm⟩ st hst
    obtain ⟨r, hr, rfl⟩ := List.mem_map.mp hst
    have hstop : r.first ∈ g.stops c := List.mem_append_left _ (List.mem_map_of_mem hr)
    obtain ⟨gates, b, hgates, hlast⟩ := h.gates_concat
    have hentry : c.main.entryBlock ∈ g.stops c := by simp [Ledger.stops]
    have hwhole : events.filter (Event.isMilestone c.main.func (g.gates c)) =
        itinerary c.main.func (g.gates c) := by
      rw [hgates] at horder ⊢
      refine Exec.eq_itinerary horder hlast (List.mem_filter.mpr ⟨hm, ?_⟩)
      rw [← hgates]
      simpa [Event.isMilestone, map_snd_gates] using hentry
    have hcount : (itinerary c.main.func (g.gates c)).countP (Event.isEntry c.main.func r.first) =
        ((g.gates c).map Prod.snd).count r.first := Exec.countP_itinerary
    rw [map_snd_gates, h.nodup_stops.count, if_pos hstop, ← hwhole, List.countP_filter] at hcount
    rw [← hcount]
    refine List.countP_congr fun ev _ => ?_
    cases ev with
    | enter f source b =>
      simp only [Event.isEntry, Event.isMilestone, map_snd_gates, Region.stage]
      grind
    | _ => simp [Event.isEntry]
  case before =>
    intro past ev later he hev st hst
    obtain ⟨r, hr, rfl⟩ := List.mem_map.mp hst
    obtain ⟨i, hi⟩ := List.mem_iff_getElem?.mp hr
    obtain ⟨b, hat, hpast⟩ := htimely past ev later he
    obtain ⟨source, rfl⟩ : ∃ source, ev = .enter c.main.func source c.main.entryBlock := by
      cases ev with
      | enter f source b => simp_all [Event.isEntry]
      | _ => simp [Event.isEntry] at hev
    rcases hat with ⟨-, rfl⟩ | ⟨callee, hcall, hreach⟩
    · refine Region.finished hi hpast ?_
      have hlt := (List.getElem?_eq_some_iff.mp hi).1
      show _ ≤ g.phase c c.main.entryBlock
      rw [h.phase_entry]
      omega
    · exact absurd hreach (hphased.alone b callee hcall)
  case names =>
    intro st hst gl hk past ev later he hnames
    obtain ⟨r, hr, rfl⟩ := List.mem_map.mp hst
    obtain ⟨i, hi⟩ := List.mem_iff_getElem?.mp hr
    obtain ⟨b, hat, hpast⟩ := htimely past ev later he
    rcases h.late hacyclic hsym hi hk (hoccurs past ev later he) hat hnames
      with hlt | ⟨hfills, hf, hphase⟩
    · exact .inl (Region.finished hi hpast hlt)
    · exact .inr ⟨hfills, hf, Region.begun hi hpast hphase.ge, h.not_finished hi hpast hphase.le⟩

theorem Completed.steady (h : Completed c g s) : Steady c (s.connected c) :=
  (h.inv.steady.modifyFunction h.inv.tail.1 grows_ended).modifyFunction h.hasFirst grows_ended

theorem Completed.found (h : Completed c g s) :
    (s.connected c).builder.module.findFunction IR.entryName = some c.main.func := by
  have hs := h.steady
  cases hf : (s.connected c).builder.module.findFunction IR.entryName with
  | none =>
    have hlt := index_lt_of_hasBlock hs.entry
    exact absurd hs.entryName (Module.name_ne_of_findFunction hf hlt)
  | some f => rw [hs.entryOnly f (Module.of_findFunction hf).2]

theorem Completed.staged (h : Completed c g s) (hsym : c.program.SymbolsApart) :
    Exec.Staged (s.connected c).builder.module c.main.func c.constHead c.main.entryBlock g.stages
      (g.phase c) s.consts where
  found := h.found
  one := by
    rw [Ledger.stages, List.map_map]
    exact h.inv.chained.once
  all k := by
    rw [h.inv.chained.started k, h.alone, Ledger.stages, List.map_map]
    simp [Region.stage, Function.comp_def]
  phased := g.gates_eq c ▸ h.phased hsym
  inside := by
    intro i st hst
    rw [Ledger.stages, List.getElem?_map, Option.map_eq_some_iff] at hst
    obtain ⟨r, hr, rfl⟩ := hst
    have hregion := h.inv.chained.regions r (List.mem_of_getElem? hr)
    exact ⟨h.phase_region hr (hregion _ (.inl rfl)).2, h.phase_region hr (hregion _ (.inr rfl)).2⟩
  after := by
    rw [h.phase_entry, Ledger.stages, List.length_map]

/-- What a check says of the state in which a generation ends. -/
theorem exists_of_check {p : Program} {o : Options} (check : State → Bool)
    (h : (match run? p o with
      | some (.ok (), s) => check s
      | _ => false) = true) : ∃ s, run? p o = some (.ok (), s) ∧ check s = true := by
  split at h
  · rename_i s hs
    exact ⟨s, hs, h⟩
  · cases h

/-- A program with a constant whose initializer calls a function that reads another constant. -/
def layered : Program :=
  let build : Drafting Node := do
    let int := some Draft.intType
    let call (name : String) (args : List Node) (target : DefId) : Drafting Node :=
      Draft.node (.call ⟨none, name, args, [target], none, none⟩) int
    let size ← Draft.function "size" [⟨"a", Draft.intType, false⟩] int
      (← Draft.var "a" Draft.intType)
    let base ← Draft.constant "BASE" (← call "size" [← Draft.int 2] size)
    let half ← Draft.function "half" [] int (← Draft.constRef base)
    let top ← Draft.constant "TOP" (← call "half" [] half)
    Draft.sequence [← Draft.constRef top, ← call "half" [] half]
  let (root, draft) := build.run Draft.new
  draft.program root

/-- The rank of an entity is above those of the entities that it reads or calls. -/
def layeredRank : Entity → Nat
  | .root => 5
  | .definition d => if d.name = "half" then 2 else 0
  | .constant id => 2 * id.index + 1

/-- A program with two functions of one symbol, the first of which reads a constant whose
initializer calls the second. -/
def clash : Program :=
  let build : Drafting Node := do
    let int := some Draft.intType
    let call (target : DefId) : Drafting Node :=
      Draft.node (.call ⟨none, "f", [], [target], none, none⟩) int
    let reader ← Draft.declare "f" Draft.programType [] int
    let seven ← Draft.function "f" [] int (← Draft.int 7)
    let k ← Draft.constant "K" (← call seven)
    Draft.defineBody reader (← Draft.constRef k)
    call reader
  let (root, draft) := build.run Draft.new
  draft.program root

/-- A program that stores 9 at an address of its own making before it reads a constant whose
initializer gives 5. -/
def forged : Program :=
  let build : Drafting Node := do
    let int := some Draft.intType
    let longs ← Draft.addType (.pointer Draft.longType)
    let ints ← Draft.addType (.pointer Draft.intType)
    let places ← Draft.addType (.pointer ints)
    let malloc ← Draft.primitive "malloc" Draft.programType [⟨"count", Draft.intType, false⟩]
      (some longs) .pointerMalloc
    let setLong ← Draft.primitive "set" longs [⟨"value", Draft.longType, false⟩]
      (some Draft.longType) .pointerSetValue
    let cast ← Draft.primitive "cast" longs [] (some places) .pointerCast
    let get ← Draft.primitive "get" places [] (some ints) .pointerGetValue
    let setInt ← Draft.primitive "set" ints [⟨"value", Draft.intType, false⟩] int .pointerSetValue
    let five ← Draft.function "five" [] int (← Draft.int 5)
    let call (receiver : Option Node) (name : String) (args : List Node) (target : DefId)
        (t : TypeId) : Drafting Node :=
      Draft.node (.call ⟨receiver, name, args, [target], none, none⟩) (some t)
    let k ← Draft.constant "K" (← call none "five" [] five Draft.intType)
    let new ← Draft.assignVar "p" longs (← call none "malloc" [← Draft.int 1] malloc longs)
    let p ← Draft.var "p" longs
    let aim ← call p "set" [← Draft.long 4294967296] setLong Draft.longType
    let there ← call (← call p "cast" [] cast places) "get" [] get ints
    Draft.sequence [new, aim, ← call there "set" [← Draft.int 9] setInt Draft.intType,
      ← Draft.constRef k]
  let (root, draft) := build.run Draft.new
  draft.program root

/-- The rank of a function that reads a constant is above that of the constant. -/
def readerRank : Entity → Nat
  | .root => 3
  | .definition d => if d.name = "f" ∧ d.body.any (·.kind matches .const _) then 2 else 0
  | .constant _ => 1

end Gen

end Lowering
