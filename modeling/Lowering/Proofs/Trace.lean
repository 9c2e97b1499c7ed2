import Lowering.Proofs.Execution
import Mathlib.Data.List.Basic
import Mathlib.Logic.Relation

/-!
# What a run does

The events of a run in their order, read off the machine: the events of each step are those that
the machine's own outcomes so far lead to.

* `Exec.Event`, `Exec.Run.callEvents`, `Exec.events`;
* `Exec.Route`: how an activation of a function goes from block to block;
* `Exec.Phased`, `Exec.Phased.milestones`, `Exec.Phased.throughout`: an activation of a function
  whose blocks are in phases passes from each phase to the next one once.
-/

namespace Lowering

open IR (Value InstId BlockId FuncId InstKind Module)

namespace IR.Module

/-- A block of a function calls another function. -/
def CallsFrom (m : Module) (f : FuncId) (b : BlockId) (callee : FuncId) : Prop :=
  ∃ id ∈ ((m.function f).block b).insts, ∃ args,
    ((m.function f).inst id).kind = .call callee args

/-- A function calls another one, perhaps through others. -/
def Reaches (m : Module) : FuncId → FuncId → Prop :=
  Relation.ReflTransGen fun f callee => ∃ b, m.CallsFrom f b callee

end IR.Module

namespace Exec

/-! ### Events -/

/-- What a run does: it enters a block, from another one or at the start of a function, it performs
an instruction that is no phi, and it leaves a block, for another one or for the caller. -/
inductive Event
  | enter (f : FuncId) (source : Option BlockId) (b : BlockId)
  | perform (f : FuncId) (b : BlockId) (id : InstId)
  | leave (f : FuncId) (b : BlockId) (next : Option BlockId)
  deriving DecidableEq, Repr

namespace Event

/-- The function of an event. -/
def func : Event → FuncId
  | .enter f _ _ | .perform f _ _ | .leave f _ _ => f

/-- The block of an event. -/
def block : Event → BlockId
  | .enter _ _ b | .perform _ b _ | .leave _ b _ => b

/-- An event enters a block. -/
def isEntry (f : FuncId) (b : BlockId) : Event → Bool
  | .enter f' _ b' => f' = f ∧ b' = b
  | _ => false

/-- The module has the instruction that is performed in that block. -/
def Occurs (m : Module) : Event → Prop
  | .perform f b id => id ∈ ((m.function f).block b).insts
  | _ => True

end Event

namespace Run

/-- The events of what comes after a computation: none when it fails. -/
def after {α : Type} (x : Run α) (next : α → State → List Event) (σ : State) : List Event :=
  match (x σ : Except Fault α × State) with
  | (.ok a, σ) => next a σ
  | (.error _, _) => []

section

variable (m : Module) (call : FuncId → List RtValue → Run RtValue)
  (calling : FuncId → List RtValue → State → List Event) (f : FuncId) (b : BlockId)

/-- The events inside an instruction: those of the function that it calls. -/
def instructionEvents (fr : Frame) : InstKind → State → List Event
  | .call callee args => after (args.mapM (operand fr)) (calling callee)
  | _ => fun _ => []

/-- The events of the instructions of a block. -/
def instructionsEvents (fn : IR.Function) (fr : Frame) : List InstId → State → List Event
  | [] => fun _ => []
  | id :: ids =>
    let inst := fn.inst id
    if inst.kind.isPhi then instructionsEvents fn fr ids
    else after tick fun _ σ =>
      .perform f b id :: (instructionEvents calling fr inst.kind σ ++
        after (instruction m call f fr inst.kind inst.type)
          (fun v => instructionsEvents fn (fr.set id v) ids) σ)

/-- The event of the terminator of a block. -/
def Exit.event : Exit → Event
  | .goto next => .leave f b (some next)
  | .ret _ => .leave f b none

/-- The events of a block after its phis, and of `rest` once it was left. -/
def bodyEvents (rest : Frame → Exit → State → List Event) (fr : Frame) (σ : State) : List Event :=
  let fn := m.function f
  let ids := (fn.block b).insts.toList
  instructionsEvents m call calling f b fn fr ids σ ++
    after (instructions m call f fn fr ids) (fun fr =>
      after (terminator fn (fn.block b) fr) fun exit σ => exit.event f b :: rest fr exit σ) σ

/-- The events of a block after it was entered from `source`, and of `rest` once it was left. -/
def blockEvents (rest : Frame → Exit → State → List Event) (fr : Frame)
    (source : Option BlockId) : State → List Event :=
  after (phiValues (m.function f) fr source ((m.function f).block b).insts.toList) fun resolved =>
    bodyEvents m call calling f b rest (resolved.foldl (fun fr (id, v) => fr.set id v) fr)

/-- The events of at most `n` blocks of an activation. -/
def blocksEvents : Nat → Frame → Option BlockId → BlockId → State → List Event
  | 0, _, _, _ => fun _ => []
  | n + 1, fr, source, b => fun σ =>
    .enter f source b :: blockEvents m call calling f b (fun fr exit =>
      match exit with
      | .ret _ => fun _ => []
      | .goto next => blocksEvents n fr (some b) next) fr source σ

end

/-- The events of a call, with at most `n` calls and blocks nested in each other. -/
def callEvents (m : Module) : Nat → FuncId → List RtValue → State → List Event
  | 0, _, _ => fun _ => []
  | n + 1, f, args => fun σ =>
    let fn := m.function f
    if fn.isDeclaration then []
    else
      blocksEvents m (callWithin m n) (callEvents m n) f (n + 1)
        ⟨args, Array.replicate fn.insts.size none⟩ none ⟨0⟩ { σ with slots := [] }

/-- The events of a program from its entry on. -/
def entryEvents (m : Module) (args : List String) (σ : State) : List Event :=
  match m.findFunction IR.entryName with
  | none => []
  | some f =>
    after (allocate (8 * args.length)) (fun vector =>
      after (writeArgs vector args) fun _ σ =>
        callEvents m (σ.stepLimit - σ.steps + 1) f [.int 32 args.length, .ptr vector] σ) σ

end Run

/-- The events of a run of a program. -/
def events (m : Module) (args : List String) (stepLimit : Nat) : List Event :=
  Run.entryEvents m args { State.initial m with stepLimit }

/-! ### Routes -/

/-- An event inside a block: one of its instructions, or what a function does that it calls. -/
inductive Inside (m : Module) (f : FuncId) (b : BlockId) : Event → Prop
  | own {id : InstId} (h : id ∈ ((m.function f).block b).insts) : Inside m f b (.perform f b id)
  | called {callee : FuncId} {ev : Event} (calls : m.CallsFrom f b callee)
      (reaches : m.Reaches callee ev.func) (occurs : ev.Occurs m) : Inside m f b ev

/-- The events of an activation from a block on, as far as it comes. -/
inductive Route (m : Module) (f : FuncId) : Option BlockId → BlockId → List Event → Prop
  | none {source : Option BlockId} {b : BlockId} : Route m f source b []
  | stop {source : Option BlockId} {b : BlockId} {body : List Event}
      (inside : ∀ ev ∈ body, Inside m f b ev) : Route m f source b (.enter f source b :: body)
  | ret {source : Option BlockId} {b : BlockId} {body : List Event}
      (inside : ∀ ev ∈ body, Inside m f b ev) :
      Route m f source b (.enter f source b :: (body ++ [.leave f b none]))
  | goto {source : Option BlockId} {b next : BlockId} {body rest : List Event}
      (inside : ∀ ev ∈ body, Inside m f b ev) (leads : (m.function f).LeadsTo b next)
      (route : Route m f (some b) next rest) :
      Route m f source b (.enter f source b :: (body ++ .leave f b (some next) :: rest))

/-- All events of a route are in the function or in functions that it reaches. -/
theorem Route.reaches {m : Module} {f : FuncId} {b : BlockId} {source : Option BlockId} {events : List Event}
    (h : Route m f source b events) : ∀ ev ∈ events, m.Reaches f ev.func ∧ ev.Occurs m := by
  have hin : ∀ {b} {body : List Event}, (∀ ev ∈ body, Inside m f b ev) → ∀ ev ∈ body,
      m.Reaches f ev.func ∧ ev.Occurs m := by
    intro b body hbody ev hev
    cases hbody ev hev with
    | own hid => exact ⟨.refl, hid⟩
    | called hcalls hreaches hoccurs => exact ⟨.head ⟨_, hcalls⟩ hreaches, hoccurs⟩
  induction h with
  | none => exact fun ev hev => absurd hev List.not_mem_nil
  | stop hbody =>
    refine List.forall_mem_cons.mpr ⟨⟨.refl, trivial⟩, hin hbody⟩
  | ret hbody =>
    refine List.forall_mem_cons.mpr ⟨⟨.refl, trivial⟩, List.forall_mem_append.mpr ⟨hin hbody, ?_⟩⟩
    exact List.forall_mem_singleton.mpr ⟨.refl, trivial⟩
  | goto hbody _ _ ih =>
    refine List.forall_mem_cons.mpr ⟨⟨.refl, trivial⟩, List.forall_mem_append.mpr ⟨hin hbody, ?_⟩⟩
    exact List.forall_mem_cons.mpr ⟨⟨.refl, trivial⟩, ih⟩

namespace Run

variable {m : Module} {call : FuncId → List RtValue → Run RtValue}
  {calling : FuncId → List RtValue → State → List Event} {f : FuncId} {b : BlockId}

theorem after_cases {α : Type} (x : Run α) (next : α → State → List Event) (σ : State) :
    after x next σ = [] ∨ ∃ a σ', Returns x σ a σ' ∧ after x next σ = next a σ' := by
  obtain ⟨r, hr⟩ : ∃ r, @Eq (Except Fault α × State) (x σ) r := ⟨_, rfl⟩
  obtain ⟨e | a, σ'⟩ := r
  · refine .inl ?_
    rw [after, hr]
  · refine .inr ⟨a, σ', hr, ?_⟩
    rw [after, hr]

/-- What functions do that are called is a route of theirs. -/
def Calling (m : Module) (calling : FuncId → List RtValue → State → List Event) : Prop :=
  ∀ callee args σ, ∀ ev ∈ calling callee args σ, m.Reaches callee ev.func ∧ ev.Occurs m

section

variable (hc : Calling m calling)
include hc

theorem inside_instructionEvents {id : InstId} (hid : id ∈ ((m.function f).block b).insts)
    (fr : Frame) (σ : State) :
    ∀ ev ∈ instructionEvents calling fr ((m.function f).inst id).kind σ, Inside m f b ev := by
  intro ev hev
  cases hk : ((m.function f).inst id).kind with
  | call callee args =>
    rw [hk, instructionEvents] at hev
    rcases after_cases (args.mapM (operand fr)) (calling callee) σ with h | ⟨values, σ', -, h⟩
    · rw [h] at hev
      exact absurd hev List.not_mem_nil
    · rw [h] at hev
      obtain ⟨hr, ho⟩ := hc callee values σ' ev hev
      exact .called ⟨id, hid, args, hk⟩ hr ho
  | _ =>
    rw [hk] at hev
    exact absurd hev List.not_mem_nil

variable (call) in
theorem inside_instructionsEvents {ids : List InstId}
    (hids : ∀ id ∈ ids, id ∈ ((m.function f).block b).insts) (fr : Frame) (σ : State) :
    ∀ ev ∈ instructionsEvents m call calling f b (m.function f) fr ids σ, Inside m f b ev := by
  induction ids generalizing fr σ with
  | nil => exact fun ev hev => absurd hev List.not_mem_nil
  | cons id ids ih =>
    intro ev hev
    have ih := ih fun id h => hids id (List.mem_cons_of_mem _ h)
    have hid := hids id List.mem_cons_self
    rw [instructionsEvents] at hev
    split at hev
    · exact ih fr σ ev hev
    · rcases after_cases tick _ σ with h | ⟨_, σ', -, h⟩ <;> rw [h] at hev
      · exact absurd hev List.not_mem_nil
      rcases List.mem_cons.mp hev with rfl | hev
      · exact .own hid
      rcases List.mem_append.mp hev with hev | hev
      · exact inside_instructionEvents hc hid fr σ' ev hev
      · rcases after_cases (instruction m call f fr _ _) _ σ' with h | ⟨v, σ'', -, h⟩ <;>
          rw [h] at hev
        · exact absurd hev List.not_mem_nil
        · exact ih _ _ ev hev

omit hc in
/-- Where a block goes on is a block that it leads to. -/
theorem leadsTo_of_terminator {fr : Frame} {next : BlockId} {σ σ' : State}
    (h : Returns (terminator (m.function f) ((m.function f).block b) fr) σ (.goto next) σ') :
    (m.function f).LeadsTo b next := by
  obtain ⟨⟨⟩, σ₁, -, h⟩ := h.of_bind
  cases ht : ((m.function f).block b).term with
  | none =>
    rw [ht] at h
    cases h
  | some t =>
    refine ⟨t, ht, ?_⟩
    rw [ht] at h
    cases t with
    | br target =>
      cases h
      exact List.mem_singleton_self _
    | condBr cond ifTrue ifFalse =>
      obtain ⟨v, σ₂, -, h⟩ := h.of_bind
      cases h
      rw [IR.Terminator.successors]
      cases v.isTruthy <;> split <;> simp_all
    | ret value =>
      cases value with
      | none => cases h
      | some v =>
        obtain ⟨v, σ₂, -, h⟩ := h.of_bind
        cases h
    | unreachable => cases h

/-- A block stops on the way, or it is left. -/
theorem bodyEvents_cases (rest : Frame → Exit → State → List Event) (fr : Frame) (σ : State) :
    ∃ body, (∀ ev ∈ body, Inside m f b ev) ∧
      (bodyEvents m call calling f b rest fr σ = body ∨
        ∃ fr' exit σ', bodyEvents m call calling f b rest fr σ =
            body ++ exit.event f b :: rest fr' exit σ' ∧
          ∀ next, exit = .goto next → (m.function f).LeadsTo b next) := by
  rw [bodyEvents]
  refine ⟨_, inside_instructionsEvents call hc (fun id h => Array.mem_toList_iff.mp h) fr σ, ?_⟩
  rcases after_cases (instructions m call f (m.function f) fr
    ((m.function f).block b).insts.toList) _ σ with h | ⟨fr', σ₁, -, h⟩ <;> rw [h]
  · exact .inl (List.append_nil _)
  rcases after_cases (terminator (m.function f) ((m.function f).block b) fr') _ σ₁
    with h | ⟨exit, σ₂, ht, h⟩ <;> rw [h]
  · exact .inl (List.append_nil _)
  · refine .inr ⟨fr', exit, σ₂, rfl, ?_⟩
    rintro next rfl
    exact leadsTo_of_terminator ht

variable (call) in
theorem blockEvents_cases (rest : Frame → Exit → State → List Event) (fr : Frame)
    (source : Option BlockId) (σ : State) :
    ∃ body, (∀ ev ∈ body, Inside m f b ev) ∧
      (blockEvents m call calling f b rest fr source σ = body ∨
        ∃ fr' exit σ', blockEvents m call calling f b rest fr source σ =
            body ++ exit.event f b :: rest fr' exit σ' ∧
          ∀ next, exit = .goto next → (m.function f).LeadsTo b next) := by
  rcases after_cases (phiValues (m.function f) fr source
    ((m.function f).block b).insts.toList) _ σ with h | ⟨resolved, σ', -, h⟩ <;>
    rw [blockEvents, h]
  · exact ⟨[], fun ev hev => absurd hev List.not_mem_nil, .inl rfl⟩
  · exact bodyEvents_cases hc rest _ σ'

theorem route_blocksEvents (n : Nat) (fr : Frame) (source : Option BlockId) (σ : State) :
    Route m f source b (blocksEvents m call calling f n fr source b σ) := by
  induction n generalizing fr source b σ with
  | zero => exact .none
  | succ n ih =>
    obtain ⟨body, hbody, h | ⟨fr', exit, σ', h, hleads⟩⟩ :=
      blockEvents_cases call (f := f) (b := b) hc (fun fr exit =>
        match exit with
        | .ret _ => fun _ => []
        | .goto next => blocksEvents m call calling f n fr (some b) next) fr source σ
    · show Route m f source b (.enter f source b :: blockEvents m call calling f b _ fr source σ)
      rw [h]
      exact .stop hbody
    · show Route m f source b (.enter f source b :: blockEvents m call calling f b _ fr source σ)
      rw [h]
      cases exit with
      | ret v => exact .ret hbody
      | goto next => exact .goto hbody (hleads next rfl) (ih fr' (some b) σ')

end

/-- The events of a call are a route through the function. -/
theorem route_callEvents (m : Module) (n : Nat) (f : FuncId) (args : List RtValue) (σ : State) :
    Route m f none ⟨0⟩ (callEvents m n f args σ) := by
  induction n generalizing f args σ with
  | zero => exact .none
  | succ n ih =>
    rw [callEvents]
    dsimp only
    split
    · exact .none
    · exact route_blocksEvents (fun callee args σ => (ih callee args σ).reaches) _ _ _ _

end Run

/-- The events of a run are a route through the entry function. -/
theorem route_events {m : Module} {f : FuncId} (h : m.findFunction IR.entryName = some f)
    (args : List String) (stepLimit : Nat) : Route m f none ⟨0⟩ (events m args stepLimit) := by
  rw [events, Run.entryEvents, h]
  dsimp only
  rcases Run.after_cases (Run.allocate (8 * args.length)) _ { State.initial m with stepLimit }
    with h | ⟨vector, σ₁, -, h⟩ <;> rw [h]
  · exact .none
  rcases Run.after_cases (Run.writeArgs vector args) _ σ₁ with h | ⟨_, σ₂, -, h⟩ <;> rw [h]
  · exact .none
  · exact Run.route_callEvents m _ f _ σ₂

/-! ### Phases -/

/-- Something holds of each event and those before it. -/
def Throughout (P : List Event → Event → Prop) (events : List Event) : Prop :=
  ∀ past ev later, events = past ++ ev :: later → P past ev

theorem Throughout.mono {P Q : List Event → Event → Prop} {events : List Event}
    (h : Throughout P events) (hpq : ∀ past ev, P past ev → Q past ev) : Throughout Q events :=
  fun past ev later he => hpq past ev (h past ev later he)

theorem throughout_append {P : List Event → Event → Prop} {xs ys : List Event} :
    Throughout P (xs ++ ys) ↔ Throughout P xs ∧ Throughout (fun past => P (xs ++ past)) ys := by
  constructor
  · refine fun h => ⟨fun past ev later he => h past ev (later ++ ys) ?_,
      fun past ev later he => h (xs ++ past) ev later ?_⟩
    · rw [he, List.append_assoc, List.cons_append]
    · rw [he, List.append_assoc]
  · rintro ⟨hx, hy⟩ past ev later he
    rcases List.append_eq_append_iff.mp he with ⟨as, rfl, hys⟩ | ⟨cs, rfl, hcs⟩
    · exact hy as ev later hys
    · cases cs with
      | nil =>
        rw [List.append_nil] at hy
        simpa using hy [] ev later hcs.symm
      | cons c cs =>
        obtain ⟨rfl, -⟩ := List.cons.inj hcs
        exact hx past ev cs rfl

theorem throughout_cons {P : List Event → Event → Prop} {x : Event} {xs : List Event} :
    Throughout P (x :: xs) ↔ P [] x ∧ Throughout (fun past => P (x :: past)) xs := by
  rw [show x :: xs = [x] ++ xs from rfl, throughout_append]
  refine and_congr_left fun _ => ⟨fun h => h [] x [] rfl, fun h past ev later he => ?_⟩
  cases past with
  | nil =>
    obtain ⟨rfl, -⟩ := List.cons.inj he
    exact h
  | cons y past => simp at he

/-- The blocks of a function are in phases, from which gates lead on, one from each phase to the
next one, and the function is not called again. -/
structure Phased (m : Module) (f : FuncId) (gates : List (BlockId × BlockId))
    (phase : BlockId → Nat) : Prop where
  start : phase ⟨0⟩ = 0 ∧ ⟨0⟩ ∉ gates.map Prod.snd
  step : ∀ b b', (m.function f).LeadsTo b b' →
    (phase b' = phase b ∧ (b, b') ∉ gates ∧ b' ∉ gates.map Prod.snd) ∨
      gates[phase b]? = some (b, b') ∧ phase b' = phase b + 1
  alone : ∀ b callee, m.CallsFrom f b callee → ¬ m.Reaches callee f

/-- An event at which a gate is passed, or a block is entered that a gate leads to. -/
def Event.isMilestone (f : FuncId) (gates : List (BlockId × BlockId)) : Event → Bool
  | .enter f' _ b => f' = f ∧ b ∈ gates.map Prod.snd
  | .leave f' b (some next) => f' = f ∧ (b, next) ∈ gates
  | _ => false

/-- The gate that an event passes. -/
def Event.passed? (f : FuncId) (gates : List (BlockId × BlockId)) :
    Event → Option (BlockId × BlockId)
  | .leave f' b (some next) => if f' = f ∧ (b, next) ∈ gates then some (b, next) else none
  | _ => none

/-- The events at which gates are passed one after the other. -/
def itinerary (f : FuncId) (gates : List (BlockId × BlockId)) : List Event :=
  gates.flatMap fun (b, next) => [.leave f b (some next), .enter f (some b) next]

section

variable {f f' : FuncId} {gates : List (BlockId × BlockId)} {b b₀ last : BlockId}
  {source : Option BlockId}

theorem mem_passed {gate : BlockId × BlockId} {past : List Event} :
    gate ∈ past.filterMap (Event.passed? f gates) ↔
      gate ∈ gates ∧ .leave f gate.1 (some gate.2) ∈ past := by
  rw [List.mem_filterMap]
  constructor
  · rintro ⟨ev, hm, hp⟩
    cases ev with
    | leave f' b next =>
      cases next with
      | none => cases hp
      | some next =>
        rw [Event.passed?] at hp
        split at hp
        · rename_i hg
          obtain rfl := Option.some.inj hp
          obtain ⟨rfl, hg⟩ := hg
          exact ⟨hg, hm⟩
        · cases hp
    | _ => cases hp
  · rintro ⟨hg, hm⟩
    exact ⟨_, hm, if_pos ⟨rfl, hg⟩⟩

/-- The blocks that are entered on the way are those that the gates lead to. -/
theorem mem_stops_of_mem_itinerary (h : .enter f' source b ∈ itinerary f gates) :
    b ∈ gates.map Prod.snd := by
  obtain ⟨gate, hg, hm⟩ := List.mem_flatMap.mp h
  rcases List.mem_cons.mp hm with hm | hm
  · cases hm
  · cases List.mem_singleton.mp hm
    exact List.mem_map_of_mem hg

theorem countP_itinerary : (itinerary f gates).countP (Event.isEntry f b) =
    (gates.map Prod.snd).count b := by
  induction gates with
  | nil => rfl
  | cons gate gates ih =>
    rw [itinerary, List.flatMap_cons, List.countP_append, ← itinerary, ih, List.map_cons,
      List.count_cons, Nat.add_comm]
    simp [Event.isEntry]

theorem itinerary_concat : itinerary f (gates ++ [(b₀, last)]) =
    itinerary f gates ++ [.leave f b₀ (some last)] ++ [.enter f (some b₀) last] := by
  simp [itinerary]

/-- Who comes to the last block of a way went all of it. -/
theorem eq_itinerary {events : List Event} (hp : events <+: itinerary f (gates ++ [(b₀, last)]))
    (hlast : last ∉ gates.map Prod.snd) (hm : .enter f' source last ∈ events) :
    events = itinerary f (gates ++ [(b₀, last)]) := by
  rw [itinerary_concat] at hp ⊢
  rcases List.prefix_concat_iff.mp hp with he | hp
  · exact he
  · rcases List.mem_append.mp (hp.subset hm) with hm | hm
    · exact absurd (mem_stops_of_mem_itinerary hm) hlast
    · cases List.mem_singleton.mp hm

end

/-- An event in a block of a function, or in a function that is called from there. -/
def At (m : Module) (f : FuncId) (b : BlockId) (ev : Event) : Prop :=
  ev.func = f ∧ ev.block = b ∨ ∃ callee, m.CallsFrom f b callee ∧ m.Reaches callee ev.func

/-- An event in some phase after that of a block, with exactly the gates between the two passed
before it. -/
def Timely (m : Module) (f : FuncId) (gates : List (BlockId × BlockId)) (phase : BlockId → Nat)
    (b : BlockId) (past : List Event) (ev : Event) : Prop :=
  ∃ b', At m f b' ev ∧ phase b ≤ phase b' ∧
    past.filterMap (Event.passed? f gates) = (gates.take (phase b')).drop (phase b)

namespace Phased

variable {m : Module} {f : FuncId} {gates : List (BlockId × BlockId)} {phase : BlockId → Nat}
  {source : Option BlockId} {b : BlockId} {body events : List Event}

section

variable (h : Phased m f gates phase)
include h

theorem filter_inside (hbody : ∀ ev ∈ body, Inside m f b ev) :
    body.filter (Event.isMilestone f gates) = [] := by
  refine List.filter_eq_nil_iff.mpr fun ev hev => ?_
  cases hbody ev hev with
  | own _ => simp [Event.isMilestone]
  | called hcalls hreaches _ =>
    have hne : ev.func ≠ f := fun he => h.alone b _ hcalls (he ▸ hreaches)
    cases ev with
    | enter f' source b => simp_all [Event.isMilestone, Event.func]
    | perform => simp [Event.isMilestone]
    | leave f' b next => cases next <;> simp_all [Event.isMilestone, Event.func]

theorem passed_inside (hbody : ∀ ev ∈ body, Inside m f b ev) :
    body.filterMap (Event.passed? f gates) = [] := by
  refine List.filterMap_eq_nil_iff.mpr fun ev hev => ?_
  cases hbody ev hev with
  | own _ => rfl
  | called hcalls hreaches _ =>
    have hne : ev.func ≠ f := fun he => h.alone b _ hcalls (he ▸ hreaches)
    cases ev with
    | leave f' b next => cases next <;> simp_all [Event.passed?, Event.func]
    | _ => rfl

omit h in
/-- The gate of a phase is the first of those that are left. -/
theorem drop_gates {next : BlockId} (hg : gates[phase b]? = some (b, next)) :
    gates.drop (phase b) = (b, next) :: gates.drop (phase b + 1) := by
  obtain ⟨hlt, he⟩ := List.getElem?_eq_some_iff.mp hg
  rw [List.drop_eq_getElem_cons hlt, he]

omit h in
theorem filter_enter : [Event.enter f source b].filter (Event.isMilestone f gates) =
    if b ∈ gates.map Prod.snd then [.enter f source b] else [] := by
  by_cases hb : b ∈ gates.map Prod.snd <;> simp [Event.isMilestone, hb]

/-- The gates are passed in their order, each at most once, and nothing else leads where they
lead. -/
theorem milestones (hr : Route m f source b events) :
    events.filter (Event.isMilestone f gates) <+:
      (if b ∈ gates.map Prod.snd then [.enter f source b] else []) ++
        itinerary f (gates.drop (phase b)) := by
  induction hr with
  | none => exact List.nil_prefix
  | @stop source b body hbody =>
    rw [← List.singleton_append, List.filter_append, filter_enter, h.filter_inside hbody,
      List.append_nil]
    exact List.prefix_append _ _
  | @ret source b body hbody =>
    rw [← List.singleton_append, List.filter_append, filter_enter, List.filter_append,
      h.filter_inside hbody]
    exact List.prefix_append_right_inj _ |>.mpr List.nil_prefix
  | @goto source b next body rest hbody hleads _ ih =>
    rw [← List.singleton_append, List.filter_append, filter_enter, List.filter_append,
      h.filter_inside hbody, List.nil_append]
    refine (List.prefix_append_right_inj _).mpr ?_
    rcases h.step b next hleads with ⟨hphase, hgate, hstop⟩ | ⟨hgate, hphase⟩
    · rw [List.filter_cons_of_neg (by simp [Event.isMilestone, hgate])]
      rwa [hphase, if_neg hstop, List.nil_append] at ih
    · have hmem : (b, next) ∈ gates := List.mem_of_getElem? hgate
      have hstop : next ∈ gates.map Prod.snd := List.mem_map_of_mem hmem
      rw [List.filter_cons_of_pos (by simp [Event.isMilestone, hmem]), drop_gates hgate]
      rw [hphase, if_pos hstop] at ih
      exact (List.prefix_cons_inj _).mpr ih

omit h in
theorem timely_self {past : List Event} {ev : Event} (hat : At m f b ev)
    (hpast : past.filterMap (Event.passed? f gates) = []) : Timely m f gates phase b past ev := by
  refine ⟨b, hat, le_rfl, ?_⟩
  rw [hpast, List.drop_eq_nil_of_le (List.length_take_le _ _)]

theorem throughout_body (hbody : ∀ ev ∈ body, Inside m f b ev) :
    Throughout (Timely m f gates phase b) (.enter f source b :: body) := by
  refine throughout_cons.mpr ⟨timely_self (.inl ⟨rfl, rfl⟩) rfl, fun past ev later he => ?_⟩
  subst he
  refine timely_self ?_ ?_
  · cases hbody ev (List.mem_append_right _ List.mem_cons_self) with
    | own hid => exact .inl ⟨rfl, rfl⟩
    | called hcalls hreaches _ => exact .inr ⟨_, hcalls, hreaches⟩
  · rw [List.filterMap_cons_none rfl]
    exact h.passed_inside fun ev hev => hbody ev (List.mem_append_left _ hev)

/-- What is on time after a block was left was on time before it was entered. -/
theorem timely_of_leave {next : BlockId} (hbody : ∀ ev ∈ body, Inside m f b ev)
    (hleads : (m.function f).LeadsTo b next) {past : List Event} {ev : Event}
    (ht : Timely m f gates phase next past ev) :
    Timely m f gates phase b (.enter f source b :: body ++ .leave f b (some next) :: past) ev := by
  obtain ⟨b', hat, hle, hpassed⟩ := ht
  have hpast : (Event.enter f source b :: body ++ .leave f b (some next) :: past).filterMap
      (Event.passed? f gates) = (if (b, next) ∈ gates then [(b, next)] else []) ++
        past.filterMap (Event.passed? f gates) := by
    rw [List.cons_append, List.filterMap_cons_none rfl, List.filterMap_append,
      h.passed_inside hbody]
    by_cases hg : (b, next) ∈ gates <;> simp [Event.passed?, hg]
  refine ⟨b', hat, ?_⟩
  rw [hpast, hpassed]
  rcases h.step b next hleads with ⟨hphase, hgate, -⟩ | ⟨hgate, hphase⟩
  · rw [if_neg hgate, List.nil_append, ← hphase]
    exact ⟨hle, rfl⟩
  · have hlt : phase b < phase b' := by omega
    refine ⟨hlt.le, ?_⟩
    have hgate' : (gates.take (phase b'))[phase b]? = some (b, next) := by
      rw [List.getElem?_take_of_lt hlt, hgate]
    rw [if_pos (List.mem_of_getElem? hgate), hphase, drop_gates hgate']
    rfl

/-- Each event is in a phase, or in a function called in it, and exactly the gates before that
phase were passed. -/
theorem throughout (hr : Route m f source b events) :
    Throughout (Timely m f gates phase b) events := by
  induction hr with
  | none => exact fun past ev later he => absurd he (by simp)
  | stop hbody => exact h.throughout_body hbody
  | ret hbody =>
    rw [← List.cons_append]
    refine throughout_append.mpr ⟨h.throughout_body hbody, throughout_cons.mpr
      ⟨timely_self (.inl ⟨rfl, rfl⟩) ?_, fun past ev later he => absurd he (by simp)⟩⟩
    rw [List.append_nil, List.filterMap_cons_none rfl]
    exact h.passed_inside hbody
  | goto hbody hleads _ ih =>
    rw [← List.cons_append]
    refine throughout_append.mpr ⟨h.throughout_body hbody, throughout_cons.mpr
      ⟨timely_self (.inl ⟨rfl, rfl⟩) ?_, ?_⟩⟩
    · rw [List.append_nil, List.filterMap_cons_none rfl]
      exact h.passed_inside hbody
    · refine ih.mono fun past ev ht => ?_
      exact h.timely_of_leave hbody hleads ht

end

end Phased

end Exec

end Lowering
