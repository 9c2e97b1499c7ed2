import Lowering.IR.Verify
import Lowering.Proofs.Budget
import Lowering.Proofs.Shape
import Lowering.Proofs.Trace

/-!
# Verified control flow

What a module without findings does when it runs: control only goes along edges that the verifier
has seen, so that every block is there and ends, and every phi has one operand for the edge.

* `IR.Module.Checked`: what the verifier says about the control flow of a function;
* `Exec.Event.Safe`: what that says about each event of a run, with `Exec.events_safe`;
* `Exec.Fault.Permitted`: the faults that are left, with `Exec.Run.blames_callWithin`;
* `Exec.verified_run_safe`: whole programs.
-/

namespace Lowering

open IR (Ty Value InstId BlockId FuncId InstKind Module entryName)

namespace IR

/-! ### Functions without findings -/

/-- What the verifier says about the control flow of a function. -/
structure Module.Checked (m : Module) (f : FuncId) : Prop where
  ended : ∀ b, (m.function f).HasBlock b → ∃ t, ((m.function f).block b).term = some t
  targets : ∀ b b', (m.function f).LeadsTo b b' → (m.function f).HasBlock b'
  phiEdges : ∀ b, ∀ id ∈ ((m.function f).block b).insts, ∀ incoming,
    ((m.function f).inst id).kind = .phi incoming →
      (incoming.map Prod.snd).Nodup ∧ ∀ p, p ∈ incoming.map Prod.snd ↔ (m.function f).LeadsTo p b
  calls : ∀ b, ∀ id ∈ ((m.function f).block b).insts, ∀ callee args,
    ((m.function f).inst id).kind = .call callee args →
      callee.index < m.functions.size ∧ (m.function callee).params.length ≤ args.length
  results : ∀ b v, ((m.function f).block b).term = some (.ret (some v)) →
    m.typeOf f v = (m.function f).ret

namespace Module

variable {m : Module} {f : FuncId} {b : BlockId}

theorem function_of_le (h : m.functions.size ≤ f.index) : m.function f = default := by
  rw [function, Array.getElem?_eq_none h]
  rfl

theorem lt_of_hasBlock (h : (m.function f).HasBlock b) : f.index < m.functions.size := by
  by_contra hf
  rw [function_of_le (by omega)] at h
  exact absurd h (Nat.not_lt_zero _)

/-- A block that is there has no defects in a module without findings. -/
theorem blockDefects_of_findings (h : m.findings = []) (hb : (m.function f).HasBlock b) :
    m.blockDefects f b = [] := by
  have hfs := (List.append_eq_nil_iff.mp h).1
  have hf := List.flatMap_eq_nil_iff.mp hfs f.index (List.mem_range.mpr (lt_of_hasBlock hb))
  have hbs := List.flatMap_eq_nil_iff.mp hf b
    (List.mem_map.mpr ⟨b.index, List.mem_range.mpr hb, rfl⟩)
  exact List.map_eq_nil_iff.mp hbs

theorem phiEdges_of_phiDefects {id : InstId} {t : Ty} {late : Bool}
    {incoming : List (Value × BlockId)} (h : m.phiDefects f b id t late incoming = []) :
    (incoming.map Prod.snd).Nodup ∧
      ∀ p, p ∈ incoming.map Prod.snd ↔ (m.function f).LeadsTo p b := by
  rw [phiDefects] at h
  obtain ⟨h, -⟩ := List.append_eq_nil_iff.mp h
  obtain ⟨-, h⟩ := List.append_eq_nil_iff.mp h
  split at h
  · rename_i hexact
    obtain ⟨hn, hsub, hsup⟩ := hexact
    exact ⟨hn, fun p => ⟨fun hp => Function.mem_predecessors.mp (hsub p hp),
      fun hp => hsup p (Function.mem_predecessors.mpr hp)⟩⟩
  · cases h

theorem le_of_callDefects {callee : FuncId} {args : List Value}
    (h : m.callDefects f callee args = []) :
    callee.index < m.functions.size ∧ (m.function callee).params.length ≤ args.length := by
  rw [callDefects] at h
  split at h
  · cases h
  · rename_i hlt
    refine ⟨by omega, ?_⟩
    by_contra hargs
    rw [if_neg (by split <;> omega)] at h
    cases h

/-- A list without defects has none behind its first instruction. -/
theorem instDefects_tail {id : InstId} {late : Bool} {ids : List InstId}
    (h : m.instDefects f b late (id :: ids) = []) : ∃ late, m.instDefects f b late ids = [] := by
  rw [instDefects] at h
  obtain ⟨-, h⟩ := List.append_eq_nil_iff.mp h
  split at h
  · exact ⟨late, (List.append_eq_nil_iff.mp h).2⟩
  · exact ⟨true, (List.append_eq_nil_iff.mp h).2⟩

/-- A phi of a list without defects has none of its own. -/
theorem phiDefects_of_instDefects {id : InstId} {late : Bool} {ids : List InstId}
    {incoming : List (Value × BlockId)} (hid : id ∈ ids) (h : m.instDefects f b late ids = [])
    (hk : ((m.function f).inst id).kind = .phi incoming) :
    ∃ late, m.phiDefects f b id ((m.function f).inst id).type late incoming = [] := by
  induction ids generalizing late with
  | nil => cases hid
  | cons id' ids ih =>
    rcases List.mem_cons.mp hid with rfl | hid
    · rw [instDefects] at h
      obtain ⟨-, h⟩ := List.append_eq_nil_iff.mp h
      simp only [hk] at h
      exact ⟨late, (List.append_eq_nil_iff.mp h).1⟩
    · obtain ⟨late', h'⟩ := instDefects_tail h
      exact ih hid h'

/-- Any other instruction of a list without defects has none of its own. -/
theorem kindDefects_of_instDefects {id : InstId} {late : Bool} {ids : List InstId} (hid : id ∈ ids)
    (h : m.instDefects f b late ids = [])
    (hk : ∀ incoming, ((m.function f).inst id).kind ≠ .phi incoming) :
    m.kindDefects f ((m.function f).inst id).type ((m.function f).inst id).kind = [] := by
  induction ids generalizing late with
  | nil => cases hid
  | cons id' ids ih =>
    rcases List.mem_cons.mp hid with rfl | hid
    · rw [instDefects] at h
      obtain ⟨-, h⟩ := List.append_eq_nil_iff.mp h
      split at h
      · rename_i incoming hphi
        exact absurd hphi (hk incoming)
      · exact (List.append_eq_nil_iff.mp h).1
    · obtain ⟨late', h'⟩ := instDefects_tail h
      exact ih hid h'

/-- A function of a module without findings is checked. -/
theorem checked_of_findings (h : m.findings = []) (f : FuncId) : m.Checked f := by
  have hinst : ∀ b, ∀ id ∈ ((m.function f).block b).insts, m.instDefects f b false
      ((m.function f).block b).insts.toList = [] := by
    intro b id hid
    exact (List.append_eq_nil_iff.mp
      (blockDefects_of_findings h (Function.hasBlock_of_mem hid))).1
  have hterm : ∀ b, (m.function f).HasBlock b →
      ∃ t, ((m.function f).block b).term = some t ∧ m.termDefects f t = [] := by
    intro b hb
    have hend := (List.append_eq_nil_iff.mp (blockDefects_of_findings h hb)).2
    split at hend
    · rename_i t ht
      exact ⟨t, ht, hend⟩
    · cases hend
  constructor
  case ended =>
    intro b hb
    obtain ⟨t, ht, -⟩ := hterm b hb
    exact ⟨t, ht⟩
  case targets =>
    intro b b' hl
    obtain ⟨t, ht, hd⟩ := hterm b hl.hasBlock
    obtain ⟨t', ht', hmem⟩ := hl
    cases ht.symm.trans ht'
    have hb := List.filterMap_eq_nil_iff.mp (List.append_eq_nil_iff.mp hd).1 b' hmem
    by_contra hno
    rw [if_pos (by simpa [Function.HasBlock] using hno)] at hb
    cases hb
  case phiEdges =>
    intro b id hid incoming hk
    obtain ⟨late, hd⟩ :=
      phiDefects_of_instDefects (Array.mem_toList_iff.mpr hid) (hinst b id hid) hk
    exact phiEdges_of_phiDefects hd
  case calls =>
    intro b id hid callee args hk
    have hd := kindDefects_of_instDefects (Array.mem_toList_iff.mpr hid) (hinst b id hid)
      fun incoming hphi => by cases hk.symm.trans hphi
    rw [hk] at hd
    exact le_of_callDefects hd
  case results =>
    intro b v ht
    obtain ⟨t, ht', hd⟩ := hterm b (Function.hasBlock_of_term ht)
    cases ht.symm.trans ht'
    have hd := (List.append_eq_nil_iff.mp hd).2
    dsimp only at hd
    split at hd
    · assumption
    · cases hd

end Module

/-! ### The operand of an edge -/

namespace InstKind

/-- The operand that a phi has for a block, if it has just one. -/
def operandFrom? (p : BlockId) : InstKind → Option Value
  | .phi incoming =>
    match incoming.filter (·.2 == p) with
    | [(v, _)] => some v
    | _ => none
  | _ => none

theorem filter_eq_singleton {incoming : List (Value × BlockId)} {p : BlockId}
    (hn : (incoming.map Prod.snd).Nodup) (hp : p ∈ incoming.map Prod.snd) :
    ∃ v, incoming.filter (·.2 == p) = [(v, p)] ∧ incoming.find? (·.2 == p) = some (v, p) := by
  induction incoming with
  | nil => cases hp
  | cons entry incoming ih =>
    obtain ⟨v, b⟩ := entry
    rw [List.map_cons, List.nodup_cons] at hn
    rw [List.map_cons, List.mem_cons] at hp
    by_cases hb : b = p
    · subst hb
      refine ⟨v, ?_, by simp⟩
      have hrest : incoming.filter (·.2 == b) = [] := by
        refine List.filter_eq_nil_iff.mpr fun e he heq => hn.1 ?_
        exact List.mem_map.mpr ⟨e, he, eq_of_beq heq⟩
      simp [hrest]
    · obtain ⟨w, hfilter, hfind⟩ := ih hn.2 (hp.resolve_left fun h => hb h.symm)
      exact ⟨w, by simpa [hb] using hfilter, by simpa [hb] using hfind⟩

theorem exists_operandFrom? {incoming : List (Value × BlockId)} {p : BlockId}
    (hn : (incoming.map Prod.snd).Nodup) (hp : p ∈ incoming.map Prod.snd) :
    ∃ v, (InstKind.phi incoming).operandFrom? p = some v ∧
      incoming.find? (·.2 == p) = some (v, p) := by
  obtain ⟨v, hfilter, hfind⟩ := filter_eq_singleton hn hp
  exact ⟨v, by simp only [operandFrom?, hfilter], hfind⟩

end InstKind

/-- The phis of a list of instructions, each with the operand that it has for a block. -/
def Function.edges (fn : Function) (p : BlockId) (ids : List InstId) : List (InstId × Value) :=
  ids.filterMap fun id => ((fn.inst id).kind.operandFrom? p).map fun v => (id, v)

end IR

namespace Exec

/-- Each phi of a list is read where it has its one operand for the edge. -/
theorem Run.phiValues_eq {fn : IR.Function} {p : BlockId} {ids : List InstId}
    (h : ∀ id ∈ ids, ∀ incoming, (fn.inst id).kind = .phi incoming →
      (incoming.map Prod.snd).Nodup ∧ p ∈ incoming.map Prod.snd) (fr : Frame) :
    phiValues fn fr (some p) ids =
      (fn.edges p ids).mapM fun (id, v) => return (id, ← operand fr v) := by
  induction ids with
  | nil => rfl
  | cons id ids ih =>
    have ih := ih fun id hid => h id (List.mem_cons_of_mem _ hid)
    rw [phiValues, IR.Function.edges, List.filterMap_cons, ← IR.Function.edges]
    split
    · rename_i incoming hk
      obtain ⟨hn, hp⟩ := h id List.mem_cons_self incoming hk
      obtain ⟨v, hv, hfind⟩ := IR.InstKind.exists_operandFrom? hn hp
      simp only [hfind, hk, hv, Option.map_some, List.mapM_cons, ih, bind_assoc, pure_bind]
    · rename_i hk
      have hnone : (fn.inst id).kind.operandFrom? p = none := by
        cases hkind : (fn.inst id).kind with
        | phi incoming => exact absurd hkind (hk incoming)
        | _ => rfl
      rw [ih, hnone, Option.map_none]

/-! ### Events -/

/-- What an event of a run may be: a block that is entered is there and ends, each of its phis has
one operand for the block that control comes from, and that is the one it takes; a call has
arguments for all parameters; a block is left for one that is there, or with a result of the type
that the function declares. -/
def Event.Safe (m : Module) : Event → Prop
  | .enter f source b =>
    (m.function f).HasBlock b ∧ (∃ t, ((m.function f).block b).term = some t) ∧
      ∀ p ∈ source, (m.function f).LeadsTo p b ∧
        (∀ id ∈ ((m.function f).block b).insts, ((m.function f).inst id).kind.isPhi →
          ∃ v, ((m.function f).inst id).kind.operandFrom? p = some v) ∧
        ∀ fr, Run.phiValues (m.function f) fr (some p) ((m.function f).block b).insts.toList =
          ((m.function f).edges p ((m.function f).block b).insts.toList).mapM
            fun (id, v) => return (id, ← Run.operand fr v)
  | .perform f b id =>
    id ∈ ((m.function f).block b).insts ∧ ∀ callee args,
      ((m.function f).inst id).kind = .call callee args →
        callee.index < m.functions.size ∧ (m.function callee).params.length ≤ args.length
  | .leave f b (some next) => (m.function f).LeadsTo b next ∧ (m.function f).HasBlock next
  | .leave f b none =>
    ∃ result, ((m.function f).block b).term = some (.ret result) ∧
      ∀ v ∈ result, m.typeOf f v = (m.function f).ret

namespace Run

variable {m : Module} {call : FuncId → List RtValue → Run RtValue}
  {calling : FuncId → List RtValue → State → List Event} {f : FuncId} {b : BlockId}

/-- A block returns only at a return. -/
theorem term_of_terminator {fn : IR.Function} {bl : IR.BasicBlock} {fr : Frame} {v : RtValue}
    {σ σ' : State} (h : Returns (terminator fn bl fr) σ (.ret v) σ') :
    ∃ result, bl.term = some (.ret result) := by
  obtain ⟨⟨⟩, σ₁, -, h⟩ := h.of_bind
  cases ht : bl.term with
  | none =>
    rw [ht] at h
    cases h
  | some t =>
    rw [ht] at h
    cases t with
    | br target => cases h
    | condBr cond ifTrue ifFalse =>
      obtain ⟨v, σ₂, -, h⟩ := h.of_bind
      cases h
    | ret result => exact ⟨result, rfl⟩
    | unreachable => cases h

/-- All events of the functions that are called are safe. -/
def CallsSafe (m : Module) (calling : FuncId → List RtValue → State → List Event) : Prop :=
  ∀ callee args σ, ∀ ev ∈ calling callee args σ, ev.Safe m

theorem safe_instructionEvents (hc : CallsSafe m calling) (fr : Frame) (kind : InstKind)
    (σ : State) : ∀ ev ∈ instructionEvents calling fr kind σ, ev.Safe m := by
  intro ev hev
  cases kind with
  | call callee args =>
    rw [instructionEvents] at hev
    rcases after_cases (args.mapM (operand fr)) (calling callee) σ with h | ⟨values, σ', -, h⟩ <;>
      rw [h] at hev
    · exact absurd hev List.not_mem_nil
    · exact hc callee values σ' ev hev
  | _ => exact absurd hev List.not_mem_nil

variable (call) in
theorem safe_instructionsEvents (hm : ∀ f, m.Checked f) (hc : CallsSafe m calling)
    {ids : List InstId}
    (hids : ∀ id ∈ ids, id ∈ ((m.function f).block b).insts) (fr : Frame) (σ : State) :
    ∀ ev ∈ instructionsEvents m call calling f b (m.function f) fr ids σ, ev.Safe m := by
  induction ids generalizing fr σ with
  | nil => exact fun ev hev => absurd hev List.not_mem_nil
  | cons id ids ih =>
    intro ev hev
    have ih := ih fun id h => hids id (List.mem_cons_of_mem _ h)
    have hid := hids id List.mem_cons_self
    rw [instructionsEvents] at hev
    split at hev
    · exact ih fr σ ev hev
    · rcases after_cases tick _ σ with h | ⟨_, σ', -, h⟩ <;> rw [h] at hev
      · exact absurd hev List.not_mem_nil
      rcases List.mem_cons.mp hev with rfl | hev
      · exact ⟨hid, (hm f).calls b id hid⟩
      rcases List.mem_append.mp hev with hev | hev
      · exact safe_instructionEvents hc fr _ σ' ev hev
      · rcases after_cases (instruction m call f fr _ _) _ σ' with h | ⟨v, σ'', -, h⟩ <;>
          rw [h] at hev
        · exact absurd hev List.not_mem_nil
        · exact ih _ _ ev hev

/-- What a block does is safe when what follows it is. -/
theorem safe_bodyEvents (hm : ∀ f, m.Checked f) (hc : CallsSafe m calling)
    {rest : Frame → Exit → State → List Event}
    (hrest : ∀ fr exit σ, (∀ next, exit = .goto next → (m.function f).LeadsTo b next) →
      ∀ ev ∈ rest fr exit σ, ev.Safe m) (fr : Frame) (σ : State) :
    ∀ ev ∈ bodyEvents m call calling f b rest fr σ, ev.Safe m := by
  intro ev hev
  rcases List.mem_append.mp hev with hev | hev
  · exact safe_instructionsEvents call hm hc (fun id h => Array.mem_toList_iff.mp h) fr σ ev hev
  rcases after_cases (instructions m call f (m.function f) fr
    ((m.function f).block b).insts.toList) _ σ with h | ⟨fr', σ₁, -, h⟩ <;> rw [h] at hev
  · exact absurd hev List.not_mem_nil
  rcases after_cases (terminator (m.function f) ((m.function f).block b) fr') _ σ₁
    with h | ⟨exit, σ₂, ht, h⟩ <;> rw [h] at hev
  · exact absurd hev List.not_mem_nil
  have hleads : ∀ next, exit = .goto next → (m.function f).LeadsTo b next := by
    rintro next rfl
    exact leadsTo_of_terminator ht
  rcases List.mem_cons.mp hev with rfl | hev
  · cases exit with
    | goto next => exact ⟨hleads next rfl, (hm f).targets b next (hleads next rfl)⟩
    | ret v =>
      obtain ⟨result, hterm⟩ := term_of_terminator ht
      refine ⟨result, hterm, ?_⟩
      rintro v rfl
      exact (hm f).results b v hterm
  · exact hrest fr' exit σ₂ hleads ev hev

theorem safe_enter (hm : ∀ f, m.Checked f) {source : Option BlockId}
    (hb : (m.function f).HasBlock b)
    (hsource : ∀ p ∈ source, (m.function f).LeadsTo p b) : (Event.enter f source b).Safe m := by
  refine ⟨hb, (hm f).ended b hb, fun p hp => ?_⟩
  have hphi : ∀ id ∈ ((m.function f).block b).insts, ∀ incoming,
      ((m.function f).inst id).kind = .phi incoming →
        (incoming.map Prod.snd).Nodup ∧ p ∈ incoming.map Prod.snd := fun id hid incoming hk =>
    have h := (hm f).phiEdges b id hid incoming hk
    ⟨h.1, (h.2 p).mpr (hsource p hp)⟩
  refine ⟨hsource p hp, fun id hid hisPhi => ?_,
    phiValues_eq fun id hid => hphi id (Array.mem_toList_iff.mp hid)⟩
  cases hk : ((m.function f).inst id).kind with
  | phi incoming =>
    obtain ⟨hn, hp⟩ := hphi id hid incoming hk
    obtain ⟨v, hv, -⟩ := IR.InstKind.exists_operandFrom? hn hp
    exact ⟨v, hv⟩
  | _ =>
    rw [hk] at hisPhi
    cases hisPhi

/-- By induction on the number of blocks: each is entered from one that leads to it. -/
theorem safe_blocksEvents (hm : ∀ f, m.Checked f) (hc : CallsSafe m calling) (n : Nat) (fr : Frame)
    (source : Option BlockId) (b : BlockId) (σ : State) (hb : (m.function f).HasBlock b)
    (hsource : ∀ p ∈ source, (m.function f).LeadsTo p b) :
    ∀ ev ∈ blocksEvents m call calling f n fr source b σ, ev.Safe m := by
  induction n generalizing fr source b σ with
  | zero => exact fun ev hev => absurd hev List.not_mem_nil
  | succ n ih =>
    intro ev hev
    rcases List.mem_cons.mp hev with rfl | hev
    · exact safe_enter hm hb hsource
    rw [blockEvents] at hev
    rcases after_cases (phiValues (m.function f) fr source
      ((m.function f).block b).insts.toList) _ σ with h | ⟨resolved, σ', -, h⟩ <;> rw [h] at hev
    · exact absurd hev List.not_mem_nil
    refine safe_bodyEvents hm hc (fun fr exit σ hleads => ?_) _ σ' ev hev
    cases exit with
    | ret v => exact fun ev hev => absurd hev List.not_mem_nil
    | goto next =>
      have hl := hleads next rfl
      refine ih fr (some b) next σ ((hm f).targets b next hl) ?_
      rintro p ⟨⟩
      exact hl

theorem hasBlock_of_not_isDeclaration {fn : IR.Function} (h : ¬ fn.isDeclaration) :
    fn.HasBlock ⟨0⟩ := by
  simpa [IR.Function.isDeclaration, IR.Function.HasBlock, Array.isEmpty_iff,
    Nat.pos_iff_ne_zero] using h

theorem safe_callEvents (hm : ∀ f, m.Checked f) (n : Nat) : CallsSafe m (callEvents m n) := by
  induction n with
  | zero => exact fun f args σ ev hev => absurd hev List.not_mem_nil
  | succ n ih =>
    intro f args σ ev hev
    rw [callEvents] at hev
    dsimp only at hev
    split at hev
    · exact absurd hev List.not_mem_nil
    · rename_i hdecl
      exact safe_blocksEvents hm ih _ _ none ⟨0⟩ _ (hasBlock_of_not_isDeclaration hdecl)
        (by simp) ev hev

end Run

/-- Every event of a run is safe. -/
theorem events_safe {m : Module} (hm : ∀ f, m.Checked f) (args : List String) (stepLimit : Nat) :
    ∀ ev ∈ events m args stepLimit, ev.Safe m := by
  intro ev hev
  rw [events, Run.entryEvents] at hev
  split at hev
  · exact absurd hev List.not_mem_nil
  rename_i f _
  rcases Run.after_cases (Run.allocate (8 * args.length)) _ { State.initial m with stepLimit }
    with h | ⟨vector, σ₁, -, h⟩ <;> rw [h] at hev
  · exact absurd hev List.not_mem_nil
  rcases Run.after_cases (Run.writeArgs vector args) _ σ₁ with h | ⟨_, σ₂, -, h⟩ <;> rw [h] at hev
  · exact absurd hev List.not_mem_nil
  · exact Run.safe_callEvents hm _ f _ σ₂ ev hev

/-! ### Faults -/

namespace Fault

/-- The fault of a phi without an operand for the block that control comes from. -/
def missingEdge (id : InstId) (block : String) : Fault :=
  .badOperand ("phi %" ++ toString id.index ++ " has no edge from %" ++ block)

/-- A fault that does not come of where control goes. -/
def Plain : Fault → Prop
  | .unreachable _ _ => False
  | .badOperand reason => ∀ rest, reason.toList ≠ 'p' :: 'h' :: 'i' :: ' ' :: '%' :: rest
  | _ => True

/-- A fault of a run whose control flow is sound, with its events: no phi is without an operand, and
a block that cannot be left is one that was entered and says so itself. -/
structure Permitted (m : Module) (events : List Event) (e : Fault) : Prop where
  edge : ∀ id block, e ≠ missingEdge id block
  block : ∀ function block, e = .unreachable function block →
    ∃ f source b, .enter f source b ∈ events ∧
      ((m.function f).block b).term = some .unreachable ∧
      (m.function f).name = function ∧ ((m.function f).block b).name = block

theorem Plain.permitted {m : Module} {events : List Event} {e : Fault} (h : e.Plain) :
    e.Permitted m events where
  edge id block he := by
    subst he
    refine h (toString id.index ++ " has no edge from %" ++ block).toList ?_
    simp [String.toList_append]
  block function block he := by
    subst he
    exact absurd h id

theorem Permitted.mono {m : Module} {events events' : List Event} {e : Fault}
    (h : e.Permitted m events) (hsub : events ⊆ events') : e.Permitted m events' where
  edge := h.edge
  block function block he := by
    obtain ⟨f, source, b, hmem, h⟩ := h.block function block he
    exact ⟨f, source, b, hsub hmem, h⟩

end Fault

/-- The error of a result, if it is one, has a property. -/
def Errs {α : Type} (P : Fault → Prop) (r : Except Fault α) : Prop := ∀ e, r = .error e → P e

section

variable {α β : Type} {P : Fault → Prop}

theorem errs_ok (a : α) : Errs P (.ok a : Except Fault α) := nofun

theorem errs_error {e : Fault} (he : P e) : Errs P (.error e : Except Fault α) :=
  fun _ h => Except.error.inj h ▸ he

theorem Errs.bind {r : Except Fault α} {f : α → Except Fault β} (h : Errs P r)
    (hf : ∀ a, Errs P (f a)) : Errs P (r >>= f) := by
  cases r with
  | ok a => exact hf a
  | error e => exact errs_error (h e rfl)

theorem plain_locate (memory : Memory) (p n : Nat) : Errs Fault.Plain (memory.locate p n) := by
  unfold Memory.locate
  split
  · exact errs_error trivial
  · split
    · exact errs_error trivial
    · split
      · exact errs_error trivial
      · split
        · exact errs_error trivial
        · exact errs_ok _

theorem plain_read (memory : Memory) (p n : Nat) : Errs Fault.Plain (memory.read p n) :=
  (plain_locate memory p n).bind fun _ => errs_ok _

theorem plain_integerOp (op : IR.BinaryOp) (x y : Int) : Errs Fault.Plain (integerOp op x y) := by
  unfold integerOp
  split
  case h_4 | h_5 =>
    split
    · exact errs_error trivial
    · exact errs_ok _
  all_goals exact errs_ok _

theorem plain_binaryValue (op : IR.BinaryOp) (x y : RtValue) (t : Ty) :
    Errs Fault.Plain (binaryValue op x y t) := by
  unfold binaryValue
  split
  · exact errs_ok _
  · dsimp only
    split
    · rename_i x y _ _
      intro e he
      have hr := plain_integerOp op x y
      generalize integerOp op x y = r at hr he
      cases r with
      | ok n => cases he
      | error e' =>
        cases he
        exact hr e rfl
    · refine errs_error fun rest h => ?_
      cases op <;> simp [IR.BinaryOp.mnemonic] at h

end

namespace Run

variable {α β : Type} {P : Fault → Prop}

/-- The faults of a computation have a property. -/
def Fails (P : Fault → Prop) (x : Run α) : Prop := ∀ σ, Errs P (outcome x σ).1

theorem fails_pure (a : α) : Fails P (pure a : Run α) := fun _ => errs_ok a

theorem fails_throw {e : Fault} (he : P e) : Fails P (throw e : Run α) := fun _ => errs_error he

theorem fails_modifyGet (f : State → α × State) : Fails P (modifyGet f : Run α) :=
  fun σ => errs_ok (f σ).1

theorem Fails.mono {x : Run α} {Q : Fault → Prop} (h : Fails P x) (hpq : ∀ e, P e → Q e) :
    Fails Q x := fun σ e he => hpq e (h σ e he)

theorem Fails.bind {x : Run α} {f : α → Run β} (hx : Fails P x) (hf : ∀ a, Fails P (f a)) :
    Fails P (x >>= f) := fun σ => by
  have h := hx σ
  rw [outcome_bind]
  rcases ho : outcome x σ with ⟨e | a, t⟩
  · rw [ho] at h
    exact errs_error (h e rfl)
  · exact hf a t

theorem fails_get {f : State → Run α} (hf : ∀ s, Fails P (f s)) : Fails P (get >>= f) :=
  fun σ => hf σ σ

theorem fails_access {f : Memory → Except Fault α} (h : ∀ memory, Errs P (f memory)) :
    Fails P (access f) := by
  refine fails_get fun s => ?_
  have hf := h s.memory
  split
  · exact fails_pure _
  · rename_i e he
    exact fails_throw (hf e he)

theorem fails_change {check : Memory → Except Fault α} {update : Memory → α → Memory}
    (h : ∀ memory, Errs P (check memory)) : Fails P (change check update) :=
  (fails_access h).bind fun _ => fails_modifyGet _

theorem plain_write (p : Nat) (bs : List UInt8) : Fails Fault.Plain (write p bs) :=
  fails_change fun memory => plain_locate memory p bs.length

theorem fails_allocate (size : Nat) : Fails P (allocate size) := fails_modifyGet _

theorem plain_tick : Fails Fault.Plain tick := by
  refine (fails_modifyGet _).bind fun _ => fails_get fun s => ?_
  split
  · exact fails_throw trivial
  · exact fails_pure _

section

variable (fr : Frame)

theorem plain_operand (v : Value) : Fails Fault.Plain (operand fr v) := by
  unfold operand
  split
  · exact fails_get fun s => fails_pure _
  · split
    · exact fails_pure _
    · exact fails_throw fun rest h => by simp [String.toList_append] at h
  · split
    · exact fails_pure _
    · exact fails_throw fun rest h => by simp [String.toList_append] at h
  · exact fails_get fun s => fails_pure _

theorem plain_intOperand (v : Value) : Fails Fault.Plain (intOperand fr v) := by
  refine (plain_operand fr v).bind fun x => ?_
  split
  · exact fails_pure _
  · exact fails_pure _
  · exact fails_throw fun rest h => by simp [String.toList_append] at h

theorem plain_ptrOperand (v : Value) : Fails Fault.Plain (ptrOperand fr v) := by
  refine (plain_operand fr v).bind fun x => ?_
  split
  · exact fails_pure _
  · exact fails_throw fun rest h => by simp [String.toList_append] at h

theorem plain_operands (vs : List Value) : Fails Fault.Plain (vs.mapM (operand fr)) := by
  induction vs with
  | nil => exact fails_pure _
  | cons v vs ih =>
    rw [List.mapM_cons]
    exact (plain_operand fr v).bind fun _ => ih.bind fun _ => fails_pure _

theorem plain_stepIndices {overflow : Fault} (ho : overflow.Plain) (t : Ty) (offset : Int)
    (vs : List Value) : Fails Fault.Plain (stepIndices fr overflow t offset vs) := by
  induction vs generalizing t offset with
  | nil => exact fails_pure _
  | cons v vs ih =>
    refine (plain_intOperand fr v).bind fun i => ?_
    dsimp only
    split
    · exact ih _ _
    · exact fails_throw ho

omit fr in
theorem plain_moved (base : Nat) (offset : Int) :
    Fails Fault.Plain (if base = 0 then return .ptr 0 else
      match moved? base offset with
      | some p => return .ptr p
      | none => throw (.outOfBounds base 0) : Run RtValue) := by
  split
  · exact fails_pure _
  · split
    · exact fails_pure _
    · exact fails_throw trivial

theorem plain_address (base : Nat) (t : Ty) (vs : List Value) :
    Fails Fault.Plain (address fr base t vs) := by
  have hoverflow : (Fault.outOfBounds base 0).Plain := trivial
  cases vs with
  | nil => exact (fails_pure 0).bind (plain_moved base)
  | cons v vs =>
    refine (plain_intOperand fr v).bind fun i => ?_
    split
    · exact (plain_stepIndices fr hoverflow t _ vs).bind (plain_moved base)
    · exact (fails_throw hoverflow).bind (plain_moved base)

end

theorem plain_reallocate (old size : Nat) : Fails Fault.Plain (reallocate old size) := by
  refine (fails_allocate size).bind fun fresh => ?_
  split
  · refine (fails_access fun memory => plain_locate memory old 0).bind fun place => ?_
    refine fails_get fun s => ?_
    refine (fails_access fun memory => plain_read memory old _).bind fun bs => ?_
    refine (plain_write fresh bs).bind fun _ => ?_
    exact (fails_modifyGet _).bind fun _ => fails_pure _
  · exact fails_pure _

theorem plain_builtin (name : String) (args : List RtValue) :
    Fails Fault.Plain (builtin name args) := by
  unfold builtin
  split
  · exact (fails_allocate _).bind fun _ => fails_pure _
  · exact plain_reallocate _ _
  · exact (fails_change fun memory => plain_locate memory _ _).bind fun _ => fails_pure _
  · refine (fails_access fun memory => plain_read memory _ _).bind fun _ => ?_
    exact (plain_write _ _).bind fun _ => fails_pure _
  · refine (fails_access fun memory => ?_).bind fun line => ?_
    · exact (plain_locate memory _ 0).bind fun _ => errs_ok _
    · exact (fails_modifyGet _).bind fun _ => fails_pure _
  · exact fails_throw trivial

theorem plain_extract (v : RtValue) (source target : Ty) (index : Nat) :
    Fails Fault.Plain (extract v source target index) := by
  unfold extract
  split
  · exact fails_pure _
  · exact fails_throw fun rest h => by simp [String.toList_append] at h

section

variable {m : Module} {call : FuncId → List RtValue → Run RtValue} {f : FuncId}

/-- Every instruction but a call fails for its operands and accesses only. -/
theorem plain_instruction {kind : InstKind} (hkind : ∀ callee args, kind ≠ .call callee args)
    (fr : Frame) (t : Ty) : Fails Fault.Plain (instruction m call f fr kind t) := by
  cases kind with
  | call callee args => exact absurd rfl (hkind callee args)
  | alloca slot =>
    exact (fails_allocate _).bind fun p => (fails_modifyGet _).bind fun _ => fails_pure _
  | load ptr =>
    refine (plain_ptrOperand fr ptr).bind fun p => fails_access fun memory => ?_
    exact (plain_read memory p _).bind fun _ => errs_ok _
  | store value ptr =>
    refine (plain_ptrOperand fr ptr).bind fun p => (plain_operand fr value).bind fun v => ?_
    exact (plain_write p _).bind fun _ => fails_pure _
  | gep ptr indices =>
    exact (plain_ptrOperand fr ptr).bind fun base => plain_address fr base _ indices
  | cast op value => exact (plain_operand fr value).bind fun _ => fails_pure _
  | binary op lhs rhs =>
    refine (plain_operand fr lhs).bind fun a => (plain_operand fr rhs).bind fun b => ?_
    have hr := plain_binaryValue op a b t
    split
    · exact fails_pure _
    · rename_i e he
      exact fails_throw (hr e he)
  | not value => exact (plain_intOperand fr value).bind fun _ => fails_pure _
  | icmp pred lhs rhs =>
    exact (plain_intOperand fr lhs).bind fun _ =>
      (plain_intOperand fr rhs).bind fun _ => fails_pure _
  | fcmp pred lhs rhs =>
    exact (plain_operand fr lhs).bind fun _ => (plain_operand fr rhs).bind fun _ => fails_pure _
  | select cond ifTrue ifFalse =>
    refine (plain_operand fr cond).bind fun c => ?_
    split
    · exact plain_operand fr ifTrue
    · exact plain_operand fr ifFalse
  | phi incoming => exact fails_throw fun rest h => by simp at h
  | malloc elem => exact (fails_allocate _).bind fun _ => fails_pure _
  | arrayMalloc elem count =>
    refine (plain_intOperand fr count).bind fun n => ?_
    dsimp only
    split
    · exact (fails_allocate _).bind fun _ => fails_pure _
    · exact fails_throw trivial
  | extractValue aggregate index =>
    exact (plain_operand fr aggregate).bind fun v => plain_extract v _ t index

/-- The phis of a block fail for their operands only, when each has one. -/
theorem plain_phiValues {fn : IR.Function} {source : Option BlockId} {ids : List InstId}
    (h : ∀ p ∈ source, ∀ id ∈ ids, ∀ incoming, (fn.inst id).kind = .phi incoming →
      (incoming.map Prod.snd).Nodup ∧ p ∈ incoming.map Prod.snd) (fr : Frame) :
    Fails Fault.Plain (phiValues fn fr source ids) := by
  induction ids with
  | nil => exact fails_pure _
  | cons id ids ih =>
    have ih := ih fun p hp id hid => h p hp id (List.mem_cons_of_mem _ hid)
    rw [phiValues]
    split
    · rename_i incoming hk
      cases source with
      | none => exact fails_throw fun rest h => by simp at h
      | some p =>
        obtain ⟨hn, hp⟩ := h p rfl id List.mem_cons_self incoming hk
        obtain ⟨v, -, hfind⟩ := IR.InstKind.exists_operandFrom? hn hp
        simp only [hfind]
        exact (plain_operand fr v).bind fun _ => ih.bind fun _ => fails_pure _
    · exact ih

end

theorem plain_writeArgs (vector : Nat) (args : List String) :
    Fails Fault.Plain (writeArgs vector args) := by
  induction args generalizing vector with
  | nil => exact fails_pure _
  | cons a as ih =>
    refine (fails_allocate _).bind fun p => (plain_write p _).bind fun _ => ?_
    exact (plain_write vector _).bind fun _ => ih _

/-! ### Faults and events -/

/-- The faults of a computation are those that its events permit, and the events before it. -/
def Blames (m : Module) (past : List Event) (x : Run α) (tr : State → List Event) : Prop :=
  ∀ σ, Errs (Fault.Permitted m (past ++ tr σ)) (outcome x σ).1

section

variable {m : Module} {past : List Event} {x : Run α} {tr : State → List Event}

theorem Fails.blames (h : Fails Fault.Plain x) : Blames m past x tr :=
  fun σ e he => (h σ e he).permitted

theorem Fails.blamesPast (h : Fails (Fault.Permitted m past) x) : Blames m past x tr :=
  fun σ e he => (h σ e he).mono (List.subset_append_left _ _)

theorem Blames.mono {past' : List Event} {tr' : State → List Event} (h : Blames m past x tr)
    (hsub : ∀ σ, past ++ tr σ ⊆ past' ++ tr' σ) : Blames m past' x tr' :=
  fun σ e he => (h σ e he).mono (hsub σ)

omit tr in
theorem after_eq {σ σ' : State} {a : α} {next : α → State → List Event}
    (h : Returns x σ a σ') : after x next σ = next a σ' := by
  rw [after, show @Eq (Except Fault α × State) (x σ) (.ok a, σ') from h]

/-- The events of a computation are its own and those of what comes after it. -/
theorem Blames.bind {f : α → Run β} {next : α → State → List Event} (hx : Blames m past x tr)
    (hf : ∀ a σ σ', Returns x σ a σ' → Blames m past (f a) (next a)) :
    Blames m past (x >>= f) fun σ => tr σ ++ after x next σ := fun σ => by
  have h := hx σ
  rw [outcome_bind]
  rcases ho : outcome x σ with ⟨e | a, σ'⟩
  · rw [ho] at h
    exact errs_error ((h e rfl).mono (by simp))
  · have hafter : after x next σ = next a σ' := after_eq ho
    exact fun e he => (hf a σ σ' ho σ' e he).mono (by simp [hafter])

/-- A computation that fails for its operands and accesses only has no say in the events. -/
theorem Fails.bind_blames {f : α → Run β} {next : α → State → List Event}
    (hx : Fails Fault.Plain x) (hf : ∀ a σ σ', Returns x σ a σ' → Blames m past (f a) (next a)) :
    Blames m past (x >>= f) (after x next) :=
  (hx.blames : Blames m past x fun _ => []).bind hf

end

section

variable {m : Module} {call : FuncId → List RtValue → Run RtValue}
  {calling : FuncId → List RtValue → State → List Event} {f : FuncId} {past : List Event}

/-- The functions that are called fail as their events permit. -/
def CallsBlame (m : Module) (call : FuncId → List RtValue → Run RtValue)
    (calling : FuncId → List RtValue → State → List Event) : Prop :=
  ∀ g args, Blames m [] (call g args) (calling g args)

theorem blames_instruction (hcall : CallsBlame m call calling) (kind : InstKind) (fr : Frame)
    (t : Ty) :
    Blames m past (instruction m call f fr kind t) (instructionEvents calling fr kind) := by
  cases kind with
  | call callee args =>
    exact (plain_operands fr args).bind_blames fun values _ _ _ =>
      (hcall callee values).mono fun σ => by simp
  | _ => exact (plain_instruction (fun _ _ h => by cases h) fr t).blames

theorem blames_instructions (hcall : CallsBlame m call calling) (b : BlockId) (fn : IR.Function)
    (fr : Frame) (ids : List InstId) : Blames m past (instructions m call f fn fr ids)
      (instructionsEvents m call calling f b fn fr ids) := by
  induction ids generalizing fr with
  | nil => exact (fails_pure _).blames
  | cons id ids ih =>
    rw [instructions, instructionsEvents]
    split
    · exact ih fr
    · refine plain_tick.bind_blames fun _ _ _ _ => Blames.mono
        ((blames_instruction hcall _ fr _).bind fun v _ _ _ => ih _) fun σ => ?_
      exact List.append_subset.mpr ⟨List.subset_append_left _ _,
        List.subset_append_of_subset_right _ (List.subset_cons_self _ _)⟩

/-- A block that ends cannot be left only where its terminator says so. -/
theorem fails_terminator {source : Option BlockId} {b : BlockId} (hm : m.Checked f)
    (hb : (m.function f).HasBlock b) (hpast : .enter f source b ∈ past) (fr : Frame) :
    Fails (Fault.Permitted m past)
      (terminator (m.function f) ((m.function f).block b) fr) := by
  refine (plain_tick.mono fun _ => Fault.Plain.permitted).bind fun _ => ?_
  obtain ⟨t, ht⟩ := hm.ended b hb
  simp only [ht]
  cases t with
  | br target => exact fails_pure _
  | condBr cond ifTrue ifFalse =>
    exact ((plain_operand fr cond).mono fun _ => Fault.Plain.permitted).bind fun _ => fails_pure _
  | ret value =>
    cases value with
    | none => exact fails_pure _
    | some v =>
      exact ((plain_operand fr v).mono fun _ => Fault.Plain.permitted).bind fun _ => fails_pure _
  | unreachable =>
    refine fails_throw ⟨nofun, fun function block he => ?_⟩
    obtain ⟨rfl, rfl⟩ := Fault.unreachable.inj he
    exact ⟨f, source, b, hpast, ht, rfl, rfl⟩

/-- How an activation goes on after a block. -/
def proceed (m : Module) (call : FuncId → List RtValue → Run RtValue) (f : FuncId) (n : Nat)
    (b : BlockId) (fr : Frame) : Exit → Run RtValue
  | .ret v => return v
  | .goto next => blocks m call f n fr (some b) next

/-- The first block of an activation, part by part, and what comes after it. -/
theorem blocks_succ (n : Nat) (fr : Frame) (source : Option BlockId) (b : BlockId) :
    blocks m call f (n + 1) fr source b = (do
      let fn := m.function f
      let resolved ← phiValues fn fr source (fn.block b).insts.toList
      let fr := resolved.foldl (fun fr (id, v) => fr.set id v) fr
      let fr ← instructions m call f fn fr (fn.block b).insts.toList
      let exit ← terminator fn (fn.block b) fr
      proceed m call f n b fr exit) := by
  rw [blocks]
  simp only [block, bind_assoc, pure_bind]
  refine bind_congr fun resolved => bind_congr fun fr => bind_congr fun exit => ?_
  cases exit <;> rfl

/-- A block fails as its events permit when what comes after it does. -/
theorem blames_bodyEvents {source : Option BlockId} {b : BlockId}
    {k : Frame → Exit → Run RtValue} {rest : Frame → Exit → State → List Event}
    (hm : m.Checked f) (hcall : CallsBlame m call calling) (hb : (m.function f).HasBlock b)
    (hpast : .enter f source b ∈ past)
    (hrest : ∀ fr exit, (∀ next, exit = .goto next → (m.function f).LeadsTo b next) →
      Blames m past (k fr exit) (rest fr exit)) (fr : Frame) :
    Blames m past (do
        let fn := m.function f
        let fr ← instructions m call f fn fr (fn.block b).insts.toList
        let exit ← terminator fn (fn.block b) fr
        k fr exit) (bodyEvents m call calling f b rest fr) := by
  refine (blames_instructions hcall b _ fr _).bind fun fr' _ _ _ => ?_
  have hterm : Blames m past (terminator (m.function f) ((m.function f).block b) fr') fun _ => [] :=
    (fails_terminator hm hb hpast fr').blamesPast
  refine hterm.bind fun exit σ σ' ht => ?_
  refine (hrest fr' exit ?_).mono fun σ => ?_
  · rintro next rfl
    exact leadsTo_of_terminator ht
  · exact List.append_subset.mpr ⟨List.subset_append_left _ _,
      List.subset_append_of_subset_right _ (List.subset_cons_self _ _)⟩

/-- By induction on the number of blocks: each is entered from one that leads to it. -/
theorem blames_blocks (hm : m.Checked f) (hcall : CallsBlame m call calling) (n : Nat) (fr : Frame)
    (source : Option BlockId) (b : BlockId) (hb : (m.function f).HasBlock b)
    (hsource : ∀ p ∈ source, (m.function f).LeadsTo p b) :
    Blames m past (blocks m call f n fr source b)
      (blocksEvents m call calling f n fr source b) := by
  induction n generalizing fr source b past with
  | zero =>
    exact Fails.blames (fails_get fun s => fails_throw (e := .stepLimit s.stepLimit) trivial)
  | succ n ih =>
    have hphi : Fails Fault.Plain (phiValues (m.function f) fr source
        ((m.function f).block b).insts.toList) := by
      refine plain_phiValues (fun p hp id hid incoming hk => ?_) fr
      have h := hm.phiEdges b id (Array.mem_toList_iff.mp hid) incoming hk
      exact ⟨h.1, (h.2 p).mpr (hsource p hp)⟩
    have hblock : Blames m (past ++ [.enter f source b]) (blocks m call f (n + 1) fr source b)
        (blockEvents m call calling f b (fun fr exit =>
          match exit with
          | .ret _ => fun _ => []
          | .goto next => blocksEvents m call calling f n fr (some b) next) fr source) := by
      rw [blocks_succ]
      refine hphi.bind_blames fun resolved _ _ _ => ?_
      have hpast : .enter f source b ∈ past ++ [.enter f source b] := by simp
      refine blames_bodyEvents hm hcall hb hpast (fun fr exit hleads => ?_) _
      cases exit with
      | ret v => exact (fails_pure v).blames
      | goto next =>
        have hl := hleads next rfl
        refine ih fr (some b) next (hm.targets b next hl) ?_
        rintro p ⟨⟩
        exact hl
    refine hblock.mono fun σ => ?_
    rw [blocksEvents, List.append_assoc, List.singleton_append]
    exact List.Subset.refl _

end

/-- By induction on the number of nested calls. -/
theorem blames_callWithin {m : Module} (hm : ∀ f, m.Checked f) (n : Nat) :
    CallsBlame m (callWithin m n) (callEvents m n) := by
  induction n with
  | zero =>
    intro f args
    exact Fails.blames (fails_get fun s => fails_throw (e := .stepLimit s.stepLimit) trivial)
  | succ n ih =>
    intro f args
    by_cases hdecl : (m.function f).isDeclaration
    · have hx : callWithin m (n + 1) f args = builtin (m.function f).name args := if_pos hdecl
      rw [hx]
      exact (plain_builtin _ args).blames
    · have hx : callWithin m (n + 1) f args = withSlots (blocks m (callWithin m n) f (n + 1)
          ⟨args, Array.replicate (m.function f).insts.size none⟩ none ⟨0⟩) := if_neg hdecl
      have hblocks : Blames m [] (blocks m (callWithin m n) f (n + 1)
          ⟨args, Array.replicate (m.function f).insts.size none⟩ none ⟨0⟩) _ :=
        blames_blocks (hm f) ih (n + 1) _ none ⟨0⟩ (hasBlock_of_not_isDeclaration hdecl) nofun
      intro σ
      have hev : callEvents m (n + 1) f args σ = blocksEvents m (callWithin m n) (callEvents m n) f
          (n + 1) ⟨args, Array.replicate (m.function f).insts.size none⟩ none ⟨0⟩
          { σ with slots := [] } := if_neg hdecl
      rw [hx, hev, outcome_withSlots]
      exact hblocks { σ with slots := [] }

theorem blames_entry {m : Module} (hm : ∀ f, m.Checked f) (args : List String) :
    Blames m [] (entry m args) (entryEvents m args) := by
  cases hf : m.findFunction entryName with
  | none =>
    rw [entry, hf]
    exact (fails_throw (P := Fault.Plain) (e := .missingEntry entryName) trivial).blames
  | some f =>
    have hev : entryEvents m args = after (allocate (8 * args.length)) fun vector =>
        after (writeArgs vector args) fun _ σ =>
          callEvents m (σ.stepLimit - σ.steps + 1) f [.int 32 args.length, .ptr vector] σ := by
      funext σ
      rw [entryEvents, hf]
    rw [entry, hf, hev]
    refine Fails.bind_blames (fails_allocate _) fun vector _ _ _ => ?_
    refine (plain_writeArgs vector args).bind_blames fun _ _ _ _ σ => ?_
    rw [outcome_call]
    exact blames_callWithin hm _ f _ σ

end Run

/-- In a module without findings control only goes where the verifier has been: every event of a
run is safe, and no run fails because a phi has no operand for an edge or because a block has no
terminator. -/
theorem verified_run_safe {m : Module} (h : m.findings = []) (args : List String)
    (stepLimit : Nat) : (∀ ev ∈ events m args stepLimit, ev.Safe m) ∧
      ∀ e, (runMain m args stepLimit).1 = .error e → e.Permitted m (events m args stepLimit) := by
  have hm := IR.Module.checked_of_findings h
  exact ⟨events_safe hm args stepLimit,
    fun e he => Run.blames_entry hm args { State.initial m with stepLimit } e he⟩

/-- A module that counts to three in a loop of one block and doubles the result in a function of
its own; the branch after the loop has the same block on both sides. -/
def counting : Module where
  name := "counting"
  functions := #[
    { name := entryName, params := [⟨"argc", .i32⟩, ⟨"argv", .ptr (.ptr .i8)⟩], ret := .i32
      linkage := .external
      blocks := #[
        ⟨"entry", #[], some (.br ⟨1⟩)⟩,
        ⟨"loop", #[⟨0⟩, ⟨1⟩, ⟨2⟩], some (.condBr (.inst ⟨2⟩) ⟨1⟩ ⟨2⟩)⟩,
        ⟨"done", #[⟨3⟩], some (.condBr (.inst ⟨2⟩) ⟨3⟩ ⟨3⟩)⟩,
        ⟨"exit", #[⟨4⟩], some (.ret (some (.inst ⟨4⟩)))⟩]
      insts := #[
        { kind := .phi [(.const (.int 32 0), ⟨0⟩), (.inst ⟨1⟩, ⟨1⟩)], type := .i32 },
        { kind := .binary .add (.inst ⟨0⟩) (.const (.int 32 1)), type := .i32 },
        { kind := .icmp .slt (.inst ⟨1⟩) (.const (.int 32 3)), type := .i1 },
        { kind := .call ⟨1⟩ [.inst ⟨1⟩], type := .i32 },
        { kind := .phi [(.inst ⟨3⟩, ⟨2⟩)], type := .i32 }] },
    { name := "double", params := [⟨"n", .i32⟩], ret := .i32, linkage := .internal
      blocks := #[⟨"entry", #[⟨0⟩], some (.ret (some (.inst ⟨0⟩)))⟩]
      insts := #[{ kind := .binary .add (.param 0) (.param 0), type := .i32 }] }]

theorem counting_run_safe : counting.findings = [] ∧
    (runMain counting [] 100).1.toOption = some (.int 32 6) ∧
    (events counting [] 100).length = 22 ∧ (∀ ev ∈ events counting [] 100, ev.Safe counting) ∧
      ∀ e, (runMain counting [] 100).1 = .error e → e.Permitted counting (events counting [] 100) :=
  have h : counting.findings = [] := by decide +kernel
  ⟨h, by decide +kernel, by decide +kernel, verified_run_safe h [] 100⟩

end Exec

end Lowering
