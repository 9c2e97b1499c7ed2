import Lowering.Program.Draft
import Lowering.Proofs.Entry

/-!
# Finished modules

Whatever the types in a program are, the module of a generation that comes to its end has the shape
that code should have, and verification can only object to types, operands without a value and
numbers of arguments.

* `IR.Module.Defines`, `IR.Module.Shaped`: the shape of a function of a module;
* `IR.Finding.OfTypes`, `IR.Module.ofTypes_findings`: what is left to object to;
* `Gen.generated_shaped`.
-/

namespace Lowering

open IR (Ty Value FuncId BlockId GlobalId InstId InstKind Module Terminator)

namespace IR

/-! ### Shape -/

/-- An operand names what there is: an instruction in a block of the function, one of its
parameters, or a global. -/
def Module.Defines (m : Module) (f : FuncId) : Value → Prop
  | .inst id => ∃ b, id ∈ ((m.function f).block b).insts
  | .param i => i < (m.function f).params.length
  | .global g | .const (.globalAddr g _) => g.index < m.globals.size
  | .const _ => True

/-- The shape of a function, whatever the types in it. -/
structure Module.Shaped (m : Module) (f : FuncId) : Prop where
  ended : ∀ b, (m.function f).HasBlock b → ∃ t, ((m.function f).block b).term = some t
  targets : ∀ b b', (m.function f).LeadsTo b b' → (m.function f).HasBlock b' ∧ b' ≠ ⟨0⟩
  phisLead : ∀ b, ((m.function f).block b).insts.toList.Pairwise fun i j =>
    ((m.function f).inst j).kind.isPhi → ((m.function f).inst i).kind.isPhi
  phiEdges : ∀ b, ∀ id ∈ ((m.function f).block b).insts, ∀ incoming,
    ((m.function f).inst id).kind = .phi incoming →
      (incoming.map Prod.snd).Nodup ∧ ∀ p, p ∈ incoming.map Prod.snd ↔ (m.function f).LeadsTo p b
  operands : ∀ b, ∀ id ∈ ((m.function f).block b).insts,
    ∀ v ∈ ((m.function f).inst id).kind.operands, m.Defines f v
  results : ∀ b t, ((m.function f).block b).term = some t → ∀ v ∈ t.operands, m.Defines f v
  callees : ∀ b, ∀ id ∈ ((m.function f).block b).insts, ∀ callee args,
    ((m.function f).inst id).kind = .call callee args → callee.index < m.functions.size
  slots : ∀ b, ∀ id ∈ ((m.function f).block b).insts, ∀ t,
    ((m.function f).inst id).kind = .alloca t → b = ⟨0⟩

/-! ### Findings -/

/-- A defect of types, of operands without a value or of the number of arguments. -/
def Defect.OfTypes : Defect → Prop
  | .undefinedOperand _ | .unknownParam _ | .unknownGlobal _ | .latePhi _ | .phiEdges _ _ _
  | .unknownCallee _ | .noTerminator | .unknownBlock _ => False
  | _ => True

/-- A finding of such a defect, or that an initializer does not have the type of its global. -/
def Finding.OfTypes : Finding → Prop
  | .inBlock _ _ d => d.OfTypes
  | .initializer _ _ _ => True

variable {m : Module} {f : FuncId} {b : BlockId}

/-- An instruction in a block is one of the function's, when each of those is in a block. -/
theorem Module.isPlaced_of_mem {fn : Function} {id : InstId} (h : id ∈ (fn.block b).insts) :
    Module.isPlaced fn id = true := by
  have hb : b.index < fn.blocks.size := Function.hasBlock_of_mem h
  simp only [Module.isPlaced, Array.any_eq_true]
  refine ⟨b.index, hb, ?_⟩
  have hget : fn.block b = fn.blocks[b.index] := by
    rw [Function.block, Array.getElem?_eq_getElem hb, Option.getD_some]
  rw [← hget]
  exact Array.contains_iff_mem.mpr h

theorem Module.ofTypes_operandDefects (hin : ∀ b, ∀ id ∈ ((m.function f).block b).insts,
    id.index < (m.function f).insts.size) {v : Value} (h : m.Defines f v) :
    ∀ d ∈ m.operandDefects f v, d.OfTypes := by
  intro d hd
  cases v with
  | inst id =>
    obtain ⟨b, hm⟩ := h
    have hlt := hin b id hm
    have hp := isPlaced_of_mem hm
    simp only [operandDefects, hp, Bool.not_true, Bool.false_eq_true, or_false,
      not_le.mpr hlt, if_false] at hd
    split at hd
    · rw [List.mem_singleton.mp hd]
      exact trivial
    · exact absurd hd List.not_mem_nil
  | param i =>
    rw [operandDefects, if_neg (not_le.mpr h)] at hd
    exact absurd hd List.not_mem_nil
  | global g =>
    rw [operandDefects, if_neg (not_le.mpr h)] at hd
    exact absurd hd List.not_mem_nil
  | const k =>
    cases k with
    | globalAddr g t =>
      rw [operandDefects, if_neg (not_le.mpr h)] at hd
      exact absurd hd List.not_mem_nil
    | _ => exact absurd hd List.not_mem_nil

theorem Module.ofTypes_phiDefects {id : InstId} {t : Ty} {incoming : List (Value × BlockId)}
    (hn : (incoming.map Prod.snd).Nodup)
    (he : ∀ p, p ∈ incoming.map Prod.snd ↔ (m.function f).LeadsTo p b) :
    ∀ d ∈ m.phiDefects f b id t false incoming, d.OfTypes := by
  intro d hd
  have hexact : (incoming.map Prod.snd).Nodup ∧
      (∀ p ∈ incoming.map Prod.snd, p ∈ (m.function f).predecessors b) ∧
      ∀ p ∈ (m.function f).predecessors b, p ∈ incoming.map Prod.snd :=
    ⟨hn, fun p hp => Function.mem_predecessors.mpr ((he p).mp hp),
      fun p hp => (he p).mpr (Function.mem_predecessors.mp hp)⟩
  simp only [phiDefects, Bool.false_eq_true, if_false, if_pos hexact, List.nil_append,
    List.mem_filterMap] at hd
  obtain ⟨p, -, hp⟩ := hd
  split at hp
  · cases hp
  · rw [← Option.some.inj hp]
    exact trivial

theorem Defect.OfTypes.unless {p : Prop} [Decidable p] {d₀ : Defect} (h : d₀.OfTypes) :
    ∀ d ∈ if p then [] else [d₀], d.OfTypes := by
  split <;> simp [h]

theorem Defect.OfTypes.when {p : Prop} [Decidable p] {d₀ : Defect} (h : d₀.OfTypes) :
    ∀ d ∈ if p then [d₀] else [], d.OfTypes := by
  split <;> simp [h]

theorem Module.ofTypes_argumentDefects (f callee : FuncId) (args : List Value) :
    ∀ d ∈ (args.zip (m.function callee).params).filterMap fun (a, p) =>
      if m.typeOf f a = p.type then none
      else some (Defect.argumentType p.name (m.function callee).name (m.typeOf f a) p.type),
      d.OfTypes := by
  intro d hd
  obtain ⟨⟨a, p⟩, -, hp⟩ := List.mem_filterMap.mp hd
  dsimp only at hp
  split at hp
  · cases hp
  · rw [← Option.some.inj hp]
    exact trivial

theorem Module.ofTypes_callDefects {callee : FuncId} {args : List Value}
    (hc : callee.index < m.functions.size) : ∀ d ∈ m.callDefects f callee args, d.OfTypes := by
  unfold callDefects
  rw [if_neg (not_le.mpr hc)]
  have hargs := m.ofTypes_argumentDefects f callee args
  dsimp only
  split <;> split
  · exact hargs
  · simp [Defect.OfTypes]
  · exact hargs
  · simp [Defect.OfTypes]

theorem Module.ofTypes_kindDefects {t : Ty} {kind : InstKind}
    (hc : ∀ callee args, kind = .call callee args → callee.index < m.functions.size) :
    ∀ d ∈ m.kindDefects f t kind, d.OfTypes := by
  cases kind with
  | call callee args => exact ofTypes_callDefects (hc callee args rfl)
  | load | binary | icmp | fcmp | select => exact Defect.OfTypes.unless trivial
  | gep | extractValue => exact Defect.OfTypes.when trivial
  | store value ptr =>
    rw [kindDefects]
    split
    · exact Defect.OfTypes.unless trivial
    · simp [Defect.OfTypes]
  | alloca | phi | cast | malloc | arrayMalloc | «not» => exact fun d hd => absurd hd List.not_mem_nil

/-- The instructions of a block, from one on that only phis precede or that no phi follows. -/
theorem Module.ofTypes_instDefects {late : Bool} {ids : List InstId}
    (hops : ∀ id ∈ ids, ∀ v ∈ ((m.function f).inst id).kind.operands,
      ∀ d ∈ m.operandDefects f v, d.OfTypes)
    (hphi : ∀ id ∈ ids, ∀ t incoming, ((m.function f).inst id).kind = .phi incoming →
      ∀ d ∈ m.phiDefects f b id t false incoming, d.OfTypes)
    (hkind : ∀ id ∈ ids, ∀ t, ∀ d ∈ m.kindDefects f t ((m.function f).inst id).kind, d.OfTypes)
    (hlead : ids.Pairwise fun i j =>
      ((m.function f).inst j).kind.isPhi → ((m.function f).inst i).kind.isPhi)
    (hlate : late = true → ∀ id ∈ ids, ((m.function f).inst id).kind.isPhi = false) :
    ∀ d ∈ m.instDefects f b late ids, d.OfTypes := by
  induction ids generalizing late with
  | nil => exact fun d hd => absurd hd List.not_mem_nil
  | cons id ids ih =>
    have hmem : ∀ {i}, i ∈ ids → i ∈ id :: ids := List.mem_cons_of_mem id
    have hself : id ∈ id :: ids := List.mem_cons_self
    obtain ⟨hfirst, hrest⟩ := List.pairwise_cons.mp hlead
    have ih {late : Bool} := @ih late (fun i hi => hops i (hmem hi))
      (fun i hi => hphi i (hmem hi)) (fun i hi => hkind i (hmem hi)) hrest
    intro d hd
    rw [instDefects] at hd
    rcases List.mem_append.mp hd with hd | hd
    · obtain ⟨v, hv, hd⟩ := List.mem_flatMap.mp hd
      exact hops id hself v hv d hd
    · split at hd
      · rename_i incoming hk
        cases late with
        | true => simp [hk, InstKind.isPhi] at hlate
        | false =>
          rcases List.mem_append.mp hd with hd | hd
          · exact hphi id hself _ incoming hk d hd
          · exact ih (fun h => absurd h (by simp)) d hd
      · rename_i hk
        rcases List.mem_append.mp hd with hd | hd
        · exact hkind id hself _ d hd
        · refine ih (fun _ i hi => ?_) d hd
          by_contra hp
          have hid := hfirst i hi (by simpa using hp)
          cases hk' : ((m.function f).inst id).kind with
          | phi incoming => exact hk incoming hk'
          | _ => simp [hk', InstKind.isPhi] at hid

theorem Module.ofTypes_termDefects {t : Terminator}
    (ht : ∀ b ∈ t.successors, (m.function f).HasBlock b) :
    ∀ d ∈ m.termDefects f t, d.OfTypes := by
  intro d hd
  rcases List.mem_append.mp hd with hd | hd
  · obtain ⟨b, hb, hd⟩ := List.mem_filterMap.mp hd
    rw [if_neg (not_le.mpr (ht b hb))] at hd
    cases hd
  · cases t with
    | condBr =>
      refine Defect.OfTypes.unless ?_ d hd
      exact trivial
    | ret value =>
      cases value <;> refine Defect.OfTypes.unless ?_ d hd <;> exact trivial
    | br | unreachable => exact absurd hd List.not_mem_nil

theorem Module.Shaped.ofTypes_blockDefects (hs : m.Shaped f) (hb : (m.function f).HasBlock b)
    (hin : ∀ b, ∀ id ∈ ((m.function f).block b).insts, id.index < (m.function f).insts.size) :
    ∀ d ∈ m.blockDefects f b, d.OfTypes := by
  intro d hd
  rcases List.mem_append.mp hd with hd | hd
  · refine ofTypes_instDefects (fun id hm v hv => ?_) (fun id hm t incoming hk => ?_)
      (fun id hm t => ?_) (hs.phisLead b) (fun h => absurd h (by simp)) d hd
    · exact ofTypes_operandDefects hin (hs.operands b id (Array.mem_toList_iff.mp hm) v hv)
    · obtain ⟨hn, he⟩ := hs.phiEdges b id (Array.mem_toList_iff.mp hm) incoming hk
      exact ofTypes_phiDefects hn he
    · exact ofTypes_kindDefects (hs.callees b id (Array.mem_toList_iff.mp hm))
  · obtain ⟨t, ht⟩ := hs.ended b hb
    rw [ht] at hd
    exact ofTypes_termDefects (fun b' hb' => (hs.targets b b' ⟨t, ht, hb'⟩).1) d hd

/-- Verification of a module whose functions are well shaped. -/
theorem Module.ofTypes_findings (hs : ∀ f, m.Shaped f)
    (hin : ∀ f b, ∀ id ∈ ((m.function f).block b).insts, id.index < (m.function f).insts.size) :
    ∀ d ∈ m.findings, d.OfTypes := by
  intro d hd
  rcases List.mem_append.mp hd with hd | hd
  · obtain ⟨i, -, hd⟩ := List.mem_flatMap.mp hd
    obtain ⟨b, hb, hd⟩ := List.mem_flatMap.mp hd
    obtain ⟨d', hd', rfl⟩ := List.mem_map.mp hd
    refine (hs ⟨i⟩).ofTypes_blockDefects ?_ (hin ⟨i⟩) d' hd'
    obtain ⟨j, hj, rfl⟩ := List.mem_map.mp hb
    exact List.mem_range.mp hj
  · obtain ⟨g, -, hd⟩ := List.mem_flatMap.mp hd
    unfold globalFindings at hd
    split at hd
    · split at hd
      · exact absurd hd List.not_mem_nil
      · rw [List.mem_singleton.mp hd]
        exact trivial
    · exact absurd hd List.not_mem_nil

end IR

/-! ### Generated modules -/

namespace Gen

variable {c : Context} {g : Ledger} {s : State}

theorem UsableIn.defines {e : Option Entity} {f : FuncId} {v : Value} (h : UsableIn c e s f v)
    (hp : ∀ id : InstId, id.index < (s.func f).insts.size → ∃ b, id ∈ ((s.func f).block b).insts) :
    s.builder.module.Defines f v := by
  cases v with
  | inst id => exact hp id h
  | param i => exact h
  | global g => exact h.1
  | const k =>
    cases k with
    | globalAddr g t => exact h.1
    | _ => exact trivial

theorem Settles.defines {e : Option Entity} {kind : IR.InstKind} {f : FuncId} {v : Value}
    (h : Settles e s kind v) : s.builder.module.Defines f v := by
  obtain ⟨w, g, -, rfl, hw⟩ := h
  exact hw.1

theorem Closed.shaped (h : Closed c g s) (f : FuncId) : s.builder.module.Shaped f where
  ended := h.ended f
  targets := (h.sound f).targets
  phisLead := (h.sound f).phisLead
  phiEdges := (h.sound f).phiEdges
  operands b id hm v hv := ((h.sound f).operands b id hm v hv).elim
    (fun hu => hu.defines (h.sound f).placed) Settles.defines
  results b t ht v hv := ((h.sound f).results b t ht v hv).defines (h.sound f).placed
  callees b id hm callee args hk := ((h.sound f).callees b id hm callee args hk).inside
  slots := (h.sound f).slots

/-- Every function of a module whose generation came to its end is well shaped, and verification
can only object to types, operands without a value and numbers of arguments. -/
theorem generated_shaped {p : Program} {o : Options} {s : State}
    (h : run? p o = some (.ok (), s)) :
    (∀ f, s.builder.module.Shaped f) ∧ ∀ d ∈ s.builder.module.findings, d.OfTypes := by
  obtain ⟨nil, g, s', he, hm, -⟩ := completed_run? h
  rw [hm]
  exact ⟨he.closed.shaped,
    IR.Module.ofTypes_findings he.closed.shaped fun f => (he.closed.sound f).within⟩

/-- Whether the generation of a program comes to its end. -/
def completes (p : Program) (o : Options) : Bool :=
  match run? p o with
  | some (.ok (), _) => true
  | _ => false

theorem exists_of_completes {p : Program} {o : Options} (h : completes p o = true) :
    ∃ s, run? p o = some (.ok (), s) := by
  unfold completes at h
  split at h
  · rename_i s hs
    exact ⟨s, hs⟩
  · cases h

/-- A program with a loop that is left, a call that two definitions answer, a call with a block,
and a constant that another one needs. -/
def survey : Program :=
  let build : Drafting Node := do
    let optional ← Draft.union [Draft.intType, Draft.nilType]
    let a ← Draft.var "a" Draft.intType
    let ofInt ← Draft.function "size" [⟨"a", Draft.intType, false⟩] (some Draft.intType) a
    let zero ← Draft.int 0
    let ofNil ← Draft.function "size" [⟨"a", Draft.nilType, false⟩] (some Draft.intType) zero
    let size (n : Node) (targets : List DefId) : Drafting Node :=
      Draft.node (.call ⟨none, "size", [n], targets, none, none⟩) (some Draft.intType)
    let base ← Draft.constant "BASE" (← size (← Draft.int 2) [ofInt])
    let top ← Draft.constant "TOP" (← size (← Draft.constRef base) [ofInt])
    let given ← Draft.node (.yield [← Draft.constRef top]) (some Draft.intType)
    let once ← Draft.function "once" [] (some Draft.intType) given
    let x ← Draft.var "x" optional
    let fill ← Draft.assign x (← Draft.int 5)
    let body ← Draft.node (.branch (← Draft.isA x Draft.intType)
      (some (← Draft.node (.break none) none)) (some fill)) none
    let block : Block Node := ⟨[⟨"y", Draft.intType⟩], some (← size x [ofInt, ofNil])⟩
    Draft.sequence [← Draft.assign x (← Draft.nil),
      ← Draft.loop (← Draft.bool true) (some body) false,
      ← Draft.node (.call ⟨none, "once", [], [once], some block, none⟩) (some Draft.intType)]
  let (root, draft) := build.run Draft.new
  draft.program root

theorem survey_shaped : ∃ s, run? survey {} = some (.ok (), s) ∧
    (∀ f, s.builder.module.Shaped f) ∧ ∀ d ∈ s.builder.module.findings, d.OfTypes := by
  obtain ⟨s, hs⟩ := exists_of_completes (p := survey) (o := {}) (by decide +kernel)
  exact ⟨s, hs, generated_shaped hs⟩

end Gen

end Lowering
