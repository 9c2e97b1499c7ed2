import Lowering.Proofs.Inlining

/-!
# Calls on the way

A call evaluates its operands and then goes to the definitions that it can resolve to: to their
functions, or with a block to their bodies.

* `Gen.sure_resolvedCall`: a call of a definition;
* `Gen.sure_staticCall`, `Gen.sure_dispatch`, `Gen.sure_call`.
-/

namespace Lowering.Gen

open IR (Value BlockId Build)

variable {α β : Type} {c : Context} {e : Entity} {g : Ledger} {s s' : State} {d : Def} {μ : Nat}
  {n : Node} {call : Call Node} {id : DefId}

theorem Reviewed.knows_typeOf (hr : Reviewed c) (hn : n ∈ c.program.nodes) :
    c.Knows (n.type.getD c.nil) := by
  cases ht : n.type with
  | none => exact Program.contains_nil hr.nil
  | some t => exact hr.valid.contains_type hn ht

/-- The operands of a call. -/
theorem Due.operands (h : Due c e μ s n) (hk : n.kind = .call call) :
    (∀ m ∈ call.receiver, Within c e μ s m) ∧ ∀ m ∈ call.args, Within c e μ s m := by
  refine ⟨fun m hm => h.child ?_, fun m hm => h.child ?_⟩
  · simp [Node.children, hk, NodeKind.children, Option.mem_def.mp hm]
  · simp [Node.children, hk, NodeKind.children, hm]

section

variable {visit visit' : Visitor} (hf : Follows c μ visit visit')
include hf

theorem sure_resolvedCall {args : List Value} (hr : Reviewed c) (hback : Restoring c visit)
    (h : Due c e μ s n) (hk : n.kind = .call call) (hid : id ∈ call.targets)
    (hd : c.program.def? id = some d) (ha : ∀ v ∈ args, Gen.Usable c (some e) s v) :
    Sure c e g s (resolvedCall visit n call.block d (c.program.selfTypeOf call d) args)
      (resolvedCall visit' n call.block d (c.program.selfTypeOf call d) args) := by
  have hdep := depends_of_target h.owns hk hid hd
  have hdefs : d ∈ c.program.defs := List.mem_of_getElem? hd
  have hown := (owns_call h.owns hk).2.2
  unfold resolvedCall
  cases hb : call.block with
  | none => exact sure_callFunction hf hr hdep (means_of_target h.owns hk hid hd hb) h.load_lt.le
  | some block =>
    rw [hb] at hown
    exact sure_inlineCall hf hback hown hdep ha
      (fun t ht => hr.valid.contains_selfType h.mem_nodes hk hdefs ht)
      (fun t ht => hr.valid.contains_argType hdefs ht)
      (fun a ha => hr.valid.contains_blockArg h.mem_nodes hk hb ha)
      (fun t ht => hr.valid.contains_type h.mem_nodes ht)
      ((Nat.add_lt_add_left (Program.weight_inlined hr.inlining hk hb hid hd) _).trans_le h.less)

theorem sure_receiverArgument {selfType : Option TypeId}
    (h : ∀ m ∈ call.receiver, Within c e μ s m) :
    Sure c e g s (receiverArgument visit call selfType)
      (receiverArgument visit' call selfType) := by
  unfold receiverArgument
  cases hr : call.receiver with
  | some r =>
    have hx := hf e g s r (h r hr)
    cases selfType with
    | some t =>
      exact hx.last fun _ => (restores_typeOf.bind fun _ => restores_convert.bind fun _ =>
        .pure _).wide
    | none => exact hx.last fun _ => .pure _
  | none =>
    cases selfType with
    | some t => exact .leaf (restores_implicitSelf.bind fun _ => .pure _)
    | none => exact .pure _

theorem sure_passedArgument {m : Node} {param : Option Arg} (hr : Reviewed c)
    (h : Within c e μ s m) :
    Sure c e g s (passedArgument visit m param) (passedArgument visit' m param) := by
  have hm : m ∈ c.program.nodes := (h.owns m (Node.mem_preorder m)).1
  unfold passedArgument
  dsimp only
  split
  · exact .step (.asked (fun _ => rfl) ((restores_declare (hr.knows_typeOf hm)).bind fun _ =>
      .pure _))
  · refine (hf e g s m h).last fun _ => Restores.wide ?_
    split
    · exact restores_typeOf.bind fun _ => restores_convert
    · exact .pure _

variable (hv : Visits c visit)
include hv

theorem sure_passedArguments {params : List Arg} {nodes : List Node} (hr : Reviewed c)
    (h : ∀ m ∈ nodes, Within c e μ s m) :
    Sure c e g s (passedArguments visit params nodes) (passedArguments visit' params nodes) := by
  induction nodes generalizing g s params with
  | nil => cases params <;> exact .pure _
  | cons m rest ih =>
    have hm := h m List.mem_cons_self
    rw [passedArguments, passedArguments]
    refine .ask (a := s.builder.isTerminated) rfl ?_
    split
    · exact .pure _
    · refine (sure_passedArgument hf hr hm).bind (walks_passedArgument (X := ∅) hv hm.owns)
        fun v g₁ s₁ l₁ _ => ?_
      exact (ih fun m' hm' => (h m' (List.mem_cons_of_mem _ hm')).along l₁).last fun _ => .pure _

theorem sure_staticCall (hr : Reviewed c) (hback : Restoring c visit) (h : Due c e μ s n)
    (hk : n.kind = .call call) (hid : call.targets = [id]) :
    Sure c e g s (staticCall visit n call id) (staticCall visit' n call id) := by
  have hmem : id ∈ call.targets := by simp [hid]
  unfold staticCall
  refine Sure.bind (.leaf restores_targetOf) (emits_targetOf.walks (X := ∅))
    fun d g₁ s₁ l₁ ⟨_, hd⟩ => .ask rfl (.assume fun hi => ?_)
  have hself : c.program.selfTypeOf call d =
      selfType? c.program.types d (c.program.receiverType? call) := by
    simp [Program.selfTypeOf, hid]
  have h₁ := h.along l₁
  obtain ⟨hor, hoa, -⟩ := owns_call h.owns hk
  refine .ask (gives_receiverType hi.inv.steady) ?_
  rw [← hself]
  refine (sure_receiverArgument hf (h₁.operands hk).1).bind
    (walks_receiverArgument (X := ∅) hv hor) fun self g₂ s₂ l₂ h₂ => ?_
  refine (sure_passedArguments hf hv hr ((h₁.along l₂).operands hk).2).bind
    (walks_passedArguments (X := ∅) hv hoa) fun args g₃ s₃ l₃ h₃ =>
      .ask (a := s₃.builder.isTerminated) rfl ?_
  split
  · exact .leaf restores_deadValue
  · refine (sure_resolvedCall hf hr hback ((h₁.along l₂).along l₃) hk hmem hd
      (h₂.append h₃).usable).last fun r => Restores.wide ?_
    refine restores_isTerminated.bind fun done => ?_
    split
    · exact restores_deadValue
    · exact restores_asResult

omit hv in
theorem sure_receiverOperand (h : ∀ m ∈ call.receiver, Within c e μ s m) :
    Sure c e g s (receiverOperand visit call) (receiverOperand visit' call) := by
  unfold receiverOperand
  cases hr : call.receiver with
  | some r =>
    exact (hf e g s r (h r hr)).last fun _ => (restores_typeOf.bind fun _ =>
      restores_operandOf.bind fun _ => .pure _).wide
  | none =>
    refine .leaf (restores_types.bind fun ts => restores_lookup?.bind fun self => ?_)
    split
    · split
      · exact restores_heldValue.bind fun _ => restores_operandOf.bind fun _ => .pure _
      · exact .pure _
    · exact .pure _

theorem sure_argumentOperands {nodes : List Node} (h : ∀ m ∈ nodes, Within c e μ s m) :
    Sure c e g s (argumentOperands visit nodes) (argumentOperands visit' nodes) := by
  induction nodes generalizing g s with
  | nil => exact .pure _
  | cons m rest ih =>
    have hm := h m List.mem_cons_self
    refine (hf e g s m hm).bind (hv e ∅ g s m hm.owns) fun v g₁ s₁ l₁ h₁ => .ask rfl ?_
    refine Sure.bind (.leaf restores_operandOf) ((emits_operandOf h₁.usable).walks (X := ∅))
      fun o g₂ s₂ l₂ _ => .ask (a := s₂.builder.isTerminated) rfl ?_
    split
    · exact .pure _
    · exact (ih fun m' hm' => (h m' (List.mem_cons_of_mem _ hm')).along (l₁.trans l₂)).last
        fun _ => .pure _

/-! ### Candidates -/

omit hv in
theorem sure_callCandidate {exit : BlockId} {slot : Option Value} {self : Option Operand}
    {args : List Operand} (hr : Reviewed c) (hback : Restoring c visit) (h : Due c e μ s n)
    (hk : n.kind = .call call) (hid : id ∈ call.targets) (hlen : call.targets.length ≠ 1)
    (hd : c.program.def? id = some d) (hs : ∀ o, self = some o → o.Usable c e s)
    (ha : ∀ o ∈ args, o.Usable c e s) :
    Sure c e g s (callCandidate visit n call.block exit slot self args d)
      (callCandidate visit' n call.block exit slot self args d) := by
  have hself : selfType? c.program.types d (some d.owner) = c.program.selfTypeOf call d := by
    simp [Program.selfTypeOf, hlen]
  unfold callCandidate
  refine .ask rfl (.assume fun hi => ?_)
  rw [hself]
  refine Sure.bind (.leaf restores_shaped) ((emits_shaped hi.inv.vars hs ha).walks (X := ∅))
    fun passed g₁ s₁ l₁ hp => ?_
  exact (sure_resolvedCall hf hr hback (h.along l₁) hk hid hd hp.2).last
    fun _ => restores_deliver.wide

omit hv in
theorem sure_candidate {exit : BlockId} {slot : Option Value} {self : Option Operand}
    {args : List Operand} (hr : Reviewed c) (hback : Restoring c visit) (h : Due c e μ s n)
    (hk : n.kind = .call call) (hid : id ∈ call.targets) (hlen : call.targets.length ≠ 1)
    (hs : ∀ o, self = some o → o.Usable c e s) (ha : ∀ o ∈ args, o.Usable c e s) :
    Sure c e g s (candidate visit n call exit slot self args id)
      (candidate visit' n call exit slot self args id) := by
  unfold candidate
  refine Sure.bind (.leaf restores_targetOf) (emits_targetOf.walks (X := Set.univ))
    fun d g₁ s₁ l₁ ⟨_, hd⟩ => ?_
  refine Sure.bind (.leaf restores_guard) ((emits_guard (fun o h => l₁.operand (hs o h))
    fun o h => l₁.operand (ha o h)).walks (X := Set.univ)) fun admitted g₂ s₂ l₂ ⟨_, hu⟩ => ?_
  refine Sure.bind (.leaf restores_appendBlock) (walks_appendBlock (X := Set.univ))
    fun current g₃ s₃ l₃ h₃ => ?_
  refine Sure.bind (.leaf restores_appendBlock) (walks_appendBlock (X := Set.univ))
    fun next g₄ s₄ l₄ h₄ => ?_
  have p₄ := h₄.leg.spare h₃.spare (Set.notMem_empty _)
  refine Sure.bind (.leaf still_condBr.restores) (walks_condBr (l₄.usable (l₃.usable hu))
    p₄.idle.landing (p₄.entry.free (Set.mem_univ _)) h₄.spare.idle.landing
    (h₄.spare.entry.free (Set.mem_univ _))) fun _ g₅ s₅ l₅ h₅ => ?_
  refine Sure.bind (.leaf restores_positionAt) (walks_positionAt (h₅.spare _ p₄) (Set.mem_univ _)
    h₅.terminated (Set.subset_insert _ g₅.waiting)) fun _ g₆ s₆ l₆ _ => ?_
  have l := l₁.trans (l₂.trans (l₃.trans (l₄.trans (l₅.trans l₆))))
  refine .ask rfl ?_
  split
  · exact (sure_callCandidate hf hr hback (h.along l) hk hid hlen hd
      (fun o h => l.operand (hs o h)) fun o h => l.operand (ha o h)).last
        fun _ => (restores_positionAt.bind fun _ => .pure _).wide
  · exact .leaf (restores_typeName.bind fun _ =>
      (restores_note (begins_nothing (a := '\x60') (by simp [marked]) (by decide))).bind
        fun _ => still_unreachable.restores.bind fun _ => .bind (.pure _) fun _ =>
          restores_positionAt.bind fun _ => .pure _)

theorem sure_candidates {m : MergeTarget} {self : Option Operand} {args : List Operand}
    {ids : List DefId} (hr : Reviewed c) (hback : Restoring c visit) (h : Due c e μ s n)
    (hk : n.kind = .call call) (hids : ids ⊆ call.targets) (hlen : call.targets.length ≠ 1)
    (hm : Held c e g s m) (htype : m.type = n.type) (hs : ∀ o, self = some o → o.Usable c e s)
    (ha : ∀ o ∈ args, o.Usable c e s) :
    Sure c e g s (ids.mapM (candidate visit n call m.block m.slot self args))
      (ids.mapM (candidate visit' n call m.block m.slot self args)) := by
  induction ids generalizing g s m with
  | nil => exact .pure []
  | cons id ids ih =>
    obtain ⟨hid, hids⟩ := List.cons_subset.mp hids
    rw [List.mapM_cons, List.mapM_cons]
    refine (sure_candidate hf hr hback h hk hid hlen hs ha).bind
      (walks_candidate hv h.owns hk hid hlen hm htype hs ha) fun incoming g₁ s₁ l₁ h₁ => ?_
    exact (ih (m := m.reached incoming) (h.along l₁) hids h₁.held htype
      (fun o h => l₁.operand (hs o h)) fun o h => l₁.operand (ha o h)).last fun _ => .pure _

theorem sure_dispatch (hr : Reviewed c) (hback : Restoring c visit) (h : Due c e μ s n)
    (hk : n.kind = .call call) (hlen : call.targets.length ≠ 1) :
    Sure c e g s (dispatch visit n call) (dispatch visit' n call) := by
  obtain ⟨hor, hoa, -⟩ := owns_call h.owns hk
  unfold dispatch
  refine Sure.bind (.leaf (restores_note (begins_nothing (a := 'd') (by simp) (by decide))))
    (emits_note.walks (X := ∅)) fun _ g₁ s₁ l₁ _ => ?_
  refine (sure_receiverOperand hf ((h.along l₁).operands hk).1).bind
    (walks_receiverOperand (X := ∅) hv hor) fun self g₂ s₂ l₂ ⟨_, _, hs⟩ => ?_
  refine (sure_argumentOperands hf hv (((h.along l₁).along l₂).operands hk).2).bind
    (walks_argumentOperands (X := ∅) hv hoa) fun args g₃ s₃ l₃ ⟨_, _, ha⟩ =>
      .ask (a := s₃.builder.isTerminated) rfl ?_
  split
  · exact .leaf restores_deadValue
  refine Sure.bind (.leaf restores_appendBlock) (walks_appendBlock (X := ∅))
    fun exit g₄ s₄ l₄ h₄ => ?_
  refine Sure.bind (.leaf restores_mergeSlot) (emits_mergeSlot.walks (X := ∅))
    fun slot g₅ s₅ l₅ ⟨h₅, hslot⟩ => ?_
  have hm : Held c e g₅ s₅ { block := exit, type := n.type, slot } :=
    (h₅.leg.held (h₄.held n.type) (Set.notMem_empty _)).slotted hslot
  have q := l₄.trans l₅
  refine (sure_candidates (m := { block := exit, type := n.type, slot }) hf hv hr hback
    (h.along (l₁.trans (l₂.trans (l₃.trans q)))) hk (List.Subset.refl _) hlen hm rfl
    (fun o h => q.operand (l₃.operand (hs o h))) fun o h => q.operand (ha o h)).last
      fun _ => (still_unreachable.restores.bind fun _ => restores_merge).wide

theorem sure_call (hr : Reviewed c) (hback : Restoring c visit) (h : Due c e μ s n)
    (hk : n.kind = .call call) : Sure c e g s (Gen.call visit n call) (Gen.call visit' n call) := by
  unfold Gen.call
  split
  · exact .fail trivial
  · rename_i id hids
    exact sure_staticCall hf hv hr hback h hk hids
  · rename_i hne
    exact sure_dispatch hf hv hr hback h hk
      fun hlen => (List.length_eq_one_iff.mp hlen).elim hne

end

end Lowering.Gen
