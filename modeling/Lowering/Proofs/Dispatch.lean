import Lowering.Gen.Dispatch
import Lowering.Proofs.Inline

/-!
# Calls

Operands are evaluated once, and then passed to the definition that the call resolves to.  With
several candidates the tests form a chain of blocks, and the results meet behind it.

* `Gen.walks_staticCall`: a call with one candidate;
* `Gen.walks_candidate`, `Gen.walks_dispatch`: a test and the call behind it, and the chain of them;
* `Gen.walks_call`.
-/

namespace Lowering.Gen

open IR (Ty Value FuncId BlockId GlobalId Build Module Inst Terminator)

variable {α β : Type} {c : Context} {e : Entity} {g g₁ g' : Ledger} {s s₁ s' : State}
  {X : Set (FuncId × BlockId)} {visit : Visitor}

/-! ### Operands of a call -/

/-- What holds after the code of several expressions, with operands that stand for their values. -/
structure Passed (c : Context) (e : Entity) (g : Ledger) (s : State) (g' : Ledger) (s' : State)
    (vs : List Value) : Prop where
  leg : Leg c e ∅ g s g' s'
  waiting : g'.waiting = g.waiting
  usable : ∀ v ∈ vs, Usable c (some e) s' v

theorem Passed.nil (hi : Inv c e g s) : Passed c e g s g s [] := ⟨.refl hi, rfl, by simp⟩

theorem Visited.passed {v : Value} (h : Visited c e g s g' s' v) : Passed c e g s g' s' [v] :=
  ⟨h.leg, h.waiting, fun w hw => by
    rw [List.mem_singleton.mp hw]
    exact h.usable⟩

theorem Passed.append {vs ws : List Value} (h₁ : Passed c e g s g₁ s₁ vs)
    (h₂ : Passed c e g₁ s₁ g' s' ws) : Passed c e g s g' s' (vs ++ ws) where
  leg := h₁.leg.trans h₂.leg
  waiting := h₂.waiting.trans h₁.waiting
  usable v hv := (List.mem_append.mp hv).elim (fun hv => h₂.leg.usable (h₁.usable v hv))
    (h₂.usable v)

/-- An operand of which the value and the tag can be used. -/
def Operand.Usable (c : Context) (e : Entity) (s : State) (o : Operand) : Prop :=
  Gen.Usable c (some e) s o.value ∧ ∀ t, o.tag = some t → Gen.Usable c (some e) s t

theorem Leg.operand {o : Operand} (h : Leg c e X g s g' s') (ho : o.Usable c e s) :
    o.Usable c e s' :=
  ⟨h.usable ho.1, fun t ht => h.usable (ho.2 t ht)⟩

theorem Keeps.operand {o : Operand} (k : Keeps c (some e) s s') (ho : o.Usable c e s) :
    o.Usable c e s' :=
  ⟨k.usable ho.1, fun t ht => k.usable (ho.2 t ht)⟩

theorem emits_operandOf {v : Value} {t : TypeId} (hv : Gen.Usable c (some e) s v) :
    Emits c (some e) s (Operand.of v t) fun s' o => o.Usable c e s' := by
  have hload : Emits c (some e) s (do return ⟨v, t, some (← loadTag v)⟩)
      fun s' (o : Operand) => o.Usable c e s' :=
    (emits_loadTag hv).bind fun tag s₁ k₁ ht => .pure ⟨k₁.usable hv, fun t' h => by
      rw [← Option.some.inj h]
      exact ht⟩
  unfold Operand.of
  refine .ask rfl ?_
  split
  · exact hload
  · exact hload
  · exact .pure ⟨hv, fun t' h => by
      rw [← Option.some.inj h]
      exact hv⟩
  · exact .pure ⟨hv, fun t' h => by cases h⟩

/-! ### Tests -/

theorem emits_admits {want : TypeId} {o : Operand} (ho : o.Usable c e s) :
    Emits c (some e) s (admits want o) (Gen.Usable c (some e)) := by
  unfold admits
  refine .ask rfl ?_
  split
  · exact .pure trivial
  · rename_i tag _ ht _
    refine .ask rfl ?_
    split
    · exact emits_isNull (ho.2 tag ht)
    · exact emits_isNotNull (ho.2 tag ht)
  · rename_i tag ht _
    exact emits_tagBelongs (ho.2 tag ht)

theorem emits_admitsAll {known : Value} {wanted : List (Operand × TypeId)}
    (hk : Gen.Usable c (some e) s known) (hw : ∀ p ∈ wanted, p.1.Usable c e s) :
    Emits c (some e) s (admitsAll known wanted) (Gen.Usable c (some e)) := by
  induction wanted generalizing s known with
  | nil => exact .pure hk
  | cons p wanted ih =>
    unfold admitsAll
    rw [List.foldlM_cons]
    refine (Emits.bind (emits_admits (hw p List.mem_cons_self)) fun v s₁ k₁ hv =>
      emits_and (k₁.usable hk) hv).kept.bind fun v s₁ _ ⟨hv, k₁⟩ => ?_
    exact ih hv fun q hq => k₁.operand (hw q (List.mem_cons_of_mem _ hq))

theorem emits_guard {d : Def} {self : Option Operand} {args : List Operand}
    (hs : ∀ o, self = some o → o.Usable c e s) (ha : ∀ o ∈ args, o.Usable c e s) :
    Emits c (some e) s (guard d self args) (Gen.Usable c (some e)) := by
  refine .ask (a := c.program.types) rfl (emits_admitsAll trivial fun p hp => ?_)
  rcases List.mem_append.mp hp with hp | hp
  · split at hp
    · exact absurd hp (by simp)
    · obtain ⟨o, ho, rfl⟩ := List.mem_map.mp hp
      exact hs o (by simpa using ho)
  · exact ha p.1 (List.of_mem_zip hp).1

/-! ### Calls of one definition -/

section

variable (hv : Visits c visit)
include hv

theorem walks_resolvedCall {n : Node} {block : Option (Block Node)} {d : Def}
    {selfType : Option TypeId} {args : List Value}
    (hb : c.program.Owns e (Node.preorderBlock block))
    (hd : c.program.Depends e (.definition d))
    (hx : block = none → c.program.Means d selfType)
    (ha : ∀ v ∈ args, Gen.Usable c (some e) s v) :
    Walks c e X g s (resolvedCall visit n block d selfType args) fun g' s' r =>
      Visited c e g s g' s' r.1 := by
  unfold resolvedCall
  split
  · exact walks_inlineCall hv hb hd ha
  · exact walks_callFunction hv hd (hx rfl) ha

theorem walks_receiverArgument {call : Call Node} {selfType : Option TypeId}
    (ho : c.program.Owns e (Node.preorderOption call.receiver)) :
    Walks c e X g s (receiverArgument visit call selfType) (Passed c e g s) := by
  cases hr : call.receiver with
  | some r =>
    rw [hr] at ho
    cases selfType with
    | some t =>
      simp only [receiverArgument, hr]
      refine (hv e X g s r ho).bind fun v g₁ s₁ _ h₁ => .ask rfl ?_
      refine (emits_convert h₁.usable).walks.bind fun w g₂ s₂ _ ⟨h₂, hw⟩ => .pure fun _ => ?_
      exact (h₁.trans (.of_plainly h₂ hw)).passed
    | none =>
      simp only [receiverArgument, hr]
      exact (hv e X g s r ho).bind fun v g₁ s₁ _ h₁ =>
        .pure fun _ => ⟨h₁.leg, h₁.waiting, by simp⟩
  | none =>
    cases selfType with
    | some t =>
      simp only [receiverArgument, hr]
      exact .assume fun hi => (emits_implicitSelf hi.vars).walks.bind fun w g₂ s₂ _ ⟨h₂, hw⟩ =>
        .pure fun _ => (Visited.of_plainly h₂ hw).passed
    | none =>
      simp only [receiverArgument, hr]
      exact .pure .nil

theorem walks_passedArgument {n : Node} {param : Option Arg}
    (ho : c.program.Owns e n.preorder) :
    Walks c e X g s (passedArgument visit n param) (Visited c e g s) := by
  unfold passedArgument
  dsimp only
  split
  · refine .ask rfl (.assume fun hi => ?_)
    exact (emits_declareVariable hi.vars).walks.bind fun x g₁ s₁ _ h₁ =>
      .pure fun _ => .of_plainly h₁.1 h₁.2
  · refine (hv e X g s n ho).bind fun v g₁ s₁ _ h₁ => ?_
    split
    · exact .ask rfl (h₁.emits (emits_convert h₁.usable))
    · exact .pure fun _ => h₁

theorem walks_passedArguments {params : List Arg} {nodes : List Node}
    (ho : c.program.Owns e (Node.preorderList nodes)) :
    Walks c e X g s (passedArguments visit params nodes) (Passed c e g s) := by
  induction nodes generalizing g s params with
  | nil => cases params <;> exact .pure .nil
  | cons n rest ih =>
    rw [Node.preorderList, Program.Owns.append] at ho
    rw [passedArguments]
    refine .ask rfl ?_
    split
    · exact .pure .nil
    · refine (walks_passedArgument hv ho.1).bind fun v g₁ s₁ _ h₁ => ?_
      exact (ih ho.2).bind fun vs g₂ s₂ _ h₂ => .pure fun _ => h₁.passed.append h₂

omit hv in
/-- What the references of a call lead to. -/
theorem depends_of_target {n : Node} {call : Call Node} {id : DefId} {d : Def}
    (ho : c.program.Owns e n.preorder) (hn : n.kind = .call call) (hid : id ∈ call.targets)
    (hd : c.program.def? id = some d) : c.program.Depends e (.definition d) := by
  refine (ho n (Node.mem_preorder n)).2 _ ?_
  rw [Program.references, hn]
  exact List.mem_map_of_mem (List.mem_filterMap.mpr ⟨id, hid, hd⟩)

omit hv in
/-- A call means its targets. -/
theorem means_of_target {n : Node} {call : Call Node} {id : DefId} {d : Def}
    (ho : c.program.Owns e n.preorder) (hn : n.kind = .call call) (hid : id ∈ call.targets)
    (hd : c.program.def? id = some d) (hb : call.block = none) :
    c.program.Means d (c.program.selfTypeOf call d) :=
  ⟨n, (ho n (Node.mem_preorder n)).1, id, hd,
    Program.mem_meant.mpr ⟨call, d, hn, hb, hid, hd, rfl⟩⟩

omit hv in
/-- The operands and the block of a call. -/
theorem owns_call {n : Node} {call : Call Node} (ho : c.program.Owns e n.preorder)
    (hn : n.kind = .call call) : c.program.Owns e (Node.preorderOption call.receiver) ∧
      c.program.Owns e (Node.preorderList call.args) ∧
        c.program.Owns e (Node.preorderBlock call.block) := by
  have ho : c.program.Owns e (Node.preorderKind n.kind) := ho.mono (by
    rw [Node.preorder_eq]
    exact List.subset_cons_self _ _)
  rw [hn, Node.preorderKind, Node.preorderCall, Program.Owns.append, Program.Owns.append,
    and_assoc] at ho
  exact ho

omit hv in
theorem gives_receiverType {call : Call Node} (hs : Steady c s) :
    Gives (receiverType call) c s (c.program.receiverType? call) s := by
  unfold receiverType Program.receiverType?
  cases call.receiver with
  | none => rfl
  | some r =>
    have ht : r.type.or c.program.types.nil? = some (r.type.getD c.nil) := by
      rw [hs.nilType]
      cases r.type <;> rfl
    dsimp only
    rw [ht]
    rfl

/-- What follows the operands of a call of one definition. -/
theorem walks_staticAfter {n : Node} {call : Call Node} {d : Def} {selfType : Option TypeId}
    {args : List Value} (hb : c.program.Owns e (Node.preorderBlock call.block))
    (hd : c.program.Depends e (.definition d))
    (hmean : call.block = none → c.program.Means d selfType)
    (ha : ∀ v ∈ args, Gen.Usable c (some e) s v) :
    Walks c e X g s (do
      if ← isTerminated then deadValue n.type
      else
        let (value, source) ← resolvedCall visit n call.block d selfType args
        if ← isTerminated then deadValue n.type else asResult n.type value source)
      (Visited c e g s) := by
  refine .ask rfl ?_
  split
  · exact emits_deadValue.visited
  · refine (walks_resolvedCall hv hb hd hmean ha).bind fun r g₁ s₁ _ h₁ =>
      .ask (a := s₁.builder.isTerminated) rfl ?_
    split
    · exact h₁.emits emits_deadValue
    · exact h₁.emits (emits_asResult h₁.usable)

theorem walks_staticCall {n : Node} {call : Call Node} {id : DefId}
    (ho : c.program.Owns e n.preorder) (hn : n.kind = .call call) (hid : call.targets = [id]) :
    Walks c e X g s (staticCall visit n call id) (Visited c e g s) := by
  obtain ⟨hor, hoa, hob⟩ := owns_call ho hn
  unfold staticCall
  refine emits_targetOf.walks.bind fun d g₁ s₁ _ ⟨h₁, hdef⟩ => .ask rfl (.assume fun hi₁ => ?_)
  have hmem : id ∈ call.targets := by simp [hid]
  have hd := depends_of_target ho hn hmem hdef
  have hself : c.program.selfTypeOf call d =
      selfType? c.program.types d (c.program.receiverType? call) := by
    simp [Program.selfTypeOf, hid]
  refine .ask (gives_receiverType hi₁.steady) ?_
  refine (walks_receiverArgument hv hor).bind fun self g₂ s₂ _ h₂ => ?_
  refine (walks_passedArguments hv hoa).bind fun args g₃ s₃ _ h₃ => ?_
  have hnone : Passed c e g s g₁ s₁ [] := ⟨h₁.leg, by rw [h₁.ledger], by simp⟩
  have hargs : Passed c e g s g₃ s₃ (self ++ args) := hnone.append (h₂.append h₃)
  have hvisited : Visited c e g s g₃ s₃ (.i1 true) := ⟨hargs.leg, hargs.waiting, trivial⟩
  exact (walks_staticAfter hv hob hd (fun hb => hself ▸ means_of_target ho hn hmem hdef hb)
    hargs.usable).mono fun _ _ _ _ h => hvisited.trans h

/-! ### Calls with several candidates -/

theorem walks_receiverOperand {call : Call Node}
    (ho : c.program.Owns e (Node.preorderOption call.receiver)) :
    Walks c e X g s (receiverOperand visit call) fun g' s' o =>
      Leg c e ∅ g s g' s' ∧ g'.waiting = g.waiting ∧ ∀ o', o = some o' → o'.Usable c e s' := by
  have hnone : ∀ {g s}, Walks c e X g s (pure none : Gen (Option Operand)) fun g' s' o =>
      Leg c e ∅ g s g' s' ∧ g'.waiting = g.waiting ∧ ∀ o', o = some o' → o'.Usable c e s' :=
    .pure fun hi => ⟨.refl hi, rfl, fun _ h => by cases h⟩
  cases hr : call.receiver with
  | some r =>
    rw [hr] at ho
    simp only [receiverOperand, hr]
    refine (hv e X g s r ho).bind fun v g₁ s₁ _ h₁ => .ask rfl ?_
    refine (emits_operandOf h₁.usable).walks.bind fun o g₂ s₂ _ ⟨h₂, hw⟩ => .pure fun _ =>
      ⟨h₁.leg.trans h₂.leg, by rw [h₂.ledger, h₁.waiting], fun o' h => ?_⟩
    rw [← Option.some.inj h]
    exact hw
  | none =>
    simp only [receiverOperand, hr]
    refine .ask rfl (.ask rfl ?_)
    split
    · rename_i x hx
      split
      · refine .assume fun hi => ?_
        refine (emits_heldValue (hi.vars _ (mem_of_lookup hx))).walks.bind
          fun v g₁ s₁ _ ⟨h₁, hu⟩ => ?_
        refine (emits_operandOf hu).walks.bind fun o g₂ s₂ _ ⟨h₂, hw⟩ => .pure fun _ =>
          ⟨h₁.leg.trans h₂.leg, by rw [h₂.ledger, h₁.ledger], fun o' h => ?_⟩
        rw [← Option.some.inj h]
        exact hw
      · exact hnone
    · exact hnone

theorem walks_argumentOperands {nodes : List Node}
    (ho : c.program.Owns e (Node.preorderList nodes)) :
    Walks c e X g s (argumentOperands visit nodes) fun g' s' os =>
      Leg c e ∅ g s g' s' ∧ g'.waiting = g.waiting ∧ ∀ o ∈ os, o.Usable c e s' := by
  induction nodes generalizing g s with
  | nil => exact .pure fun hi => ⟨.refl hi, rfl, by simp⟩
  | cons n rest ih =>
    rw [Node.preorderList, Program.Owns.append] at ho
    refine (hv e X g s n ho.1).bind fun v g₁ s₁ _ h₁ => .ask rfl ?_
    refine (emits_operandOf h₁.usable).walks.bind fun o g₂ s₂ _ h₂ => .ask rfl ?_
    obtain ⟨h₂, hu⟩ := h₂
    have hl := h₁.leg.trans h₂.leg
    have hw : g₂.waiting = g.waiting := by rw [h₂.ledger, h₁.waiting]
    split
    · exact .pure fun _ => ⟨hl, hw, fun o' h => by rwa [List.mem_singleton.mp h]⟩
    · refine (ih ho.2).bind fun os g₃ s₃ _ h₃ => .pure fun _ =>
        ⟨hl.trans h₃.1, h₃.2.1.trans hw, fun o' h => ?_⟩
      rcases List.mem_cons.mp h with rfl | h
      · exact h₃.1.operand hu
      · exact h₃.2.2 o' h

omit hv in
theorem emits_mapM {ι : Type} {a : Option Entity} {f : ι → Gen Value} {l : List ι}
    (hf : ∀ i ∈ l, ∀ s₁, Keeps c a s s₁ → Emits c a s₁ (f i) (Gen.Usable c a)) :
    Emits c a s (l.mapM f) fun s' vs => ∀ v ∈ vs, Gen.Usable c a s' v := by
  refine .assume fun hs => ?_
  have hrefl : Keeps c a s s := (Straight.refl s).keeps hs
  clear hs
  induction l generalizing s with
  | nil => exact .pure (by simp)
  | cons i l ih =>
    rw [List.mapM_cons]
    refine (hf i List.mem_cons_self s hrefl).bind fun v s₁ k₁ hv => ?_
    have hrest := ih (s := s₁) (fun j hj s₂ k₂ => hf j (List.mem_cons_of_mem _ hj) s₂ (k₁.trans k₂))
      ((Straight.refl s₁).keeps k₁.steady)
    refine hrest.kept.bind fun vs s₂ _ h₂ => .pure fun w hw => ?_
    rcases List.mem_cons.mp hw with rfl | hw
    · exact h₂.2.usable hv
    · exact h₂.1 w hw

omit hv in
/-- Arguments follow what is passed before them, in the shape of the parameters. -/
theorem emits_shapedArguments {d : Def} {args : List Operand} {passed : List Value}
    (ha : ∀ o ∈ args, o.Usable c e s) (hk : Keeps c (some e) s s₁)
    (hp : ∀ v ∈ passed, Gen.Usable c (some e) s₁ v) : Emits c (some e) s₁ (do
      let args ← (args.zip d.args).mapM fun (o, p) => convert o.value o.type p.type
      return passed ++ args) fun s' vs => ∀ v ∈ vs, Gen.Usable c (some e) s' v := by
  refine (emits_mapM fun p hp s₂ k₂ =>
    emits_convert (k₂.usable (hk.usable (ha p.1 (List.of_mem_zip hp).1).1))).kept.bind
      fun vs s₂ _ h₂ => .pure fun v hv => ?_
  exact (List.mem_append.mp hv).elim (fun hv => h₂.2.usable (hp v hv)) (h₂.1 v)

omit hv in
theorem emits_shaped {d : Def} {selfType : Option TypeId} {self : Option Operand}
    {args : List Operand} (hvars : Scoped c (some e) s)
    (hs : ∀ o, self = some o → o.Usable c e s) (ha : ∀ o ∈ args, o.Usable c e s) :
    Emits c (some e) s (shaped d selfType self args) fun s' vs =>
      ∀ v ∈ vs, Gen.Usable c (some e) s' v := by
  unfold shaped
  extract_lets rest
  split
  · refine (emits_convert (hs _ rfl).1).bind fun v s₁ k₁ hv =>
      .ask rfl (emits_shapedArguments ha k₁ ?_)
    simpa using hv
  · refine (emits_implicitSelf hvars).bind fun v s₁ k₁ hv =>
      .ask rfl (emits_shapedArguments ha k₁ ?_)
    simpa using hv
  · exact .assume fun hst =>
      .ask rfl (emits_shapedArguments ha ((Straight.refl s).keeps hst) (by simp))

/-- What holds after a candidate: generation is where its test fails. -/
structure Tested (c : Context) (e : Entity) (g : Ledger) (s : State) (m : MergeTarget)
    (g' : Ledger) (s' : State) (incoming : List (Value × BlockId)) : Prop where
  leg : Leg c e {(s.fn.func, m.block)} g s g' s'
  held : Held c e g' s' (m.reached incoming)
  waiting : g'.waiting = g.waiting

theorem walks_callCandidate {n : Node} {block : Option (Block Node)} {m : MergeTarget}
    {self : Option Operand} {args : List Operand} {d : Def}
    (hb : c.program.Owns e (Node.preorderBlock block))
    (hd : c.program.Depends e (.definition d))
    (hmean : block = none →
      c.program.Means d (selfType? c.program.types d (some d.owner)))
    (hm : Held c e g s m) (htype : m.type = n.type)
    (hx : (s.fn.func, m.block) ∈ X) (hs : ∀ o, self = some o → o.Usable c e s)
    (ha : ∀ o ∈ args, o.Usable c e s) :
    Walks c e X g s (callCandidate visit n block m.block m.slot self args d)
      fun g' s' incoming => s'.builder.isTerminated = true ∧ Held c e g' s' (m.reached incoming) ∧
        g'.waiting = g.waiting := by
  unfold callCandidate
  refine .ask rfl (.assume fun hi => ?_)
  refine (emits_shaped hi.vars hs ha).walks.bind fun passed g₁ s₁ l₁ ⟨h₁, hp⟩ => ?_
  refine (walks_resolvedCall hv hb hd hmean hp).bind fun r g₂ s₂ _ h₂ => ?_
  have hm₂ := h₂.leg.held (h₁.leg.held hm (Set.notMem_empty _)) (Set.notMem_empty _)
  rw [← htype]
  refine (walks_deliver hm₂ h₂.usable ?_).mono fun g₃ s₃ incoming _ h₃ =>
    ⟨h₃.terminated, h₃.held, ?_⟩
  · rw [h₂.leg.stay.fn, h₁.leg.stay.fn]
    exact hx
  · rw [h₃.ledger, h₂.waiting, h₁.ledger]

theorem walks_candidate {n : Node} {call : Call Node} {m : MergeTarget} {self : Option Operand}
    {args : List Operand} {id : DefId} (ho : c.program.Owns e n.preorder)
    (hn : n.kind = .call call) (hid : id ∈ call.targets) (hlen : call.targets.length ≠ 1)
    (hm : Held c e g s m)
    (htype : m.type = n.type) (hs : ∀ o, self = some o → o.Usable c e s)
    (ha : ∀ o ∈ args, o.Usable c e s) :
    Walks c e {(s.fn.func, m.block)} g s (candidate visit n call m.block m.slot self args id)
      (Tested c e g s m) := by
  obtain ⟨-, -, hob⟩ := owns_call ho hn
  let Y : Set (FuncId × BlockId) := insert (s.fn.func, m.block) {p | ¬ s.Has p.1 p.2}
  suffices h : Walks c e Y g s (candidate visit n call m.block m.slot self args id)
      fun g' s' incoming => Held c e g' s' (m.reached incoming) ∧ g'.waiting = g.waiting by
    have hY : ∀ f b, (f, b) ∈ Y → (f, b) ∈ ({(s.fn.func, m.block)} : Set _) ∨ ¬ s.Has f b :=
      fun _ _ hb => hb
    intro hi a s' hg
    obtain ⟨g', hl, hh, hw⟩ := h hi a s' hg
    exact ⟨g', hl.narrow hY, hl.narrow hY, hh, hw⟩
  have hfresh : ∀ {g₁ s₁ b}, Leg c e Y g s g₁ s₁ → ¬ s.Has s.fn.func b → (s₁.fn.func, b) ∈ Y :=
    fun hl hb => .inr (by rw [hl.stay.fn]; exact hb)
  unfold candidate
  refine emits_targetOf.walks.bind fun d g₁ s₁ _ ⟨h₁, hdef⟩ => ?_
  have hd := depends_of_target ho hn hid hdef
  have hself : c.program.selfTypeOf call d = selfType? c.program.types d (some d.owner) := by
    simp [Program.selfTypeOf, hlen]
  refine (emits_guard (fun o h => h₁.leg.operand (hs o h))
    fun o h => h₁.leg.operand (ha o h)).walks.bind fun admitted g₂ s₂ _ ⟨h₂, hu⟩ => ?_
  refine walks_appendBlock.bind fun current g₃ s₃ _ h₃ => ?_
  refine walks_appendBlock.bind fun next g₄ s₄ _ h₄ => ?_
  have l₂ := h₁.leg.trans h₂.leg
  have l₃ := l₂.trans h₃.leg
  have l₄ : Leg c e Y g s g₄ s₄ := (l₃.trans h₄.leg).widen
  have a₃ := l₂.absent h₃.fresh
  have a₄ := l₃.absent h₄.fresh
  have n₃₄ : current ≠ next := h₄.ne h₃.spare.idle.inside
  have hin := hm.awaits.idle.inside
  have nm₃ : m.block ≠ current := h₃.ne (l₂.has hin)
  have nm₄ : m.block ≠ next := h₄.ne (l₃.has hin)
  have p₃ := h₄.leg.spare h₃.spare (Set.notMem_empty _)
  refine (walks_condBr (h₄.leg.usable (h₃.leg.usable hu)) p₃.idle.landing
    (p₃.entry.free (hfresh l₄ a₃)) h₄.spare.idle.landing
    (h₄.spare.entry.free (hfresh l₄ a₄))).bind fun _ g₅ s₅ _ h₅ => ?_
  have l₅ := l₄.trans h₅.leg
  have w₅ : g₅.waiting = insert (s.fn.func, next) (insert (s.fn.func, current) g.waiting) := by
    rw [h₅.ledger, h₄.waiting, h₃.waiting, h₂.ledger, h₁.ledger, l₃.stay.fn, l₂.stay.fn]
  have m₅ := h₅.held m ((l₃.trans h₄.leg).held hm (Set.notMem_empty _)) (by simp [nm₃, nm₄])
  refine (walks_positionAt (w := insert (s.fn.func, next) g.waiting) (h₅.spare _ p₃)
    (hfresh l₅ a₃) h₅.terminated ?_).bind fun _ g₆ s₆ q₆ h₆ => ?_
  · rw [w₅, l₅.stay.fn]
    grind
  have l₆ := l₅.trans q₆
  have m₆ := h₆.leg.held m₅ (notMem_of_ne nm₃)
  have p₆ := h₆.leg.spare (h₅.spare _ h₄.spare) (notMem_of_ne n₃₄.symm)
  have hm₆ : (s₆.fn.func, m.block) ∈ ({(s.fn.func, m.block)} : Set (FuncId × BlockId)) := by
    rw [l₆.stay.fn]
    rfl
  -- The call, or the end of code that never runs.
  have hcode : ∀ {x}, Walks c e {(s.fn.func, m.block)} g₆ s₆ x (fun g' s' incoming =>
      s'.builder.isTerminated = true ∧ Held c e g' s' (m.reached incoming) ∧
        g'.waiting = g₆.waiting) → Walks c e Y g₆ s₆ (do
      let incoming ← x
      positionAt next
      return incoming) fun g' s' incoming =>
        Held c e g' s' (m.reached incoming) ∧ g'.waiting = g.waiting := by
    intro x hx
    refine (hx.narrow (Y := Y) fun f b hb => .inl ?_).bind
      fun incoming g₇ s₇ q₇ ⟨h₇, ht₇, m₇, w₇⟩ => ?_
    · rw [Set.mem_singleton_iff.mp hb]
      exact .inl rfl
    have p₇ := h₇.spare p₆ (by
      rw [l₆.stay.fn]
      exact notMem_of_ne nm₄.symm)
    refine (walks_positionAt (w := g.waiting) p₇ (hfresh (l₆.trans q₇) a₄) ht₇ ?_).bind
      fun _ g₈ s₈ _ h₈ => .pure fun _ => ⟨?_, h₈.waiting⟩
    · rw [w₇, h₆.waiting, (l₆.trans q₇).stay.fn]
    · exact h₈.leg.held m₇ (notMem_of_ne nm₄)
  refine .ask rfl ?_
  split
  · exact hcode (walks_callCandidate hv hob hd
      (fun hb => hself ▸ means_of_target ho hn hid hdef hb) m₆ htype hm₆
      (fun o h => l₆.operand (hs o h))
      fun o h => l₆.operand (ha o h))
  · refine hcode (x := do
      let owner ← typeName d.owner
      note .warn (marked d.name ++ " on " ++ owner ++ " is never instantiated, skipping")
      Build.unreachable
      pure []) (.ask rfl (emits_note.walks.bind fun _ g₇ s₇ _ ⟨h₇, _⟩ =>
        walks_unreachable.bind fun _ g₈ s₈ _ h₈ => .pure fun _ => ⟨h₈.terminated, ?_, ?_⟩))
    · rw [MergeTarget.reached_nil]
      exact h₈.held m (h₇.leg.held m₆ (Set.notMem_empty _)) (by simp)
    · rw [h₈.ledger, h₇.ledger]

/-- What holds after a chain of candidates. -/
theorem walks_candidates {n : Node} {call : Call Node} {m : MergeTarget} {self : Option Operand}
    {args : List Operand} {ids : List DefId} (ho : c.program.Owns e n.preorder)
    (hn : n.kind = .call call) (hids : ids ⊆ call.targets) (hlen : call.targets.length ≠ 1)
    (hm : Held c e g s m)
    (htype : m.type = n.type) (hs : ∀ o, self = some o → o.Usable c e s)
    (ha : ∀ o ∈ args, o.Usable c e s) :
    Walks c e {(s.fn.func, m.block)} g s
      (ids.mapM (candidate visit n call m.block m.slot self args))
      fun g' s' incoming => Held c e g' s' (m.reached incoming.flatten) ∧
        g'.waiting = g.waiting := by
  induction ids generalizing g s m with
  | nil =>
    refine .pure fun _ => ⟨?_, rfl⟩
    show Held c e g s (m.reached [])
    rwa [MergeTarget.reached_nil]
  | cons id ids ih =>
    obtain ⟨hid, hids⟩ := List.cons_subset.mp hids
    rw [List.mapM_cons]
    refine (walks_candidate hv ho hn hid hlen hm htype hs ha).bind fun incoming g₁ s₁ l₁ h₁ => ?_
    have hrest := ih (m := m.reached incoming) hids h₁.held htype (fun o h => l₁.operand (hs o h))
      fun o h => l₁.operand (ha o h)
    rw [show (s₁.fn.func, (m.reached incoming).block) = (s.fn.func, m.block) by
      rw [l₁.stay.fn]; rfl] at hrest
    refine hrest.bind fun rest g₂ s₂ _ h₂ => .pure fun _ => ⟨?_, h₂.2.trans h₁.waiting⟩
    rw [List.flatten_cons, MergeTarget.reached_append]
    exact h₂.1

/-- What follows the operands of a call with several candidates. -/
theorem walks_dispatchAfter {n : Node} {call : Call Node} {self : Option Operand}
    {args : List Operand} (ho : c.program.Owns e n.preorder) (hn : n.kind = .call call)
    (hlen : call.targets.length ≠ 1) (hs : ∀ o, self = some o → o.Usable c e s)
    (ha : ∀ o ∈ args, o.Usable c e s) :
    Walks c e X g s (do
      if ← isTerminated then deadValue n.type
      else
        let exit ← appendBlock "exit"
        let slot ← mergeSlot n.type
        let incoming ← call.targets.mapM (candidate visit n call exit slot self args)
        Build.unreachable
        merge exit slot n.type incoming.flatten) (Visited c e g s) := by
  refine .ask rfl ?_
  split
  · exact emits_deadValue.visited
  refine (Walks.fresh (P := fun g' s' v => g'.waiting = g.waiting ∧ Gen.Usable c (some e) s' v)
    ?_).mono fun _ _ _ _ h => ⟨h.1, h.2.1, h.2.2⟩
  refine walks_appendBlock.bind fun exit g₁ s₁ _ h₁ => ?_
  refine emits_mergeSlot.walks.bind fun slot g₂ s₂ _ ⟨h₂, hslot⟩ => ?_
  have hm : Held c e g₂ s₂ { block := exit, type := n.type, slot } :=
    (h₂.leg.held (h₁.held n.type) (Set.notMem_empty _)).slotted hslot
  have l := h₁.leg.trans h₂.leg
  have l₂ : Leg c e {p | ¬ s.Has p.1 p.2} g s g₂ s₂ := l.widen
  refine ((walks_candidates (m := { block := exit, type := n.type, slot }) hv ho hn
    (List.Subset.refl _) hlen hm rfl (fun o h => l.operand (hs o h))
      fun o h => l.operand (ha o h)).narrow fun f b hb => .inl ?_).bind
        fun incoming g₃ s₃ q₃ ⟨_, m₃, w₃⟩ => ?_
  · rw [Set.mem_singleton_iff.mp hb]
    exact l₂.mem_fresh h₁.fresh
  have l₃ := l₂.trans q₃
  refine walks_unreachable.bind fun _ g₄ s₄ q₄ h₄ => ?_
  have l₄ := l₃.trans q₄
  refine walks_merge (m := MergeTarget.reached { block := exit, type := n.type, slot }
    incoming.flatten) (h₄.held _ m₃ (by simp)) (l₄.mem_fresh h₁.fresh) h₄.terminated ?_
  rw [h₄.ledger, w₃, h₂.ledger, h₁.waiting, l₄.stay.fn]
  rfl

theorem walks_dispatch {n : Node} {call : Call Node} (ho : c.program.Owns e n.preorder)
    (hn : n.kind = .call call) (hlen : call.targets.length ≠ 1) :
    Walks c e X g s (dispatch visit n call) (Visited c e g s) := by
  obtain ⟨hor, hoa, -⟩ := owns_call ho hn
  unfold dispatch
  refine emits_note.walks.bind fun _ g₁ s₁ _ ⟨h₁, _⟩ => ?_
  refine (walks_receiverOperand hv hor).bind fun self g₂ s₂ _ ⟨l₂, w₂, hs⟩ => ?_
  refine (walks_argumentOperands hv hoa).bind fun args g₃ s₃ _ ⟨l₃, w₃, ha⟩ => ?_
  have hargs : Visited c e g s g₃ s₃ nilValue :=
    ⟨h₁.leg.trans (l₂.trans l₃), by rw [w₃, w₂, h₁.ledger], trivial⟩
  exact (walks_dispatchAfter hv ho hn hlen (fun o h => l₃.operand (hs o h)) ha).mono
    fun _ _ _ _ h => hargs.trans h

theorem walks_call {n : Node} {call : Call Node} (ho : c.program.Owns e n.preorder)
    (hn : n.kind = .call call) :
    Walks c e X g s (Gen.call visit n call) (Visited c e g s) := by
  unfold Gen.call
  split
  · exact .fail
  · rename_i id hids
    exact walks_staticCall hv ho hn hids
  · rename_i hne
    exact walks_dispatch hv ho hn fun hlen => (List.length_eq_one_iff.mp hlen).elim hne

end

end Lowering.Gen
