import Lowering.Proofs.Descent

/-!
# Functions and initializers that are begun on the way

A function is generated in the middle of another one, under the activation of its parameters, and an
initializer under an activation without variables.  Nothing of the code around it is in sight, and
one more symbol or one more constant is taken.

* `Gen.types_of_parameterScope`: the types of the variables of parameters;
* `Gen.sure_functionOf`, `Gen.sure_callFunction`: functions;
* `Gen.sure_constant`: constants.
-/

namespace Lowering.Gen

open IR (Ty Value FuncId BlockId GlobalId Build Module)

variable {α β : Type} {c : Context} {e : Entity} {g : Ledger} {s s' t : State} {d : Def} {μ : Nat}
  {func : FuncId} {name : String} {selfType : Option TypeId}

/-! ### The types of parameters -/

theorem type_of_ownCopy {k : TypeId} {addr : Value} {v : Variable}
    (h : Gives (ownCopy name k addr) c s v s') : v.type = k := by
  obtain ⟨_, _, -, h⟩ := gives_bind.mp h
  obtain ⟨_, _, -, h⟩ := gives_bind.mp h
  obtain ⟨_, _, -, h⟩ := gives_bind.mp h
  rw [(gives_pure.mp h).1]

theorem type_of_receiverVariable {k : TypeId} {value : Value} {v : Variable}
    (h : Gives (receiverVariable k value) c s v s') : v.type = k := by
  obtain ⟨_, _, -, h⟩ := gives_bind.mp h
  split at h
  · exact type_of_ownCopy h
  · rw [(gives_pure.mp h).1]

theorem type_of_argumentVariable {k : TypeId} {value : Value} {v : Variable}
    (h : Gives (argumentVariable name k value) c s v s') : v.type = k := by
  obtain ⟨_, _, -, h⟩ := gives_bind.mp h
  split at h
  · exact type_of_ownCopy h
  · obtain ⟨_, _, -, h⟩ := gives_bind.mp h
    obtain ⟨_, _, -, h⟩ := gives_bind.mp h
    obtain ⟨_, _, -, h⟩ := gives_bind.mp h
    rw [(gives_pure.mp h).1]

theorem types_of_argumentScope {vars vars' : Scope} {args : List Arg} {values : List Value}
    (h : Gives (argumentScope d vars args values) c s vars' s') {P : TypeId → Prop}
    (hv : ∀ p ∈ vars, P p.2.type) (ha : ∀ a ∈ args, P a.type) : ∀ p ∈ vars', P p.2.type := by
  induction args generalizing s vars values with
  | nil =>
    rw [argumentScope] at h
    rw [(gives_pure.mp h).1]
    exact hv
  | cons a args ih =>
    cases values with
    | nil => exact absurd h not_gives_fail
    | cons value values =>
      obtain ⟨v, s₁, h₁, h⟩ := gives_bind.mp h
      refine ih h (fun p hp => ?_) fun a' ha' => ha a' (List.mem_cons_of_mem _ ha')
      rcases List.mem_cons.mp hp with rfl | hp
      · exact (type_of_argumentVariable h₁).symm ▸ ha a List.mem_cons_self
      · exact hv p hp

theorem types_of_parameterScope {vars : Scope} {values : List Value}
    (h : Gives (parameterScope d selfType values) c s vars s') {P : TypeId → Prop}
    (hs : ∀ t ∈ selfType, P t) (ha : ∀ t ∈ d.argTypes, P t) : ∀ p ∈ vars, P p.2.type := by
  have hargs : ∀ a ∈ d.args, P a.type := fun a h => ha a.type (List.mem_map_of_mem h)
  have hnil : ∀ p ∈ ([] : Scope), P p.2.type := fun p hp => absurd hp List.not_mem_nil
  unfold parameterScope at h
  split at h
  · exact absurd h not_gives_fail
  · obtain ⟨v, s₁, h₁, h⟩ := gives_bind.mp h
    refine types_of_argumentScope h (fun p hp => ?_) hargs
    obtain rfl := List.mem_singleton.mp hp
    exact (type_of_receiverVariable h₁).symm ▸ hs _ rfl
  · exact types_of_argumentScope h hnil hargs

theorem types_of_primitiveScope {P : TypeId → Prop} (hs : ∀ t ∈ selfType, P t)
    (ha : ∀ t ∈ d.argTypes, P t) : ∀ p ∈ primitiveScope d selfType, P p.2.type := by
  intro p hp
  simp only [primitiveScope, List.mem_reverse, List.mem_map] at hp
  obtain ⟨⟨⟨n, t⟩, i⟩, hi, rfl⟩ := hp
  have hparam : (n, t) ∈ parameters d selfType := List.fst_mem_of_mem_zipIdx hi
  rcases List.mem_append.mp hparam with hself | harg
  · cases selfType with
    | none => exact absurd hself List.not_mem_nil
    | some k =>
      obtain ⟨-, rfl⟩ := Prod.mk.inj (List.mem_singleton.mp hself)
      exact hs t rfl
  · obtain ⟨a, ha', he⟩ := List.mem_map.mp harg
    obtain ⟨-, rfl⟩ := Prod.mk.inj he
    exact ha a.type (List.mem_map_of_mem ha')

theorem types_of_functionActivation {act : Activation}
    (h : Gives (functionActivation d selfType) c s act s') {P : TypeId → Prop}
    (hs : ∀ t ∈ selfType, P t) (ha : ∀ t ∈ d.argTypes, P t) :
    act.scope = selfType ∧ ∀ p ∈ act.vars, P p.2.type := by
  unfold functionActivation at h
  dsimp only at h
  split at h
  · have h := gives_after (show Gives (pure (primitiveScope d selfType)) c s _ s from rfl) h
    rw [(gives_pure.mp h).1]
    exact ⟨rfl, types_of_primitiveScope hs ha⟩
  · obtain ⟨vars, s₁, h₁, h⟩ := gives_bind.mp h
    rw [(gives_pure.mp h).1]
    exact ⟨rfl, types_of_parameterScope h₁ hs ha⟩

/-! ### A function is generated -/

/-- The body of a function is generated in a state from which generation goes on. -/
theorem AtBody.ready {act : Activation} {s₁ s₂ : State} (h : AtBody c e g s func d act s₁ s₂)
    (hr : Reviewed c) (hd : d ∈ c.program.defs) (hs : ∀ t ∈ selfType, c.Knows t)
    (hact : Gives (functionActivation d selfType) c s₁ act s₂) (ht : Tidy c s₂) :
    Ready c (.definition d) (g.entered s e func d) (s₂.under act []) := by
  obtain ⟨hscope, htypes⟩ := types_of_functionActivation hact hs fun _ => hr.valid.contains_argType hd
  refine ⟨h.inv, { ht with types := htypes }, ?_⟩
  constructor
  case scope => exact hscope ▸ hs
  case callers => exact fun fr hfr => absurd hfr List.not_mem_nil
  case blocks => exact fun fr hfr => absurd hfr List.not_mem_nil
  case targets =>
    intro t ht
    rw [h.callTargets] at ht
    exact absurd ht List.not_mem_nil
  case result =>
    intro t ht
    have hreturn : (s₂.under act []).fn.returnType = d.type :=
      (congrArg FunctionState.returnType h.fn).trans h.returnType
    exact hr.valid.contains_resultType hd (hreturn.symm.trans ht)
  case definition =>
    intro d' hd'
    exact Option.some.inj (h.definition.symm.trans hd') ▸ hd

theorem functionRecord_inj {name' : String} (h : functionRecord name = functionRecord name') :
    name = name' :=
  (String.append_right_inj _).mp (congrArg Log.Record.message h)

/-- The code of a function is begun once. -/
theorem Tidy.begun (h : Tidy c s) (hnew : functionRecord name ∉ s.log.about "generating ")
    (hname : name ∈ s.builder.module.names) :
    Tidy c { s with log := s.log.push ⟨.debug, "generating " ++ name⟩ } := by
  have hlog : Log.about (s.log.push ⟨.debug, "generating " ++ name⟩) "generating " =
      s.log.about "generating " ++ [functionRecord name] := by
    rw [Log.about_push, if_pos (Log.Record.tells_append _ _)]
    rfl
  have hother : Log.Record.tells "hoisting initializer of constant "
      ⟨.debug, "generating " ++ name⟩ = false :=
    Log.Record.not_tells (a := 'h') (b := 'g') rfl (by simp) (by decide)
  constructor
  case once =>
    show (Log.about (s.log.push _) _).Nodup
    rw [hlog]
    exact List.nodup_append.mpr ⟨h.once, List.nodup_singleton _, fun r hr r' hr' he =>
      hnew (List.mem_singleton.mp hr' ▸ he ▸ hr)⟩
  case named =>
    intro r hr
    rw [hlog] at hr
    rcases List.mem_append.mp hr with hr | hr
    · exact h.named r hr
    · exact ⟨name, hname, List.mem_singleton.mp hr⟩
  case hoisted =>
    show Log.about (s.log.push _) _ = _
    rw [Log.about_push, hother, if_neg Bool.false_ne_true, List.append_nil]
    exact h.hoisted
  case keys => exact h.keys
  case constants => exact h.constants
  case types => exact h.types

/-- What is left to do in a state where nothing waits, of which there is at least so much as in
another one. -/
def Leaves (c : Context) (s : State) (μ : Nat) : Prop :=
  ∀ t : State, s.builder.module.Grows t.builder.module → s.consts ⊆ t.consts → t.blocks = [] →
    load c.program t + c.program.base ≤ μ

theorem within_body {n : Node} (ho : c.program.Owns e n.preorder) (hn : n ∈ c.program.bodies)
    (h : load c.program s + c.program.base ≤ μ) : Within c e μ s n :=
  ⟨ho, (Nat.add_lt_add_left (Program.weight_lt_base hn) _).trans_le h⟩

section

variable {visit visit' : Visitor} (hf : Follows c μ visit visit')
include hf

theorem sure_functionBody (h : ∀ m ∈ d.body, Within c e μ s m) :
    Sure c e g s (functionBody visit d) (functionBody visit' d) :=
  (sure_operand hf h).last fun r => Restores.wide <| restores_isTerminated.bind fun done => by
    split
    · exact .pure _
    · exact restores_returnFromFunction

theorem met_fillFunction (hr : Reviewed c) (hi : Inv c e g s) (hb : Beginning c e g s func d)
    (hp : (s.func func).params.length = (parameters d selfType).length)
    (hs : ∀ t ∈ selfType, c.Knows t) (ht : Tidy c s) (hl : Leaves c s μ) :
    Met c s (fillFunction visit func d selfType) (fillFunction visit' func d selfType) := by
  have hd : d ∈ c.program.defs := hb.depends.contains
  refine .aside ((Met.quiet ht quiet_enterFunction).bind fun _ s₁ henter ht₁ =>
    .skip (show Gives get c s₁ s₁ s₁ from rfl) (Met.attempt ?_ fun r t hends => ?_))
  · refine (Met.step ht₁ restores_functionActivation.wide).bind fun act s₂ hact ht₂ => ?_
    have hat := atBody_of_gives hi hb hp henter hact
    obtain ⟨n₀, n₁, hpath⟩ := hat.path
    have hload := hl (s₂.under act []) (grows_entered.code.trans hpath.grows.code)
      hpath.consts.subset rfl
    have hstate : { s₂ with act } = s₂.under act [] := by rw [State.under, ← hat.blocks]
    refine .withActivation (hstate ▸ sure_functionBody hf (fun m hm => ?_)
      (hat.ready hr hd hs hact ht₂)) ht₂.types
    refine within_body ?_ (Program.mem_bodies.mpr (.inr (.inl ⟨d, hd, hm⟩))) hload
    have ho := Program.owns_code (p := c.program) (a := .definition d) hd
    rwa [Program.code, Option.mem_def.mp hm] at ho
  · refine (Met.quiet hends.tidy quiet_positionAt).bind fun _ s₂ _ ht₂ => ?_
    refine (Met.step ht₂ still_br.restores.wide).bind fun _ s₃ _ ht₃ => ?_
    exact .resume ⟨ht₃, hends.cause⟩

theorem met_makeFunction (hr : Reviewed c) (hi : Ready c e g s)
    (hd : c.program.Calls e d name) (hn : name ∈ c.program.functionNames)
    (fresh : s.builder.module.findFunction name = none) (hs : ∀ t ∈ selfType, c.Knows t)
    (hl : load c.program s ≤ μ) :
    Met c s (makeFunction visit name d selfType) (makeFunction visit' name d selfType) := by
  have hfresh : ∀ f : FuncId, f.index < s.builder.module.functions.size →
      (s.builder.module.function f).name ≠ name := fun f hf =>
    Module.name_ne_of_findFunction fresh hf
  have hentry : name ≠ IR.entryName := fun hn =>
    hfresh _ (index_lt_of_hasBlock hi.inv.steady.entry) (hi.inv.steady.entryName.trans hn.symm)
  refine (Met.step hi.tidy restores_declareFunction.wide).bind fun f s₁ h₁ ht₁ => ?_
  obtain ⟨g₁, l₁, ⟨p₁, hf₁⟩⟩ :=
    (emits_declareFunction hentry hfresh).walks (X := ∅) hi.inv f s₁ h₁
  split
  · exact .last (.step ht₁ (restores_note (begins_nothing (by simp; rfl) (by decide))).wide)
      fun _ => .pure _
  rename_i hext
  obtain rfl := p₁.ledger
  have hname : name ∈ s₁.builder.module.names := hf₁.name_eq ▸ Module.mem_names hf₁.foreign.1
  have hnew : functionRecord name ∉ s₁.log.about "generating " := by
    rw [(restores_declareFunction.gives h₁).2.begun _ (by simp [beginnings])]
    intro hm
    obtain ⟨name', hm', he⟩ := hi.tidy.named _ hm
    exact IR.Module.not_mem_names fresh (functionRecord_inj he ▸ hm')
  have hnote : Gives (note .debug ("generating " ++ name)) c s₁ () _ := rfl
  obtain ⟨g₂, l₂, ⟨p₂, -⟩⟩ := emits_note.walks (X := ∅) l₁.inv () _ hnote
  obtain rfl := p₂.ledger
  have hb := hf₁.beginning hi.inv hd (by simpa using hext)
  refine .skip hnote (.last (met_fillFunction hf hr l₂.inv { hb with } hf₁.params hs
    (ht₁.begun hnew hname) fun t hm hc hblocks => ?_) fun _ => .pure _)
  have htaken : c.program.untaken t.builder.module < c.program.untaken s.builder.module :=
    untaken_lt (l₁.path.grows.code.trans hm) hn fresh fun hnone =>
      IR.Module.not_mem_names (hm.findFunction hnone) hname
  exact (load_begun hblocks (Nat.add_lt_add_of_lt_of_le htaken
    (unhoisted_le (List.Subset.trans l₁.path.consts.subset hc)))).trans hl

theorem sure_functionOf (hr : Reviewed c) (hd : c.program.Depends e (.definition d))
    (hm : c.program.Means d selfType) (hl : load c.program s ≤ μ) :
    Sure c e g s (functionOf visit d selfType) (functionOf visit' d selfType) := by
  have hs : ∀ t ∈ selfType, c.Knows t := fun t ht =>
    Program.Means.contains hr.valid (Option.mem_def.mp ht ▸ hm)
  refine .ask (a := c.program.types) rfl (.ask (a := s) rfl ?_)
  cases hnone : s.builder.module.findFunction (d.mangledName c.program.types selfType) with
  | some f => exact .pure f
  | none =>
    exact fun hi => met_makeFunction hf hr hi ⟨hd, hm.asks⟩
      (Program.mem_functionNames hm.mem_defs hs) hnone hs hl

theorem sure_callFunction {args : List Value} (hr : Reviewed c)
    (hd : c.program.Depends e (.definition d)) (hm : c.program.Means d selfType)
    (hl : load c.program s ≤ μ) :
    Sure c e g s (callFunction visit d selfType args) (callFunction visit' d selfType args) :=
  (sure_functionOf hf hr hd hm hl).last fun _ => Restores.wide <| restores_get.bind fun _ =>
    restores_coerceAll.bind fun _ => still_call.restores.bind fun _ =>
      restores_noteCall.bind fun _ => restores_callResult

end

/-! ### An initializer is generated -/

section

variable {id : ConstId} {content : IR.Global} {k : ConstDef} {title : String}

/-- The initializer of a constant is begun once. -/
theorem Tidy.hoisting (h : Tidy c s) (hk : c.program.const? id = some k)
    (hnew : ∀ gl, (id, gl) ∉ s.consts) : Tidy c (s.hoisting c id content title
      (s.log.push ⟨.debug, "hoisting initializer of constant " ++ k.name⟩) s.act) := by
  have hother : Log.Record.tells "generating "
      ⟨.debug, "hoisting initializer of constant " ++ k.name⟩ = false :=
    Log.Record.not_tells (a := 'g') (b := 'h') rfl (by simp) (by decide)
  have hlog : Log.about (s.log.push ⟨.debug, "hoisting initializer of constant " ++ k.name⟩)
      "generating " = s.log.about "generating " := by
    rw [Log.about_push, hother, if_neg Bool.false_ne_true, List.append_nil]
  constructor
  case once => exact hlog ▸ h.once
  case named =>
    intro r hr
    have hr : r ∈ s.log.about "generating " := hlog ▸ hr
    obtain ⟨name, hname, hr⟩ := h.named r hr
    refine ⟨name, ?_, hr⟩
    exact IR.Module.names_subset_modifyFunction (g := fun fn => fn.withBlock { name := title })
      (fun _ => rfl) hname
  case hoisted =>
    show Log.about (s.log.push _) _ = _
    rw [Log.about_push, if_pos (Log.Record.tells_append _ _), h.hoisted]
    simp [State.hoisting, initializerRecord, hk]
  case keys =>
    refine List.nodup_cons.mpr ⟨fun hm => ?_, h.keys⟩
    obtain ⟨q, hq, he⟩ := List.mem_map.mp hm
    exact hnew q.2 (by rwa [← show q.1 = id from he])
  case constants =>
    intro q hq
    rcases List.mem_cons.mp hq with rfl | hq
    · exact (List.getElem?_eq_some_iff.mp hk).1
    · exact h.constants q hq
  case types => exact h.types

/-- An initializer is generated in a state from which generation goes on. -/
theorem Ready.hoisting (h : Ready c e g s) (hr : Reviewed c) (hk : c.program.const? id = some k)
    (hd : c.program.Depends e (.constant id)) (hnew : ∀ gl, (id, gl) ∉ s.consts) :
    Ready c (.constant id) (g.hoisting s c e id) ((s.hoisting c id content title
      (s.log.push ⟨.debug, "hoisting initializer of constant " ++ k.name⟩) s.act).under
        { vars := [], scope := c.program.types.program? } []) := by
  refine ⟨((h.inv.hoisting hd hnew).bare (X := ∅) rfl ?_ rfl rfl).1, ?_, ?_⟩
  · exact fun p hp => absurd hp List.not_mem_nil
  · exact { h.tidy.hoisting hk hnew with types := fun p hp => absurd hp List.not_mem_nil }
  constructor
  case scope => exact fun t ht => TypeTable.mem_ids.mp (List.mem_of_find?_eq_some ht)
  case callers => exact fun fr hfr => absurd hfr List.not_mem_nil
  case blocks => exact fun fr hfr => absurd hfr List.not_mem_nil
  case targets => exact fun t ht => absurd ht List.not_mem_nil
  case result => exact hr.result
  case definition => exact h.listed.definition

/-- What is left to do for an initializer. -/
theorem load_hoisting {log : Log} {act act' : Activation} (hk : c.program.const? id = some k)
    (hnew : s.consts.lookup id = none) :
    load c.program ((s.hoisting c id content title log act).under act' []) + c.program.base ≤
      load c.program s := by
  refine load_begun rfl (Nat.add_lt_add_of_le_of_lt ?_ ?_)
  · exact untaken_le (grows_hoisting (s := s)).code
  · exact unhoisted_lt (List.getElem?_eq_some_iff.mp hk).1 hnew

variable {visit visit' : Visitor} (hf : Follows c μ visit visit')
include hf

theorem met_hoist {t : TypeId} (hi : Ready c e g s) (hr : Reviewed c)
    (hk : c.program.const? id = some k) (hd : c.program.Depends e (.constant id))
    (hnew : s.consts.lookup id = none) (hl : load c.program s ≤ μ) :
    Met c (s.withConstant id content s.log) (hoist visit s.builder.module.nextGlobal k t)
      (hoist visit' s.builder.module.nextGlobal k t) := by
  have hfresh : ∀ gl, (id, gl) ∉ s.consts := fun gl hm => by
    simpa using List.lookup_eq_none_iff.mp hnew _ hm
  refine .skip rfl (.aside (.skip rfl (.skip rfl (.skip rfl (.skip rfl
    (.bind (.skip rfl (.withActivation ?_ hi.tidy.types)) fun tail s₁ _ ht₁ => ?_))))))
  · have ho : c.program.Owns (.constant id) k.value.preorder := by
      have hcode := Program.owns_code (p := c.program) (a := .constant id) trivial
      rwa [Program.code, hk] at hcode
    have hbody : k.value ∈ c.program.bodies :=
      Program.mem_bodies.mpr (.inr (.inr ⟨k, List.mem_of_getElem? hk, rfl⟩))
    refine Met.bind (hf _ _ _ _ (within_body ho hbody ((load_hoisting hk hnew).trans hl))
      (hi.hoisting hr hk hd hfresh)) fun _ s₁ _ ht₁ => ?_
    exact Met.quiet ht₁ (quiet_settle.bind fun _ s₂ _ => (restores_currentBlock.wide s₂).2)
  · refine .skip (show Gives get c s₁ s₁ s₁ from rfl) ?_
    refine (Met.quiet ht₁ quiet_positionAt).bind fun _ s₂ _ ht₂ => ?_
    refine (Met.step ht₂ still_br.restores.wide).bind fun _ s₃ _ ht₃ => ?_
    exact .step ht₃ (restores_modify (fun _ => .of_eq rfl rfl rfl rfl rfl rfl)
      fun _ => ⟨rfl, rfl, rfl, rfl⟩)

theorem sure_constant (hr : Reviewed c) (hid : id.index < c.program.consts.length)
    (hd : c.program.Depends e (.constant id)) (hl : load c.program s ≤ μ) :
    Sure c e g s (constant visit id) (constant visit' id) := by
  have hk : c.program.const? id = some c.program.consts[id.index] := List.getElem?_eq_getElem hid
  refine .ask (a := c) rfl (.ask (a := c.program.consts[id.index]) (by rw [hk]; rfl) ?_)
  refine .ask rfl (.last (fun hi => ?_) fun _ => restores_heldIn.wide)
  refine .skip (show Gives get c s s s from rfl) ?_
  cases hnew : s.consts.lookup id with
  | some gl => exact .pure hi.tidy gl
  | none =>
    refine .skip rfl (.skip rfl (.skip rfl ?_))
    exact .last (met_hoist hf hi hr hk hd hnew hl) fun _ => .pure _

end

end Lowering.Gen
