import Lowering.Gen.Dispatch
import Lowering.Gen.Primitive
import Lowering.Proofs.Interned

/-!
# What a step of generation leaves as it was

Code is placed on behalf of a function, of a definition, of the blocks that wait to be inlined and
of an activation.  Whether a step gives a value or fails, these are afterwards what they were, but
for variables that came into scope.

* `Gen.outcome`: what a step comes to, failure included;
* `Gen.Restored`, `Gen.Restores`, with its rules;
* `Gen.restores_convert`, `Gen.restores_assign`, `Gen.restores_truth` and those for the other steps
  that generate no expressions themselves.
-/

namespace Lowering.Log

/-- A record of the inner steps that begins with some words. -/
def Record.tells (words : String) (r : Record) : Bool :=
  r.level == .debug && words.toList.isPrefixOf r.message.toList

theorem Record.tells_append (words rest : String) :
    Record.tells words ⟨.debug, words ++ rest⟩ = true := by
  simp [Record.tells]

/-- A message that starts otherwise than some words does not begin with them. -/
theorem Record.not_tells {level : Level} {words message : String} {a b : Char}
    (hw : words.toList.head? = some a) (hm : message.toList.head? = some b) (hne : a ≠ b) :
    Record.tells words ⟨level, message⟩ = false := by
  obtain ⟨w, hw⟩ := List.head?_eq_some_iff.mp hw
  obtain ⟨m, hm⟩ := List.head?_eq_some_iff.mp hm
  rw [tells, hw, hm]
  simp [List.isPrefixOf, hne]

/-- The records of the inner steps that begin with some words. -/
def about (log : Log) (words : String) : List Record :=
  log.toList.filter (Record.tells words)

theorem about_push {log : Log} {r : Record} {words : String} :
    about (log.push r) words = log.about words ++ if r.tells words then [r] else [] := by
  cases h : r.tells words <;> simp [about, h]

end Lowering.Log

namespace Lowering.Gen

open IR (Ty Value FuncId BlockId GlobalId InstKind Build Terminator)

variable {α β : Type}

/-! ### Outcomes -/

/-- What a step comes to: a value or a failure, and the state that it leaves. -/
def outcome (x : Gen α) (c : Context) (s : State) : Except Failure α × State := x c s

theorem outcome_bind (x : Gen α) (f : α → Gen β) (c : Context) (s : State) :
    outcome (x >>= f) c s = goOn f c (outcome x c s) :=
  bind_outcome x f c s

/-- What a step comes to of which the first part is known. -/
theorem outcome_after {x : Gen α} {f : α → Gen β} {c : Context} {s t : State} {a : α}
    (h : outcome x c s = (.ok a, t)) : outcome (x >>= f) c s = outcome (f a) c t := by
  rw [outcome_bind, h]
  rfl

/-- A step that is attempted, and what has to be done however it ends. -/
theorem outcome_finally (x : Gen α) {y : Gen Unit} {c : Context} {s s' : State}
    (hy : outcome y c (outcome x c s).2 = (.ok (), s')) :
    outcome (do let r ← attempt x; y; resume r) c s = ((outcome x c s).1, s') := by
  rw [outcome_bind]
  show outcome (y >>= fun _ => resume (outcome x c s).1) c (outcome x c s).2 = _
  rw [outcome_bind, hy]
  show outcome (resume (outcome x c s).1) c s' = _
  cases (outcome x c s).1 <;> rfl

/-- A step that is attempted, and a change of the state that is made however it ends. -/
theorem outcome_finally_modify (x : Gen α) (g : State → State) (c : Context) (s : State) :
    outcome (do let r ← attempt x; modify g; resume r) c s =
      ((outcome x c s).1, g (outcome x c s).2) :=
  outcome_finally x rfl

/-! ### Restored states -/

/-- An activation that is the other one, but for variables that came into scope. -/
structure Activation.Kept (a a' : Activation) : Prop where
  scope : a'.scope = a.scope
  returnTarget : a'.returnTarget = a.returnTarget
  breakTarget : a'.breakTarget = a.breakTarget
  vars : ∀ name v, a.vars.lookup name = some v →
    ∃ v', a'.vars.lookup name = some v' ∧ v'.type = v.type

theorem Activation.Kept.refl (a : Activation) : a.Kept a :=
  ⟨rfl, rfl, rfl, fun _ v h => ⟨v, h, rfl⟩⟩

theorem Activation.Kept.trans {a₁ a₂ a₃ : Activation} (h : a₁.Kept a₂) (h' : a₂.Kept a₃) :
    a₁.Kept a₃ where
  scope := h'.scope.trans h.scope
  returnTarget := h'.returnTarget.trans h.returnTarget
  breakTarget := h'.breakTarget.trans h.breakTarget
  vars name v hv := by
    obtain ⟨v₂, hv₂, ht₂⟩ := h.vars name v hv
    obtain ⟨v₃, hv₃, ht₃⟩ := h'.vars name v₂ hv₂
    exact ⟨v₃, hv₃, ht₃.trans ht₂⟩

/-- Instructions are placed in the current function. -/
def State.InFunction (s : State) : Prop := ∃ b, s.builder.position = some (s.fn.func, b)

/-- A state in which generation can go on for the same code as in another one. -/
structure Restored (s s' : State) : Prop where
  fn : s'.fn = s.fn
  definition : s'.definition = s.definition
  blocks : s'.blocks = s.blocks
  act : s.act.Kept s'.act
  inFunction : s.InFunction → s'.InFunction
  interns : Interns s s'

theorem Restored.refl (s : State) : Restored s s := ⟨rfl, rfl, rfl, .refl _, id, .refl s⟩

theorem Restored.trans {s₁ s₂ s₃ : State} (h : Restored s₁ s₂) (h' : Restored s₂ s₃) :
    Restored s₁ s₃ :=
  ⟨h'.fn.trans h.fn, h'.definition.trans h.definition, h'.blocks.trans h.blocks,
    h.act.trans h'.act, fun hs => h'.inFunction (h.inFunction hs), h.interns.trans h'.interns⟩

/-- A state that differs in nothing of all that. -/
theorem Restored.of_eq {s s' : State} (hfn : s'.fn = s.fn) (hd : s'.definition = s.definition)
    (hb : s'.blocks = s.blocks) (ha : s'.act = s.act)
    (hp : s'.builder.position = s.builder.position) (hr : s'.registry = s.registry) :
    Restored s s' :=
  ⟨hfn, hd, hb, ha ▸ .refl _, fun ⟨b, h⟩ => ⟨b, by rw [hp, h, hfn]⟩, .of_eq hr⟩

/-! ### What a step may do besides -/

/-- The words of the records that the code of a function and that an initializer are begun. -/
def beginnings : List String := ["generating ", "hoisting initializer of constant "]

/-- A cause other than what a review of the program or the bound on the nesting rules out. -/
def Cause.Ordinary : Cause → Prop
  | .unknownConstant _ | .unknownSymbol _ | .nestingTooDeep => False
  | _ => True

/-- How a step ends that begins no function and no initializer: variables come into scope only with
certain types, and it fails only for certain causes, without a position. -/
structure Quiet (T : TypeId → Prop) (F : Cause → Prop) (s : State)
    (o : Except Failure α × State) : Prop where
  begun : ∀ words ∈ beginnings, o.2.log.about words = s.log.about words
  consts : o.2.consts = s.consts
  names : s.builder.module.names ⊆ o.2.builder.module.names
  types : ∀ p ∈ o.2.act.vars, (∃ q ∈ s.act.vars, q.2.type = p.2.type) ∨ T p.2.type
  cause : ∀ f, o.1 = .error f → F f.cause
  unlocated : ∀ f, o.1 = .error f → f.location = none

namespace Quiet

variable {T T' : TypeId → Prop} {F F' : Cause → Prop} {s s' s'' : State}

/-- A step that gives a value and changes nothing of all that. -/
theorem of_eq {a : α} (hl : s'.log = s.log) (hc : s'.consts = s.consts) (ha : s'.act = s.act)
    (hn : s.builder.module.names ⊆ s'.builder.module.names) : Quiet T F s (.ok a, s') where
  begun _ _ := by rw [hl]
  consts := hc
  names := hn
  types p hp := .inl ⟨p, ha ▸ hp, rfl⟩
  cause _ h := by cases h
  unlocated _ h := by cases h

theorem refl (a : α) (s : State) : Quiet T F s (.ok a, s) :=
  of_eq rfl rfl rfl (List.Subset.refl _)

theorem failed {k : Cause} (h : F k) :
    Quiet T F s ((.error { cause := k }, s) : Except Failure α × State) where
  begun _ _ := rfl
  consts := rfl
  names := List.Subset.refl _
  types p hp := .inl ⟨p, hp, rfl⟩
  cause _ he := by cases he; exact h
  unlocated _ he := by cases he; rfl

theorem trans {a : α} {r : Except Failure β} (h : Quiet T F s (.ok a, s'))
    (h' : Quiet T F s' (r, s'')) : Quiet T F s (r, s'') where
  begun words hw := (h'.begun words hw).trans (h.begun words hw)
  consts := h'.consts.trans h.consts
  names := List.Subset.trans h.names h'.names
  types p hp := by
    rcases h'.types p hp with ⟨q, hq, he⟩ | ht
    · rcases h.types q hq with ⟨q', hq', he'⟩ | ht
      · exact .inl ⟨q', hq', he'.trans he⟩
      · exact .inr (he ▸ ht)
    · exact .inr ht
  cause := h'.cause
  unlocated := h'.unlocated

theorem mono {r : Except Failure α} (h : Quiet T F s (r, s')) (hT : ∀ t, T t → T' t)
    (hF : ∀ k, F k → F' k) : Quiet T' F' s (r, s') where
  begun := h.begun
  consts := h.consts
  names := h.names
  types p hp := (h.types p hp).imp_right (hT _)
  cause f he := hF _ (h.cause f he)
  unlocated := h.unlocated

theorem bind {c : Context} {x : Gen α} {f : α → Gen β} (hx : Quiet T F s (outcome x c s))
    (hf : ∀ a t, Gives x c s a t → Quiet T F t (outcome (f a) c t)) :
    Quiet T F s (outcome (x >>= f) c s) := by
  rw [outcome_bind]
  cases ho : outcome x c s with
  | mk r t =>
    rw [ho] at hx
    cases r with
    | error e =>
      exact ⟨hx.begun, hx.consts, hx.names, hx.types, fun e' he => hx.cause e' (by cases he; rfl),
        fun e' he => hx.unlocated e' (by cases he; rfl)⟩
    | ok a => exact hx.trans (hf a t ho)

end Quiet

/-- A step that leaves a state in which generation can go on, also when it fails. Variables that it
brings into scope have a type of `T`, and it fails for a cause of `F`. -/
def Restores (c : Context) (x : Gen α) (T : TypeId → Prop := fun _ => False)
    (F : Cause → Prop := Cause.Ordinary) : Prop :=
  ∀ s, Restored s (outcome x c s).2 ∧ Quiet T F s (outcome x c s)

variable {c : Context}

namespace Restores

variable {x : Gen α} {f : α → Gen β} {T T' : TypeId → Prop} {F F' : Cause → Prop}

theorem pure (a : α) : Restores c (pure a : Gen α) T F := fun s => ⟨.refl s, .refl a s⟩

theorem fail (cause : Cause) (h : F cause) :
    Restores c (Gen.fail cause : Gen α) T F :=
  fun s => ⟨.refl s, .failed h⟩

theorem bind (hx : Restores c x T F) (hf : ∀ a, Restores c (f a) T F) :
    Restores c (x >>= f) T F := by
  intro s
  obtain ⟨h, hq⟩ := hx s
  refine ⟨?_, hq.bind fun a t _ => (hf a t).2⟩
  rw [outcome_bind]
  generalize outcome x c s = o at h
  obtain ⟨e | a, t⟩ := o
  · exact h
  · exact h.trans (hf a t).1

/-- What holds of a step that gave a value. -/
theorem gives {a : α} {s t : State} (h : Restores c x T F) (ha : Gives x c s a t) :
    Restored s t ∧ Quiet T F s (.ok a, t) := by
  have hs := h s
  rwa [show outcome x c s = (.ok a, t) from ha] at hs

theorem mono (h : Restores c x T F) (hT : ∀ t, T t → T' t) (hF : ∀ k, F k → F' k) :
    Restores c x T' F' :=
  fun s => ⟨(h s).1, (h s).2.mono hT hF⟩

/-- A step that brings no variable into scope may be part of one that does. -/
theorem wide (h : Restores c x (fun _ => False) F) : Restores c x T F :=
  h.mono (fun _ => False.elim) fun _ => id

/-- A question leaves the state as it is. -/
theorem ask {a : State → α} (h : ∀ s, outcome x c s = (.ok (a s), s)) :
    Restores c x T F := fun s => by
  rw [h s]
  exact ⟨.refl s, .refl _ s⟩

/-- A question about the context has one answer. -/
theorem asked {a : α} (h : ∀ s, outcome x c s = (.ok a, s)) (hf : Restores c (f a) T F) :
    Restores c (x >>= f) T F := fun s => by
  rw [outcome_bind, h s]
  exact hf s

theorem foldlM {ι : Type} {f : β → ι → Gen β} (hf : ∀ b i, Restores c (f b i) T F) (l : List ι)
    (b : β) : Restores c (l.foldlM f b) T F := by
  induction l generalizing b with
  | nil => exact pure b
  | cons i l ih =>
    rw [List.foldlM_cons]
    exact bind (hf b i) ih

theorem mapM {ι : Type} {f : ι → Gen β} (hf : ∀ i, Restores c (f i) T F) (l : List ι) :
    Restores c (l.mapM f) T F := by
  induction l with
  | nil => exact pure []
  | cons i l ih =>
    rw [List.mapM_cons]
    exact bind (hf i) fun _ => bind ih fun _ => pure _

end Restores

/-- A step that leaves a state in which generation can go on as in an earlier one. -/
def RestoresSince (c : Context) (s : State) (x : Gen α) (T : TypeId → Prop) : Prop :=
  ∀ t, Restored s t →
    Restored s (outcome x c t).2 ∧ Quiet T Cause.Ordinary t (outcome x c t)

theorem Restores.since {x : Gen α} {T : TypeId → Prop} (hx : Restores c x) (s : State) :
    RestoresSince c s x T :=
  fun t h => ⟨h.trans (hx t).1, (hx.wide t).2⟩

theorem RestoresSince.bind {s : State} {x : Gen α} {f : α → Gen β} {T : TypeId → Prop}
    (hx : RestoresSince c s x T) (hf : ∀ a, RestoresSince c s (f a) T) :
    RestoresSince c s (x >>= f) T := by
  intro t ht
  obtain ⟨h, hq⟩ := hx t ht
  refine ⟨?_, ?_⟩
  · rw [outcome_bind]
    generalize outcome x c t = o at h
    obtain ⟨e | a, t'⟩ := o
    · exact h
    · exact (hf a t' h).1
  · refine hq.bind fun a t' ha => (hf a t' ?_).2
    rwa [show outcome x c t = (.ok a, t') from ha] at h

theorem restores_modify {g : State → State} {T : TypeId → Prop} {F : Cause → Prop}
    (h : ∀ s, Restored s (g s))
    (hq : ∀ s, (g s).log = s.log ∧ (g s).consts = s.consts ∧ (g s).act = s.act ∧
      (g s).builder = s.builder) : Restores c (modify g : Gen Unit) T F :=
  fun s => ⟨h s, .of_eq (hq s).1 (hq s).2.1 (hq s).2.2.1 (by
    rw [(hq s).2.2.2]
    exact List.Subset.refl _)⟩

/-! ### Steps of building -/

/-- A step of building that leaves the position where it is and the globals as they are, and only
adds to the functions. -/
def Still (b : Build α) : Prop :=
  ∀ r, (b r).2.position = r.position ∧ (b r).2.module.globals = r.module.globals ∧
    r.module.Grows (b r).2.module

/-- A question leaves all of it as it is. -/
theorem Still.ask {b : Build α} (h : ∀ r, (b r).2 = r) : Still b := fun r => by
  rw [h r]
  exact ⟨rfl, rfl, .refl _⟩

theorem Still.bind {b : Build α} {f : α → Build β} (hb : Still b) (hf : ∀ a, Still (f a)) :
    Still (b >>= f) := fun r =>
  ⟨((hf (b r).1 (b r).2).1).trans (hb r).1, ((hf (b r).1 (b r).2).2.1).trans (hb r).2.1,
    (hb r).2.2.trans (hf (b r).1 (b r).2).2.2⟩

theorem Still.pure (a : α) : Still (pure a : Build α) := .ask fun _ => rfl

theorem Still.restores {b : Build α} (h : Still b) : Restores c (emit b) :=
  fun s => ⟨⟨rfl, rfl, rfl, .refl _, fun ⟨q, hq⟩ => ⟨q, (h s.builder).1.trans hq⟩,
    .built (h s.builder).2.2 (h s.builder).2.1 (List.Subset.refl _)⟩,
    .of_eq rfl rfl rfl (h s.builder).2.2.names⟩

section

variable {v u p cond : Value} {t : Ty} {kind : InstKind} {name : Option String}

theorem still_pushInto {f : FuncId} {b : BlockId} : Still (Build.pushInto f b kind t name) := by
  intro r
  cases hb : r.blockTerminated f b with
  | true =>
    rw [pushInto_terminated hb]
    exact ⟨rfl, rfl, .refl _⟩
  | false =>
    have hopen := hb
    rw [pushInto_open hb]
    exact ⟨rfl, rfl, .modifyFunction fun _ => .placed (by
      rw [IR.Builder.blockTerminated, Option.isSome_eq_false_iff, Option.isNone_iff_eq_none] at hopen
      exact hopen)⟩

theorem still_push : Still (Build.push kind t name) := by
  intro r
  cases hp : r.position with
  | none =>
    rw [Build.push_nowhere hp]
    exact ⟨hp, rfl, .refl _⟩
  | some at' =>
    rw [Build.push_at hp, ← hp]
    exact still_pushInto r

theorem still_typeOf : Still (Build.typeOf v) := .ask fun _ => rfl

theorem still_load : Still (Build.load p name) := still_typeOf.bind fun _ => still_push

theorem still_store : Still (Build.store v p) := still_push.bind fun _ => .pure _

theorem still_gep {indices : List Value} : Still (Build.gep p indices) :=
  still_typeOf.bind fun _ => still_push

theorem still_structGep {index : Nat} : Still (Build.structGep p index) := still_gep

theorem still_cast {op : IR.CastOp} : Still (Build.cast op v t) := by
  refine still_typeOf.bind fun source => ?_
  split
  · exact .pure _
  · exact still_push

theorem still_bitcast : Still (Build.bitcast v t) := still_cast

theorem still_intToPtr : Still (Build.intToPtr v t) := still_cast

theorem still_ptrToInt : Still (Build.ptrToInt v t) := still_cast

theorem still_binary {op : IR.BinaryOp} : Still (Build.binary op v u) := by
  refine still_typeOf.bind fun type => ?_
  split
  · exact .pure _
  · exact still_push

theorem still_and : Still (Build.and v u) := still_binary

theorem still_or : Still (Build.or v u) := still_binary

theorem still_not : Still (Build.not v) := by
  unfold Build.not
  split
  · exact .pure _
  · exact still_typeOf.bind fun _ => still_push

theorem still_icmp {pred : IR.IntPredicate} : Still (Build.icmp pred v u) := by
  unfold Build.icmp
  split
  · exact .pure _
  · exact still_push

theorem still_fcmp {pred : IR.FloatPredicate} : Still (Build.fcmp pred v u) := still_push

theorem still_select : Still (Build.select cond v u) := by
  unfold Build.select
  split
  · exact .pure _
  · exact .pure _
  · exact still_typeOf.bind fun _ => still_push

theorem still_phi {incoming : List (Value × BlockId)} : Still (Build.phi t incoming) := still_push

theorem still_call {callee : FuncId} {args : List Value} : Still (Build.call callee args) :=
  Still.bind (.ask fun _ => rfl) fun _ => still_push

theorem still_malloc : Still (Build.malloc t) := still_push

theorem still_arrayMalloc : Still (Build.arrayMalloc t v) := still_push

theorem still_terminate {term : Terminator} : Still (Build.terminate term) := by
  intro r
  cases hp : r.position with
  | none =>
    rw [Build.terminate_nowhere hp]
    exact ⟨hp, rfl, .refl _⟩
  | some at' =>
    rw [Build.terminate_at hp, ← hp]
    exact ⟨rfl, rfl, .modifyFunction fun _ => .ended⟩

theorem still_br {b : BlockId} : Still (Build.br b) := still_terminate

theorem still_ret {w : Option Value} : Still (Build.ret w) := still_terminate

theorem still_unreachable : Still Build.unreachable := still_terminate

theorem still_condBr {b b' : BlockId} : Still (Build.condBr cond b b') := by
  unfold Build.condBr
  split
  · exact still_br
  · exact still_br
  · exact still_terminate

theorem still_appendBlock {f : FuncId} {title : String} : Still (Build.appendBlock f title) :=
  fun _ => ⟨rfl, rfl, .modifyFunction fun _ => .withBlock _⟩

theorem still_declareFunction {title : String} {params : List IR.Param} {linkage : IR.Linkage}
    {varargs : Bool} : Still (Build.declareFunction title params t linkage varargs) :=
  fun _ => ⟨rfl, rfl, .addFunction _⟩

end

/-! ### Questions, positions and variables -/

section

variable {v u p tag cond ptr value : Value} {t : Ty} {ty source target member : TypeId}
  {ot : Option TypeId} {name : String}

theorem restores_types : Restores c types := .ask fun _ => rfl

theorem restores_nil : Restores c nil := .ask fun _ => rfl

theorem restores_typeOf {n : Node} : Restores c (typeOf n) := .ask fun _ => rfl

theorem restores_shape : Restores c (shape ty) := .ask fun _ => rfl

theorem restores_irType : Restores c (irType ty) := .ask fun _ => rfl

theorem restores_isAddressHeld : Restores c (isAddressHeld ty) := .ask fun _ => rfl

theorem restores_isTerminated : Restores c isTerminated := .ask fun _ => rfl

theorem restores_typeName : Restores c (typeName ty) := .ask fun _ => rfl

theorem restores_lookup? : Restores c (lookup? name) := .ask fun _ => rfl

theorem restores_carried : Restores c (carried ot) := .ask fun _ => rfl

theorem restores_get : Restores c (get : Gen State) := .ask fun _ => rfl

theorem restores_read : Restores c (read : Gen Context) := .ask fun _ => rfl

theorem restores_orFail {cause : Cause} {o : Option α}
    (h : cause.Ordinary) : Restores c (orFail cause o) := by
  cases o with
  | none => exact .fail cause h
  | some a => exact .pure a

theorem restores_deadValue : Restores c (deadValue ot) := by
  cases ot with
  | none => exact .pure _
  | some t => exact restores_irType.bind fun _ => restores_isAddressHeld.bind fun _ => .pure _

/-- A message that starts otherwise than those that begin something. -/
theorem begins_nothing {level : Log.Level} {message : String} {a : Char}
    (h : message.toList.head? = some a) (hc : a ≠ 'g' ∧ a ≠ 'h') :
    ∀ words ∈ beginnings, Log.Record.tells words ⟨level, message⟩ = false := by
  intro words hw
  rcases List.mem_pair.mp hw with rfl | rfl
  · exact Log.Record.not_tells (a := 'g') rfl h hc.1.symm
  · exact Log.Record.not_tells (a := 'h') rfl h hc.2.symm

/-- A record that begins nothing. -/
theorem restores_note {level : Log.Level} {message : String}
    (h : ∀ words ∈ beginnings, Log.Record.tells words ⟨level, message⟩ = false) :
    Restores c (note level message) := by
  refine fun s => ⟨.of_eq rfl rfl rfl rfl rfl rfl, fun words hw => ?_, rfl, List.Subset.refl _,
    fun p hp => .inl ⟨p, hp, rfl⟩, fun _ => nofun, fun _ => nofun⟩
  show Log.about (s.log.push ⟨level, message⟩) words = _
  rw [Log.about_push, h words hw, if_neg Bool.false_ne_true, List.append_nil]

theorem restores_alloca {title : Option String} : Restores c (alloca t title) :=
  restores_get.bind fun _ => still_pushInto.restores

theorem restores_currentBlock : Restores c currentBlock := by
  refine restores_get.bind fun s => ?_
  split
  · exact .pure _
  · exact .fail _ trivial

theorem restores_appendBlock : Restores c (appendBlock name) :=
  restores_get.bind fun _ => still_appendBlock.restores

theorem restores_positionAt {b : BlockId} : Restores c (positionAt b) :=
  fun _ => ⟨⟨rfl, rfl, rfl, .refl _, fun _ => ⟨b, rfl⟩, .of_eq rfl⟩,
    .of_eq rfl rfl rfl (List.Subset.refl _)⟩

/-- A state at a position, if one is given. -/
def State.returnTo (p : Option (FuncId × BlockId)) (s : State) : State :=
  { s with builder := { s.builder with position := p.or s.builder.position } }

theorem outcome_restorePosition (p : Option (FuncId × BlockId)) (c : Context) (s : State) :
    outcome (restorePosition p) c s = (.ok (), s.returnTo p) := by
  cases p <;> rfl

theorem outcome_emitIn (f : FuncId) (b : BlockId) (x : Gen α) (s : State) :
    outcome (emitIn f b x) c s =
      let o := outcome x c { s with builder := { s.builder with position := some (f, b) } }
      (o.1, State.returnTo s.builder.position o.2) :=
  outcome_finally x (outcome_restorePosition s.builder.position c _)

/-- Placing something elsewhere comes back to the position, if there is one. -/
theorem Restores.emitIn {x : Gen α} (hx : Restores c x) (f : FuncId) (b : BlockId) :
    Restores c (emitIn f b x) := by
  intro s
  obtain ⟨h, hq⟩ := hx { s with builder := { s.builder with position := some (f, b) } }
  rw [outcome_emitIn]
  refine ⟨⟨h.fn, h.definition, h.blocks, h.act, fun ⟨b₀, hs⟩ => ⟨b₀, ?_⟩,
    h.interns.congr rfl rfl⟩, hq.begun, hq.consts, hq.names, hq.types, hq.cause, hq.unlocated⟩
  show s.builder.position.or _ = some (FunctionState.func (State.fn _), b₀)
  rw [hs]
  exact congrArg (fun fn : FunctionState => some (fn.func, b₀)) h.fn.symm

/-! ### Conversions -/

theorem restores_loadTag : Restores c (loadTag p) :=
  still_structGep.restores.bind fun _ => still_load.restores

theorem restores_storeTag : Restores c (storeTag p tag) :=
  still_structGep.restores.bind fun _ => still_store.restores

theorem restores_payload : Restores c (payload p t) :=
  still_structGep.restores.bind fun _ => still_bitcast.restores

theorem restores_isNull : Restores c (isNull v) :=
  still_ptrToInt.restores.bind fun _ => still_icmp.restores

theorem restores_isNotNull : Restores c (isNotNull v) :=
  still_ptrToInt.restores.bind fun _ => still_icmp.restores

theorem restores_coerce : Restores c (coerce v t) := by
  refine still_typeOf.restores.bind fun source => ?_
  split
  · exact .pure v
  · split
    · exact still_bitcast.restores
    · split
      · exact still_intToPtr.restores
      · exact .pure v

theorem restores_storeCoerced : Restores c (storeCoerced v p) := by
  refine still_typeOf.restores.bind fun source => ?_
  split
  · exact restores_coerce.bind fun _ => still_store.restores
  · exact still_store.restores

theorem restores_fillBox : Restores c (fillBox p ty v) :=
  restores_storeTag.bind fun _ => still_bitcast.restores.bind fun _ =>
    still_structGep.restores.bind fun _ => still_store.restores

theorem restores_boxed : Restores c (boxed ty v) :=
  restores_alloca.bind fun _ => restores_fillBox.bind fun _ => .pure _

theorem restores_storeScalarInUnion : Restores c (storeScalarInUnion p target source v) := by
  refine restores_types.bind fun ts => ?_
  split
  · exact restores_storeTag.bind fun _ => restores_payload.bind fun _ => restores_fillBox
  · exact restores_storeTag.bind fun _ => restores_payload.bind fun _ => restores_storeCoerced

theorem restores_storeBoxInUnion : Restores c (storeBoxInUnion p target source v) := by
  refine restores_types.bind fun ts => ?_
  split
  · exact restores_storeTag.bind fun _ => still_load.restores.bind fun _ =>
      restores_payload.bind fun _ => still_store.restores
  · exact restores_loadTag.bind fun _ => still_structGep.restores.bind fun _ =>
      still_load.restores.bind fun _ => restores_storeTag.bind fun _ =>
        restores_payload.bind fun _ => still_store.restores

theorem restores_storeNilableInUnion : Restores c (storeNilableInUnion p source member v) :=
  restores_isNull.bind fun _ => restores_nil.bind fun _ => still_select.restores.bind fun _ =>
    restores_storeTag.bind fun _ => restores_irType.bind fun _ => restores_payload.bind fun _ =>
      still_store.restores

theorem restores_copyUnion : Restores c (copyUnion p target source v) :=
  restores_irType.bind fun _ => restores_irType.bind fun _ => still_bitcast.restores.bind fun _ =>
    still_load.restores.bind fun _ => still_bitcast.restores.bind fun _ => still_store.restores

theorem restores_storeInUnion : Restores c (storeInUnion p target source v) := by
  refine restores_shape.bind fun shape => ?_
  split
  · exact restores_copyUnion
  · exact restores_storeNilableInUnion
  · exact restores_storeBoxInUnion
  · exact restores_storeScalarInUnion

theorem restores_inUnion : Restores c (inUnion v source target) :=
  restores_irType.bind fun _ => restores_alloca.bind fun _ => restores_storeInUnion.bind fun _ =>
    .pure _

theorem restores_boxOfUnion : Restores c (boxOfUnion v source target) := by
  refine restores_types.bind fun ts => ?_
  split
  · exact restores_payload
  · exact restores_alloca.bind fun _ => restores_loadTag.bind fun _ =>
      restores_payload.bind fun _ => still_load.restores.bind fun _ =>
        restores_storeTag.bind fun _ => still_structGep.restores.bind fun _ =>
          still_store.restores.bind fun _ => .pure _

theorem restores_nilableOfUnion : Restores c (nilableOfUnion v t) :=
  restores_loadTag.bind fun _ => restores_nil.bind fun _ => still_icmp.restores.bind fun _ =>
    restores_payload.bind fun _ => still_load.restores.bind fun _ => still_select.restores

theorem restores_objectOfBox : Restores c (objectOfBox v t) :=
  still_structGep.restores.bind fun _ => still_load.restores.bind fun _ => still_bitcast.restores

theorem restores_scalarOfUnion : Restores c (scalarOfUnion v t) :=
  restores_payload.bind fun _ => still_load.restores

theorem restores_scalarOfScalar : Restores c (scalarOfScalar v source target) := by
  refine restores_irType.bind fun _ => restores_irType.bind fun _ => ?_
  split
  · exact .pure v
  · split
    · exact still_bitcast.restores
    · exact restores_typeName.bind fun _ => restores_typeName.bind fun _ => .fail _ trivial

theorem restores_convert : Restores c (convert v source target) := by
  unfold convert
  split
  · exact .pure v
  refine restores_types.bind fun ts => ?_
  split
  · split
    · exact still_bitcast.restores
    · exact restores_inUnion
  · exact restores_inUnion
  · exact .pure v
  · exact restores_boxed
  · exact restores_boxed
  · exact restores_boxOfUnion
  · exact restores_nilableOfUnion
  · exact restores_objectOfBox
  · exact restores_objectOfBox
  · split
    · exact .pure _
    · exact restores_coerce
  · split
    · exact .pure _
    · split
      · exact restores_scalarOfUnion
      · exact restores_scalarOfScalar
      · exact restores_coerce

theorem restores_convertExactly : Restores c (convertExactly v source target) :=
  restores_convert.bind fun _ => restores_irType.bind fun _ => restores_coerce

theorem restores_copyHeld : Restores c (copyHeld p v) :=
  still_load.restores.bind fun _ => still_store.restores

theorem restores_assign : Restores c (assign p target source v) := by
  unfold assign
  split
  · refine restores_isAddressHeld.bind fun held => ?_
    split
    · exact restores_copyHeld
    · exact restores_storeCoerced
  · refine restores_shape.bind fun shape => ?_
    split
    · exact restores_storeInUnion
    · refine restores_shape.bind fun shape => ?_
      split
      · exact restores_fillBox
      · exact restores_convert.bind fun _ => restores_copyHeld
    all_goals exact restores_convert.bind fun _ => restores_storeCoerced

/-! ### Type tests -/

theorem restores_tagIsAny {ids : List TypeId} : Restores c (tagIsAny tag ids) :=
  .foldlM (fun _ _ => still_icmp.restores.bind fun _ => still_or.restores) _ _

theorem restores_tagBelongs : Restores c (tagBelongs ty tag) :=
  restores_types.bind fun _ => restores_tagIsAny

theorem restores_isA : Restores c (isA v source target) := by
  unfold isA
  refine restores_types.bind fun ts => ?_
  split
  · refine restores_types.bind fun ts => ?_
    dsimp only
    split
    · exact .pure _
    · split
      · exact .pure _
      · exact restores_loadTag.bind fun _ => restores_tagIsAny
  · split
    · exact restores_isNull
    · split
      · exact restores_isNotNull
      · exact .pure _
  all_goals exact .pure _

theorem restores_unionTruth {bool : TypeId} : Restores c (unionTruth v source bool ot) := by
  refine restores_loadTag.bind fun tag => still_icmp.restores.bind fun isBool => ?_
  refine restores_convert.bind fun bit => still_icmp.restores.bind fun isFalse => ?_
  refine still_and.restores.bind fun falsy => ?_
  split
  · exact still_icmp.restores.bind fun _ => still_or.restores.bind fun _ => still_not.restores
  · exact still_not.restores

theorem restores_truth : Restores c (truth v ty) := by
  refine restores_types.bind fun ts => ?_
  split
  · exact .pure _
  · exact still_icmp.restores
  · split
    · exact restores_isNotNull
    · split
      · exact .pure _
      · exact restores_loadTag.bind fun _ => still_icmp.restores
      · exact restores_unionTruth
  · exact restores_isNotNull
  · exact .pure _

theorem restores_knownTruth? {n : Node} : Restores c (knownTruth? n v) := by
  unfold knownTruth?
  split
  · exact .pure _
  · exact restores_types.bind fun _ => restores_typeOf.bind fun _ => .pure _

/-! ### Storage -/

theorem restores_clearSlot : Restores c (clearSlot p ty) := by
  refine restores_get.bind fun s => restores_types.bind fun ts => ?_
  split
  · split
    · exact .emitIn (restores_nil.bind fun _ => restores_assign) _ _
    · exact .pure _
  · exact .emitIn still_store.restores _ _
  · exact .pure _

/-- A variable that comes into scope hides none of another type. -/
theorem restoresSince_bind {s : State} {w : Variable} {T : TypeId → Prop}
    (hw : ∀ w', s.act.vars.lookup name = some w' → w.type = w'.type) (ht : T w.type) :
    RestoresSince c s (bind name w) T := by
  intro t h
  have hi : Interns s (outcome (bind name w) c t).2 := h.interns.trans (.of_eq rfl)
  refine ⟨{ h with act := { h.act with vars := fun name' w' hw' => ?_ }, interns := hi },
    fun _ _ => rfl, rfl, List.Subset.refl _, fun p hp => ?_, fun _ => nofun,
    fun _ => nofun⟩
  rotate_left
  · rcases List.mem_cons.mp hp with rfl | hp
    · exact .inr ht
    · exact .inl ⟨p, hp, rfl⟩
  show ∃ v', List.lookup name' ((name, w) :: t.act.vars) = some v' ∧ v'.type = w'.type
  rw [List.lookup_cons]
  by_cases hn : name' = name
  · subst hn
    exact ⟨w, by rw [beq_self_eq_true], hw w' hw'⟩
  · rw [beq_eq_false_iff_ne.mpr hn]
    exact h.act.vars name' w' hw'

/-- The variable of a name is the one in scope, if there is one. -/
theorem outcome_declare {s : State} {w : Variable}
    (h : s.act.vars.lookup name = some w) : outcome (declare name ty) c s = (.ok w, s) := by
  have hlookup : outcome (lookup? name) c s = (.ok (some w), s) := by
    rw [← h]
    rfl
  rw [declare, outcome_bind, hlookup]
  rfl

/-- A variable that was not in scope has the type asked for. -/
theorem type_of_declare {s s' : State} {w : Variable}
    (h : Gives (declare name ty) c s w s') : s.act.vars.lookup name = some w ∨ w.type = ty := by
  have h := gives_after (show Gives (lookup? name) c s (s.act.vars.lookup name) s from rfl) h
  cases hl : s.act.vars.lookup name with
  | some w' =>
    rw [hl] at h
    exact .inl (congrArg some (gives_pure.mp h).1.symm)
  | none =>
    rw [hl] at h
    obtain ⟨_, _, -, h⟩ := gives_bind.mp h
    obtain ⟨_, _, -, h⟩ := gives_bind.mp h
    obtain ⟨_, _, -, h⟩ := gives_bind.mp h
    obtain ⟨_, _, -, h⟩ := gives_bind.mp h
    rw [(gives_pure.mp h).1]
    exact .inr rfl

theorem restores_declare {T : TypeId → Prop} (ht : T ty) : Restores c (declare name ty) T := by
  intro s
  cases h : s.act.vars.lookup name with
  | some w =>
    rw [outcome_declare h]
    exact ⟨.refl s, .refl w s⟩
  | none =>
    have hlookup : outcome (lookup? name) c s = (.ok none, s) := by
      rw [← h]
      rfl
    rw [declare, outcome_bind, hlookup]
    refine RestoresSince.bind (restores_irType.since s) (fun _ => ?_) s (.refl s)
    refine (restores_alloca.since s).bind fun slot => (restores_clearSlot.since s).bind fun _ => ?_
    have hnew : ∀ w', s.act.vars.lookup name = some w' → ty = w'.type :=
      fun w' hw' => absurd (h.symm.trans hw') nofun
    exact (restoresSince_bind hnew ht).bind fun _ => (Restores.pure _).since s

theorem restores_heldValue {w : Variable} : Restores c (heldValue name w) := by
  refine restores_isAddressHeld.bind fun held => ?_
  split
  · exact .pure _
  · exact still_load.restores

theorem restores_readVariable : Restores c (readVariable name ty) :=
  restores_lookup?.bind fun _ => .bind (restores_orFail trivial) fun _ => restores_heldValue.bind fun _ =>
    restores_convert

theorem restores_implicitSelf : Restores c (implicitSelf ty) :=
  restores_lookup?.bind fun _ => .bind (restores_orFail trivial) fun _ => restores_heldValue.bind fun _ =>
    restores_convert

theorem restores_selfObject : Restores c selfObject := by
  refine restores_lookup?.bind fun _ => .bind (restores_orFail trivial) fun w => ?_
  refine restores_shape.bind fun shape => ?_
  split
  · exact restores_convert.bind fun _ => .pure _
  · split
    · exact .bind (.pure _) fun _ => .pure _
    · exact still_load.restores.bind fun _ => .pure _
  · exact restores_typeName.bind fun _ => .fail _ trivial

theorem restores_fieldOf {missing : Cause} (h : missing.Ordinary) :
    Restores c (fieldOf v ty name missing) :=
  restores_types.bind fun _ => .bind (restores_orFail h) fun _ => still_structGep.restores.bind fun _ =>
    restores_irType.bind fun _ => still_bitcast.restores.bind fun _ => .pure _

theorem restores_fieldSlot : Restores c (fieldSlot name) :=
  restores_selfObject.bind fun _ => restores_typeName.bind fun _ => restores_fieldOf trivial

theorem restores_heldIn : Restores c (heldIn p ty name) := by
  refine restores_isAddressHeld.bind fun held => ?_
  split
  · exact .pure _
  · exact still_load.restores

theorem restores_readField : Restores c (readField name ty) :=
  restores_fieldSlot.bind fun _ => restores_heldIn.bind fun _ => restores_convert

theorem restores_globalType : Restores c (globalType name ty) := .ask fun _ => rfl

/-- A global of the program is made once. -/
theorem outcome_globalSlot {s : State} : outcome (globalSlot name ty) c s =
    match s.globals.lookup name with
    | some g => (.ok g, s)
    | none => (.ok s.builder.module.nextGlobal,
        { s.withGlobal (s.zeroed name (c.program.types.irType ty)) with
          globals := (name, s.builder.module.nextGlobal) :: s.globals }) := by
  have h : outcome (get : Gen State) c s = (.ok s, s) := rfl
  rw [globalSlot, outcome_after h]
  cases s.globals.lookup name <;> rfl

theorem restores_globalSlot : Restores c (globalSlot name ty) := by
  intro s
  rw [outcome_globalSlot]
  cases hl : s.globals.lookup name with
  | some g => exact ⟨.refl s, .refl g s⟩
  | none => exact ⟨⟨rfl, rfl, rfl, .refl _, id, interns_slot hl rfl⟩,
      .of_eq rfl rfl rfl (List.Subset.refl _)⟩

theorem restores_readGlobal : Restores c (readGlobal name ty) :=
  restores_globalType.bind fun _ => restores_globalSlot.bind fun _ => restores_heldIn.bind fun _ =>
    restores_convert

/-- The arguments of the entry function are stored to two globals. -/
def storeArguments (argc argv : GlobalId) : Build Unit := do
  Build.store (.param 0) (.global argc)
  Build.store (.param 1) (.global argv)

theorem still_storeArguments (argc argv : GlobalId) : Still (storeArguments argc argv) :=
  still_store.bind fun _ => still_store

/-- The arguments of the entry function are put into globals once. -/
theorem outcome_entryArguments {s : State} (h : s.entryArgs = none) :
    let s₁ := s.withGlobal (s.zeroed "argc" .i32)
    let s₂ := s₁.withGlobal (s₁.zeroed "argv" (.ptr .bytePtr))
    let argc := s.builder.module.nextGlobal
    let argv := s₁.builder.module.nextGlobal
    outcome entryArguments c s = (.ok (argc, argv), State.returnTo s.builder.position
      { s₂ with
        builder := (storeArguments argc argv
          { s₂.builder with position := some (c.main.func, c.main.allocaBlock) }).2
        entryArgs := some (argc, argv) }) := by
  intro s₁ s₂ argc argv
  have hget : outcome (get : Gen State) c s = (.ok s, s) := rfl
  rw [entryArguments, outcome_after hget, h]
  have hstores := outcome_emitIn (c := c) c.main.func c.main.allocaBlock
    (emit (storeArguments argc argv)) s₂
  exact (outcome_after hstores).trans rfl

theorem restores_entryArguments : Restores c entryArguments := by
  intro s
  cases hl : s.entryArgs with
  | some pair =>
    have hget : outcome (get : Gen State) c s = (.ok s, s) := rfl
    rw [entryArguments, outcome_after hget, hl]
    exact ⟨.refl s, .refl pair s⟩
  | none =>
    rw [outcome_entryArguments hl]
    let s₁ := s.withGlobal (s.zeroed "argc" .i32)
    let s₂ := s₁.withGlobal (s₁.zeroed "argv" (.ptr .bytePtr))
    have hstill := fun argc argv => still_storeArguments argc argv
      { s₂.builder with position := some (c.main.func, c.main.allocaBlock) }
    refine ⟨⟨rfl, rfl, rfl, .refl _, fun ⟨b, hb⟩ => ⟨b, ?_⟩, ?_⟩,
      .of_eq rfl rfl rfl (hstill _ _).2.2.names⟩
    · show s.builder.position.or _ = _
      rw [hb]
      rfl
    · exact (interns_arguments (s.zeroed "argc" .i32) (s₁.zeroed "argv" (.ptr .bytePtr)) hl rfl
        rfl).trans (.built (hstill _ _).2.2 (hstill _ _).2.1 (List.Subset.refl _))

theorem restores_argumentCount : Restores c argumentCount :=
  restores_entryArguments.bind fun _ => still_load.restores

theorem restores_argumentVector : Restores c argumentVector :=
  restores_entryArguments.bind fun _ => still_load.restores

theorem restores_assignTarget {n : Node} {T : TypeId → Prop}
    (ht : T (n.type.getD c.nil)) : Restores c (assignTarget n) T := by
  unfold assignTarget
  split
  · refine .asked (fun _ => rfl) ((restores_declare ht).bind fun w => ?_)
    split
    · exact .fail _ trivial
    · exact .pure _
  · exact restores_fieldSlot.wide
  · exact (restores_typeOf.bind fun _ => restores_globalType.bind fun _ =>
      restores_globalSlot.bind fun _ => .pure _).wide
  · exact .fail _ trivial

/-- The slot that a register value moves into is a variable of the same type. -/
theorem restores_slotOf {T : TypeId → Prop} (ht : T ty) : Restores c (slotOf name ty) T := by
  intro s
  obtain ⟨hd, hq⟩ : Restored s (outcome (declare name ty) c s).2 ∧
    Quiet T Cause.Ordinary s (outcome (declare name ty) c s) := restores_declare ht s
  have hknown : ∀ w', s.act.vars.lookup name = some w' →
      outcome (declare name ty) c s = (.ok w', s) := fun w' hw' => outcome_declare hw'
  have htype : ∀ w t, outcome (declare name ty) c s = (.ok w, t) →
      s.act.vars.lookup name = some w ∨ w.type = ty := fun w t h => type_of_declare h
  rw [slotOf, outcome_bind]
  generalize outcome (declare name ty) c s = o at hd hq hknown htype
  obtain ⟨e | w, t⟩ := o
  · exact ⟨hd, hq.begun, hq.consts, hq.names, hq.types, fun e' he => hq.cause e' (by cases he; rfl),
      fun e' he => hq.unlocated e' (by cases he; rfl)⟩
  have hw : ∀ w', s.act.vars.lookup name = some w' → w.type = w'.type := fun w' hw' => by
    have h := hknown w' hw'
    simp only [Prod.mk.injEq, Except.ok.injEq] at h
    rw [h.1]
  have htw : T w.type ∨ ∃ q ∈ s.act.vars, q.2.type = w.type :=
    (htype w t rfl).symm.imp (fun he : w.type = ty => he.symm ▸ ht) fun hl =>
      ⟨(name, w), mem_of_lookup hl, rfl⟩
  have hrest : RestoresSince c s (do
      if w.direct then
        let slot ← alloca (← irType w.type) (some name)
        Build.store w.ptr slot
        bind name { ptr := slot, type := w.type }
        return slot
      else return w.ptr) fun ty => T ty ∨ ∃ q ∈ s.act.vars, q.2.type = ty := by
    split
    · refine RestoresSince.bind (restores_irType.since s) fun _ => ?_
      refine (restores_alloca.since s).bind fun slot => ?_
      refine (still_store.restores.since s).bind fun _ => ?_
      refine RestoresSince.bind (restoresSince_bind ?_ htw) fun _ => (Restores.pure slot).since s
      exact hw
    · exact (Restores.pure _).since s
  obtain ⟨h, hq'⟩ := hrest t hd
  have hall := (hq.mono (fun _ => Or.inl) fun _ => id).trans hq'
  refine ⟨h, hall.begun, hall.consts, hall.names, fun p hp => ?_, hall.cause, hall.unlocated⟩
  rcases hall.types p hp with hp | hp | hp
  · exact .inl hp
  · exact .inr hp
  · exact .inl hp

theorem restores_pointerTo {n : Node} {T : TypeId → Prop} (ht : T (n.type.getD c.nil)) :
    Restores c (pointerTo n ty) T := by
  refine Restores.bind ?_ fun _ => (restores_irType.bind fun _ => restores_coerce).wide
  unfold addressOf
  split
  · exact .asked (fun _ => rfl) (restores_slotOf ht)
  · exact (restores_fieldSlot.bind fun _ => .pure _).wide
  · exact (restores_typeOf.bind fun _ => restores_globalType.bind fun _ =>
      restores_globalSlot.bind fun _ => .pure _).wide
  · exact .fail _ trivial

/-! ### Merge points -/

section

variable {slot : Option Value} {point : BlockId} {incoming : List (Value × BlockId)} {id : TargetId}

theorem restores_mergeSlot : Restores c (mergeSlot ot) := by
  cases ot with
  | none => exact .pure _
  | some t =>
    refine restores_isAddressHeld.bind fun held => ?_
    split
    · exact restores_irType.bind fun _ => restores_alloca.bind fun _ => .pure _
    · exact .pure _

theorem restores_carry : Restores c (carry slot ot v source) := by
  unfold carry
  split
  · exact restores_assign.bind fun _ => .pure _
  · refine restores_types.bind fun ts => ?_
    split
    · exact .pure _
    · exact restores_convertExactly.bind fun _ => restores_currentBlock.bind fun _ => .pure _
  · exact .pure _

theorem restores_deliver : Restores c (deliver point slot ot v source) := by
  refine restores_isTerminated.bind fun done => ?_
  split
  · exact .pure _
  · exact restores_carry.bind fun incoming => still_br.restores.bind fun _ => .pure _

theorem restores_arrived : Restores c (arrived slot ot incoming) := by
  refine restores_carried.bind fun t => ?_
  split
  · exact .pure _
  · split
    · exact .pure _
    · exact restores_irType.bind fun _ => still_phi.restores
  · exact .pure _

theorem restores_merge : Restores c (merge point slot ot incoming) := by
  refine restores_positionAt.bind fun _ => restores_get.bind fun s => ?_
  split
  · exact still_unreachable.restores.bind fun _ => restores_deadValue
  · exact restores_arrived

theorem restores_asResult : Restores c (asResult ot v source) := by
  refine restores_carried.bind fun t => ?_
  split
  · exact restores_convert
  · exact .pure _

theorem restores_addTarget : Restores c (addTarget point ot slot) :=
  fun _ => ⟨.of_eq rfl rfl rfl rfl rfl rfl, .of_eq rfl rfl rfl (List.Subset.refl _)⟩

theorem restores_target : Restores c (Gen.target id) := .ask fun _ => rfl

theorem restores_jumpToTarget : Restores c (jumpToTarget id v source) := by
  refine restores_target.bind fun _ => restores_deliver.bind fun _ => ?_
  exact restores_modify (fun _ => .of_eq rfl rfl rfl rfl rfl rfl) fun _ => ⟨rfl, rfl, rfl, rfl⟩

theorem restores_takeIncoming : Restores c (takeIncoming id) := by
  refine restores_target.bind fun t => Restores.bind ?_ fun _ => .pure t.incoming
  exact restores_modify (fun _ => .of_eq rfl rfl rfl rfl rfl rfl) fun _ => ⟨rfl, rfl, rfl, rfl⟩

theorem restores_returnFromFunction : Restores c (returnFromFunction v source) := by
  refine restores_get.bind fun s => ?_
  dsimp only
  split
  · exact still_ret.restores
  · refine restores_isAddressHeld.bind fun held => ?_
    split
    · exact .bind (restores_orFail trivial) fun _ => restores_assign.bind fun _ =>
        still_load.restores.bind fun _ => still_ret.restores
    · exact restores_convertExactly.bind fun _ => still_ret.restores

end

/-! ### Functions and calls -/

section

variable {d : Def} {vars : Scope} {args : List Arg} {values : List Value}

theorem restores_targetOf {id : DefId} : Restores c (targetOf name id) :=
  restores_read.bind fun _ => restores_orFail trivial

theorem restores_ownCopy : Restores c (ownCopy name ty v) :=
  restores_irType.bind fun _ => restores_alloca.bind fun _ => restores_copyHeld.bind fun _ =>
    .pure _

theorem restores_receiverVariable : Restores c (receiverVariable ty v) := by
  refine restores_isAddressHeld.bind fun held => ?_
  split
  · exact restores_ownCopy
  · exact .pure _

theorem restores_argumentVariable : Restores c (argumentVariable name ty v) := by
  refine restores_isAddressHeld.bind fun held => ?_
  split
  · exact restores_ownCopy
  · exact restores_irType.bind fun _ => restores_alloca.bind fun _ =>
      restores_storeCoerced.bind fun _ => .pure _

theorem restores_argumentScope : Restores c (argumentScope d vars args values) := by
  induction args generalizing vars values with
  | nil => exact .pure _
  | cons a args ih =>
    cases values with
    | nil => exact .fail _ trivial
    | cons value values => exact restores_argumentVariable.bind fun _ => ih

theorem restores_parameterScope : Restores c (parameterScope d ot values) := by
  unfold parameterScope
  split
  · exact .fail _ trivial
  · exact restores_receiverVariable.bind fun _ => restores_argumentScope
  · exact restores_argumentScope

theorem restores_functionActivation : Restores c (functionActivation d ot) := by
  unfold functionActivation
  dsimp only
  split
  · exact .bind (.pure _) fun _ => .pure _
  · exact restores_parameterScope.bind fun _ => .pure _

/-- The debug records of functions are not part of the code. -/
theorem restores_noteSubprogram {f : FuncId} {line : Nat} :
    Restores c (noteSubprogram name f line) :=
  Still.restores fun _ => ⟨rfl, rfl, le_rfl, le_rfl, fun _ _ => .refl _, fun _ _ => rfl⟩

theorem restores_declareFunction : Restores c (declareFunction name d ot) := by
  refine restores_types.bind fun ts => ?_
  refine Restores.bind still_declareFunction.restores fun func => ?_
  exact Restores.bind restores_noteSubprogram fun _ => .pure func

theorem restores_coerceAll {ts : List Ty} : Restores c (coerceAll ts values) := by
  induction ts generalizing values with
  | nil => exact .pure _
  | cons t ts ih =>
    cases values with
    | nil => exact .pure _
    | cons value values => exact restores_coerce.bind fun _ => ih.bind fun _ => .pure _

theorem restores_callResult : Restores c (callResult v ot) := by
  cases ot with
  | none => exact restores_nil.bind fun _ => .pure _
  | some t =>
    refine restores_isAddressHeld.bind fun held => ?_
    split
    · exact restores_irType.bind fun _ => restores_alloca.bind fun _ =>
        still_store.restores.bind fun _ => .pure _
    · exact .pure _

theorem restores_noteCall : Restores c (noteCall d ot v) := by
  cases v with
  | inst id => exact restores_modify (fun _ => .of_eq rfl rfl rfl rfl rfl rfl) fun _ => ⟨rfl, rfl, rfl, rfl⟩
  | _ => exact .pure _

theorem restores_operandOf : Restores c (Operand.of v ty) := by
  refine restores_shape.bind fun shape => ?_
  split
  · exact restores_loadTag.bind fun _ => .pure _
  · exact restores_loadTag.bind fun _ => .pure _
  · exact .pure _
  · exact .pure _

theorem restores_admits {o : Operand} : Restores c (admits ty o) := by
  refine restores_shape.bind fun shape => ?_
  split
  · exact .pure _
  · refine restores_types.bind fun ts => ?_
    split
    · exact restores_isNull
    · exact restores_isNotNull
  · exact restores_tagBelongs

theorem restores_guard {self : Option Operand} {args : List Operand} :
    Restores c (guard d self args) :=
  restores_types.bind fun _ =>
    .foldlM (fun _ _ => restores_admits.bind fun _ => still_and.restores) _ _

theorem restores_shapedArguments {args : List Operand} (passed : List Value) : Restores c (do
    let args ← (args.zip d.args).mapM fun (o, p) => convert o.value o.type p.type
    return passed ++ args : Gen (List Value)) :=
  .bind (.mapM (fun _ => restores_convert) _) fun _ => .pure _

theorem restores_shaped {self : Option Operand} {args : List Operand} :
    Restores c (shaped d ot self args) := by
  unfold shaped
  split
  · exact restores_convert.bind fun _ => .bind (.pure _) restores_shapedArguments
  · exact restores_implicitSelf.bind fun _ => .bind (.pure _) restores_shapedArguments
  · exact .bind (.pure _) restores_shapedArguments

end

/-! ### Texts, numbers and primitives -/

section

variable {d : Def} {bits : Nat} {unsigned : Bool} {op : BinaryPrimitive} {n m : NumberClass}

theorem restores_runtimeFunction {params : List Ty} :
    Restores c (runtimeFunction name params t) := by
  refine restores_get.bind fun s => ?_
  split
  · exact .pure _
  · refine Restores.bind still_declareFunction.restores fun f => Restores.bind ?_ fun _ => .pure f
    exact restores_modify (fun s => ⟨rfl, rfl, rfl, .refl _, id,
      .built (.refl _) rfl (List.subset_cons_self _ _)⟩) fun _ => ⟨rfl, rfl, rfl, rfl⟩

/-- A text is put into a global once. -/
theorem outcome_stringGlobal {s : State} : outcome (stringGlobal name) c s =
    match s.strings.lookup name with
    | some g => (.ok g, s)
    | none => (.ok s.builder.module.nextGlobal, { s.withGlobal (s.worded name) with
        strings := (name, s.builder.module.nextGlobal) :: s.strings }) := by
  have h : outcome (get : Gen State) c s = (.ok s, s) := rfl
  rw [stringGlobal, outcome_after h]
  cases s.strings.lookup name <;> rfl

theorem restores_stringGlobal : Restores c (stringGlobal name) := by
  intro s
  rw [outcome_stringGlobal]
  cases hl : s.strings.lookup name with
  | some g => exact ⟨.refl s, .refl g s⟩
  | none => exact ⟨⟨rfl, rfl, rfl, .refl _, id, interns_text hl rfl ⟨rfl, rfl⟩⟩,
      .of_eq rfl rfl rfl (List.Subset.refl _)⟩

theorem restores_stringValue : Restores c (stringValue name) :=
  restores_stringGlobal.bind fun _ => .pure _

/-- The texts of some symbols get globals, and nothing else does. -/
theorem gives_symbolTexts (symbols : List String) (s : State) : ∃ gs s',
    Gives (symbols.mapM fun text => return stringAt (← stringGlobal text)) c s (gs.map stringAt) s' ∧
      List.Forall₂ (fun text g => s'.strings.lookup text = some g) symbols gs ∧
      s'.symbolTable = s.symbolTable := by
  induction symbols generalizing s with
  | nil => exact ⟨[], s, rfl, .nil, rfl⟩
  | cons text symbols ih =>
    obtain ⟨g, s₁, hg, htext, htable⟩ : ∃ g s₁, Gives (stringGlobal text) c s g s₁ ∧
        s₁.strings.lookup text = some g ∧ s₁.symbolTable = s.symbolTable := by
      have hout : outcome (stringGlobal text) c s = _ := outcome_stringGlobal
      cases hl : s.strings.lookup text with
      | some g =>
        rw [hl] at hout
        exact ⟨g, s, hout, hl, rfl⟩
      | none =>
        rw [hl] at hout
        exact ⟨_, _, hout, List.lookup_cons_self, rfl⟩
    obtain ⟨gs, s', hgs, hall, htable'⟩ := ih s₁
    have hkept := ((Restores.mapM (c := c) (fun text =>
      restores_stringGlobal.bind fun g => .pure (stringAt g)) symbols).gives hgs).1.interns
    refine ⟨g :: gs, s', ?_, .cons (hkept.strings _ _ htext) hall, htable'.trans htable⟩
    rw [List.mapM_cons]
    exact gives_bind.mpr ⟨_, s₁, gives_bind.mpr ⟨g, s₁, hg, rfl⟩, gives_bind.mpr ⟨_, s', hgs, rfl⟩⟩

/-- The table of the symbols. -/
def State.tabled (s : State) (gs : List GlobalId) : IR.Global :=
  let content := IR.Constant.array (.ptr stringRecord) (gs.map stringAt)
  { name := s.builder.module.uniqueGlobalName "symbol_table", type := content.type,
    init := some content, constant := true, linkage := .internal }

/-- The state with the table of some symbols. -/
def State.withSymbols (s : State) (symbols : List String) (gs : List GlobalId) : State :=
  { s.withGlobal (s.tabled gs) with
    symbolTable := some s.builder.module.nextGlobal
    log := s.log.push
      ⟨.debug, "symbol table with " ++ toString symbols.length ++ " entrie(s)"⟩ }

theorem gives_prepareSymbols_of_texts {gs : List GlobalId} (hs : c.symbols ≠ [])
    (h : Gives (c.symbols.mapM fun text => return stringAt (← stringGlobal text)) c s
      (gs.map stringAt) s₁) : Gives prepareSymbols c s () (s₁.withSymbols c.symbols gs) := by
  have hread : Gives (read : Gen Context) c s c s := rfl
  refine gives_bind.mpr ⟨c, s, hread, ?_⟩
  dsimp only
  rw [if_neg (by simpa using hs)]
  exact gives_bind.mpr ⟨_, s₁, h, rfl⟩

/-- The table of the symbols holds the addresses of their texts. -/
theorem gives_prepareSymbols (hs : c.symbols ≠ []) (s : State) : ∃ gs s₁,
    Restored s s₁ ∧ Quiet (fun _ => False) Cause.Ordinary s (.ok (), s₁) ∧
      List.Forall₂ (fun text g => s₁.strings.lookup text = some g) c.symbols gs ∧
      s₁.symbolTable = s.symbolTable ∧
      Gives prepareSymbols c s () (s₁.withSymbols c.symbols gs) := by
  obtain ⟨gs, s₁, hgs, hall, htable⟩ := gives_symbolTexts (c := c) c.symbols s
  obtain ⟨hrest, hq⟩ := (Restores.mapM (c := c) (fun text =>
    restores_stringGlobal.bind fun g => .pure (stringAt g)) c.symbols).gives hgs
  exact ⟨gs, s₁, hrest, ⟨hq.begun, hq.consts, hq.names, hq.types, fun _ => nofun,
    fun _ => nofun⟩, hall, htable, gives_prepareSymbols_of_texts hs hgs⟩

theorem gives_prepareSymbols_nil (hs : c.symbols = []) (s : State) :
    Gives prepareSymbols c s () s := by
  have hread : Gives (read : Gen Context) c s c s := rfl
  refine gives_bind.mpr ⟨c, s, hread, ?_⟩
  dsimp only
  rw [if_pos (by simp [hs])]
  rfl

theorem exists_gives_prepareSymbols (c : Context) (s : State) :
    ∃ s', Gives prepareSymbols c s () s' := by
  by_cases hs : c.symbols = []
  · exact ⟨s, gives_prepareSymbols_nil hs s⟩
  · obtain ⟨gs, s₁, -, -, -, -, hgives⟩ := gives_prepareSymbols hs s
    exact ⟨_, hgives⟩

/-- The table of the symbols is made before anything else. -/
theorem restored_prepareSymbols {T : TypeId → Prop} {s : State} (h : s.symbolTable = none) :
    Restored s (outcome prepareSymbols c s).2 ∧
      Quiet T Cause.Ordinary s (outcome prepareSymbols c s) := by
  by_cases hs : c.symbols = []
  · rw [show outcome prepareSymbols c s = (.ok (), s) from gives_prepareSymbols_nil hs s]
    exact ⟨.refl s, .refl () s⟩
  · obtain ⟨gs, s₁, hr, hq, -, htable, hgives⟩ := gives_prepareSymbols (c := c) hs s
    rw [show outcome prepareSymbols c s = (.ok (), s₁.withSymbols c.symbols gs) from hgives]
    have hinterns : Interns s₁ (s₁.withSymbols c.symbols gs) :=
      (interns_table (htable.trans h) rfl).trans (.of_eq rfl)
    refine ⟨hr.trans ⟨rfl, rfl, rfl, .refl _, id, hinterns⟩,
      (hq.mono (fun _ => False.elim) fun _ => id).trans ⟨fun words hw => ?_, rfl,
        List.Subset.refl _, fun p hp => .inl ⟨p, hp, rfl⟩, fun _ => nofun,
        fun _ => nofun⟩⟩
    have hnot : Log.Record.tells words ⟨.debug, "symbol table with " ++
        toString c.symbols.length ++ " entrie(s)"⟩ = false :=
      begins_nothing (a := 's') (by simp) (by decide) words hw
    show Log.about (s₁.log.push _) words = _
    rw [Log.about_push, hnot, if_neg Bool.false_ne_true, List.append_nil]

theorem restores_symbolValue : Restores c (symbolValue name) (fun _ => False) fun _ => True := by
  refine .asked (fun _ => rfl) (Restores.bind ?_ fun _ => .pure _)
  cases c.symbols.findIdx? (· == name) with
  | none => exact .fail _ trivial
  | some i => exact .pure i

theorem restores_symbolText : Restores c (symbolText v) :=
  restores_get.bind fun _ => .bind (restores_orFail trivial) fun _ => still_cast.restores.bind fun _ =>
    still_gep.restores.bind fun _ => still_load.restores

theorem restores_resize {source : Nat} : Restores c (resize v source unsigned bits t) := by
  unfold resize
  split
  · exact .pure v
  · split
    · exact still_cast.restores
    · split
      · exact still_cast.restores
      · exact still_cast.restores

theorem restores_numericCast : Restores c (numericCast v source target) := by
  refine restores_types.bind fun ts => ?_
  dsimp only
  split
  · exact restores_resize
  · exact still_cast.restores
  · exact still_cast.restores
  · exact still_cast.restores
  · exact still_cast.restores
  · exact .pure v
  · exact .fail _ trivial

theorem restores_toInt64 : Restores c (toInt64 v ty) := by
  refine restores_types.bind fun ts => ?_
  split
  · split
    · exact .pure v
    · exact still_cast.restores
  · exact restores_typeName.bind fun _ => .fail _ trivial

theorem restores_toFloat {double : Bool} : Restores c (toFloat v n double) := by
  unfold toFloat
  dsimp only
  split
  · exact still_cast.restores
  · split
    · exact .pure v
    · exact still_cast.restores

theorem restores_combineInts : Restores c (combineInts op v u) := by
  unfold combineInts
  split
  · exact still_binary.restores
  · exact still_icmp.restores

theorem restores_combineFloats : Restores c (combineFloats op v u) := by
  unfold combineFloats
  split
  · exact still_binary.restores
  · exact still_fcmp.restores
  · exact .fail _ trivial

theorem restores_combineNumbers :
    Restores c (combineNumbers op v source u target n m) := by
  unfold combineNumbers
  split
  · exact restores_types.bind fun _ => restores_numericCast.bind fun _ =>
      restores_numericCast.bind fun _ => restores_combineInts
  · exact restores_toFloat.bind fun _ => restores_toFloat.bind fun _ => restores_combineFloats

theorem restores_asReturned : Restores c (asReturned v source ot) := by
  cases ot with
  | none => exact .pure v
  | some t =>
    refine restores_types.bind fun ts => ?_
    split
    · exact .pure v
    · refine still_typeOf.restores.bind fun given => ?_
      split
      · exact .pure v
      · exact restores_numericCast

theorem restores_combine : Restores c (combine op v source u target ot) := by
  refine restores_types.bind fun ts => ?_
  split
  · exact restores_combineNumbers.bind fun _ => restores_asReturned
  · exact .fail _ trivial

theorem restores_receiver : Restores c receiver :=
  restores_lookup?.bind fun _ => .bind (restores_orFail trivial) fun _ => .pure _

theorem restores_argument {index : Nat} : Restores c (argument d index) := by
  have hrest : ∀ o : Option Variable, Restores c (do
      let v ← orFail (.noArgument d.name index) o
      return (v.ptr, v.type) : Gen (Value × TypeId)) :=
    fun _ => .bind (restores_orFail trivial) fun _ => .pure _
  unfold argument
  split
  · exact restores_lookup?.bind hrest
  · exact .bind (.pure none) hrest

theorem restores_returned : Restores c (returned d) := restores_orFail trivial

theorem restores_elementOf : Restores c (elementOf ty) := by
  refine restores_types.bind fun ts => ?_
  split
  · exact .pure _
  · exact restores_typeName.bind fun _ => .fail _ trivial

theorem restores_receiverField : Restores c (receiverField name) :=
  restores_receiver.bind fun _ => restores_typeName.bind fun _ => restores_fieldOf trivial

theorem restores_scaled : Restores c (scaled v ty) :=
  restores_irType.bind fun _ => still_binary.restores

theorem restores_zeroFill : Restores c (zeroFill p v) :=
  restores_runtimeFunction.bind fun _ => still_bitcast.restores.bind fun _ =>
    still_call.restores.bind fun _ => .pure _

theorem restores_allocateObject : Restores c (allocateObject d) :=
  restores_types.bind fun _ => restores_returned.bind fun _ => still_malloc.restores.bind fun _ =>
    restores_zeroFill.bind fun _ => .pure _

theorem restores_allocateElements : Restores c (allocateElements d) :=
  restores_returned.bind fun _ => restores_elementOf.bind fun _ => restores_argument.bind fun _ =>
    restores_toInt64.bind fun _ => restores_irType.bind fun _ =>
      still_arrayMalloc.restores.bind fun _ => restores_scaled.bind fun _ =>
        restores_zeroFill.bind fun _ => .pure _

theorem restores_reallocateElements : Restores c (reallocateElements d) :=
  restores_receiver.bind fun _ => restores_elementOf.bind fun _ => restores_argument.bind fun _ =>
    restores_toInt64.bind fun _ => restores_scaled.bind fun _ =>
      restores_runtimeFunction.bind fun _ => still_bitcast.restores.bind fun _ =>
        still_call.restores.bind fun _ => restores_irType.bind fun _ => still_bitcast.restores

theorem restores_copyElements : Restores c (copyElements d) :=
  restores_receiver.bind fun _ => restores_elementOf.bind fun _ => restores_argument.bind fun _ =>
    restores_argument.bind fun _ => restores_toInt64.bind fun _ => restores_scaled.bind fun _ =>
      restores_runtimeFunction.bind fun _ => still_bitcast.restores.bind fun _ =>
        still_bitcast.restores.bind fun _ => still_call.restores.bind fun _ => .pure _

theorem restores_primitiveBody {prim : Primitive} : Restores c (primitiveBody d prim) := by
  cases prim with
  | binary op =>
    exact restores_receiver.bind fun _ => restores_argument.bind fun _ => restores_combine
  | convert =>
    exact restores_receiver.bind fun _ => restores_returned.bind fun _ => restores_numericCast
  | allocate => exact restores_allocateObject
  | structAlloc => exact restores_allocateObject
  | structGet field => exact restores_receiverField.bind fun _ => restores_heldIn
  | structSet field =>
    exact restores_receiver.bind fun _ => restores_argument.bind fun _ =>
      restores_typeName.bind fun _ => .bind (restores_fieldOf trivial) fun _ => restores_assign.bind fun _ =>
        .pure _
  | pointerMalloc => exact restores_allocateElements
  | pointerRealloc => exact restores_reallocateElements
  | pointerGetValue =>
    exact restores_receiver.bind fun _ => restores_elementOf.bind fun _ => restores_heldIn
  | pointerSetValue =>
    exact restores_receiver.bind fun _ => restores_elementOf.bind fun _ =>
      restores_argument.bind fun _ => restores_assign.bind fun _ => .pure _
  | pointerAdd =>
    exact restores_receiver.bind fun _ => restores_argument.bind fun _ =>
      restores_toInt64.bind fun _ => still_gep.restores
  | pointerCast =>
    exact restores_receiver.bind fun _ => restores_returned.bind fun _ =>
      restores_irType.bind fun _ => still_bitcast.restores
  | pointerCopyFrom => exact restores_copyElements
  | pointerAddress => exact restores_receiver.bind fun _ => still_ptrToInt.restores
  | symbolToString => exact restores_receiver.bind fun _ => restores_symbolText

theorem restores_primitive {prim : Primitive} : Restores c (primitive prim) :=
  restores_get.bind fun _ => .bind (restores_orFail trivial) fun _ =>
    (restores_note fun _ _ => rfl).bind fun _ => restores_primitiveBody

end

end

end Lowering.Gen
