import Lowering.Program.Draft
import Lowering.Proofs.Entry
import Lowering.Proofs.Restoring

/-!
# Expressions leave generation where it was

Functions and initializers of constants are generated in the middle of others, calls are inlined
and blocks generated in the activation that they were written in.  However an expression ends, in a
value or in a failure, generation is afterwards where it was before.

A step is given the visitor of the expressions inside, and it asks the visitor only where
instructions are placed in the current function.  Where several visitors come to the same there, so
does the step, and what is not the same is what came of a visitor.  Both facts are proved at once.

* `Gen.Agree`: steps that come to the same, and leave generation where it was;
* `Gen.agree_visitWith`: every kind of expression, given visitors that agree;
* `Gen.Consults`, `Gen.Reached`: the states in which expressions are generated;
* `Gen.restored_of_reached`.
-/

namespace Lowering.Gen

open IR (Ty Value FuncId BlockId GlobalId Build)

variable {α β ι : Type} {c : Context}

/-! ### Agreement -/

/-- What comes after an outcome: what is interned stays so, and a failure is passed on. -/
structure Ensues (o : Except Failure α × State) (o' : Except Failure β × State) : Prop where
  interns : Interns o.2 o'.2
  failure : ∀ f, o.1 = .error f → o'.1 = .error f

/-- What steps may come to, each with a visitor of its own, when it is not the same for all. -/
structure Lasting (ι : Type) where
  /-- The steps that leave a state in which generation can go on. -/
  keeps : ι → Prop
  kept : ∃ i, keeps i
  /-- The failures that may be the same for all. -/
  shared : Failure → Prop
  unlocated : ∀ f, f.location = none → shared f
  holds : ∀ {α : Type}, (ι → Except Failure α × State) → Prop
  lasts : ∀ {α β : Type} {o : ι → Except Failure α × State} {o' : ι → Except Failure β × State},
    (∀ i, keeps i → Ensues (o i) (o' i)) → holds o → holds o'

/-- Nothing but what is the same for all. -/
def Lasting.never : Lasting Unit where
  keeps _ := True
  kept := ⟨(), trivial⟩
  shared _ := True
  unlocated _ _ := trivial
  holds _ := False
  lasts _ := id

/-- What steps come to: the same for all, or something that lasts. -/
def Lasting.Meets (K : Lasting ι) (o : ι → Except Failure α × State) : Prop :=
  (∃ p, (∀ f, p.1 = .error f → K.shared f) ∧ ∀ i, o i = p) ∨ K.holds o

/-- Steps that come to the same in a state, or to something that lasts. They leave a state in which
generation can go on. -/
structure AgreeAt (c : Context) (s : State) (x : ι → Gen α) (K : Lasting ι) : Prop where
  meets : K.Meets fun i => outcome (x i) c s
  restored : ∀ i, K.keeps i → Restored s (outcome (x i) c s).2

/-- Steps that agree wherever instructions are placed in the current function. -/
def Agree (c : Context) (x : ι → Gen α) (K : Lasting ι) : Prop :=
  ∀ s : State, s.InFunction → AgreeAt c s x K

variable {K : Lasting ι}

/-- The same step for all. -/
theorem agreeAt_of_quiet {x : Gen α} {s : State} {T : TypeId → Prop} {F : Cause → Prop}
    (h : Restored s (outcome x c s).2) (hq : Quiet T F s (outcome x c s)) :
    AgreeAt c s (fun _ => x) K :=
  ⟨.inl ⟨_, fun f hf => K.unlocated f (hq.unlocated f hf), fun _ => rfl⟩, fun _ _ => h⟩

theorem agree_of_restores {x : Gen α} {T : TypeId → Prop} {F : Cause → Prop}
    (h : Restores c x T F) : Agree c (fun _ => x) K :=
  fun s _ => agreeAt_of_quiet (h s).1 (h s).2

theorem Restores.agree {x : Gen α} (h : Restores c x) : Agree c (fun _ => x) K :=
  agree_of_restores h

theorem agree_fail (cause : Cause) : Agree c (fun _ => (fail cause : Gen α)) K :=
  agree_of_restores (Restores.fail (T := fun _ => False) (F := fun _ => True) cause trivial)

theorem agree_orFail (cause : Cause) (o : Option α) : Agree c (fun _ => orFail cause o) K := by
  cases o with
  | none => exact agree_fail cause
  | some a => exact (Restores.pure a).agree

theorem agree_note (level : Log.Level) (message : String) :
    Agree c (fun _ => note level message) K := fun _ _ =>
  ⟨.inl ⟨_, fun _ h => (by cases h), fun _ => rfl⟩, fun _ _ => .of_eq rfl rfl rfl rfl rfl rfl⟩

theorem outcome_withActivation (act : Activation) (x : Gen α) (s : State) :
    outcome (withActivation act x) c s =
      ((outcome x c { s with act }).1, { (outcome x c { s with act }).2 with act := s.act }) :=
  outcome_finally_modify x (fun t => { t with act := s.act }) c { s with act }

theorem outcome_withBreakTarget (b : BreakTarget) (x : Gen α) (s : State) :
    outcome (withBreakTarget b x) c s =
      let o := outcome x c { s with act := { s.act with breakTarget := some b } }
      (o.1, { o.2 with act := { o.2.act with breakTarget := s.act.breakTarget } }) :=
  outcome_finally_modify x
    (fun t => { t with act := { t.act with breakTarget := s.act.breakTarget } }) c
    { s with act := { s.act with breakTarget := some b } }

theorem outcome_aside (x : Gen α) (s : State) :
    outcome (aside x) c s =
      let o := outcome x c s
      (o.1, State.returnTo s.builder.position
        { o.2 with fn := s.fn, blocks := s.blocks, definition := s.definition }) := by
  have hy : outcome (do
      modify fun t => { t with fn := s.fn, blocks := s.blocks, definition := s.definition }
      restorePosition s.builder.position) c (outcome x c s).2 = (.ok (), State.returnTo
        s.builder.position { (outcome x c s).2 with
          fn := s.fn, blocks := s.blocks, definition := s.definition }) :=
    outcome_restorePosition _ _ _
  have hx := outcome_finally x hy
  simp only [bind_assoc] at hx
  exact hx

/-- What is done afterwards, however the steps end. -/
theorem Lasting.Meets.follow {o : ι → Except Failure α × State} (h : K.Meets o) {g : State → State}
    (hg : ∀ i, K.keeps i → Interns (o i).2 (g (o i).2)) :
    K.Meets fun i => ((o i).1, g (o i).2) := by
  obtain ⟨p, hshared, hp⟩ | hK := h
  · exact .inl ⟨(p.1, g p.2), hshared, fun i => congrArg (fun p => (p.1, g p.2)) (hp i)⟩
  · exact .inr (K.lasts (fun i hi => ⟨hg i hi, fun _ => id⟩) hK)

namespace AgreeAt

variable {x : ι → Gen α} {f : ι → α → Gen β} {s t : State}

theorem bind (h : AgreeAt c s x K)
    (hf : ∀ a t, Restored s t → AgreeAt c t (fun i => f i a) K) :
    AgreeAt c s (fun i => x i >>= f i) K := by
  have hrest : ∀ i, K.keeps i → Restored s (outcome (x i >>= f i) c s).2 ∧
      Ensues (outcome (x i) c s) (outcome (x i >>= f i) c s) := by
    intro i hi
    have hr := h.restored i hi
    rw [outcome_bind]
    generalize outcome (x i) c s = o at hr
    obtain ⟨e | a, t⟩ := o
    · exact ⟨hr, .refl t, fun f hf => by cases hf; rfl⟩
    · have ht := (hf a t hr).restored i hi
      exact ⟨hr.trans ht, ht.interns, nofun⟩
  refine ⟨?_, fun i hi => (hrest i hi).1⟩
  obtain ⟨p, hshared, hp⟩ | hK := h.meets
  · obtain ⟨i, hi⟩ := K.kept
    have hr : Restored s p.2 := hp i ▸ h.restored i hi
    simp only [outcome_bind, hp]
    obtain ⟨e | a, t⟩ := p
    · exact .inl ⟨(.error e, t), fun f hf => hshared f (by cases hf; rfl), fun _ => rfl⟩
    · exact (hf a t hr).meets
  · exact .inr (K.lasts (fun i hi => (hrest i hi).2) hK)

/-- Steps that come to what others come to in a state in which generation goes on. -/
theorem since {x' : ι → Gen α} (h : AgreeAt c t x' K)
    (hx : ∀ i, outcome (x i) c s = outcome (x' i) c t) (hr : Restored s t) : AgreeAt c s x K where
  meets := by
    simp only [hx]
    exact h.meets
  restored i hi := by
    rw [hx]
    exact hr.trans (h.restored i hi)

/-- Steps around others, with something to be done however those end. -/
theorem around {y : ι → Gen α} {g : State → State} (h : AgreeAt c t x K)
    (hy : ∀ i, Restored t (outcome (x i) c t).2 →
      outcome (y i) c s = ((outcome (x i) c t).1, g (outcome (x i) c t).2))
    (hg : ∀ t', Restored t t' → Restored s (g t') ∧ Interns t' (g t')) : AgreeAt c s y K := by
  have hkept : ∀ i, K.keeps i → outcome (y i) c s =
      ((outcome (x i) c t).1, g (outcome (x i) c t).2) := fun i hi => hy i (h.restored i hi)
  refine ⟨?_, fun i hi => ?_⟩
  · obtain ⟨p, hshared, hp⟩ | hK := h.meets
    · -- A step that leaves a state like this is among those that come to the same.
      obtain ⟨i, hi⟩ := K.kept
      have hr : Restored t p.2 := hp i ▸ h.restored i hi
      refine .inl ⟨(p.1, g p.2), hshared, fun j => ?_⟩
      have hj : outcome (x j) c t = p := hp j
      exact hj ▸ hy j (hj ▸ hr)
    · refine .inr (K.lasts (fun i hi => ?_) hK)
      rw [hkept i hi]
      exact ⟨(hg _ (h.restored i hi)).2, fun _ => id⟩
  · rw [hkept i hi]
    exact (hg _ (h.restored i hi)).1

theorem withActivation {act : Activation} (h : AgreeAt c { s with act } x K) :
    AgreeAt c s (fun i => withActivation act (x i)) K :=
  h.around (g := fun t => { t with act := s.act }) (fun i _ => outcome_withActivation act (x i) s)
    fun _ hr => ⟨⟨hr.fn, hr.definition, hr.blocks, .refl _, hr.inFunction,
      hr.interns.congr rfl rfl⟩, .of_eq rfl⟩

end AgreeAt

namespace Agree

variable {x y : ι → Gen α} {f : ι → α → Gen β}

theorem bind (h : Agree c x K) (hf : ∀ a, Agree c (fun i => f i a) K) :
    Agree c (fun i => x i >>= f i) K :=
  fun s hs => (h s hs).bind fun a t hr => hf a t (hr.inFunction hs)

theorem ite {p : Prop} [Decidable p] (h : Agree c x K) (h' : Agree c y K) :
    Agree c (fun i => if p then x i else y i) K := by
  split
  · exact h
  · exact h'

theorem mapM {κ : Type} {f : ι → κ → Gen β} (h : ∀ k, Agree c (fun i => f i k) K) (l : List κ) :
    Agree c (fun i => l.mapM (f i)) K := by
  induction l with
  | nil => exact (Restores.pure []).agree
  | cons k l ih =>
    simp only [List.mapM_cons]
    exact (h k).bind fun _ => ih.bind fun _ => (Restores.pure _).agree

theorem withActivation (h : Agree c x K) (act : Activation) :
    Agree c (fun i => withActivation act (x i)) K :=
  fun s hs => (h { s with act } hs).withActivation

theorem withBreakTarget (h : Agree c x K) (b : BreakTarget) :
    Agree c (fun i => withBreakTarget b (x i)) K := fun s hs =>
  (h { s with act := { s.act with breakTarget := some b } } hs).around
    (g := fun t => { t with act := { t.act with breakTarget := s.act.breakTarget } })
    (fun i _ => outcome_withBreakTarget b (x i) s) fun _ hr =>
      ⟨⟨hr.fn, hr.definition, hr.blocks,
        ⟨hr.act.scope, hr.act.returnTarget, rfl, hr.act.vars⟩, hr.inFunction,
        hr.interns.congr rfl rfl⟩, .of_eq rfl⟩

end Agree

/-! ### Something else in between -/

/-- A state in which something else is generated than in another one, in its activation. -/
structure Away (s t : State) : Prop where
  inFunction : t.InFunction
  act : s.act.Kept t.act
  interns : Interns s t

theorem Away.step {s t : State} {x : Gen α} (h : Away s t) (hx : Restores c x) :
    Away s (outcome x c t).2 :=
  ⟨(hx t).1.inFunction h.inFunction, h.act.trans (hx t).1.act, h.interns.trans (hx t).1.interns⟩

theorem Away.bind {s t : State} {x : Gen α} {f : α → Gen β} (hx : Away s (outcome x c t).2)
    (hf : ∀ a t', Away s t' → Away s (outcome (f a) c t').2) :
    Away s (outcome (x >>= f) c t).2 := by
  rw [outcome_bind]
  generalize outcome x c t = o at hx
  obtain ⟨e | a, t'⟩ := o
  · exact hx
  · exact hf a t' hx

/-- A function is entered at its start, and given a slot for its result if it needs one. -/
theorem outcome_enterFunction (func : FuncId) (d : Def) (s : State) :
    ∃ s₁, outcome (enterFunction func d) c s = outcome (match d.type with
      | some t => do
        if ← isAddressHeld t then
          let slot ← alloca (← irType t) (some "return")
          modify fun s => { s with fn := { s.fn with returnSlot := some slot } }
      | none => return ()) c s₁ ∧ Away s s₁ :=
  have h₁ := (still_appendBlock : Still (Build.appendBlock func "alloca")) s.builder
  have h₂ := (still_appendBlock : Still (Build.appendBlock func "entry"))
    (Build.appendBlock func "alloca" s.builder).2
  ⟨_, rfl, ⟨_, rfl⟩, .refl _, (Interns.built (h₁.2.2.trans h₂.2.2) (h₂.2.1.trans h₁.2.1)
    (List.Subset.refl _)).trans (.of_eq rfl)⟩

/-- A new function is entered in the activation of the caller. -/
theorem away_enterFunction (func : FuncId) (d : Def) (s : State) :
    Away s (outcome (enterFunction func d) c s).2 := by
  obtain ⟨s₁, hout, haway⟩ := outcome_enterFunction (c := c) func d s
  rw [hout]
  cases d.type with
  | none => exact haway
  | some t =>
    refine (haway.step restores_isAddressHeld).bind fun held s₂ h₂ => ?_
    split
    · refine (h₂.step restores_irType).bind fun type s₃ h₃ => ?_
      refine (h₃.step restores_alloca).bind fun slot s₄ h₄ => ?_
      exact ⟨h₄.inFunction, h₄.act, h₄.interns.trans (.of_eq rfl)⟩
    · exact h₂

/-- Going on elsewhere is no part of what is kept in order. -/
theorem quiet_positionAt {T : TypeId → Prop} {func : FuncId} {b : BlockId} {s : State} :
    Quiet T Cause.Ordinary s (outcome (emit (Build.positionAt func b)) c s) :=
  .of_eq (a := ()) rfl rfl rfl (List.Subset.refl _)

theorem quiet_enterFunction {T : TypeId → Prop} {func : FuncId} {d : Def} {s : State} :
    Quiet T Cause.Ordinary s (outcome (enterFunction func d) c s) := by
  refine Quiet.bind (still_appendBlock.restores.wide s).2 fun _ s₁ _ => ?_
  refine Quiet.bind (still_appendBlock.restores.wide s₁).2 fun _ s₂ _ => ?_
  refine Quiet.bind (.of_eq rfl rfl rfl (List.Subset.refl _)) fun _ s₃ _ => ?_
  refine Quiet.bind quiet_positionAt fun _ s₄ _ => ?_
  split
  · refine Quiet.bind (restores_isAddressHeld.wide s₄).2 fun _ s₅ _ => ?_
    split
    · refine Quiet.bind (restores_irType.wide s₅).2 fun _ s₆ _ => ?_
      refine Quiet.bind (restores_alloca.wide s₆).2 fun _ s₇ _ => ?_
      exact .of_eq rfl rfl rfl (List.Subset.refl _)
    · exact .refl _ _
  · exact .refl _ _

/-- Steps that come to the same away from the current function, or to something that lasts: of where
generation was, they leave the activation. -/
structure AgreeAway (c : Context) (s : State) (x : ι → Gen α) (K : Lasting ι) : Prop where
  meets : K.Meets fun i => outcome (x i) c s
  act : ∀ i, K.keeps i → s.act.Kept (outcome (x i) c s).2.act
  interns : ∀ i, K.keeps i → Interns s (outcome (x i) c s).2

/-- A state in which something else is generated. -/
theorem AgreeAway.since {x x' : ι → Gen α} {s t : State} (h : AgreeAway c t x' K)
    (hx : ∀ i, outcome (x i) c s = outcome (x' i) c t) (haway : Away s t) : AgreeAway c s x K where
  meets := by
    simp only [hx]
    exact h.meets
  act i hi := by
    rw [hx]
    exact haway.act.trans (h.act i hi)
  interns i hi := by
    rw [hx]
    exact haway.interns.trans (h.interns i hi)

/-- Steps that go away with the same step and agree there. -/
theorem AgreeAway.after {x : Gen α} {f : ι → α → Gen β} {s : State} {F : Cause → Prop}
    {T : TypeId → Prop} (hx : Away s (outcome x c s).2) (hq : Quiet T F s (outcome x c s))
    (hf : ∀ a t, Away s t → AgreeAway c t (fun i => f i a) K) :
    AgreeAway c s (fun i => x >>= f i) K := by
  cases ho : outcome x c s with
  | mk r t =>
    rw [ho] at hx hq
    cases r with
    | error e =>
      have hout : ∀ i, outcome (x >>= f i) c s = (.error e, t) := fun i => by
        rw [outcome_bind, ho]
        rfl
      refine ⟨.inl ⟨_, fun f hf => K.unlocated f (hq.unlocated f ?_), hout⟩, fun i _ => ?_,
        fun i _ => ?_⟩
      · cases hf
        rfl
      · rw [hout]
        exact hx.act
      · rw [hout]
        exact hx.interns
    | ok a => exact (hf a t hx).since (fun i => outcome_after ho) hx

/-- What is done aside may change all but the activation. -/
theorem AgreeAway.aside {x : ι → Gen α} {s : State} (h : AgreeAway c s x K) (hs : s.InFunction) :
    AgreeAt c s (fun i => aside (x i)) K := by
  obtain ⟨b, hb⟩ := hs
  refine ⟨?_, fun i hi => ?_⟩
  · simp only [outcome_aside]
    exact h.meets.follow (g := fun t => State.returnTo s.builder.position
      { t with fn := s.fn, blocks := s.blocks, definition := s.definition }) fun _ _ => .of_eq rfl
  · rw [outcome_aside]
    refine ⟨rfl, rfl, rfl, h.act i hi, fun _ => ⟨b, ?_⟩, (h.interns i hi).trans (.of_eq rfl)⟩
    show s.builder.position.or _ = some (s.fn.func, b)
    rw [hb]
    rfl

/-- The state after a block of a function is ended with a jump. -/
def State.joined (s : State) (f : FuncId) (b b' : BlockId) : State :=
  { s with builder := ((do Build.positionAt f b; Build.br b' : Build Unit) s.builder).2 }

theorem outcome_brAt (f : FuncId) (b b' : BlockId) (s : State) :
    outcome (do Build.positionAt f b; Build.br b' : Gen Unit) c s = (.ok (), s.joined f b b') := rfl

theorem interns_joined (f : FuncId) (b b' : BlockId) (s : State) : Interns s (s.joined f b b') :=
  have hbr := (still_br : Still (Build.br b')) { s.builder with position := some (f, b) }
  Interns.built hbr.2.2 hbr.2.1 (List.Subset.refl _)

/-- Steps that agree, and after them one that does not fail and stays in the activation. -/
theorem AgreeAt.then {x : ι → Gen α} {f : α → Gen β} {t : State} (h : AgreeAt c t x K)
    (hf : ∀ a t', ∃ b t₁, outcome (f a) c t' = (.ok b, t₁) ∧ t₁.act = t'.act ∧ Interns t' t₁) :
    AgreeAway c t (fun i => x i >>= f) K := by
  have hnext : ∀ o : Except Failure α × State, (goOn f c o).2.act = o.2.act ∧
      Ensues o (goOn f c o) ∧ ∀ e, (goOn f c o).1 = .error e → o.1 = .error e := by
    rintro ⟨e | a, t'⟩
    · exact ⟨rfl, ⟨.refl t', fun _ h => by cases h; rfl⟩, fun _ h => by cases h; rfl⟩
    · obtain ⟨b, t₁, hout, hact, hi⟩ := hf a t'
      have hgo : goOn f c (.ok a, t') = (.ok b, t₁) := hout
      rw [hgo]
      exact ⟨hact, ⟨hi, nofun⟩, nofun⟩
  refine ⟨?_, fun i hi => ?_, fun i hi => ?_⟩
  · simp only [outcome_bind]
    obtain ⟨p, hshared, hp⟩ | hK := h.meets
    · exact .inl ⟨goOn f c p, fun e he => hshared e ((hnext p).2.2 e he), fun i =>
        congrArg (goOn f c) (hp i)⟩
    · exact .inr (K.lasts (fun i _ => (hnext _).2.1) hK)
  · rw [outcome_bind, (hnext _).1]
    exact (h.restored i hi).act
  · rw [outcome_bind]
    exact (h.restored i hi).interns.trans (hnext _).2.1.interns

/-- Steps that agree, and something that is done in the activation however they end. -/
theorem AgreeAt.finally {x : ι → Gen α} {y : Gen Unit} {g : State → State} {t : State}
    (h : AgreeAt c t x K) (hy : ∀ t', outcome y c t' = (.ok (), g t'))
    (hact : ∀ t', (g t').act = t'.act) (hg : ∀ t', Interns t' (g t')) :
    AgreeAway c t (fun i => do let r ← attempt (x i); y; resume r) K := by
  have hout : ∀ i, outcome (do let r ← attempt (x i); y; resume r) c t =
      ((outcome (x i) c t).1, g (outcome (x i) c t).2) := fun i => outcome_finally _ (hy _)
  refine ⟨?_, fun i hi => ?_, fun i hi => ?_⟩
  · simp only [hout]
    exact h.meets.follow fun i _ => hg _
  · rw [hout, hact]
    exact (h.restored i hi).act
  · rw [hout]
    exact (h.restored i hi).interns.trans (hg _)

/-- Generate something in place of a call, with its block pending. -/
def inPlace (block : Block Node) (act : Activation) (x : Gen α) : Gen α := do
  pushFrame block act
  let r ← attempt x
  popFrame
  resume r

theorem outcome_popFrame {s : State} {frame : BlockFrame} {rest : List BlockFrame}
    (h : s.blocks = frame :: rest) :
    outcome popFrame c s = (.ok (), { s with act := frame.caller, blocks := rest }) := by
  cases s
  cases h
  rfl

/-- Afterwards the frame on top is the one that was put there. -/
theorem outcome_inPlace {block : Block Node} {act : Activation} {x : Gen α} {s : State} :
    let s₁ := { s with act, blocks := { block, caller := s.act } :: s.blocks }
    Restored s₁ (outcome x c s₁).2 → outcome (inPlace block act x) c s =
      ((outcome x c s₁).1, { (outcome x c s₁).2 with act := s.act, blocks := s.blocks }) := by
  intro s₁ hr
  exact outcome_finally (s := s₁) x (y := popFrame) (outcome_popFrame hr.blocks)

theorem Agree.inPlace {x : ι → Gen α} (h : Agree c x K) (block : Block Node) (act : Activation) :
    Agree c (fun i => inPlace block act (x i)) K := fun s hs =>
  (h { s with act, blocks := { block, caller := s.act } :: s.blocks } hs).around
    (g := fun t => { t with act := s.act, blocks := s.blocks }) (fun _ hr => outcome_inPlace hr)
    fun _ hr => ⟨⟨hr.fn, hr.definition, rfl, .refl _, hr.inFunction, hr.interns.congr rfl rfl⟩,
      .of_eq rfl⟩

/-! ### Visitors -/

/-- Visitors that agree on every expression. -/
def Alike (c : Context) (visit : ι → Visitor) (K : Lasting ι) : Prop :=
  ∀ n, Agree c (fun i => visit i n) K

section

variable {visit : ι → Visitor} (hv : Alike c visit K)
include hv

/-! ### Control flow -/

theorem agree_operand (n : Option Node) : Agree c (fun i => operand (visit i) n) K := by
  cases n with
  | none => exact (restores_nil.bind fun _ => .pure _).agree
  | some n => exact (hv n).bind fun _ => (restores_typeOf.bind fun _ => .pure _).agree

theorem agree_sequence (last : Value) (nodes : List Node) :
    Agree c (fun i => sequence (visit i) last nodes) K := by
  induction nodes generalizing last with
  | nil => exact (Restores.pure last).agree
  | cons n rest ih =>
    exact (hv n).bind fun value => restores_isTerminated.agree.bind fun _ =>
      .ite (Restores.pure value).agree (ih value)

theorem agree_arm (block exit : BlockId) (slot : Option Value) (t : Option TypeId)
    (n : Option Node) : Agree c (fun i => arm (visit i) block exit slot t n) K :=
  restores_positionAt.agree.bind fun _ => (agree_operand hv n).bind fun _ => restores_deliver.agree

theorem agree_branchOn (t : Option TypeId) (cond : Value) (whenTrue whenFalse : Option Node) :
    Agree c (fun i => branchOn (visit i) t cond whenTrue whenFalse) K := by
  refine restores_appendBlock.agree.bind fun thenBlock => ?_
  refine restores_appendBlock.agree.bind fun elseBlock => ?_
  refine restores_appendBlock.agree.bind fun exit => ?_
  refine still_condBr.restores.agree.bind fun _ => restores_mergeSlot.agree.bind fun slot => ?_
  refine (agree_arm hv _ _ _ _ _).bind fun fromThen => ?_
  exact (agree_arm hv _ _ _ _ _).bind fun fromElse => restores_merge.agree

theorem agree_branch (t : Option TypeId) (cond : Node) (whenTrue whenFalse : Option Node) :
    Agree c (fun i => branch (visit i) t cond whenTrue whenFalse) K := by
  refine (hv cond).bind fun value => restores_isTerminated.agree.bind fun _ => ?_
  refine .ite restores_deadValue.agree (restores_knownTruth?.agree.bind fun known => ?_)
  cases known with
  | some taken =>
    refine (agree_operand hv _).bind fun _ => restores_isTerminated.agree.bind fun _ => ?_
    exact .ite restores_deadValue.agree restores_asResult.agree
  | none =>
    exact restores_typeOf.agree.bind fun _ => restores_truth.agree.bind fun _ =>
      agree_branchOn hv t _ whenTrue whenFalse

theorem agree_loop (cond : Node) (body : Option Node) (runOnce : Bool) :
    Agree c (fun i => loop (visit i) cond body runOnce) K := by
  refine restores_appendBlock.agree.bind fun head => ?_
  refine restores_appendBlock.agree.bind fun bodyBlock => ?_
  refine restores_appendBlock.agree.bind fun exit => ?_
  refine still_br.restores.agree.bind fun _ => restores_positionAt.agree.bind fun _ => ?_
  refine (hv cond).bind fun value => restores_typeOf.agree.bind fun _ => ?_
  refine restores_truth.agree.bind fun test => still_condBr.restores.agree.bind fun _ => ?_
  refine restores_positionAt.agree.bind fun _ => ?_
  refine ((agree_operand hv body).withBreakTarget _).bind fun _ => ?_
  refine still_br.restores.agree.bind fun _ => restores_positionAt.agree.bind fun _ => ?_
  refine restores_get.agree.bind fun s => Restores.agree ?_
  split
  · exact still_unreachable.restores.bind fun _ => .pure _
  · exact .bind (.pure _) fun _ => .pure _

theorem agree_leave (value : Option Node) : Agree c (fun i => leave (visit i) value) K := by
  refine (agree_operand hv value).bind fun r => restores_isTerminated.agree.bind fun _ => ?_
  refine .ite (Restores.pure _).agree (restores_get.agree.bind fun s => Restores.agree ?_)
  split
  · exact restores_jumpToTarget.bind fun _ => .pure _
  · exact restores_returnFromFunction.bind fun _ => .pure _

theorem agree_exit (value : Option Node) : Agree c (fun i => exit (visit i) value) K := by
  refine (agree_operand hv value).bind fun r => restores_get.agree.bind fun s => Restores.agree ?_
  split
  · exact still_br.restores.bind fun _ => .pure _
  · exact restores_jumpToTarget.bind fun _ => .pure _
  · exact .bind (.fail _ trivial) fun _ => .pure _

theorem agree_membership (n : Node) (target : TypeId) :
    Agree c (fun i => membership (visit i) n target) K :=
  (hv n).bind fun _ => restores_typeOf.agree.bind fun _ => restores_isA.agree

theorem agree_truthOf (n : Node) : Agree c (fun i => truthOf (visit i) n) K :=
  (hv n).bind fun _ => restores_typeOf.agree.bind fun _ => restores_truth.agree

theorem agree_either (left right : Node) :
    Agree c (fun i => either (visit i) left right) K :=
  (agree_truthOf hv left).bind fun _ => (agree_truthOf hv right).bind fun _ =>
    still_or.restores.agree

/-! ### Functions -/

theorem agree_functionBody (d : Def) : Agree c (fun i => functionBody (visit i) d) K :=
  (agree_operand hv d.body).bind fun _ => restores_isTerminated.agree.bind fun _ =>
    .ite (Restores.pure _).agree restores_returnFromFunction.agree

theorem agree_fillFunction (func : FuncId) (d : Def) (selfType : Option TypeId) :
    Agree c (fun i => fillFunction (visit i) func d selfType) K := by
  refine fun s hs => AgreeAway.aside ?_ hs
  refine .after (T := fun _ => False) (away_enterFunction func d s) quiet_enterFunction
    fun _ t ht => ?_
  have hcode : Agree c (fun i => do
      let act ← functionActivation d selfType
      withActivation act (functionBody (visit i) d)) K :=
    restores_functionActivation.agree.bind fun act => (agree_functionBody hv d).withActivation act
  have hdone := (hcode t ht.inFunction).finally (fun t' => outcome_brAt func t.fn.allocaBlock
    t.fn.entryBlock t') (fun _ => rfl) (interns_joined func t.fn.allocaBlock t.fn.entryBlock)
  simp only [bind_assoc] at hdone
  exact hdone.since (fun _ => rfl) ⟨ht.inFunction, .refl _, .refl _⟩

theorem agree_makeFunction (name : String) (d : Def) (selfType : Option TypeId) :
    Agree c (fun i => makeFunction (visit i) name d selfType) K := by
  refine restores_declareFunction.agree.bind fun func => .ite ?_ ?_
  · exact (agree_note _ _).bind fun _ => (Restores.pure _).agree
  · exact (agree_note _ _).bind fun _ => (agree_fillFunction hv func d selfType).bind fun _ =>
      (Restores.pure func).agree

theorem agree_functionOf (d : Def) (selfType : Option TypeId) :
    Agree c (fun i => functionOf (visit i) d selfType) K := by
  refine restores_types.agree.bind fun ts => restores_get.agree.bind fun s => ?_
  cases s.builder.module.findFunction (d.mangledName ts selfType) with
  | some func => exact (Restores.pure func).agree
  | none => exact agree_makeFunction hv _ d selfType

theorem agree_callFunction (d : Def) (selfType : Option TypeId) (args : List Value) :
    Agree c (fun i => callFunction (visit i) d selfType args) K := by
  refine (agree_functionOf hv d selfType).bind fun func => restores_get.agree.bind fun s => ?_
  exact restores_coerceAll.agree.bind fun args => still_call.restores.agree.bind fun value =>
    restores_noteCall.agree.bind fun _ => restores_callResult.agree

/-! ### Constants -/

omit hv in
theorem outcome_settle (g : GlobalId) (t : TypeId) (value : Value) (s : State) :
    outcome (settle g t value) c s =
      match knownContent? (c.program.types.irType t) value with
      | some content => (.ok (), s.withModule (s.builder.module.modifyGlobal g fun g =>
          { g with init := some content, constant := true }))
      | none => outcome (assign (.global g) t t value) c s := by
  have h : outcome (irType t) c s = (.ok (c.program.types.irType t), s) := rfl
  rw [settle, outcome_after h]
  cases knownContent? (c.program.types.irType t) value <;> rfl

omit hv in
/-- The global that is settled is behind a constant. -/
theorem restored_settle {g : GlobalId} {t : TypeId} {value : Value} {s : State} {id : ConstId}
    (h : s.consts.lookup id = some g) : Restored s (outcome (settle g t value) c s).2 := by
  rw [outcome_settle]
  cases knownContent? (c.program.types.irType t) value with
  | some content =>
    exact ⟨rfl, rfl, rfl, .refl _, fun hs => hs, interns_content h (fun _ => rfl) fun _ => rfl⟩
  | none => exact (restores_assign s).1

omit hv in
theorem quiet_settle {g : GlobalId} {t : TypeId} {value : Value} {s : State} {T : TypeId → Prop} :
    Quiet T Cause.Ordinary s (outcome (settle g t value) c s) := by
  rw [outcome_settle]
  cases knownContent? (c.program.types.irType t) value with
  | some content => exact .of_eq rfl rfl rfl (List.Subset.refl _)
  | none => exact (restores_assign.wide s).2

theorem agree_initializer {id : ConstId} {g : GlobalId} (d : ConstDef) (t : TypeId) {s : State}
    (hs : s.InFunction) (hl : s.consts.lookup id = some g) :
    AgreeAt c s (fun i => initializer (visit i) g d t) K := by
  refine (restores_types.agree s hs).bind fun ts s₁ h₁ => .withActivation ?_
  refine AgreeAt.bind (hv d.value _ (h₁.inFunction hs)) fun value s₂ h₂ => ?_
  have hl₂ := h₂.interns.consts id g (h₁.interns.consts id g hl)
  refine AgreeAt.bind (agreeAt_of_quiet (T := fun _ => False) (restored_settle hl₂) quiet_settle)
    fun _ s₃ h₃ => ?_
  exact restores_currentBlock.agree _ (h₃.inFunction (h₂.inFunction (h₁.inFunction hs)))

theorem agree_hoist {id : ConstId} {g : GlobalId} (d : ConstDef) (t : TypeId) {s : State}
    (hs : s.InFunction) (hl : s.consts.lookup id = some g) :
    AgreeAt c s (fun i => hoist (visit i) g d t) K := by
  refine (agree_note _ _ s hs).bind fun _ s hr => AgreeAway.aside ?_ (hr.inFunction hs)
  replace hl := hr.interns.consts id g hl
  -- The initializer starts in a block of the entry function, in the activation of the reference.
  obtain ⟨s₁, block, hout, haway⟩ : ∃ s₁ block, (∀ i, outcome (do
      let main := (← read).main
      modify fun s => { s with fn := main, blocks := [] }
      let block ← Build.appendBlock main.func ("const_" ++ d.name)
      Build.positionAt main.func block
      let tail ← initializer (visit i) g d t
      Build.positionAt main.func (← get).constTail
      Build.br block
      modify fun s => { s with constTail := tail }) c s = outcome (do
        let tail ← initializer (visit i) g d t
        Build.positionAt c.main.func (← get).constTail
        Build.br block
        modify fun s => { s with constTail := tail }) c s₁) ∧ Away s s₁ :=
    have hblock :=
      (still_appendBlock : Still (Build.appendBlock c.main.func ("const_" ++ d.name))) s.builder
    ⟨_, _, fun _ => rfl, ⟨_, rfl⟩, .refl _, (Interns.built hblock.2.2 hblock.2.1
      (List.Subset.refl _)).trans (.of_eq rfl)⟩
  refine AgreeAway.since ?_ hout haway
  refine (agree_initializer hv d t haway.inFunction (haway.interns.consts id g hl)).then
    fun tail t' => ?_
  have hi := interns_joined c.main.func t'.constTail block t'
  exact ⟨(), { t'.joined c.main.func t'.constTail block with constTail := tail }, rfl, rfl,
    hi.trans (.of_eq rfl)⟩

/-- The state with a global with zero bits behind a constant. -/
def State.withConst (s : State) (id : ConstId) (name : String) (t : Ty) : State :=
  { s.withGlobal (s.zeroed name t) with
    consts := (id, s.builder.module.nextGlobal) :: s.consts }

omit hv in
/-- A constant that has no global yet gets one before its initializer is generated. -/
theorem outcome_constantGlobal {visit : Visitor} {id : ConstId} {d : ConstDef} {t : TypeId}
    {s : State} (h : s.consts.lookup id = none) :
    outcome (constantGlobal visit id d t) c s = outcome (do
      hoist visit s.builder.module.nextGlobal d t
      return s.builder.module.nextGlobal) c
        (s.withConst id d.name (c.program.types.irType t)) := by
  have hget : outcome (get : Gen State) c s = (.ok s, s) := rfl
  rw [constantGlobal, outcome_after hget, h]
  rfl

theorem agree_constantGlobal (id : ConstId) (d : ConstDef) (t : TypeId) :
    Agree c (fun i => constantGlobal (visit i) id d t) K := by
  intro s hs
  cases h : s.consts.lookup id with
  | some g =>
    have hout : ∀ i, outcome (constantGlobal (visit i) id d t) c s =
        outcome (pure g : Gen GlobalId) c s := fun i => by
      have hget : outcome (get : Gen State) c s = (.ok s, s) := rfl
      rw [constantGlobal, outcome_after hget, h]
    exact ((Restores.pure g).agree s hs).since hout (.refl s)
  | none =>
    have hr : Restored s (s.withConst id d.name (c.program.types.irType t)) :=
      ⟨rfl, rfl, rfl, .refl _, fun hs => hs, interns_const h rfl⟩
    refine .since ?_ (fun i => outcome_constantGlobal h) hr
    refine (agree_hoist hv d t (hr.inFunction hs) List.lookup_cons_self).bind fun _ s₁ h₁ => ?_
    exact (Restores.pure _).agree s₁ (h₁.inFunction (hr.inFunction hs))

theorem agree_constant (id : ConstId) : Agree c (fun i => constant (visit i) id) K := by
  refine restores_read.agree.bind fun _ => (agree_orFail _ _).bind fun d => ?_
  exact restores_typeOf.agree.bind fun t => (agree_constantGlobal hv id d t).bind fun g =>
    restores_heldIn.agree

/-! ### Inlined calls and blocks -/

omit hv in
/-- An inlined call, with the part that is generated in its place. -/
theorem inlineCall_eq (visit : Visitor) (n : Node) (block : Block Node) (d : Def)
    (selfType : Option TypeId) (args : List Value) : inlineCall visit n block d selfType args = (do
      note .debug ("inlining " ++ d.name ++ " with a block")
      let exit ← appendBlock "return"
      let slot ← mergeSlot n.type
      let target ← addTarget exit n.type slot
      let vars ← parameterScope d selfType args
      let scope := selfType.or (← get).act.scope
      inPlace block { vars, scope, returnTarget := some target } (inlineBody visit d target)
      let incoming ← takeIncoming target
      let value ← merge exit slot n.type incoming
      return (value, ← typeOf n)) := by
  simp only [inlineCall, inPlace, bind_assoc]

theorem agree_inlineBody (d : Def) (target : TargetId) :
    Agree c (fun i => inlineBody (visit i) d target) K :=
  (agree_operand hv d.body).bind fun _ => restores_jumpToTarget.agree

theorem agree_inlineCall (n : Node) (block : Block Node) (d : Def) (selfType : Option TypeId)
    (args : List Value) :
    Agree c (fun i => inlineCall (visit i) n block d selfType args) K := by
  simp only [inlineCall_eq]
  refine (agree_note _ _).bind fun _ => restores_appendBlock.agree.bind fun exit => ?_
  refine restores_mergeSlot.agree.bind fun slot => restores_addTarget.agree.bind fun target => ?_
  refine restores_parameterScope.agree.bind fun vars => restores_get.agree.bind fun s => ?_
  refine ((agree_inlineBody hv d target).inPlace _ _).bind fun _ => Restores.agree ?_
  exact restores_takeIncoming.bind fun _ => restores_merge.bind fun _ =>
    restores_typeOf.bind fun _ => .pure _

theorem agree_blockScope (vars : Scope) (args : List BlockArg) (values : List Node) :
    Agree c (fun i => blockScope (visit i) vars args values) K := by
  induction args generalizing vars values with
  | nil => exact (Restores.pure _).agree
  | cons a args ih =>
    refine (agree_operand hv _).bind fun r => restores_isTerminated.agree.bind fun _ => ?_
    refine .ite (Restores.pure _).agree (restores_irType.agree.bind fun _ => ?_)
    exact restores_alloca.agree.bind fun slot => restores_assign.agree.bind fun _ => ih _ _

theorem agree_discard (nodes : List Node) : Agree c (fun i => discard (visit i) nodes) K := by
  induction nodes with
  | nil => exact (Restores.pure _).agree
  | cons n rest ih => exact (hv n).bind fun _ => ih

theorem agree_inlineBlock (n : Node) (values : List Node) (frame : BlockFrame) :
    Agree c (fun i => inlineBlock (visit i) n values frame) K := by
  refine (agree_blockScope hv _ _ _).bind fun scope => ?_
  cases scope with
  | none => exact restores_deadValue.agree
  | some vars =>
    refine (agree_discard hv _).bind fun _ => restores_isTerminated.agree.bind fun _ => ?_
    refine .ite restores_deadValue.agree (restores_get.agree.bind fun s => ?_)
    refine ((agree_operand hv frame.block.body).withActivation _).bind fun r => ?_
    exact restores_isTerminated.agree.bind fun _ =>
      .ite restores_deadValue.agree restores_asResult.agree

omit hv in
theorem outcome_yield_nil {visit : Visitor} {s : State} (h : s.blocks = []) (n : Node)
    (values : List Node) :
    outcome (yield visit n values) c s = (.error { cause := .yieldWithoutBlock }, s) := by
  cases s
  cases h
  rfl

omit hv in
/-- While a block is generated it is not pending, and afterwards it is again. -/
theorem outcome_yield_cons {visit : Visitor} {s : State} {frame : BlockFrame}
    {rest : List BlockFrame} (h : s.blocks = frame :: rest) (n : Node) (values : List Node) :
    outcome (yield visit n values) c s =
      let o := outcome (inlineBlock visit n values frame) c { s with blocks := rest }
      (o.1, { o.2 with blocks := frame :: o.2.blocks }) := by
  cases s
  cases h
  exact outcome_finally_modify (inlineBlock visit n values frame)
    (fun t => { t with blocks := frame :: t.blocks }) c _

theorem agree_yield (n : Node) (values : List Node) :
    Agree c (fun i => yield (visit i) n values) K := by
  intro s hs
  cases hb : s.blocks with
  | nil =>
    exact (agree_fail (α := Value) .yieldWithoutBlock s hs).since
      (fun i => outcome_yield_nil hb n values) (.refl s)
  | cons frame rest =>
    refine AgreeAt.around (agree_inlineBlock hv n values frame { s with blocks := rest } hs)
      (g := fun t => { t with blocks := frame :: t.blocks })
      (fun i _ => outcome_yield_cons hb n values) fun t hr => ⟨⟨hr.fn, hr.definition, ?_, hr.act,
        hr.inFunction, hr.interns.congr rfl rfl⟩, .of_eq rfl⟩
    show frame :: t.blocks = s.blocks
    rw [hr.blocks, hb]

/-! ### Calls -/

theorem agree_resolvedCall (n : Node) (block : Option (Block Node)) (d : Def)
    (selfType : Option TypeId) (args : List Value) :
    Agree c (fun i => resolvedCall (visit i) n block d selfType args) K := by
  cases block with
  | some block => exact agree_inlineCall hv n block d selfType args
  | none => exact agree_callFunction hv d selfType args

theorem agree_receiverArgument (k : Call Node) (selfType : Option TypeId) :
    Agree c (fun i => receiverArgument (visit i) k selfType) K := by
  unfold receiverArgument
  cases k.receiver with
  | some r =>
    cases selfType with
    | some t =>
      exact (hv r).bind fun _ => restores_typeOf.agree.bind fun _ =>
        (restores_convert.bind fun _ => .pure _).agree
    | none => exact (hv r).bind fun _ => (Restores.pure _).agree
  | none =>
    cases selfType with
    | some t => exact (restores_implicitSelf.bind fun _ => .pure _).agree
    | none => exact (Restores.pure _).agree

theorem agree_passedArgument (n : Node) (param : Option Arg) :
    Agree c (fun i => passedArgument (visit i) n param) K := by
  unfold passedArgument
  dsimp only
  split
  · exact restores_typeOf.agree.bind fun _ => (agree_of_restores
      (restores_declare (T := fun _ => True) trivial)).bind fun _ => (Restores.pure _).agree
  · refine (hv n).bind fun value => ?_
    cases param with
    | some p => exact restores_typeOf.agree.bind fun _ => restores_convert.agree
    | none => exact (Restores.pure _).agree

theorem agree_passedArguments (params : List Arg) (nodes : List Node) :
    Agree c (fun i => passedArguments (visit i) params nodes) K := by
  induction nodes generalizing params with
  | nil => exact (Restores.pure _).agree
  | cons n rest ih =>
    refine restores_isTerminated.agree.bind fun _ => .ite (Restores.pure _).agree ?_
    exact (agree_passedArgument hv n _).bind fun _ => (ih _).bind fun _ => (Restores.pure _).agree

omit hv in
theorem restores_receiverType (k : Call Node) : Restores c (receiverType k) := by
  unfold receiverType
  split
  · exact restores_typeOf.bind fun _ => .pure _
  · exact .pure _

theorem agree_staticCall (n : Node) (k : Call Node) (id : DefId) :
    Agree c (fun i => staticCall (visit i) n k id) K := by
  refine restores_targetOf.agree.bind fun d => restores_types.agree.bind fun ts => ?_
  refine (restores_receiverType k).agree.bind fun received => ?_
  refine (agree_receiverArgument hv k _).bind fun self => ?_
  refine (agree_passedArguments hv _ _).bind fun args => ?_
  refine restores_isTerminated.agree.bind fun _ => ?_
  refine .ite restores_deadValue.agree ((agree_resolvedCall hv n _ d _ _).bind fun r => ?_)
  exact restores_isTerminated.agree.bind fun _ =>
    .ite restores_deadValue.agree restores_asResult.agree

theorem agree_receiverOperand (k : Call Node) :
    Agree c (fun i => receiverOperand (visit i) k) K := by
  unfold receiverOperand
  cases k.receiver with
  | some r =>
    exact (hv r).bind fun _ => restores_typeOf.agree.bind fun _ =>
      (restores_operandOf.bind fun _ => .pure _).agree
  | none =>
    refine Restores.agree (restores_types.bind fun ts => restores_lookup?.bind fun self => ?_)
    split
    · split
      · exact restores_heldValue.bind fun _ => restores_operandOf.bind fun _ => .pure _
      · exact .pure _
    · exact .pure _

theorem agree_argumentOperands (nodes : List Node) :
    Agree c (fun i => argumentOperands (visit i) nodes) K := by
  induction nodes with
  | nil => exact (Restores.pure _).agree
  | cons n rest ih =>
    refine (hv n).bind fun value => restores_typeOf.agree.bind fun _ => ?_
    refine restores_operandOf.agree.bind fun o => restores_isTerminated.agree.bind fun _ => ?_
    exact .ite (Restores.pure _).agree (ih.bind fun _ => (Restores.pure _).agree)

theorem agree_callCandidate (n : Node) (block : Option (Block Node)) (exit : BlockId)
    (slot : Option Value) (self : Option Operand) (args : List Operand) (d : Def) :
    Agree c (fun i => callCandidate (visit i) n block exit slot self args d) K :=
  restores_types.agree.bind fun _ => restores_shaped.agree.bind fun passed =>
    (agree_resolvedCall hv n block d _ passed).bind fun _ => restores_deliver.agree

theorem agree_candidate (n : Node) (k : Call Node) (exit : BlockId) (slot : Option Value)
    (self : Option Operand) (args : List Operand) (id : DefId) :
    Agree c (fun i => candidate (visit i) n k exit slot self args id) K := by
  refine restores_targetOf.agree.bind fun d => restores_guard.agree.bind fun admitted => ?_
  refine restores_appendBlock.agree.bind fun current => ?_
  refine restores_appendBlock.agree.bind fun next => ?_
  refine still_condBr.restores.agree.bind fun _ => restores_positionAt.agree.bind fun _ => ?_
  refine restores_types.agree.bind fun ts => .ite ?_ ?_
  · exact (agree_callCandidate hv n _ _ _ _ _ d).bind fun _ =>
      (restores_positionAt.bind fun _ => .pure _).agree
  · exact restores_typeName.agree.bind fun _ => (agree_note _ _).bind fun _ => Restores.agree
      (still_unreachable.restores.bind fun _ => .bind (.pure _) fun _ =>
        restores_positionAt.bind fun _ => .pure _)

theorem agree_dispatch (n : Node) (k : Call Node) :
    Agree c (fun i => dispatch (visit i) n k) K := by
  refine (agree_note _ _).bind fun _ => (agree_receiverOperand hv k).bind fun self => ?_
  refine (agree_argumentOperands hv _).bind fun args => restores_isTerminated.agree.bind fun _ => ?_
  refine .ite restores_deadValue.agree (restores_appendBlock.agree.bind fun exit => ?_)
  refine restores_mergeSlot.agree.bind fun slot => ?_
  refine (Agree.mapM (fun id => agree_candidate hv n k exit slot self args id) _).bind
    fun incoming => ?_
  exact (still_unreachable.restores.bind fun _ => restores_merge).agree

theorem agree_call (n : Node) (k : Call Node) : Agree c (fun i => call (visit i) n k) K := by
  unfold call
  split
  · exact agree_fail _
  · exact agree_staticCall hv n k _
  · exact agree_dispatch hv n k

/-! ### Assignments -/

theorem agree_assignment (n target value : Node) :
    Agree c (fun i => assignment (visit i) n target value) K := by
  refine (hv value).bind fun v => restores_typeOf.agree.bind fun _ => ?_
  refine restores_isTerminated.agree.bind fun _ => .ite (Restores.pure v).agree ?_
  refine Agree.bind (agree_of_restores (restores_assignTarget (T := fun _ => True) trivial))
    fun _ => Restores.agree ?_
  exact restores_assign.bind fun _ => restores_typeOf.bind fun _ => restores_convert

theorem agree_detached (n : Node) : Agree c (fun i => detached (visit i) n) K := by
  refine (hv n).bind fun value => restores_typeOf.agree.bind fun _ => ?_
  refine restores_isAddressHeld.agree.bind fun _ => .ite (Restores.agree ?_) (Restores.pure _).agree
  exact restores_irType.bind fun _ => restores_alloca.bind fun _ => restores_assign.bind fun _ =>
    .pure _

omit hv in
theorem restores_storeAll {T : TypeId → Prop} (values : List (Node × Value × TypeId))
    (ht : ∀ p ∈ values, T (p.1.type.getD c.nil)) : Restores c (storeAll values) T := by
  induction values with
  | nil => exact .pure _
  | cons p rest ih =>
    refine restores_isTerminated.wide.bind fun done => ?_
    split
    · exact .pure _
    · refine (restores_assignTarget (ht p List.mem_cons_self)).bind fun _ => ?_
      exact restores_assign.wide.bind fun _ => ih fun q hq => ht q (List.mem_cons_of_mem _ hq)

theorem agree_multiAssignment (targets values : List Node) :
    Agree c (fun i => multiAssignment (visit i) targets values) K :=
  .ite (agree_fail _) <| (Agree.mapM (agree_detached hv) values).bind fun values =>
    (agree_of_restores (restores_storeAll (T := fun _ => True) (targets.zip values)
      fun _ _ => trivial)).bind fun _ => (Restores.pure _).agree

/-! ### Expressions -/

theorem agree_visitWith (n : Node) : Agree c (fun i => visitWith (visit i) n) K := by
  unfold visitWith
  cases n.kind with
  | nop | nilLiteral => exact (Restores.pure _).agree
  | boolLiteral value => exact (Restores.pure _).agree
  | intLiteral value => exact (restores_types.bind fun _ => .pure _).agree
  | floatLiteral value => exact (restores_types.bind fun _ => .pure _).agree
  | charLiteral value => exact (Restores.pure _).agree
  | stringLiteral value => exact restores_stringValue.agree
  | symbolLiteral value => exact agree_of_restores restores_symbolValue
  | typeLiteral => exact (restores_types.bind fun _ => .pure _).agree
  | var name => exact (restores_typeOf.bind fun _ => restores_readVariable).agree
  | assign target value => exact agree_assignment hv n target value
  | multiAssign targets values => exact agree_multiAssignment hv targets values
  | instanceVar name => exact (restores_typeOf.bind fun _ => restores_readField).agree
  | global name => exact (restores_typeOf.bind fun _ => restores_readGlobal).agree
  | const id => exact agree_constant hv id
  | expressions nodes => exact agree_sequence hv nilValue nodes
  | branch cond whenTrue whenFalse => exact agree_branch hv n.type cond whenTrue whenFalse
  | loop cond body runOnce => exact agree_loop hv cond body runOnce
  | «return» value => exact agree_leave hv value
  | «break» value => exact agree_exit hv value
  | yield values => exact agree_yield hv n values
  | call k => exact agree_call hv n k
  | isA value target => exact agree_membership hv value target
  | simpleOr left right => exact agree_either hv left right
  | pointerOf target =>
    exact restores_typeOf.agree.bind fun _ =>
      agree_of_restores (restores_pointerTo (T := fun _ => True) trivial)
  | nilPointer => exact (restores_typeOf.bind fun _ => restores_irType.bind fun _ => .pure _).agree
  | argc => exact restores_argumentCount.agree
  | argv => exact restores_argumentVector.agree
  | primitive op => exact restores_primitive.agree

end

/-! ### Every expression of a generation -/

/-- An expression, given the visitor of those inside, with what is recorded of it. -/
def visitOnce (visit : Visitor) : Visitor := fun n => do
  note .trace ("visit " ++ n.text)
  let value ← located n (visitWith visit n)
  record n value
  return value

theorem visit_succ (depth : Nat) : visit (depth + 1) = visitOnce (visit depth) := rfl

/-- The state in which an expression is begun. -/
def State.visiting (n : Node) (s : State) : State :=
  { s with log := s.log.push ⟨.trace, "visit " ++ n.text⟩ }

/-- The state with a position in the source for what is placed, when positions are recorded. -/
def State.marking (s : State) (c : Context) (l : Option Location) : State :=
  if c.debugInfo then { s with builder := { s.builder with location := l } } else s

/-- The state in which what an expression consists of is generated. -/
def State.inside (s : State) (c : Context) (n : Node) : State :=
  (s.visiting n).marking c ((n.location.filter Location.isKnown).or s.builder.location)

/-- What an expression comes to when what it consists of comes to an outcome. -/
def visited (c : Context) (n : Node) (s : State) :
    Except Failure Value × State → Except Failure Value × State
  | (.ok value, t) =>
    (.ok value, { t.marking c s.builder.location with last := { value, type := n.type } })
  | (.error f, t) => (.error (f.orAt n.location), t.marking c s.builder.location)

theorem restored_marking {s : State} {l : Option Location} : Restored s (s.marking c l) := by
  unfold State.marking
  split <;> exact .of_eq rfl rfl rfl rfl rfl rfl

theorem restored_inside {s : State} {n : Node} : Restored s (s.inside c n) :=
  have hbegun : Restored s (s.visiting n) := .of_eq rfl rfl rfl rfl rfl rfl
  hbegun.trans restored_marking

theorem restored_visited {n : Node} {s : State} {o : Except Failure Value × State} :
    Restored o.2 (visited c n s o).2 := by
  obtain ⟨f | value, t⟩ := o
  · exact restored_marking
  · exact restored_marking.trans (.of_eq rfl rfl rfl rfl rfl rfl)

theorem outcome_atLocation (n : Node) (x : Gen α) (s : State) :
    outcome (atLocation n x) c s =
      let o := outcome x c
        (s.marking c ((n.location.filter Location.isKnown).or s.builder.location))
      (o.1, o.2.marking c s.builder.location) := by
  show outcome (if c.debugInfo then _ else x) c s = _
  unfold State.marking
  cases c.debugInfo with
  | false => rfl
  | true =>
    have hback : ∀ t, outcome (emit (Build.setLocation s.builder.location)) c t =
        (.ok (), { t with builder := { t.builder with location := s.builder.location } }) :=
      fun _ => rfl
    cases n.location.filter Location.isKnown with
    | none => exact outcome_finally x (hback _)
    | some l => exact outcome_finally x (hback _)

theorem outcome_visitOnce (visit : Visitor) (n : Node) (s : State) :
    outcome (visitOnce visit n) c s =
      visited c n s (outcome (visitWith visit n) c (s.inside c n)) := by
  have hnote : outcome (note .trace ("visit " ++ n.text)) c s = (.ok (), s.visiting n) := rfl
  have hat : outcome (atLocation n (visitWith visit n)) c (s.visiting n) =
      ((outcome (visitWith visit n) c (s.inside c n)).1,
        (outcome (visitWith visit n) c (s.inside c n)).2.marking c s.builder.location) :=
    outcome_atLocation n (visitWith visit n) (s.visiting n)
  rw [visitOnce, outcome_after hnote, located, bind_assoc, outcome_bind]
  show goOn _ c (.ok (outcome (atLocation n (visitWith visit n)) c (s.visiting n)).1,
    (outcome (atLocation n (visitWith visit n)) c (s.visiting n)).2) = _
  rw [hat]
  generalize outcome (visitWith visit n) c (s.inside c n) = o
  obtain ⟨f | value, t⟩ := o <;> rfl

/-- A visitor that leaves generation where it was. -/
def Restoring (c : Context) (visit : Visitor) : Prop :=
  ∀ n s, State.InFunction s → Restored s (outcome (visit n) c s).2

theorem Restoring.alike {visit : Visitor} (h : Restoring c visit) :
    Alike c (fun _ => visit) .never := fun n s hs =>
  ⟨.inl ⟨_, fun _ _ => trivial, fun _ => rfl⟩, fun _ _ => h n s hs⟩

theorem Restoring.visitWith {visit : Visitor} (h : Restoring c visit) :
    Restoring c (visitWith visit) := fun n s hs =>
  (agree_visitWith h.alike n s hs).restored () trivial

theorem restoring_visit (depth : Nat) : Restoring c (visit depth) := by
  induction depth with
  | zero => exact fun n s _ => .refl s
  | succ depth ih =>
    intro n s hs
    rw [visit_succ, outcome_visitOnce]
    have hr : Restored s (s.inside c n) := restored_inside
    exact (hr.trans (ih.visitWith n _ (hr.inFunction hs))).trans restored_visited

/-- An expression generated in a state has another one generated in a state: it comes to something
else for another visitor, which differs nowhere but there. -/
def Consults (c : Context) (visit : Visitor) (n : Node) (s : State) (m : Node) (t : State) : Prop :=
  ∃ other : Visitor,
    (∀ m' t', ¬ (m' = m ∧ t' = t) → outcome (other m') c t' = outcome (visit m') c t') ∧
      outcome (visitOnce other n) c s ≠ outcome (visitOnce visit n) c s

/-- An expression that begins with another one has it generated. -/
theorem consults_first {visit : Visitor} {n m : Node} {s : State}
    {f : Visitor → Value → Gen Value} (hf : ∀ w, visitWith w n = w m >>= f w) :
    Consults c visit n s m (s.inside c n) := by
  classical
  -- Of two failures of the expression inside, at most one comes to what the visitor makes of it.
  let failing (cause : Cause) : Visitor := fun m' c' t' =>
    if m' = m ∧ t' = s.inside c n then (.error { cause }, t') else visit m' c' t'
  have hsame : ∀ cause m' t', ¬ (m' = m ∧ t' = s.inside c n) →
      outcome (failing cause m') c t' = outcome (visit m') c t' := fun cause m' t' h => if_neg h
  have hout : ∀ cause, (outcome (visitOnce (failing cause) n) c s).1 =
      .error { cause, location := n.location } := by
    intro cause
    have hm : outcome (failing cause m) c (s.inside c n) = (.error { cause }, s.inside c n) :=
      if_pos ⟨rfl, rfl⟩
    rw [outcome_visitOnce, hf, outcome_bind, hm]
    rfl
  by_cases h : outcome (visitOnce (failing .noSelf) n) c s = outcome (visitOnce visit n) c s
  · refine ⟨failing .noSymbols, hsame _, fun h' => ?_⟩
    have heq := congrArg Prod.fst (h.trans h'.symm)
    rw [hout, hout] at heq
    simp at heq
  · exact ⟨failing .noSelf, hsame _, h⟩

/-- The expressions that are generated for a program, each with the bound on the nesting inside it
and the state in which it is begun. -/
inductive Reached (p : Program) (o : Options) (c : Context) : Nat → Node → State → Prop
  | root {n : Node} {s s' : State} (start : start? p o = some (c, s))
      (symbols : Gives prepareSymbols c s () s') (root : p.root = some n) :
      Reached p o c p.nestingBound n s'
  | inner {depth : Nat} {n m : Node} {s t : State} (outer : Reached p o c (depth + 1) n s)
      (consults : Consults c (visit depth) n s m t) : Reached p o c depth m t

/-- What comes of the first of two steps. -/
def Lasting.first (P : ∀ {α : Type}, Except Failure α × State → Prop)
    (hP : ∀ {α β : Type} {o : Except Failure α × State} {o' : Except Failure β × State},
      Ensues o o' → P o → P o') : Lasting Bool where
  keeps i := i = true
  kept := ⟨true, rfl⟩
  shared _ := True
  unlocated _ _ := trivial
  holds o := P (o true)
  lasts h := hP (h true rfl)

/-- Another visitor that leads to the same makes no difference where the two differ. -/
theorem Consults.lasts {visit : Visitor} {n m : Node} {s t : State}
    (h : Consults c visit n s m t) (hv : Restoring c visit) (hs : s.InFunction)
    (P : ∀ {α : Type}, Except Failure α × State → Prop)
    (hP : ∀ {α β : Type} {o : Except Failure α × State} {o' : Except Failure β × State},
      Ensues o o' → P o → P o')
    (hm : t.InFunction → P (outcome (visit m) c t)) :
    P (outcome (visitWith visit n) c (s.inside c n)) := by
  obtain ⟨other, hsame, hne⟩ := h
  have halike : Alike c (fun i => if i then visit else other) (.first P hP) := by
    intro m' t' ht'
    refine ⟨?_, fun i hi => ?_⟩
    · by_cases he : m' = m ∧ t' = t
      · obtain ⟨rfl, rfl⟩ := he
        exact .inr (hm ht')
      · refine .inl ⟨outcome (visit m') c t', fun _ _ => trivial, fun i => ?_⟩
        cases i with
        | true => rfl
        | false => exact hsame m' t' he
    · cases hi
      exact hv m' t' ht'
  obtain ⟨p, -, hp⟩ | hK := (agree_visitWith halike n _ (restored_inside.inFunction hs)).meets
  · refine absurd ?_ hne
    rw [outcome_visitOnce, outcome_visitOnce]
    exact congrArg (visited c n s) ((hp false).trans (hp true).symm)
  · exact hK

/-- Where instructions are placed outside of the current function, nothing is asked of a visitor. -/
theorem Consults.inFunction {visit : Visitor} {n m : Node} {s t : State}
    (h : Consults c visit n s m t) (hv : Restoring c visit) (hs : s.InFunction) :
    t.InFunction :=
  by_contra fun ht => h.lasts hv hs (fun _ => False) (fun _ => id) fun ht' => ht ht'

/-- What is interned before an expression inside is still there after the expression around it. -/
theorem Consults.interns {visit : Visitor} {n m : Node} {s t : State}
    (h : Consults c visit n s m t) (hv : Restoring c visit) (hs : s.InFunction) :
    Interns (outcome (visit m) c t).2 (outcome (visitOnce visit n) c s).2 := by
  have hi := h.lasts hv hs (fun o => Interns (outcome (visit m) c t).2 o.2)
    (fun h hi => hi.trans h.interns) fun _ => .refl _
  rw [outcome_visitOnce]
  exact hi.trans restored_visited.interns

/-- A generation starts without a table of symbols. -/
theorem symbolTable_start {p : Program} {o : Options} {s : State}
    (h : start? p o = some (c, s)) : s.symbolTable = none := by
  obtain ⟨nil, name, n₀, n₁, n₂, -, -, rfl⟩ := start?_eq h
  rfl

theorem restored_symbols {p : Program} {o : Options} {s s' : State}
    (hstart : start? p o = some (c, s)) (h : Gives prepareSymbols c s () s') : Restored s s' := by
  have hr := (restored_prepareSymbols (c := c) (T := fun _ => False) (symbolTable_start hstart)).1
  rwa [show outcome prepareSymbols c s = (.ok (), s') from h] at hr

theorem Reached.inFunction {p : Program} {o : Options} {depth : Nat} {n : Node} {s : State}
    (h : Reached p o c depth n s) : s.InFunction := by
  induction h with
  | @root n s s' start symbols =>
    have hr := restored_symbols start symbols
    obtain ⟨nil, name, n₀, n₁, n₂, -, -, rfl⟩ := start?_eq start
    exact hr.inFunction ⟨⟨2⟩, rfl⟩
  | inner outer consults ih => exact consults.inFunction (restoring_visit _) ih

/-- What is interned before and after an expression of a generation. -/
theorem Reached.interns {p : Program} {o : Options} {depth : Nat} {n : Node} {s : State}
    (h : Reached p o c depth n s) : Interns s (outcome (visit depth n) c s).2 :=
  (restoring_visit depth n s h.inFunction).interns

/-- However an expression of a program ends, the current function, the definition, the pending
blocks and the activation are afterwards what they were, instructions are placed in the same
function, and the variables that were in scope still are, with their types. -/
theorem restored_of_reached {p : Program} {o : Options} {depth : Nat} {n : Node}
    {s s' : State} {r : Except Failure Value} (hreached : Reached p o c depth n s)
    (hvisit : outcome (visit depth n) c s = (r, s')) :
    s'.fn = s.fn ∧ s'.definition = s.definition ∧ s'.blocks = s.blocks ∧
      s'.act.scope = s.act.scope ∧ s'.act.returnTarget = s.act.returnTarget ∧
      s'.act.breakTarget = s.act.breakTarget ∧
      (∃ b b', s.builder.position = some (s.fn.func, b) ∧
        s'.builder.position = some (s.fn.func, b')) ∧
      ∀ name v, s.act.vars.lookup name = some v →
        ∃ v', s'.act.vars.lookup name = some v' ∧ v'.type = v.type := by
  have hs := hreached.inFunction
  have hr := restoring_visit (c := c) depth n s hs
  rw [hvisit] at hr
  obtain ⟨b, hb⟩ := hs
  obtain ⟨b', hb'⟩ := hr.inFunction ⟨b, hb⟩
  rw [hr.fn] at hb'
  exact ⟨hr.fn, hr.definition, hr.blocks, hr.act.scope, hr.act.returnTarget, hr.act.breakTarget,
    ⟨b, b', hb, hb'⟩, hr.act.vars⟩

/-- The assignment of a number to a variable. -/
def oneAssigned : Node :=
  { id := 2
    kind := .assign { id := 1, kind := .var "x", type := some Draft.intType }
      { id := 0, kind := .intLiteral 1, type := some Draft.intType }
    type := some Draft.intType }

/-- The program of one assignment. -/
def oneAssignment : Program :=
  { types := Draft.new.types, root := some { id := 3, kind := .expressions [oneAssigned] } }

theorem restored_oneAssigned : ∃ c s, Reached oneAssignment {} c 49 oneAssigned s ∧
    ∃ r s', outcome (visit 49 oneAssigned) c s = (r, s') ∧ s'.fn = s.fn ∧ s'.blocks = s.blocks ∧
      s'.act.breakTarget = s.act.breakTarget := by
  have hbound : oneAssignment.nestingBound = 49 + 1 := by decide +kernel
  obtain ⟨⟨c, s⟩, hstart⟩ : ∃ p, start? oneAssignment {} = some p :=
    Option.isSome_iff_exists.mp (by decide +kernel)
  have hc : c.symbols = [] ∧ c.debugInfo = false := by
    obtain ⟨nil, name, n₀, n₁, n₂, -, rfl, -⟩ := start?_eq hstart
    exact ⟨show oneAssignment.symbolSet = [] by decide +kernel, rfl⟩
  have hsymbols : Gives prepareSymbols c s () s := by
    show outcome (if c.symbols.isEmpty then return () else _) c s = _
    rw [hc.1]
    rfl
  have hroot := Reached.root hstart hsymbols rfl
  rw [hbound] at hroot
  have hinner : Reached oneAssignment {} c 49 oneAssigned _ :=
    .inner hroot (consults_first (f := fun w value => do
      if ← isTerminated then return value else sequence w value []) fun w => rfl)
  have h := restored_of_reached hinner Prod.mk.eta.symm
  exact ⟨c, _, hinner, _, _, rfl, h.1, h.2.2.1, h.2.2.2.2.2.1⟩

end Lowering.Gen
