import Lowering.Proofs.Execution

/-!
# The step limit

A limit on the steps of a run is nothing but fuel: a run that ends within its limit is the same
run under every larger limit, and one that its limit cuts off has done the first part of what it
does under a larger limit.

* `Exec.Run.Free`: a computation that counts no steps, so that the limit has no say in it;
* `Exec.Run.Appends`: output is only ever added to;
* `Exec.Run.Paced`: the simulation between the runs of a computation under two limits, with a rule
  for each part of the machine, from single instructions to nested calls;
* `Exec.runMain_limited`: what that says about whole programs.
-/

namespace Lowering.Exec

open IR (Ty Constant Value InstId BlockId FuncId InstKind Module entryName)

/-- A state under another step limit. -/
def State.limited (k : Nat) (s : State) : State := { s with stepLimit := k }

/-- The second state has written what the first has, and perhaps more. -/
def State.Continues (s t : State) : Prop := ∃ w, t.output = s.output ++ w

theorem State.Continues.of_eq {s t : State} (h : t.output = s.output) : s.Continues t :=
  ⟨"", by rw [h, String.append_empty]⟩

theorem State.Continues.refl (s : State) : s.Continues s := .of_eq rfl

theorem State.Continues.trans {s t u : State} (h : s.Continues t) (h' : t.Continues u) :
    s.Continues u := by
  obtain ⟨w, hw⟩ := h
  obtain ⟨w', hw'⟩ := h'
  exact ⟨w ++ w', by rw [hw', hw, String.append_assoc]⟩

/-! ### Checks that do not know the limit -/

/-- A result that is not a step limit. -/
def Unlimited {α : Type} (r : Except Fault α) : Prop := ∀ l, r ≠ .error (.stepLimit l)

section

variable {α β : Type}

theorem unlimited_ok (a : α) : Unlimited (.ok a : Except Fault α) := nofun

theorem unlimited_error {e : Fault} (he : ∀ l, e ≠ .stepLimit l) :
    Unlimited (.error e : Except Fault α) :=
  fun l h => he l (Except.error.inj h)

theorem Unlimited.bind {r : Except Fault α} {f : α → Except Fault β} (h : Unlimited r)
    (hf : ∀ a, Unlimited (f a)) : Unlimited (r >>= f) := by
  cases r with
  | ok a => exact hf a
  | error e => exact unlimited_error fun l he => h l (congrArg _ he)

theorem Unlimited.map {r : Except Fault α} (h : Unlimited r) (f : α → β) :
    Unlimited (r.map f) := by
  cases r with
  | ok a => exact unlimited_ok _
  | error e => exact unlimited_error fun l he => h l (congrArg _ he)

theorem unlimited_integerOp (op : IR.BinaryOp) (x y : Int) : Unlimited (integerOp op x y) := by
  unfold integerOp
  split
  case h_4 | h_5 =>
    split
    · exact unlimited_error nofun
    · exact unlimited_ok _
  all_goals exact unlimited_ok _

theorem unlimited_binaryValue (op : IR.BinaryOp) (x y : RtValue) (t : Ty) :
    Unlimited (binaryValue op x y t) := by
  unfold binaryValue
  split
  · exact unlimited_ok _
  · dsimp only
    split
    · exact (unlimited_integerOp op _ _).map _
    · exact unlimited_error nofun

theorem Memory.unlimited_locate (m : Memory) (p n : Nat) : Unlimited (m.locate p n) := by
  unfold Memory.locate
  split
  · exact unlimited_error nofun
  · split
    · exact unlimited_error nofun
    · split
      · exact unlimited_error nofun
      · split
        · exact unlimited_error nofun
        · exact unlimited_ok _

theorem Memory.unlimited_read (m : Memory) (p n : Nat) : Unlimited (m.read p n) :=
  (m.unlimited_locate p n).bind fun _ => unlimited_ok _

theorem Memory.unlimited_load (m : Memory) (p : Nat) (t : Ty) : Unlimited (m.load p t) :=
  (m.unlimited_read p t.size).bind fun _ => unlimited_ok _

theorem Memory.unlimited_readTerminated (m : Memory) (p : Nat) :
    Unlimited (m.readTerminated p) :=
  (m.unlimited_locate p 0).bind fun _ => unlimited_ok _

end

namespace Run

variable {α β : Type} {n k b c d d' : Nat}

/-- The result of a computation and the state it leaves. -/
def outcome (x : Run α) (s : State) : Except Fault α × State := x s

theorem outcome_bind (x : Run α) (f : α → Run β) (s : State) :
    outcome (x >>= f) s = goOn f (outcome x s) :=
  bind_outcome x f s

/-! ### Computations that count no steps -/

/-- A computation that counts no steps: it does the same under every limit. -/
structure Free (x : Run α) : Prop where
  same : ∀ k (s : State), outcome x (s.limited k) = ((outcome x s).1, (outcome x s).2.limited k)
  steps : ∀ s, (outcome x s).2.steps = s.steps
  limit : ∀ s, (outcome x s).2.stepLimit = s.stepLimit
  output : ∀ s : State, s.Continues (outcome x s).2
  fault : ∀ s, Unlimited (outcome x s).1

theorem free_pure (a : α) : Free (pure a : Run α) where
  same _ _ := rfl
  steps _ := rfl
  limit _ := rfl
  output := .refl
  fault _ := unlimited_ok a

theorem free_throw {e : Fault} (he : ∀ l, e ≠ .stepLimit l) : Free (throw e : Run α) where
  same _ _ := rfl
  steps _ := rfl
  limit _ := rfl
  output := .refl
  fault _ := unlimited_error he

theorem Free.bind {x : Run α} {f : α → Run β} (hx : Free x) (hf : ∀ a, Free (f a)) :
    Free (x >>= f) := by
  have h : ∀ s, (∃ a t, outcome x s = (.ok a, t) ∧ outcome (x >>= f) s = outcome (f a) t) ∨
      ∃ e t, outcome x s = (.error e, t) ∧ outcome (x >>= f) s = (.error e, t) := by
    intro s
    rw [outcome_bind]
    obtain ⟨r, t⟩ := outcome x s
    cases r with
    | ok a => exact .inl ⟨a, t, rfl, rfl⟩
    | error e => exact .inr ⟨e, t, rfl, rfl⟩
  refine ⟨fun k s => ?_, fun s => ?_, fun s => ?_, fun s => ?_, fun s => ?_⟩
  · rw [outcome_bind, hx.same k s]
    obtain ⟨a, t, ht, h⟩ | ⟨e, t, ht, h⟩ := h s
    · rw [h, ht]
      exact (hf a).same k t
    · rw [h, ht]
      rfl
  · obtain ⟨a, t, ht, h⟩ | ⟨e, t, ht, h⟩ := h s
    · rw [h, (hf a).steps, ← hx.steps s, ht]
    · rw [h, ← hx.steps s, ht]
  · obtain ⟨a, t, ht, h⟩ | ⟨e, t, ht, h⟩ := h s
    · rw [h, (hf a).limit, ← hx.limit s, ht]
    · rw [h, ← hx.limit s, ht]
  · have hs := hx.output s
    obtain ⟨a, t, ht, h⟩ | ⟨e, t, ht, h⟩ := h s
    · rw [ht] at hs
      exact h ▸ hs.trans ((hf a).output t)
    · rw [ht] at hs
      exact h ▸ hs
  · have hs := hx.fault s
    obtain ⟨a, t, ht, h⟩ | ⟨e, t, ht, h⟩ := h s
    · exact h ▸ (hf a).fault t
    · rw [ht] at hs
      rw [h]
      exact unlimited_error fun l he => hs l (congrArg _ he)

/-- A computation that reads the state, but not the limit. -/
theorem free_get {f : State → Run α} (hf : ∀ s, Free (f s))
    (h : ∀ k (s : State), f (s.limited k) = f s) : Free (get >>= f) where
  same k s := (congrArg (outcome · (s.limited k)) (h k s)).trans ((hf s).same k s)
  steps s := (hf s).steps s
  limit s := (hf s).limit s
  output s := (hf s).output s
  fault s := (hf s).fault s

/-- A change of the state that leaves the steps and the limit alone. -/
theorem free_modifyGet {f : State → α × State}
    (h : ∀ k (s : State), f (s.limited k) = ((f s).1, (f s).2.limited k))
    (hs : ∀ s, (f s).2.steps = s.steps) (hl : ∀ s, (f s).2.stepLimit = s.stepLimit)
    (ho : ∀ s : State, s.Continues (f s).2) : Free (modifyGet f : Run α) where
  same k s := congrArg (fun p : α × State => (Except.ok p.1, p.2)) (h k s)
  steps := hs
  limit := hl
  output := ho
  fault _ := unlimited_ok _

/-- A change of the memory. -/
theorem free_modify_memory (f : State → Memory)
    (h : ∀ k (s : State), f (s.limited k) = f s) :
    Free (modify fun s => { s with memory := f s } : Run Unit) :=
  free_modifyGet
    (fun k s => congrArg (fun m => ((), ({ s with memory := m, stepLimit := k } : State))) (h k s))
    (fun _ => rfl) (fun _ => rfl) fun _ => .of_eq rfl

theorem free_allocate (size : Nat) : Free (allocate size) :=
  free_modifyGet (fun _ _ => rfl) (fun _ => rfl) (fun _ => rfl) fun _ => .of_eq rfl

theorem free_access {f : Memory → Except Fault α} (h : ∀ memory, Unlimited (f memory)) :
    Free (access f) := by
  refine free_get (fun s => ?_) fun _ _ => rfl
  have hs := h s.memory
  cases hf : f s.memory with
  | ok a => exact free_pure a
  | error e => exact free_throw fun l he => hs l (hf.trans (congrArg _ he))

theorem free_change {check : Memory → Except Fault α} {update : Memory → α → Memory}
    (h : ∀ memory, Unlimited (check memory)) : Free (change check update) :=
  (free_access h).bind fun a => free_modify_memory (fun s => update s.memory a) fun _ _ => rfl

theorem free_write (p : Nat) (bs : List UInt8) : Free (write p bs) :=
  free_change fun memory => memory.unlimited_locate p bs.length

section

variable (fr : Frame)

theorem free_operand (v : Value) : Free (operand fr v) := by
  unfold operand
  split
  · exact free_get (fun s => free_pure _) fun _ _ => rfl
  · split
    · exact free_pure _
    · exact free_throw nofun
  · split
    · exact free_pure _
    · exact free_throw nofun
  · exact free_get (fun s => free_pure _) fun _ _ => rfl

theorem free_intOperand (v : Value) : Free (intOperand fr v) := by
  refine (free_operand fr v).bind fun x => ?_
  split
  · exact free_pure _
  · exact free_pure _
  · exact free_throw nofun

theorem free_ptrOperand (v : Value) : Free (ptrOperand fr v) := by
  refine (free_operand fr v).bind fun x => ?_
  split
  · exact free_pure _
  · exact free_throw nofun

theorem free_operands (vs : List Value) : Free (vs.mapM (operand fr)) := by
  induction vs with
  | nil => exact free_pure _
  | cons v vs ih =>
    rw [List.mapM_cons]
    exact (free_operand fr v).bind fun _ => ih.bind fun _ => free_pure _

theorem free_stepIndices {overflow : Fault} (ho : ∀ l, overflow ≠ .stepLimit l) (t : Ty)
    (offset : Int) (vs : List Value) : Free (stepIndices fr overflow t offset vs) := by
  induction vs generalizing t offset with
  | nil => exact free_pure _
  | cons v vs ih =>
    refine (free_intOperand fr v).bind fun i => ?_
    dsimp only
    split
    · exact ih _ _
    · exact free_throw ho

omit fr in
theorem free_moved (base : Nat) (offset : Int) :
    Free (if base = 0 then return .ptr 0 else
      match moved? base offset with
      | some p => return .ptr p
      | none => throw (.outOfBounds base 0) : Run RtValue) := by
  split
  · exact free_pure _
  · split
    · exact free_pure _
    · exact free_throw nofun

theorem free_address (base : Nat) (t : Ty) (vs : List Value) : Free (address fr base t vs) := by
  have hoverflow : ∀ l, Fault.outOfBounds base 0 ≠ .stepLimit l := nofun
  cases vs with
  | nil => exact (free_pure 0).bind (free_moved base)
  | cons v vs =>
    refine (free_intOperand fr v).bind fun i => ?_
    split
    · exact (free_stepIndices fr hoverflow t _ vs).bind (free_moved base)
    · exact (free_throw hoverflow).bind (free_moved base)

theorem free_phiValues (fn : IR.Function) (source : Option BlockId) (ids : List InstId) :
    Free (phiValues fn fr source ids) := by
  induction ids with
  | nil => exact free_pure _
  | cons id ids ih =>
    unfold phiValues
    split
    · split
      · exact free_throw nofun
      · split
        · exact free_throw nofun
        · exact (free_operand fr _).bind fun _ => ih.bind fun _ => free_pure _
    · exact ih

end

theorem free_reallocate (old size : Nat) : Free (reallocate old size) := by
  refine (free_allocate size).bind fun fresh => ?_
  split
  · refine (free_access fun memory => memory.unlimited_locate old 0).bind fun place => ?_
    refine free_get (fun s => ?_) fun _ _ => rfl
    refine (free_access fun memory => memory.unlimited_read old _).bind fun bs => ?_
    refine (free_write fresh bs).bind fun _ => ?_
    exact (free_modify_memory (fun s => s.memory.release old) fun _ _ => rfl).bind
      fun _ => free_pure _
  · exact free_pure _

theorem free_builtin (name : String) (args : List RtValue) : Free (builtin name args) := by
  unfold builtin
  split
  · exact (free_allocate _).bind fun _ => free_pure _
  · exact free_reallocate _ _
  · exact (free_change fun memory => memory.unlimited_locate _ _).bind fun _ => free_pure _
  · refine (free_access fun memory => memory.unlimited_read _ _).bind fun _ => ?_
    exact (free_write _ _).bind fun _ => free_pure _
  · refine (free_access fun memory => memory.unlimited_readTerminated _).bind fun line => ?_
    refine Free.bind ?_ fun _ => free_pure _
    exact free_modifyGet (fun _ _ => rfl) (fun _ => rfl) (fun _ => rfl)
      fun s => ⟨line ++ "\n", String.append_assoc⟩
  · exact free_throw nofun

theorem free_extract (v : RtValue) (source target : Ty) (index : Nat) :
    Free (extract v source target index) := by
  unfold extract
  split
  · exact free_pure _
  · exact free_throw nofun

section

variable {m : Module} {call call' : FuncId → List RtValue → Run RtValue} {f : FuncId}

/-- Every instruction but a call is free. -/
theorem free_instruction {kind : InstKind} (hkind : ∀ callee args, kind ≠ .call callee args)
    (fr : Frame) (t : Ty) : Free (instruction m call f fr kind t) := by
  cases kind with
  | alloca slot =>
    refine (free_allocate _).bind fun p => Free.bind ?_ fun _ => free_pure _
    exact free_modifyGet (fun _ _ => rfl) (fun _ => rfl) (fun _ => rfl) fun _ => .of_eq rfl
  | load ptr =>
    exact (free_ptrOperand fr ptr).bind fun p => free_access fun memory => memory.unlimited_load p t
  | store value ptr =>
    refine (free_ptrOperand fr ptr).bind fun p => (free_operand fr value).bind fun v => ?_
    exact (free_write p _).bind fun _ => free_pure _
  | gep ptr indices => exact (free_ptrOperand fr ptr).bind fun base => free_address fr base _ indices
  | cast op value => exact (free_operand fr value).bind fun _ => free_pure _
  | binary op lhs rhs =>
    refine (free_operand fr lhs).bind fun a => (free_operand fr rhs).bind fun b => ?_
    have hr := unlimited_binaryValue op a b t
    split
    · exact free_pure _
    · next e he => exact free_throw fun l h => hr l (he.trans (congrArg _ h))
  | not value => exact (free_intOperand fr value).bind fun _ => free_pure _
  | icmp pred lhs rhs =>
    exact (free_intOperand fr lhs).bind fun _ => (free_intOperand fr rhs).bind fun _ => free_pure _
  | fcmp pred lhs rhs =>
    exact (free_operand fr lhs).bind fun _ => (free_operand fr rhs).bind fun _ => free_pure _
  | select cond ifTrue ifFalse =>
    refine (free_operand fr cond).bind fun c => ?_
    split
    · exact free_operand fr ifTrue
    · exact free_operand fr ifFalse
  | phi incoming => exact free_throw nofun
  | call callee args => exact absurd rfl (hkind callee args)
  | malloc elem => exact (free_allocate _).bind fun _ => free_pure _
  | arrayMalloc elem count =>
    refine (free_intOperand fr count).bind fun n => ?_
    dsimp only
    split
    · exact (free_allocate _).bind fun _ => free_pure _
    · exact free_throw nofun
  | extractValue aggregate index =>
    exact (free_operand fr aggregate).bind fun v => free_extract v _ t index

end

theorem free_writeArgs (vector : Nat) (args : List String) : Free (writeArgs vector args) := by
  induction args generalizing vector with
  | nil => exact free_pure _
  | cons a as ih =>
    refine (free_allocate _).bind fun p => (free_write p _).bind fun _ => ?_
    exact (free_write vector _).bind fun _ => ih _

/-! ### Output -/

/-- A computation that only adds to the output. -/
def Appends (x : Run α) : Prop := ∀ s : State, s.Continues (outcome x s).2

theorem Free.appends {x : Run α} (h : Free x) : Appends x := h.output

theorem continues_goOn {f : α → Run β} {s : State} {o : Except Fault α × State}
    (hf : ∀ a, Appends (f a)) (h : s.Continues o.2) : s.Continues (goOn f o).2 := by
  obtain ⟨e | a, t⟩ := o
  · exact h
  · exact h.trans (hf a t)

theorem Appends.bind {x : Run α} {f : α → Run β} (hx : Appends x) (hf : ∀ a, Appends (f a)) :
    Appends (x >>= f) := fun s => by
  rw [outcome_bind]
  exact continues_goOn hf (hx s)

theorem outcome_tick (s : State) : outcome tick s =
    (if s.stepLimit < s.steps + 1 then .error (.stepLimit s.stepLimit) else .ok (), s.ticked) := by
  show (if s.stepLimit < s.steps + 1 then _ else _ : Run Unit) s.ticked = _
  split <;> rfl

theorem appends_tick : Appends tick := fun s => by
  rw [outcome_tick]
  exact .of_eq rfl

theorem outcome_withSlots (body : Run α) (s : State) : outcome (withSlots body) s =
    ((outcome body { s with slots := [] }).1,
      let inner := (outcome body { s with slots := [] }).2
      { inner with
        memory := inner.slots.reverse.foldl Memory.release inner.memory, slots := s.slots }) :=
  rfl

theorem Appends.withSlots {x : Run α} (h : Appends x) : Appends (withSlots x) := fun s => by
  rw [outcome_withSlots]
  exact h { s with slots := [] }

/-! ### Two limits -/

/-- The outcomes of one computation under a limit `n` and under a limit `k`, the first of them
having counted at least `low` steps if it ended with a value. -/
inductive Related (n k low : Nat) : Except Fault α × State → Except Fault α × State → Prop
  | ended {a : α} {s : State} (limit : s.stepLimit = n) (hlow : low ≤ s.steps)
      (steps : s.steps ≤ n) : Related n k low (.ok a, s) (.ok a, s.limited k)
  | failed {e : Fault} {s : State} (he : ∀ l, e ≠ .stepLimit l) (limit : s.stepLimit = n)
      (steps : s.steps ≤ n) : Related n k low (.error e, s) (.error e, s.limited k)
  | cut {s : State} {o : Except Fault α × State} (limit : s.stepLimit = n)
      (steps : s.steps = n + 1) (output : s.Continues o.2)
      (same : k = n → o = (.error (.stepLimit n), s)) :
      Related n k low (.error (.stepLimit n), s) o

/-- Two computations whose outcomes are related when the first of them is started with at least
`b` steps counted, and which count at least `d` more before they end with a value. -/
structure Paced (n k b d : Nat) (x y : Run α) : Prop where
  related : ∀ s : State, s.stepLimit = n → b ≤ s.steps → s.steps ≤ n →
    Related n k (s.steps + d) (outcome x s) (outcome y (s.limited k))
  appends : Appends y

/-- Nothing is asked of a computation for which no steps are left, but of the other one. -/
theorem Appends.paced {y : Run α} (h : Appends y) (hb : n < b) (x : Run α) :
    Paced n k b d x y :=
  ⟨fun _ _ hs hn => absurd (hb.trans_le (hs.trans hn)) (lt_irrefl n), h⟩

theorem Free.paced {x : Run α} (h : Free x) : Paced n k b 0 x x := by
  refine ⟨fun s hl hb hn => ?_, h.appends⟩
  have hsteps := h.steps s
  have hlimit := h.limit s
  have hfault := h.fault s
  rw [h.same k s]
  generalize outcome x s = o at hsteps hlimit hfault ⊢
  obtain ⟨r, t⟩ := o
  cases r with
  | ok a => exact .ended (hlimit.trans hl) (le_of_eq hsteps.symm) (hsteps.trans_le hn)
  | error e =>
    exact .failed (fun l he => hfault l (congrArg _ he)) (hlimit.trans hl) (hsteps.trans_le hn)

theorem paced_tick (hnk : n ≤ k) : Paced n k b 1 tick tick := by
  refine ⟨fun s hl hb hn => ?_, appends_tick⟩
  rw [outcome_tick, outcome_tick]
  by_cases h : s.steps < n
  · rw [if_neg (by omega), if_neg (by simp only [State.limited]; omega)]
    exact .ended hl le_rfl h
  · rw [if_pos (by omega), hl]
    have hsteps : s.steps = n := by omega
    refine .cut hl (congrArg (· + 1) hsteps) (.of_eq rfl) fun hk => ?_
    subst hk
    subst hl
    rw [if_pos (by simp only [State.limited]; omega)]
    rfl

theorem Related.mono {low low' : Nat} {o o' : Except Fault α × State}
    (h : Related n k low o o') (hlow : low' ≤ low) : Related n k low' o o' := by
  cases h with
  | ended limit h steps => exact .ended limit (hlow.trans h) steps
  | failed he limit steps => exact .failed he limit steps
  | cut limit steps output same => exact .cut limit steps output same

theorem Paced.mono {x y : Run α} (h : Paced n k b d x y) (hc : b ≤ c) (hd : d' ≤ d) :
    Paced n k c d' x y :=
  ⟨fun s hl hb hn => (h.related s hl (hc.trans hb) hn).mono (by omega), h.appends⟩

theorem Paced.bind {x y : Run α} {f g : α → Run β} (h : Paced n k b d x y)
    (hf : ∀ a, Paced n k (b + d) d' (f a) (g a)) : Paced n k b (d + d') (x >>= f) (y >>= g) := by
  refine ⟨fun s hl hb hn => ?_, h.appends.bind fun a => (hf a).appends⟩
  have hxy := h.related s hl hb hn
  rw [outcome_bind, outcome_bind]
  generalize outcome x s = o, outcome y (s.limited k) = o' at hxy
  cases hxy with
  | ended limit hlow steps => exact ((hf _).related _ limit (by omega) steps).mono (by omega)
  | failed he limit steps => exact .failed he limit steps
  | cut limit steps output same =>
    refine .cut limit steps (continues_goOn (fun a => (hf a).appends) output) fun hk => ?_
    rw [same hk]
    rfl

/-- What is free takes no steps before what is paced. -/
theorem Free.bind_paced {x : Run α} {f g : α → Run β} (h : Free x)
    (hf : ∀ a, Paced n k b d (f a) (g a)) : Paced n k b d (x >>= f) (x >>= g) :=
  Nat.zero_add d ▸ h.paced.bind hf

theorem Paced.withSlots {x y : Run α} (h : Paced n k b d x y) :
    Paced n k b d (withSlots x) (withSlots y) := by
  refine ⟨fun s hl hb hn => ?_, h.appends.withSlots⟩
  have hxy := h.related { s with slots := [] } hl hb hn
  rw [outcome_withSlots, outcome_withSlots,
    show { s.limited k with slots := [] } = State.limited k { s with slots := [] } from rfl]
  generalize outcome x { s with slots := [] } = o,
    outcome y (State.limited k { s with slots := [] }) = o' at hxy
  cases hxy with
  | ended limit hlow steps => exact .ended limit hlow steps
  | failed he limit steps => exact .failed he limit steps
  | cut limit steps output same => exact .cut limit steps output fun hk => by rw [same hk]; rfl

/-! ### The parts of the machine -/

section

variable {m : Module} {call call' : FuncId → List RtValue → Run RtValue} {f : FuncId}

theorem paced_instruction (hcall : ∀ g args, Paced n k b 0 (call g args) (call' g args))
    (fr : Frame) (kind : InstKind) (t : Ty) :
    Paced n k b 0 (instruction m call f fr kind t) (instruction m call' f fr kind t) := by
  by_cases h : ∃ callee args, kind = .call callee args
  · obtain ⟨callee, args, rfl⟩ := h
    exact (free_operands fr args).bind_paced fun values => hcall callee values
  · have hkind : ∀ callee args, kind ≠ .call callee args := fun callee args he => h ⟨_, _, he⟩
    have heq : instruction m call f fr kind t = instruction m call' f fr kind t := by
      cases kind with
      | call callee args => exact absurd rfl (hkind callee args)
      | _ => rfl
    exact heq ▸ (free_instruction hkind fr t).paced

theorem paced_instructions (hnk : n ≤ k)
    (hcall : ∀ g args, Paced n k (b + 1) 0 (call g args) (call' g args)) (fn : IR.Function)
    (fr : Frame) (ids : List InstId) :
    Paced n k b 0 (instructions m call f fn fr ids) (instructions m call' f fn fr ids) := by
  induction ids generalizing fr with
  | nil => exact (free_pure _).paced
  | cons id ids ih =>
    unfold instructions
    dsimp only
    split
    · exact ih fr
    · refine Paced.mono ((paced_tick hnk).bind fun _ => ?_) le_rfl
        (Nat.zero_le (1 + (0 + 0)))
      refine (paced_instruction hcall fr _ _).bind fun v => ?_
      exact (ih _).mono (Nat.le_succ b) le_rfl

theorem paced_terminator (hnk : n ≤ k) (fn : IR.Function) (bl : IR.BasicBlock) (fr : Frame) :
    Paced n k b 1 (terminator fn bl fr) (terminator fn bl fr) := by
  refine (paced_tick hnk).bind fun _ => Free.paced ?_
  split
  · exact free_pure _
  · exact (free_operand fr _).bind fun _ => free_pure _
  · exact (free_operand fr _).bind fun _ => free_pure _
  · exact free_pure _
  · exact free_throw nofun
  · exact free_throw nofun

/-- Every block spends a step, if only that of its terminator. -/
theorem paced_block (hnk : n ≤ k)
    (hcall : ∀ g args, Paced n k (b + 1) 0 (call g args) (call' g args)) (fr : Frame)
    (source : Option BlockId) (current : BlockId) :
    Paced n k b 1 (block m call f fr source current) (block m call' f fr source current) := by
  refine (free_phiValues fr _ source _).bind_paced fun resolved => ?_
  refine Paced.mono ((paced_instructions hnk hcall _ _ _).bind fun fr => ?_) le_rfl
    (le_of_eq (Nat.zero_add 1).symm)
  exact (paced_terminator hnk _ _ fr).bind fun exit => (free_pure _).paced

theorem appends_blocks (hcall : ∀ g args, Appends (call g args)) (j : Nat) (fr : Frame)
    (source : Option BlockId) (current : BlockId) :
    Appends (blocks m call f j fr source current) := by
  induction j generalizing fr source current with
  | zero => exact .refl
  | succ j ih =>
    have hpaced : ∀ g args, Paced 0 0 2 0 (call g args) (call g args) :=
      fun g args => (hcall g args).paced (by decide) _
    refine (paced_block (b := 1) le_rfl hpaced fr source current).appends.bind fun p => ?_
    split
    · exact (free_pure _).appends
    · exact ih _ _ _

theorem appends_callWithin (j : Nat) (f : FuncId) (args : List RtValue) :
    Appends (callWithin m j f args) := by
  induction j generalizing f args with
  | zero => exact .refl
  | succ j ih =>
    unfold callWithin
    dsimp only
    split
    · exact (free_builtin _ args).appends
    · exact (appends_blocks ih _ _ _ _).withSlots

/-- The number of blocks is no bound of its own where it is larger than the number of steps left,
since each block spends one. -/
theorem paced_blocks (hnk : n ≤ k) {j j' : Nat} (hj : n < b + j) (hj' : n < b + j')
    (hcall : ∀ g args, Paced n k (b + 1) 0 (call g args) (call' g args)) (fr : Frame)
    (source : Option BlockId) (current : BlockId) :
    Paced n k b 0 (blocks m call f j fr source current)
      (blocks m call' f j' fr source current) := by
  have happends : ∀ g args, Appends (call' g args) := fun g args => (hcall g args).appends
  induction j generalizing j' b fr source current with
  | zero => exact (appends_blocks happends j' fr source current).paced hj _
  | succ j ih =>
    cases j' with
    | zero => exact (appends_blocks happends 0 fr source current).paced hj' _
    | succ j' =>
      refine Paced.mono ((paced_block hnk hcall fr source current).bind fun p => ?_) le_rfl
        (Nat.zero_le (1 + 0))
      split
      · exact (free_pure _).paced
      · exact ih (by omega) (by omega)
          (fun g args => (hcall g args).mono (Nat.le_succ _) le_rfl) _ _ _

/-- The bound on the nesting of calls is no bound of its own either. -/
theorem paced_callWithin (hnk : n ≤ k) {j j' : Nat} (hj : n < b + j) (hj' : n < b + j')
    (f : FuncId) (args : List RtValue) :
    Paced n k b 0 (callWithin m j f args) (callWithin m j' f args) := by
  induction j generalizing j' b f args with
  | zero => exact (appends_callWithin j' f args).paced hj _
  | succ j ih =>
    cases j' with
    | zero => exact (appends_callWithin 0 f args).paced hj' _
    | succ j' =>
      unfold callWithin
      dsimp only
      split
      · exact (free_builtin _ args).paced
      · exact (paced_blocks hnk hj hj' (fun g args => ih (by omega) (by omega) g args)
          _ _ _).withSlots

/-- A program from its entry on, with a bound on the nesting of its calls and blocks. -/
def entryWithin (m : Module) (bound : Nat) (args : List String) : Run RtValue := do
  match m.findFunction entryName with
  | none => throw (.missingEntry entryName)
  | some f =>
    let vector ← allocate (8 * args.length)
    writeArgs vector args
    callWithin m bound f [.int 32 args.length, .ptr vector]

theorem paced_entryWithin (hnk : n ≤ k) {j j' : Nat} (hj : n < j) (hj' : n < j')
    (args : List String) : Paced n k 0 0 (entryWithin m j args) (entryWithin m j' args) := by
  unfold entryWithin
  cases m.findFunction entryName with
  | none => exact (free_throw (e := .missingEntry entryName) nofun).paced
  | some f =>
    refine (free_allocate _).bind_paced fun vector => ?_
    refine (free_writeArgs vector args).bind_paced fun _ => ?_
    exact paced_callWithin hnk (by omega) (by omega) f _

end

/-- What follows a free computation starts with as many steps and under the same limit. -/
theorem Free.outcome_bind_congr {x : Run α} {f g : α → Run β} {s : State} (h : Free x)
    (hfg : ∀ a t, t.steps = s.steps → t.stepLimit = s.stepLimit →
      outcome (f a) t = outcome (g a) t) : outcome (x >>= f) s = outcome (x >>= g) s := by
  have hsteps := h.steps s
  have hlimit := h.limit s
  rw [outcome_bind, outcome_bind]
  generalize outcome x s = o at hsteps hlimit
  obtain ⟨e | a, t⟩ := o
  · rfl
  · exact hfg a t hsteps hlimit

theorem outcome_call (m : Module) (f : FuncId) (args : List RtValue) (s : State) :
    outcome (call m f args) s =
      outcome (callWithin m (s.stepLimit - s.steps + 1) f args) s :=
  outcome_bind (get : Run State) (fun s => callWithin m (s.stepLimit - s.steps + 1) f args) s

theorem outcome_entry (m : Module) (args : List String) (s : State) :
    outcome (entry m args) s =
      outcome (entryWithin m (s.stepLimit - s.steps + 1) args) s := by
  unfold entry entryWithin
  cases m.findFunction entryName with
  | none => rfl
  | some f =>
    refine (free_allocate _).outcome_bind_congr fun vector t hs hl => ?_
    refine (free_writeArgs vector args).outcome_bind_congr fun _ u hs' hl' => ?_
    rw [outcome_call, hl', hl, hs', hs]

/-- An outcome that its limit does not cut off is the same under the larger one. -/
theorem Related.of_unlimited {low : Nat} {o o' : Except Fault α × State}
    (h : Related n k low o o') (ho : Unlimited o.1) :
    o.2.steps ≤ n ∧ o' = (o.1, o.2.limited k) := by
  cases h with
  | ended limit hlow steps => exact ⟨steps, rfl⟩
  | failed he limit steps => exact ⟨steps, rfl⟩
  | cut => exact absurd rfl (ho n)

/-- An outcome that its limit cuts off has taken one step too many. -/
theorem Related.of_cut {low l : Nat} {o o' : Except Fault α × State} (h : Related n k low o o')
    (ho : o.1 = .error (.stepLimit l)) :
    l = n ∧ o.2.steps = n + 1 ∧ o.2.Continues o'.2 := by
  cases h with
  | ended => cases ho
  | failed he => exact absurd (Except.error.inj ho) (he l)
  | cut limit steps output =>
    exact ⟨(Fault.stepLimit.inj (Except.error.inj ho)).symm, steps, output⟩

/-- Related outcomes under the same limit are the same. -/
theorem Related.eq {low : Nat} {o o' : Except Fault α × State} (h : Related n n low o o') :
    o' = o := by
  cases h with
  | ended limit => rw [State.limited, ← limit]
  | failed he limit => rw [State.limited, ← limit]
  | cut limit steps output same => exact same rfl

end Run

/-! ### Whole programs -/

/-- The outcome of a program whose calls and blocks are nested to a bound. -/
def runMainWithin (m : Module) (bound : Nat) (args : List String) (stepLimit : Nat) :
    Except Fault RtValue × State :=
  (Run.entryWithin m bound args).run.run { State.initial m with stepLimit }

theorem related_runMainWithin (m : Module) (args : List String) {n k j j' : Nat} (hnk : n ≤ k)
    (hj : n < j) (hj' : n < j') :
    Run.Related n k 0 (runMainWithin m j args n) (runMainWithin m j' args k) :=
  (Run.paced_entryWithin hnk hj hj' args).related { State.initial m with stepLimit := n } rfl
    (Nat.zero_le _) (Nat.zero_le n)

theorem runMain_eq_within (m : Module) (args : List String) (n : Nat) :
    runMain m args n = runMainWithin m (n + 1) args n :=
  Run.outcome_entry m args { State.initial m with stepLimit := n }

theorem related_runMain (m : Module) (args : List String) {n k : Nat} (hnk : n ≤ k) :
    Run.Related n k 0 (runMain m args n) (runMain m args k) := by
  rw [runMain_eq_within, runMain_eq_within]
  exact related_runMainWithin m args hnk (Nat.lt_succ_self n) (Nat.lt_succ_of_le hnk)

/-- The step limit is fuel. A run ends, since bounds on the nesting of calls and on the number of
blocks change nothing once they are larger than the limit. If the limit does not cut it off, it
takes at most `n` steps and is the same under every larger limit; if it does, the run stops one
step past the limit, is cut off by every smaller limit too, and has written the first part of what
it writes under a larger one. -/
theorem runMain_limited (m : Module) (args : List String) (n : Nat) :
    (∀ bound > n, runMainWithin m bound args n = runMain m args n) ∧
      ((∀ l, (runMain m args n).1 ≠ .error (.stepLimit l)) →
        (runMain m args n).2.steps ≤ n ∧ ∀ k ≥ n,
          runMain m args k = ((runMain m args n).1, (runMain m args n).2.limited k)) ∧
      ∀ l, (runMain m args n).1 = .error (.stepLimit l) →
        l = n ∧ (runMain m args n).2.steps = n + 1 ∧
          (∀ k ≤ n, (runMain m args k).1 = .error (.stepLimit k)) ∧
          ∀ k ≥ n, ∃ w, (runMain m args k).2.output = (runMain m args n).2.output ++ w := by
  have hself := related_runMain m args (le_refl n)
  refine ⟨fun bound hb => ?_, fun h => ⟨(hself.of_unlimited h).1, fun k hk =>
    ((related_runMain m args hk).of_unlimited h).2⟩, fun l h => ?_⟩
  · rw [runMain_eq_within]
    exact (related_runMainWithin m args le_rfl (Nat.lt_succ_self n) hb).eq
  · obtain ⟨hl, hsteps, -⟩ := hself.of_cut h
    refine ⟨hl, hsteps, fun k hk => ?_, fun k hk => ((related_runMain m args hk).of_cut h).2.2⟩
    -- a run that ended under a smaller limit would have ended in the same way under this one
    by_contra hne
    have hfree : Unlimited (runMain m args k).1 := fun l' hl' => by
      obtain ⟨rfl, -⟩ := (related_runMain m args (le_refl k)).of_cut hl'
      exact hne hl'
    rw [((related_runMain m args hk).of_unlimited hfree).2] at h
    exact hfree l h

end Lowering.Exec
