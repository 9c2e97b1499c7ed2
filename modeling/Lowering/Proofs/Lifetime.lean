import Lowering.Proofs.Budget

/-!
# Lifetimes of allocations

Memory is only ever added to: no allocation changes its size, and one that was released stays so,
whatever happens to the others.  A call releases its own stack slots however it ends, and besides
those of the calls inside it nothing but what is handed to `realloc`.

* `Exec.Memory.Dead`, `Exec.Memory.Lasts`: a memory and a later one;
* `Exec.Run.Moves`: what every step of a computation does to the state, it does as a whole;
* `Exec.Deed`, `Exec.Moment`, `Exec.Run.callMoments`, `Exec.moments`: the states that a run passes,
  with what it does that bears on lifetimes, read off the machine's own outcomes;
* `Exec.Tells`, `Exec.Settles`: what the moments of a part of an activation say, and those of a
  call, with a rule for each part of the machine, from single instructions to nested calls;
* `Exec.allocations_last`: what that says about whole programs and about each call.
-/

namespace Lowering.Exec

open IR (Ty Value InstId BlockId FuncId InstKind Module)

/-! ### Memory in time -/

namespace Memory

variable {m m' m₁ m₂ m₃ : Memory} {i p n : Nat}

/-- An allocation of the table was released. -/
def Dead (m : Memory) (i : Nat) : Prop := ∃ a, m.allocations[i]? = some a ∧ a.live = false

/-- A later memory: the table has only grown, sizes are what they were, and what was released
still is. -/
structure Lasts (m m' : Memory) : Prop where
  table : m.allocations.size ≤ m'.allocations.size
  size : ∀ i < m.allocations.size, (m'.allocation i).size = (m.allocation i).size
  dead : ∀ i, m.Dead i → m'.Dead i

theorem Lasts.refl (m : Memory) : m.Lasts m := ⟨le_rfl, fun _ _ => rfl, fun _ h => h⟩

theorem Lasts.trans (h : m₁.Lasts m₂) (h' : m₂.Lasts m₃) : m₁.Lasts m₃ :=
  ⟨h.table.trans h'.table,
    fun i hi => (h'.size i (hi.trans_le h.table)).trans (h.size i hi),
    fun i hi => h'.dead i (h.dead i hi)⟩

theorem Dead.lt (h : m.Dead i) : i < m.allocations.size := by
  obtain ⟨a, ha, -⟩ := h
  exact (Array.getElem?_eq_some_iff.mp ha).1

/-- A fault of the address itself is the only way in which an access to a dead allocation ends. -/
theorem Dead.locate (h : m.Dead i) (hp : indexOf p = some i) (n : Nat) :
    m.locate p n = .error (.useAfterFree p) := by
  obtain ⟨a, ha, hl⟩ := h
  have h0 : p ≠ 0 := by
    rintro rfl
    cases hp
  simp [Memory.locate, h0, hp, ha, hl]

/-- Nothing can be done through an address. -/
structure Refuses (m : Memory) (p : Nat) : Prop where
  locate : ∀ n, m.locate p n = .error (.useAfterFree p)
  read : ∀ n, m.read p n = .error (.useAfterFree p)
  load : ∀ t, m.load p t = .error (.useAfterFree p)
  write : ∀ bs, m.write p bs = .error (.useAfterFree p)
  readTerminated : m.readTerminated p = .error (.useAfterFree p)

theorem Dead.refuses (h : m.Dead i) (hp : indexOf p = some i) : m.Refuses p := by
  have hl := h.locate hp
  have hread : ∀ n, m.read p n = .error (.useAfterFree p) := fun n => by
    rw [Memory.read, hl]
    rfl
  refine ⟨hl, hread, fun t => ?_, fun bs => ?_, ?_⟩
  · rw [Memory.load, hread]
    rfl
  · rw [Memory.write, hl]
    rfl
  · rw [Memory.readTerminated, hl]
    rfl

/-! ### Changes of memory -/

/-- An address that is moved stays in its allocation. -/
theorem indexOf_moved? {q : Nat} {delta : Int} (h : moved? p delta = some q) :
    indexOf q = indexOf p := by
  have hrange : 0 < offsetRange := by decide
  unfold moved? at h
  dsimp only at h
  split at h
  · next hoffset =>
    obtain rfl := Option.some.inj h
    generalize ((p % offsetRange : Nat) + delta : Int) = o at hoffset ⊢
    have ho : o.toNat < offsetRange := by omega
    have hdiv : (p / offsetRange * offsetRange + o.toNat) / offsetRange = p / offsetRange := by
      rw [Nat.add_comm, Nat.add_mul_div_right _ _ hrange, Nat.div_eq_of_lt ho, Nat.zero_add]
    have hlt : ∀ n, n < offsetRange ↔ n / offsetRange = 0 := fun n => by
      rw [Nat.div_eq_zero_iff, or_iff_right hrange.ne']
    simp only [indexOf, hlt, hdiv]
  · cases h

theorem indexOf_baseAddress (i : Nat) : indexOf (baseAddress i) = some i := by
  have hrange : 0 < offsetRange := by decide
  have hle : offsetRange ≤ baseAddress i := Nat.le_mul_of_pos_left _ (Nat.succ_pos i)
  rw [indexOf, if_neg (not_lt.mpr hle), baseAddress, Nat.mul_div_cancel _ hrange]
  rfl

/-- A later memory in which nothing more was released. -/
structure Spares (m m' : Memory) : Prop extends Lasts m m' where
  spared : ∀ i, m'.Dead i → m.Dead i

/-- Only the bytes of an allocation change. -/
theorem spares_modify (m : Memory) (i : Nat) (f : Allocation → Array UInt8) :
    m.Spares ⟨m.allocations.modify i fun a => { a with written := f a }⟩ := by
  have hget : ∀ j, (m.allocations.modify i fun a => { a with written := f a })[j]? =
      m.allocations[j]?.map fun a => if i = j then { a with written := f a } else a := by
    intro j
    rw [Array.getElem?_modify]
    split <;> simp
  refine ⟨⟨by simp, fun j hj => ?_, fun j => ?_⟩, fun j => ?_⟩
  · simp only [allocation, hget, Array.getElem?_eq_getElem hj, Option.map_some, Option.getD_some]
    split <;> rfl
  · rintro ⟨a, ha, hl⟩
    refine ⟨_, (hget j).trans (congrArg _ ha), ?_⟩
    split <;> exact hl
  · rintro ⟨a, ha, hl⟩
    obtain ⟨b, hb, rfl⟩ := Option.map_eq_some_iff.mp ((hget j).symm.trans ha)
    refine ⟨b, hb, ?_⟩
    split at hl <;> exact hl

theorem spares_put (m : Memory) (bs : List UInt8) (place : Nat × Nat) :
    m.Spares (m.put bs place) :=
  m.spares_modify place.1 fun a => Allocation.overwrite a.written place.2 bs

theorem spares_allocate (m : Memory) (size : Nat) : m.Spares (m.allocate size).2 := by
  have hold : ∀ j < m.allocations.size, (m.allocate size).2.allocations[j]? = m.allocations[j]? :=
    fun j hj => Array.getElem?_push_lt hj ▸ (Array.getElem?_eq_getElem hj).symm
  refine ⟨⟨by simp [allocate], fun j hj => by simp only [allocation, hold j hj], fun j h => ?_⟩,
    fun j ⟨a, ha, hl⟩ => ?_⟩
  · obtain ⟨a, ha, hl⟩ := id h
    exact ⟨a, (hold j h.lt).trans ha, hl⟩
  · by_cases hj : j < m.allocations.size
    · exact ⟨a, (hold j hj).symm.trans ha, hl⟩
    · -- the fresh allocation is live
      have hlt := (Array.getElem?_eq_some_iff.mp ha).1
      have hj' : j = m.allocations.size := by
        simp only [allocate, Array.size_push] at hlt
        omega
      subst hj'
      simp only [allocate, Array.getElem?_push_size, Option.some.injEq] at ha
      rw [← ha] at hl
      cases hl

theorem getElem?_release (hp : indexOf p = some i) (j : Nat) : (m.release p).allocations[j]? =
    m.allocations[j]?.map fun a => if i = j then { a with live := false } else a := by
  rw [release, hp]
  dsimp only
  rw [Array.getElem?_modify]
  split <;> simp

/-- Exactly the allocation of the address is released. -/
theorem dead_release (hp : indexOf p = some i) (j : Nat) :
    (m.release p).Dead j ↔ m.Dead j ∨ j = i ∧ i < m.allocations.size := by
  constructor
  · rintro ⟨a, ha, hl⟩
    obtain ⟨b, hb, rfl⟩ := Option.map_eq_some_iff.mp ((getElem?_release hp j).symm.trans ha)
    by_cases hij : i = j
    · exact .inr ⟨hij.symm, hij ▸ (Array.getElem?_eq_some_iff.mp hb).1⟩
    · rw [if_neg hij] at hl
      exact .inl ⟨b, hb, hl⟩
  · rintro (⟨a, ha, hl⟩ | ⟨rfl, hi⟩)
    · refine ⟨_, (getElem?_release hp j).trans (congrArg _ ha), ?_⟩
      dsimp only
      split
      · rfl
      · exact hl
    · refine ⟨_, (getElem?_release hp j).trans (congrArg _ (Array.getElem?_eq_getElem hi)), ?_⟩
      exact congrArg Allocation.live (if_pos rfl)

theorem release_of_indexOf (hp : indexOf p = none) : m.release p = m := by rw [release, hp]

theorem lasts_release (m : Memory) (p : Nat) : m.Lasts (m.release p) := by
  cases hp : indexOf p with
  | none =>
    rw [release_of_indexOf hp]
    exact .refl m
  | some i =>
    refine ⟨by simp [release, hp], fun j hj => ?_, fun j h => (dead_release hp j).mpr (.inl h)⟩
    simp only [allocation, getElem?_release hp, Array.getElem?_eq_getElem hj, Option.map_some,
      Option.getD_some]
    split <;> rfl

/-- What is released with some addresses: their allocations, and nothing else. -/
theorem dead_releases (ps : List Nat) (m : Memory) (j : Nat)
    (h : (ps.foldl release m).Dead j) : m.Dead j ∨ ∃ p ∈ ps, indexOf p = some j := by
  induction ps generalizing m with
  | nil => exact .inl h
  | cons p ps ih =>
    rcases ih _ h with h | ⟨q, hq, hj⟩
    · cases hp : indexOf p with
      | none =>
        rw [release_of_indexOf hp] at h
        exact .inl h
      | some i =>
        rcases (dead_release hp j).mp h with h | ⟨rfl, -⟩
        · exact .inl h
        · exact .inr ⟨p, List.mem_cons_self, hp⟩
    · exact .inr ⟨q, List.mem_cons_of_mem p hq, hj⟩

theorem lasts_releases (ps : List Nat) (m : Memory) : m.Lasts (ps.foldl release m) := by
  induction ps generalizing m with
  | nil => exact .refl m
  | cons p ps ih => exact (m.lasts_release p).trans (ih _)

/-- Each allocation of the table whose address is among those that are released is dead. -/
theorem releases_dead {ps : List Nat} (hp : p ∈ ps) (hi : indexOf p = some i)
    (hlt : i < m.allocations.size) : (ps.foldl release m).Dead i := by
  obtain ⟨before, after, rfl⟩ := List.append_of_mem hp
  rw [List.foldl_append, List.foldl_cons]
  refine (lasts_releases after _).dead i ((dead_release hi i).mpr (.inr ⟨rfl, ?_⟩))
  exact hlt.trans_le (lasts_releases before m).table

end Memory

/-! ### Where a computation takes the state -/

namespace Run

variable {α β : Type} {R : State → State → Prop}

/-- The state that a computation leaves is related to the one it starts in. -/
def Moves (R : State → State → Prop) (x : Run α) : Prop := ∀ σ, R σ (outcome x σ).2

theorem moves_modify {f : State → State} (h : ∀ σ, R σ (f σ)) : Moves R (modify f : Run Unit) := h

theorem moves_get {f : State → Run α} (hf : ∀ s, Moves R (f s)) : Moves R (get >>= f) :=
  fun σ => hf σ σ

variable [IsPreorder State R]

theorem moves_pure (a : α) : Moves R (pure a : Run α) := fun σ => refl_of R σ

theorem moves_throw (e : Fault) : Moves R (throw e : Run α) := fun σ => refl_of R σ

theorem Moves.bind {x : Run α} {f : α → Run β} (hx : Moves R x) (hf : ∀ a, Moves R (f a)) :
    Moves R (x >>= f) := fun σ => by
  have h := hx σ
  rw [outcome_bind]
  generalize outcome x σ = o at h
  obtain ⟨e | a, t⟩ := o
  · exact h
  · exact trans_of R h (hf a t)

theorem moves_access (f : Memory → Except Fault α) : Moves R (access f) := by
  refine moves_get fun s => ?_
  split
  · exact moves_pure _
  · exact moves_throw _

section

variable (fr : Frame)

theorem moves_operand (v : Value) : Moves R (operand fr v) := by
  unfold operand
  split
  · exact moves_get fun s => moves_pure _
  · split
    · exact moves_pure _
    · exact moves_throw _
  · split
    · exact moves_pure _
    · exact moves_throw _
  · exact moves_get fun s => moves_pure _

theorem moves_intOperand (v : Value) : Moves R (intOperand fr v) := by
  refine (moves_operand fr v).bind fun x => ?_
  split
  · exact moves_pure _
  · exact moves_pure _
  · exact moves_throw _

theorem moves_ptrOperand (v : Value) : Moves R (ptrOperand fr v) := by
  refine (moves_operand fr v).bind fun x => ?_
  split
  · exact moves_pure _
  · exact moves_throw _

theorem moves_operands (vs : List Value) : Moves R (vs.mapM (operand fr)) := by
  induction vs with
  | nil => exact moves_pure _
  | cons v vs ih =>
    rw [List.mapM_cons]
    exact (moves_operand fr v).bind fun _ => ih.bind fun _ => moves_pure _

theorem moves_stepIndices (overflow : Fault) (t : Ty) (offset : Int) (vs : List Value) :
    Moves R (stepIndices fr overflow t offset vs) := by
  induction vs generalizing t offset with
  | nil => exact moves_pure _
  | cons v vs ih =>
    refine (moves_intOperand fr v).bind fun i => ?_
    dsimp only
    split
    · exact ih _ _
    · exact moves_throw _

omit fr in
theorem moves_moved (base : Nat) (offset : Int) :
    Moves R (if base = 0 then return .ptr 0 else
      match moved? base offset with
      | some p => return .ptr p
      | none => throw (.outOfBounds base 0) : Run RtValue) := by
  split
  · exact moves_pure _
  · split
    · exact moves_pure _
    · exact moves_throw _

theorem moves_address (base : Nat) (t : Ty) (vs : List Value) : Moves R (address fr base t vs) := by
  cases vs with
  | nil => exact (moves_pure 0).bind (moves_moved base)
  | cons v vs =>
    refine (moves_intOperand fr v).bind fun i => ?_
    split
    · exact (moves_stepIndices fr _ t _ vs).bind (moves_moved base)
    · exact (moves_throw _).bind (moves_moved base)

theorem moves_phiValues (fn : IR.Function) (source : Option BlockId) (ids : List InstId) :
    Moves R (phiValues fn fr source ids) := by
  induction ids with
  | nil => exact moves_pure _
  | cons id ids ih =>
    unfold phiValues
    split
    · split
      · exact moves_throw _
      · split
        · exact moves_throw _
        · exact (moves_operand fr _).bind fun _ => ih.bind fun _ => moves_pure _
    · exact ih

end

theorem moves_extract (v : RtValue) (source target : Ty) (index : Nat) :
    Moves R (extract v source target index) := by
  unfold extract
  split
  · exact moves_pure _
  · exact moves_throw _

end Run

/-! ### Deeds -/

/-- What bears on lifetimes: a stack slot is allocated by the activation that is so many calls
further in, or a block is handed to `realloc`. -/
inductive Deed
  | slot (level address : Nat)
  | handed (address : Nat)
  deriving DecidableEq, Repr

namespace Deed

/-- The address of the slot or block. -/
def address : Deed → Nat
  | .slot _ p | .handed p => p

/-- The deed as it is seen from the calling activation. -/
def deeper : Deed → Deed
  | .slot level p => .slot (level + 1) p
  | d => d

/-- The address of a stack slot of the activation itself. -/
def own? : Deed → Option Nat
  | .slot 0 p => some p
  | _ => none

@[simp] theorem address_deeper (d : Deed) : d.deeper.address = d.address := by cases d <;> rfl

@[simp] theorem own?_deeper (d : Deed) : d.deeper.own? = none := by cases d <;> rfl

theorem own?_eq_some {d : Deed} {p : Nat} : d.own? = some p ↔ d = .slot 0 p := by
  constructor
  · intro h
    match d, h with
    | .slot 0 q, h => exact congrArg _ (Option.some.inj h)
  · rintro rfl
    rfl

end Deed

/-- What is done besides allocating: nothing is released but by the deed, and the globals and the
stack slots of the activation are what they were. -/
structure Kept (d : Option Deed) (σ t : State) : Prop where
  lasts : σ.memory.Lasts t.memory
  dead : ∀ i, t.memory.Dead i → σ.memory.Dead i ∨ ∃ e ∈ d, Memory.indexOf e.address = some i
  slots : t.slots = σ.slots
  globals : t.globals = σ.globals

theorem kept_of_spares {d : Option Deed} {σ t : State} (h : σ.memory.Spares t.memory)
    (hs : t.slots = σ.slots) (hg : t.globals = σ.globals) : Kept d σ t :=
  ⟨h.toLasts, fun i hi => .inl (h.spared i hi), hs, hg⟩

instance (d : Option Deed) : IsPreorder State (Kept d) where
  refl _ := ⟨.refl _, fun _ => .inl, rfl, rfl⟩
  trans _ _ _ h h' := ⟨h.lasts.trans h'.lasts, fun i hi => (h'.dead i hi).elim (h.dead i) .inr,
    h'.slots.trans h.slots, h'.globals.trans h.globals⟩

namespace Run

variable {d : Option Deed}

theorem kept_allocate (size : Nat) : Moves (Kept d) (allocate size) :=
  fun σ => kept_of_spares (σ.memory.spares_allocate size) rfl rfl

theorem kept_change {check : Memory → Except Fault α} {update : Memory → α → Memory}
    (h : ∀ (memory : Memory) a, memory.Spares (update memory a)) : Moves (Kept d) (change check update) :=
  (moves_access check).bind fun a => moves_modify fun σ =>
    kept_of_spares (h σ.memory a) rfl rfl

theorem kept_write (p : Nat) (bs : List UInt8) : Moves (Kept d) (write p bs) :=
  kept_change fun memory place => memory.spares_put bs place

theorem kept_fill (p : Nat) (b : UInt8) (n : Nat) :
    Moves (Kept d) (change (fun m => m.locate p n) fun m => m.fill b n) :=
  kept_change fun memory place => memory.fill_eq_put b n place ▸ memory.spares_put _ place

theorem kept_tick : Moves (Kept d) tick := fun σ => by
  rw [outcome_tick]
  exact kept_of_spares ⟨.refl _, fun _ => id⟩ rfl rfl

/-- Only the block that is handed over is released. -/
theorem kept_reallocate (old size : Nat) :
    Moves (Kept (some (.handed old))) (reallocate old size) := by
  have hrelease : Moves (Kept (some (.handed old)))
      (modify fun s => { s with memory := s.memory.release old } : Run Unit) :=
    moves_modify fun σ => ⟨σ.memory.lasts_release old, fun i hi => by
      rcases Memory.dead_releases [old] σ.memory i hi with h | ⟨p, hp, h⟩
      · exact .inl h
      · exact .inr ⟨_, rfl, (List.mem_singleton.mp hp) ▸ h⟩, rfl, rfl⟩
  refine (kept_allocate size).bind fun fresh => ?_
  split
  · refine (moves_access _).bind fun place => moves_get fun s => ?_
    refine (moves_access _).bind fun bs => (kept_write fresh bs).bind fun _ => ?_
    exact hrelease.bind fun _ => moves_pure _
  · exact moves_pure _

/-- The deed of a foreign function. -/
def builtinDeed? (name : String) (args : List RtValue) : Option Deed :=
  if name = "realloc" then some (.handed (ptrArg args 0)) else none

theorem kept_builtin (name : String) (args : List RtValue) :
    Moves (Kept (builtinDeed? name args)) (builtin name args) := by
  unfold builtin
  split
  · exact (kept_allocate _).bind fun _ => moves_pure _
  · exact kept_reallocate _ _
  · exact (kept_fill _ _ _).bind fun _ => moves_pure _
  · exact (moves_access _).bind fun _ => (kept_write _ _).bind fun _ => moves_pure _
  · refine (moves_access _).bind fun line => Moves.bind ?_ fun _ => moves_pure _
    exact moves_modify fun σ => kept_of_spares ⟨.refl _, fun _ => id⟩ rfl rfl
  · exact moves_throw _

theorem kept_terminator (fn : IR.Function) (bl : IR.BasicBlock) (fr : Frame) :
    Moves (Kept d) (terminator fn bl fr) := by
  refine kept_tick.bind fun _ => ?_
  split
  · exact moves_pure _
  · exact (moves_operand fr _).bind fun _ => moves_pure _
  · exact (moves_operand fr _).bind fun _ => moves_pure _
  · exact moves_pure _
  · exact moves_throw _
  · exact moves_throw _

/-- Instructions other than calls and those that make a stack slot. -/
theorem kept_instruction {m : Module} {call : FuncId → List RtValue → Run RtValue} {f : FuncId}
    {kind : InstKind} (hcall : ∀ callee args, kind ≠ .call callee args)
    (hslot : ∀ slot, kind ≠ .alloca slot) (fr : Frame) (t : Ty) :
    Moves (Kept d) (instruction m call f fr kind t) := by
  cases kind with
  | alloca slot => exact absurd rfl (hslot slot)
  | load ptr => exact (moves_ptrOperand fr ptr).bind fun p => moves_access _
  | store value ptr =>
    refine (moves_ptrOperand fr ptr).bind fun p => (moves_operand fr value).bind fun v => ?_
    exact (kept_write p _).bind fun _ => moves_pure _
  | gep ptr indices =>
    exact (moves_ptrOperand fr ptr).bind fun base => moves_address fr base _ indices
  | cast op value => exact (moves_operand fr value).bind fun _ => moves_pure _
  | binary op lhs rhs =>
    refine (moves_operand fr lhs).bind fun a => (moves_operand fr rhs).bind fun b => ?_
    split
    · exact moves_pure _
    · exact moves_throw _
  | not value => exact (moves_intOperand fr value).bind fun _ => moves_pure _
  | icmp pred lhs rhs =>
    exact (moves_intOperand fr lhs).bind fun _ => (moves_intOperand fr rhs).bind fun _ =>
      moves_pure _
  | fcmp pred lhs rhs =>
    exact (moves_operand fr lhs).bind fun _ => (moves_operand fr rhs).bind fun _ => moves_pure _
  | select cond ifTrue ifFalse =>
    refine (moves_operand fr cond).bind fun c => ?_
    split
    · exact moves_operand fr ifTrue
    · exact moves_operand fr ifFalse
  | phi incoming => exact moves_throw _
  | call callee args => exact absurd rfl (hcall callee args)
  | malloc elem => exact (kept_allocate _).bind fun _ => moves_pure _
  | arrayMalloc elem count =>
    refine (moves_intOperand fr count).bind fun n => ?_
    dsimp only
    split
    · exact (kept_allocate _).bind fun _ => moves_pure _
    · exact moves_throw _
  | extractValue aggregate index =>
    exact (moves_operand fr aggregate).bind fun v => moves_extract v _ t index

end Run

/-! ### Moments -/

/-- A state that a run passes, with the deed that led to it. -/
structure Moment where
  deed : Option Deed
  state : State

/-- The moment as it is seen from the calling activation. -/
def Moment.deeper (k : Moment) : Moment := { k with deed := k.deed.map Deed.deeper }

/-- The deeds of some moments. -/
def deeds (l : List Moment) : List Deed := l.filterMap Moment.deed

/-- The stack slots among the deeds of some moments that the activation itself makes, oldest first. -/
def ownSlots (l : List Moment) : List Nat := (deeds l).filterMap Deed.own?

/-- The state after some moments. -/
def lastState (σ : State) (l : List Moment) : State := l.foldl (fun _ k => k.state) σ

/-- A later state of a run: memory has only grown, and the globals are where they were. -/
structure Later (σ t : State) : Prop where
  memory : σ.memory.Lasts t.memory
  globals : t.globals = σ.globals

theorem Later.refl (σ : State) : Later σ σ := ⟨.refl _, rfl⟩

theorem Later.trans {σ t u : State} (h : Later σ t) (h' : Later t u) : Later σ u :=
  ⟨h.memory.trans h'.memory, h'.globals.trans h.globals⟩

/-- Each state is later than the one before. -/
def Passing : State → List Moment → Prop
  | _, [] => True
  | σ, k :: ks => Later σ k.state ∧ Passing k.state ks

section

variable {σ t u : State} {l l' : List Moment} {d : Option Deed} {p i : Nat}

theorem deeds_append : deeds (l ++ l') = deeds l ++ deeds l' := List.filterMap_append

theorem ownSlots_append : ownSlots (l ++ l') = ownSlots l ++ ownSlots l' := by
  rw [ownSlots, deeds_append, List.filterMap_append, ownSlots, ownSlots]

theorem mem_ownSlots : p ∈ ownSlots l ↔ .slot 0 p ∈ deeds l := by
  simp only [ownSlots, List.mem_filterMap, Deed.own?_eq_some, exists_eq_right]

theorem lastState_append : lastState σ (l ++ l') = lastState (lastState σ l) l' :=
  List.foldl_append

theorem getLast?_state : ((⟨d, σ⟩ : Moment) :: l).getLast?.map Moment.state =
    some (lastState σ l) := by
  induction l generalizing σ d with
  | nil => rfl
  | cons k ks ih => exact (congrArg _ List.getLast?_cons_cons).trans ih

theorem passing_append : Passing σ (l ++ l') ↔ Passing σ l ∧ Passing (lastState σ l) l' := by
  induction l generalizing σ with
  | nil => exact (and_iff_right trivial).symm
  | cons k ks ih => exact (and_congr_right fun _ => ih).trans and_assoc.symm

/-- Every state is later than the first one. -/
theorem Passing.later (h : Passing σ l) : ∀ k ∈ l, Later σ k.state := by
  induction l generalizing σ with
  | nil => exact fun _ hk => absurd hk List.not_mem_nil
  | cons k ks ih =>
    intro j hj
    rcases List.mem_cons.mp hj with rfl | hj
    · exact h.1
    · exact h.1.trans (ih h.2 j hj)

/-- From each state to every later one, memory only grows. -/
theorem Passing.pairwise (h : Passing σ l) :
    ((⟨d, σ⟩ : Moment) :: l).Pairwise fun j k => j.state.memory.Lasts k.state.memory := by
  induction l generalizing σ d with
  | nil => exact List.pairwise_singleton _ _
  | cons k ks ih =>
    exact List.pairwise_cons.mpr ⟨fun j hj => (h.later j hj).memory, ih h.2⟩

theorem deeds_deeper : deeds (l.map Moment.deeper) = (deeds l).map Deed.deeper := by
  simp only [deeds, List.filterMap_map, List.map_filterMap]
  rfl

theorem ownSlots_deeper : ownSlots (l.map Moment.deeper) = [] := by
  rw [ownSlots, deeds_deeper, List.filterMap_map]
  exact List.filterMap_eq_nil_iff.mpr fun d _ => d.own?_deeper

theorem lastState_deeper : lastState σ (l.map Moment.deeper) = lastState σ l := by
  rw [lastState, List.foldl_map]
  rfl

theorem passing_deeper (h : Passing σ l) : Passing σ (l.map Moment.deeper) := by
  induction l generalizing σ with
  | nil => trivial
  | cons k ks ih => exact ⟨h.1, ih h.2⟩

/-! ### What moments say -/

/-- The moments of a part of an activation, between two states: the stack slots that it adds are
its own, and it releases nothing but what is blamed on other deeds. -/
structure Tells (σ t : State) (l : List Moment) : Prop where
  last : lastState σ l = t
  passing : Passing σ l
  slots : t.slots = (ownSlots l).reverse ++ σ.slots
  valid : ∀ p ∈ ownSlots l, ∃ i < t.memory.allocations.size, Memory.indexOf p = some i
  dead : ∀ i, t.memory.Dead i →
    σ.memory.Dead i ∨ ∃ e ∈ deeds l, e.own? = none ∧ Memory.indexOf e.address = some i

/-- The moments of a whole call: its own stack slots are released, and nothing is released but
what the deeds are blamed for. -/
structure Settles (σ t : State) (l : List Moment) : Prop where
  last : lastState σ l = t
  passing : Passing σ l
  slots : t.slots = σ.slots
  released : ∀ p, .slot 0 p ∈ deeds l → ∃ i, Memory.indexOf p = some i ∧ t.memory.Dead i
  dead : ∀ i, t.memory.Dead i →
    σ.memory.Dead i ∨ ∃ e ∈ deeds l, Memory.indexOf e.address = some i

theorem Passing.last (h : Passing σ l) : Later σ (lastState σ l) := by
  induction l generalizing σ with
  | nil => exact .refl _
  | cons k ks ih => exact h.1.trans (ih h.2)

theorem Tells.nil (σ : State) : Tells σ σ [] := ⟨rfl, trivial, rfl, nofun, fun _ => .inl⟩

theorem Tells.append (h : Tells σ t l) (h' : Tells t u l') : Tells σ u (l ++ l') := by
  obtain rfl := h.last
  refine ⟨lastState_append.trans h'.last, passing_append.mpr ⟨h.passing, h'.passing⟩, ?_,
    fun p hp => ?_, fun i hi => ?_⟩
  · rw [h'.slots, h.slots, ownSlots_append, List.reverse_append, List.append_assoc]
  · rcases List.mem_append.mp (ownSlots_append ▸ hp) with hp | hp
    · obtain ⟨i, hi, hpi⟩ := h.valid p hp
      exact ⟨i, hi.trans_le (h'.last ▸ h'.passing.last.memory.table), hpi⟩
    · exact h'.valid p hp
  · rw [deeds_append]
    rcases h'.dead i hi with hi | ⟨e, he, hei⟩
    · refine (h.dead i hi).imp_right fun ⟨e, he, hei⟩ => ⟨e, List.mem_append_left _ he, hei⟩
    · exact .inr ⟨e, List.mem_append_right _ he, hei⟩

/-- The moment of a step that neither calls nor makes a stack slot. -/
theorem Kept.tells (h : Kept none σ t) : Tells σ t [⟨none, t⟩] :=
  ⟨rfl, ⟨⟨h.lasts, h.globals⟩, trivial⟩, h.slots, nofun, fun i hi => (h.dead i hi).imp_right nofun⟩

/-- The moment of a foreign function. -/
theorem Kept.settles (h : Kept d σ t) (hd : ∀ e ∈ d, e.own? = none) : Settles σ t [⟨d, t⟩] := by
  have hdeeds : deeds [⟨d, t⟩] = d.toList := by cases d <;> rfl
  refine ⟨rfl, ⟨⟨h.lasts, h.globals⟩, trivial⟩, h.slots, fun p hp => ?_, fun i hi => ?_⟩
  · rw [hdeeds, Option.mem_toList] at hp
    cases hd _ hp
  · refine (h.dead i hi).imp_right fun ⟨e, he, hei⟩ => ⟨e, ?_, hei⟩
    rwa [hdeeds, Option.mem_toList]

/-- The moment of an instruction that makes a stack slot. -/
theorem tells_slot (h : σ.memory.Spares t.memory) (hi : i < t.memory.allocations.size)
    (hp : Memory.indexOf p = some i) (hslots : t.slots = p :: σ.slots)
    (hglobals : t.globals = σ.globals) : Tells σ t [⟨some (.slot 0 p), t⟩] := by
  refine ⟨rfl, ⟨⟨h.toLasts, hglobals⟩, trivial⟩, hslots, fun q hq => ?_, fun j hj => .inl (h.spared j hj)⟩
  obtain rfl := List.mem_singleton.mp hq
  exact ⟨i, hi, hp⟩

/-- The moments of a call, as they are seen from the calling activation. -/
theorem Settles.tells (h : Settles σ t l) : Tells σ t (l.map Moment.deeper) := by
  refine ⟨lastState_deeper.trans h.last, passing_deeper h.passing, ?_, ?_, fun i hi => ?_⟩
  · rw [ownSlots_deeper]
    exact h.slots
  · rw [ownSlots_deeper]
    nofun
  · refine (h.dead i hi).imp_right fun ⟨e, he, hei⟩ => ⟨e.deeper, ?_, e.own?_deeper, ?_⟩
    · rw [deeds_deeper]
      exact List.mem_map_of_mem he
    · rw [Deed.address_deeper, hei]

/-- A call that runs a body of its own releases the stack slots that the body has made. -/
theorem Tells.settles (h : Tells { σ with slots := [] } t l) (hu : u = { t with
      memory := t.slots.reverse.foldl Memory.release t.memory, slots := σ.slots }) :
    Settles σ u (l ++ [⟨none, u⟩]) := by
  have hlast : lastState σ (l ++ [⟨none, u⟩]) = u := by rw [lastState_append]; rfl
  have hdeeds : deeds (l ++ [⟨none, u⟩]) = deeds l := deeds_append.trans (List.append_nil _)
  have hslots : t.slots.reverse = ownSlots l := by
    rw [h.slots, List.append_nil, List.reverse_reverse]
  have hmemory : u.memory = (ownSlots l).foldl Memory.release t.memory := by rw [hu, ← hslots]
  have hpassing : Passing σ (l ++ [⟨none, u⟩]) := by
    have hrelease : Later t u := ⟨hmemory ▸ Memory.lasts_releases _ _, by rw [hu]⟩
    have hl := h.passing
    have ht := h.last
    cases l with
    | nil =>
      rw [← ht] at hrelease
      exact ⟨⟨hrelease.memory, hrelease.globals⟩, trivial⟩
    | cons k ks =>
      exact ⟨⟨hl.1.memory, hl.1.globals⟩, passing_append.mpr ⟨hl.2, ht.symm ▸ hrelease, trivial⟩⟩
  refine ⟨hlast, hpassing, by rw [hu], fun p hp => ?_, fun i hi => ?_⟩
  · have hp := mem_ownSlots.mpr (hdeeds ▸ hp)
    obtain ⟨i, hi, hpi⟩ := h.valid p hp
    exact ⟨i, hpi, hmemory ▸ Memory.releases_dead hp hpi hi⟩
  · rw [hdeeds]
    rcases Memory.dead_releases _ _ _ (hmemory ▸ hi) with hi | ⟨p, hp, hpi⟩
    · exact (h.dead i hi).imp_right fun ⟨e, he, _, hei⟩ => ⟨e, he, hei⟩
    · exact .inr ⟨.slot 0 p, mem_ownSlots.mp hp, hpi⟩

end

namespace Run

variable {α β : Type}

/-- The moments of what comes after a computation: none when it fails. -/
def afterwards (x : Run α) (next : α → State → List Moment) (σ : State) : List Moment :=
  match outcome x σ with
  | (.ok a, σ) => next a σ
  | (.error _, _) => []

/-- The moment at which a computation has ended that does nothing to lifetimes but allocate. -/
def ending (x : Run α) (σ : State) : List Moment := [⟨none, (outcome x σ).2⟩]

section

variable (m : Module) (call : FuncId → List RtValue → Run RtValue)
  (calling : FuncId → List RtValue → State → List Moment) (f : FuncId)

/-- The deed of an instruction with a result. -/
def slotDeed? : InstKind → Except Fault RtValue → Option Deed
  | .alloca _, .ok (.ptr p) => some (.slot 0 p)
  | _, _ => none

/-- The moments of an instruction: those of the call that it makes, or else its end. -/
def instructionMoments (fr : Frame) (kind : InstKind) (t : Ty) : State → List Moment :=
  match kind with
  | .call callee args =>
    afterwards (args.mapM (operand fr)) fun values σ =>
      (calling callee values σ).map Moment.deeper
  | kind => fun σ =>
    let o := outcome (instruction m call f fr kind t) σ
    [⟨slotDeed? kind o.1, o.2⟩]

/-- The moments of the instructions of a block. -/
def instructionsMoments (fn : IR.Function) (fr : Frame) : List InstId → State → List Moment
  | [] => fun _ => []
  | id :: ids =>
    let inst := fn.inst id
    if inst.kind.isPhi then instructionsMoments fn fr ids
    else fun σ =>
      ending tick σ ++ afterwards tick (fun _ σ =>
        instructionMoments m call calling f fr inst.kind inst.type σ ++
          afterwards (instruction m call f fr inst.kind inst.type)
            (fun v => instructionsMoments fn (fr.set id v) ids) σ) σ

/-- The moments of a block after its phis. -/
def bodyMoments (b : BlockId) (fr : Frame) (σ : State) : List Moment :=
  let fn := m.function f
  let ids := (fn.block b).insts.toList
  instructionsMoments m call calling f fn fr ids σ ++
    afterwards (instructions m call f fn fr ids) (fun fr => ending (terminator fn (fn.block b) fr)) σ

/-- The moments of a block that was entered from `source`. -/
def blockMoments (fr : Frame) (source : Option BlockId) (b : BlockId) : State → List Moment :=
  afterwards (phiValues (m.function f) fr source ((m.function f).block b).insts.toList)
    fun resolved =>
      bodyMoments m call calling f b (resolved.foldl (fun fr (id, v) => fr.set id v) fr)

/-- The moments of at most `n` blocks of an activation. -/
def blocksMoments : Nat → Frame → Option BlockId → BlockId → State → List Moment
  | 0, _, _, _ => fun _ => []
  | n + 1, fr, source, b => fun σ =>
    blockMoments m call calling f fr source b σ ++
      afterwards (block m call f fr source b) (fun
        | (_, .ret _) => fun _ => []
        | (fr, .goto next) => blocksMoments n fr (some b) next) σ

end

/-- The moments of a call, with at most `n` calls and blocks nested in each other. -/
def callMoments (m : Module) : Nat → FuncId → List RtValue → State → List Moment
  | 0, _, _ => fun _ => []
  | n + 1, f, args => fun σ =>
    let fn := m.function f
    if fn.isDeclaration then
      [⟨builtinDeed? fn.name args, (outcome (callWithin m (n + 1) f args) σ).2⟩]
    else
      blocksMoments m (callWithin m n) (callMoments m n) f (n + 1)
          ⟨args, Array.replicate fn.insts.size none⟩ none ⟨0⟩ { σ with slots := [] } ++
        ending (callWithin m (n + 1) f args) σ

/-- The moments of the argument texts. -/
def argumentMoments (vector : Nat) : List String → State → List Moment
  | [] => fun _ => []
  | a :: as => fun σ =>
    let bs := Utf8.bytes a ++ [0]
    ending (allocate bs.length) σ ++ afterwards (allocate bs.length) (fun p σ =>
      ending (write p bs) σ ++ afterwards (write p bs) (fun _ σ =>
        ending (write vector (littleEndian 8 p)) σ ++
          afterwards (write vector (littleEndian 8 p))
            (fun _ => argumentMoments (vector + 8) as) σ) σ) σ

/-- The moments of a program from its entry on. -/
def entryMoments (m : Module) (args : List String) (σ : State) : List Moment :=
  match m.findFunction IR.entryName with
  | none => []
  | some f =>
    ending (allocate (8 * args.length)) σ ++
      afterwards (allocate (8 * args.length)) (fun vector σ =>
        argumentMoments vector args σ ++
          afterwards (writeArgs vector args) (fun _ σ =>
            (callMoments m (σ.stepLimit - σ.steps + 1) f [.int 32 args.length, .ptr vector] σ).map
              Moment.deeper) σ) σ

/-! ### The parts of the machine -/

/-- A computation that is part of an activation does what its moments say. -/
def Traced (x : Run α) (tr : State → List Moment) : Prop :=
  ∀ σ, Tells σ (outcome x σ).2 (tr σ)

theorem Traced.bind {x : Run α} {f : α → Run β} {tr : State → List Moment}
    {next : α → State → List Moment} (hx : Traced x tr) (hf : ∀ a, Traced (f a) (next a)) :
    Traced (x >>= f) fun σ => tr σ ++ afterwards x next σ := fun σ => by
  have h := hx σ
  rw [outcome_bind]
  dsimp only [afterwards]
  generalize outcome x σ = o at h ⊢
  obtain ⟨e | a, t⟩ := o
  · exact h.append (.nil t)
  · exact h.append (hf a t)

theorem traced_of_eq {x : Run α} (h : Moves Eq x) : Traced x fun _ => [] := fun σ => by
  rw [← h σ]
  exact .nil σ

/-- What changes nothing adds no moment before those of what comes after it. -/
theorem Traced.after {x : Run α} {f : α → Run β} {next : α → State → List Moment}
    (hx : Moves Eq x) (hf : ∀ a, Traced (f a) (next a)) : Traced (x >>= f) (afterwards x next) :=
  (traced_of_eq hx).bind hf

theorem traced_ending {x : Run α} (h : Moves (Kept none) x) : Traced x (ending x) :=
  fun σ => (h σ).tells

section

variable {m : Module} {call : FuncId → List RtValue → Run RtValue}
  {calling : FuncId → List RtValue → State → List Moment} {f : FuncId}

/-- An instruction that neither calls nor makes a stack slot has one moment without a deed. -/
theorem traced_plain {kind : InstKind} (hcall : ∀ callee args, kind ≠ .call callee args)
    (hslot : ∀ slot, kind ≠ .alloca slot) (fr : Frame) (t : Ty) :
    Traced (instruction m call f fr kind t) (instructionMoments m call calling f fr kind t) := by
  have h : instructionMoments m call calling f fr kind t =
      ending (instruction m call f fr kind t) := by
    cases kind with
    | call callee args => exact absurd rfl (hcall callee args)
    | alloca slot => exact absurd rfl (hslot slot)
    | _ => rfl
  rw [h]
  exact traced_ending (kept_instruction hcall hslot fr t)

theorem traced_instruction
    (hcall : ∀ g args σ, Settles σ (outcome (call g args) σ).2 (calling g args σ))
    (fr : Frame) (kind : InstKind) (t : Ty) :
    Traced (instruction m call f fr kind t) (instructionMoments m call calling f fr kind t) := by
  cases kind with
  | call callee args =>
    exact Traced.after (moves_operands fr args) fun values σ => (hcall callee values σ).tells
  | alloca slot =>
    intro σ
    have hlt : σ.memory.allocations.size < (σ.memory.allocate slot.size).2.allocations.size := by
      simp [Memory.allocate]
    exact tells_slot (σ.memory.spares_allocate slot.size) hlt (Memory.indexOf_baseAddress _) rfl rfl
  | _ => exact traced_plain (by simp) (by simp) fr t

theorem traced_instructions
    (hcall : ∀ g args σ, Settles σ (outcome (call g args) σ).2 (calling g args σ))
    (fn : IR.Function) (fr : Frame) (ids : List InstId) :
    Traced (instructions m call f fn fr ids)
      (instructionsMoments m call calling f fn fr ids) := by
  induction ids generalizing fr with
  | nil => exact traced_of_eq (moves_pure fr)
  | cons id ids ih =>
    unfold instructions instructionsMoments
    dsimp only
    split
    · exact ih fr
    · refine (traced_ending kept_tick).bind fun _ => ?_
      exact (traced_instruction hcall fr _ _).bind fun v => ih (fr.set id v)

theorem traced_block
    (hcall : ∀ g args σ, Settles σ (outcome (call g args) σ).2 (calling g args σ))
    (fr : Frame) (source : Option BlockId) (current : BlockId) :
    Traced (block m call f fr source current)
      (blockMoments m call calling f fr source current) := by
  refine Traced.after (moves_phiValues fr _ source _) fun resolved => ?_
  refine (traced_instructions hcall _ _ _).bind fun fr σ => ?_
  let fn := m.function f
  have h := (traced_ending (kept_terminator fn (fn.block current) fr)).bind
    (fun exit => traced_of_eq (moves_pure (fr, exit))) σ
  dsimp only at h
  have hnil : ∀ (x : Run Exit) τ, afterwards x (fun _ _ => []) τ = [] := fun x τ => by
    unfold afterwards
    split <;> rfl
  rwa [hnil, List.append_nil] at h

theorem traced_blocks
    (hcall : ∀ g args σ, Settles σ (outcome (call g args) σ).2 (calling g args σ))
    (n : Nat) (fr : Frame) (source : Option BlockId) (current : BlockId) :
    Traced (blocks m call f n fr source current)
      (blocksMoments m call calling f n fr source current) := by
  induction n generalizing fr source current with
  | zero => exact fun σ => .nil σ
  | succ n ih =>
    refine (traced_block hcall fr source current).bind fun p => ?_
    split
    · exact traced_of_eq (moves_pure _)
    · exact ih _ _ _

end

theorem own?_builtinDeed? {name : String} {args : List RtValue} {e : Deed}
    (he : e ∈ builtinDeed? name args) : e.own? = none := by
  unfold builtinDeed? at he
  split at he
  · obtain rfl := Option.mem_some.mp he
    rfl
  · cases he

theorem settles_callWithin (m : Module) (n : Nat) (f : FuncId) (args : List RtValue) (σ : State) :
    Settles σ (outcome (callWithin m n f args) σ).2 (callMoments m n f args σ) := by
  induction n generalizing f args σ with
  | zero => exact ⟨rfl, trivial, rfl, nofun, fun _ => .inl⟩
  | succ n ih =>
    unfold callMoments
    dsimp only
    split
    · next hdecl =>
      have h : callWithin m (n + 1) f args = builtin (m.function f).name args := if_pos hdecl
      rw [h]
      exact (kept_builtin _ args σ).settles fun e => own?_builtinDeed?
    · next hdecl =>
      refine (traced_blocks ih _ _ none ⟨0⟩ { σ with slots := [] }).settles ?_
      have h : callWithin m (n + 1) f args = withSlots (blocks m (callWithin m n) f (n + 1)
        ⟨args, Array.replicate (m.function f).insts.size none⟩ none ⟨0⟩) := if_neg hdecl
      rw [h, outcome_withSlots]

/-- The stack slots that the body of a call makes, latest first, whether or not it ends well. -/
def bodySlots (m : Module) : Nat → FuncId → List RtValue → State → List Nat
  | 0, _, _, _ => []
  | n + 1, f, args, σ => (outcome (blocks m (callWithin m n) f (n + 1)
      ⟨args, Array.replicate (m.function f).insts.size none⟩ none ⟨0⟩) { σ with slots := [] }).2.slots

/-- The stack slots among the moments of a call are those that its body makes. -/
theorem slot_mem_callMoments {m : Module} {f : FuncId} (hf : (m.function f).isDeclaration = false)
    (n : Nat) (args : List RtValue) (σ : State) (p : Nat) :
    .slot 0 p ∈ deeds (callMoments m n f args σ) ↔ p ∈ bodySlots m n f args σ := by
  cases n with
  | zero => exact iff_of_false nofun nofun
  | succ n =>
    unfold callMoments bodySlots
    dsimp only
    rw [if_neg (Bool.eq_false_iff.mp hf), deeds_append,
      show deeds (ending (callWithin m (n + 1) f args) σ) = [] from rfl, List.append_nil,
      ← mem_ownSlots, (traced_blocks (settles_callWithin m n) _ _ none ⟨0⟩ _).slots,
      List.append_nil, List.mem_reverse]

theorem traced_call (m : Module) (f : FuncId) (args : List RtValue) : Traced (call m f args)
    fun σ => (callMoments m (σ.stepLimit - σ.steps + 1) f args σ).map Moment.deeper := fun σ => by
  rw [outcome_call]
  exact (settles_callWithin m _ f args σ).tells

theorem traced_writeArgs (vector : Nat) (args : List String) :
    Traced (writeArgs vector args) (argumentMoments vector args) := by
  induction args generalizing vector with
  | nil => exact traced_of_eq (moves_pure ())
  | cons a as ih =>
    refine (traced_ending (kept_allocate _)).bind fun p => ?_
    refine (traced_ending (kept_write p _)).bind fun _ => ?_
    exact (traced_ending (kept_write vector _)).bind fun _ => ih _

theorem traced_entry (m : Module) (args : List String) :
    Traced (entry m args) (entryMoments m args) := by
  unfold entry entryMoments
  cases m.findFunction IR.entryName with
  | none => exact fun σ => .nil σ
  | some f =>
    refine (traced_ending (kept_allocate _)).bind fun vector => ?_
    exact (traced_writeArgs vector args).bind fun _ => traced_call m f _

end Run

/-- The moments of a run of a program: the states that it passes, from the first one on. -/
def moments (m : Module) (args : List String) (stepLimit : Nat) : List Moment :=
  let σ : State := { State.initial m with stepLimit }
  ⟨none, σ⟩ :: Run.entryMoments m args σ

/-- The globals are where they were when the run began. -/
theorem globals_moments {m : Module} {args : List String} {stepLimit : Nat} {k : Moment}
    (h : k ∈ moments m args stepLimit) : k.state.globals = (State.initial m).globals := by
  rcases List.mem_cons.mp h with rfl | h
  · rfl
  · exact ((Run.traced_entry m args { State.initial m with stepLimit }).passing.later k h).globals

/-- From every state that a run passes to every later one the table of allocations only grows, no
allocation changes its size, and what was released stays so; in each of them nothing can be done
through an address of an allocation that was released, and an address that is moved stays one of the
same allocation.  The last of these states is the one that the run leaves.  However the call of a
function with a body ends, in whatever state it is made, the stack slots that its body has made are
released, and besides them nothing has been released but stack slots of the calls inside it and
what is handed to `realloc`. -/
theorem allocations_last (m : Module) (args : List String) (stepLimit : Nat) :
    ((moments m args stepLimit).Pairwise fun j k => j.state.memory.Lasts k.state.memory) ∧
      (∀ k ∈ moments m args stepLimit, ∀ i p, k.state.memory.Dead i →
        Memory.indexOf p = some i → k.state.memory.Refuses p) ∧
      (∀ p delta q, moved? p delta = some q → Memory.indexOf q = Memory.indexOf p) ∧
      (moments m args stepLimit).getLast?.map Moment.state = some (runMain m args stepLimit).2 ∧
      ∀ n f values σ, (m.function f).isDeclaration = false →
        let t := (Run.outcome (Run.callWithin m n f values) σ).2
        let l := Run.callMoments m n f values σ
        lastState σ l = t ∧
          (∀ p, .slot 0 p ∈ deeds l ↔ p ∈ Run.bodySlots m n f values σ) ∧
          (∀ p ∈ Run.bodySlots m n f values σ,
            ∃ i, Memory.indexOf p = some i ∧ t.memory.Dead i) ∧
          ∀ i, t.memory.Dead i → σ.memory.Dead i ∨
            ∃ d ∈ deeds l, Memory.indexOf d.address = some i := by
  have h := Run.traced_entry m args { State.initial m with stepLimit }
  refine ⟨h.passing.pairwise, fun k _ i p hi hp => hi.refuses hp,
    fun p delta q => Memory.indexOf_moved?, ?_, fun n f values σ hf => ?_⟩
  · exact getLast?_state.trans (congrArg some h.last)
  · have hs := Run.settles_callWithin m n f values σ
    have hslots := Run.slot_mem_callMoments hf n values σ
    exact ⟨hs.last, hslots, fun p hp => hs.released p ((hslots p).mpr hp), hs.dead⟩

end Lowering.Exec
