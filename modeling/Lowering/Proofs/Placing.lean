import Lowering.Proofs.Straight

/-!
# Instructions in a straight line

Every instruction comes to one move, or to none when it is folded or never runs; the operand that
stands for its value can be used from then on.

* `Gen.emits_push`, `Gen.emits_alloca` and one rule for each instruction;
* `Gen.Emits.inSlots`: instructions at the end of the block of stack slots.
-/

namespace Lowering.Gen

open IR (Ty Value FuncId BlockId GlobalId InstKind Inst Build Module CastOp BinaryOp IntPredicate
  FloatPredicate)

variable {α β : Type} {c : Context} {e : Option Entity} {s s₁ s₂ s' : State}

/-! ### Operands -/

@[simp] theorem usable_int {bits : Nat} {i : Int} : Usable c e s (.int bits i) := trivial

@[simp] theorem usable_i1 {b : Bool} : Usable c e s (.i1 b) := trivial

@[simp] theorem usable_i8 {i : Int} : Usable c e s (.i8 i) := trivial

@[simp] theorem usable_i32 {i : Int} : Usable c e s (.i32 i) := trivial

@[simp] theorem usable_i64 {i : Int} : Usable c e s (.i64 i) := trivial

@[simp] theorem usable_null {t : Ty} : Usable c e s (.null t) := trivial

@[simp] theorem usable_undef {t : Ty} : Usable c e s (.undef t) := trivial

@[simp] theorem usable_nil : Usable c e s nilValue := trivial

theorem usable_global {g : GlobalId} (h : Plain s g) : Usable c e s (.global g) :=
  ⟨h.1, fun id hm => absurd hm (h.2 id)⟩

theorem Fits.of_operands {kind : InstKind} {f : FuncId} {b : BlockId} (hp : kind.isPhi = false)
    (hc : ∀ callee args, kind ≠ .call callee args) (ha : ∀ t, kind ≠ .alloca t)
    (ho : ∀ v ∈ kind.operands, UsableIn c e s f v) : Fits c e s f b kind :=
  ⟨hp, fun v hv => .inl (ho v hv), fun callee args h => absurd h (hc callee args),
    fun t h => absurd h (ha t)⟩

/-! ### Placing -/

section

variable {f : FuncId} {b : BlockId} {kind : InstKind} {t : Ty} {name : Option String}
  {r : IR.Builder}

theorem pushInto_terminated (h : r.blockTerminated f b = true) :
    @Eq (Value × IR.Builder) (Build.pushInto f b kind t name r) (.undef t, r) := by
  show (if r.blockTerminated f b then _ else _) = _
  rw [if_pos h]

theorem pushInto_open (h : r.blockTerminated f b = false) :
    @Eq (Value × IR.Builder) (Build.pushInto f b kind t name r)
      (.inst ⟨(r.module.function f).insts.size⟩,
        { r with module := r.module.modifyFunction f
                  (Build.placed b ⟨kind, t, name, r.location⟩) }) := by
  show (if r.blockTerminated f b then _ else _) = _
  rw [if_neg (by simp [h])]

/-- An instruction is a call of a function of the runtime, if it is a call. -/
def CallsRuntime (s : State) (kind : InstKind) : Prop :=
  ∀ callee args, kind = .call callee args → ∃ n, (n, callee) ∈ s.runtime

theorem Move.ofPlaced {e' : Option Entity} {inst : Inst} (site : Site c e s f b e')
    (fits : Fits c e' s f b inst.kind)
    (open_ : ((s.builder.module.function f).block b).term = none)
    (hr : CallsRuntime s inst.kind) :
    Move c e s (s.withModule (s.builder.module.modifyFunction f (Build.placed b inst))) :=
  show Move c e s (s.placed f b inst []) from .place site fits open_ (.other hr)

theorem emits_pushInto {e' : Option Entity} (site : Steady c s → Site c e s f b e')
    (hf : f = s.fn.func) (fits : Fits c e' s f b kind) (hr : CallsRuntime s kind) :
    Emits c e s (emit (Build.pushInto f b kind t name)) fun s' v => ∀ a, Usable c a s' v := by
  cases ht : s.builder.blockTerminated f b with
  | true => exact .build (pushInto_terminated ht) (fun _ => .inl rfl) fun _ a => usable_undef
  | false =>
    have hn : ((s.builder.module.function f).block b).term = none := by
      simpa [IR.Builder.blockTerminated] using ht
    refine .build (pushInto_open ht) (fun hs => .inr ?_) fun hs a => ?_
    · have fits : Fits c e' s f b (Inst.kind ⟨kind, t, name, s.builder.location⟩) := fits
      exact .ofPlaced (site hs) fits hn hr
    · have hi := index_lt_of_hasBlock (hs.site (site hs))
      subst hf
      show _ < ((s.builder.module.modifyFunction s.fn.func _).function s.fn.func).insts.size
      rw [Module.function_modifyFunction_self hi]
      simp

theorem emits_push (fits : ∀ b, Fits c e s s.fn.func b kind) (hr : CallsRuntime s kind) :
    Emits c e s (emit (Build.push kind t name)) (Usable c e) := by
  refine .assume fun hs => ?_
  obtain ⟨b, hp, hb⟩ := hs.position
  refine .build_congr (Build.push_at hp) ?_
  exact (emits_pushInto (fun _ => .position hp rfl) rfl (fits b) hr).mono fun _ _ h => h e

/-- What is pushed is placed at the position, unless it would never run. -/
theorem gives_push {v : Value} (hs : Steady c s)
    (h : Gives (emit (Build.push kind t name)) c s v s') : (v = .undef t ∧ s' = s) ∨
      ∃ b inst, s.builder.position = some (s.fn.func, b) ∧
        ((s.builder.module.function s.fn.func).block b).term = none ∧ inst.kind = kind ∧
        v = .inst ⟨(s.builder.module.function s.fn.func).insts.size⟩ ∧
        s' = s.withModule (s.builder.module.modifyFunction s.fn.func (Build.placed b inst)) := by
  obtain ⟨b, hp, -⟩ := hs.position
  obtain ⟨rfl, rfl⟩ := gives_emit h
  rw [Build.push_at hp]
  cases ht : s.builder.blockTerminated s.fn.func b with
  | true =>
    rw [pushInto_terminated ht]
    exact .inl ⟨rfl, rfl⟩
  | false =>
    rw [pushInto_open ht]
    exact .inr ⟨b, _, hp, by simpa [IR.Builder.blockTerminated] using ht, rfl, rfl, rfl⟩

end

/-- An instruction that is no phi, call or stack slot. -/
def isOperation : InstKind → Bool
  | .phi _ | .call _ _ | .alloca _ => false
  | _ => true

/-- An operation is placed when its operands can be used. -/
theorem emits_operation {kind : InstKind} {t : Ty} {name : Option String}
    (hk : isOperation kind = true) (ho : ∀ v ∈ kind.operands, Usable c e s v) :
    Emits c e s (emit (Build.push kind t name)) (Usable c e) := by
  have hcall : ∀ callee args, kind ≠ .call callee args := by
    rintro callee args rfl
    cases hk
  refine emits_push (fun b => .of_operands ?_ hcall ?_ ho) fun callee args h =>
    absurd h (hcall callee args)
  · cases kind <;> first | rfl | cases hk
  · rintro t rfl
    cases hk

/-! ### Instructions -/

section

variable {v p lhs rhs : Value} {t : Ty} {name : Option String}

theorem emits_load (hp : Usable c e s p) : Emits c e s (emit (Build.load p name)) (Usable c e) :=
  .build_congr
    (show _ = Build.push (.load p) ((s.builder.typeOf p).pointee?.getD .void) name s.builder from rfl)
    (emits_operation rfl (by simpa [InstKind.operands] using hp))

theorem emits_store (hv : Usable c e s v) (hp : Usable c e s p) :
    Emits c e s (emit (Build.store v p)) fun _ _ => True := by
  have h : Emits c e s (emit (Build.push (.store v p) .void)) (Usable c e) :=
    emits_operation rfl (by simpa [InstKind.operands] using ⟨hv, hp⟩)
  intro hs a s' hg
  obtain ⟨-, rfl⟩ := gives_emit hg
  exact ⟨(h hs _ _ rfl).1, trivial⟩

/-- The value of a constant is stored by its initializer. -/
theorem emits_storeGlobal {g : GlobalId} (hv : Usable c e s v) (hg : MayWrite e s g) :
    Emits c e s (emit (Build.store v (.global g))) fun _ _ => True := by
  have h : Emits c e s (emit (Build.push (.store v (.global g)) .void)) (Usable c e) :=
    emits_push (fun b => ⟨rfl, fun w hw => by
      rcases List.mem_cons.mp hw with rfl | hw
      · exact .inl hv
      · exact .inr ⟨v, g, by rw [List.mem_singleton.mp hw], List.mem_singleton.mp hw, hg⟩,
      fun _ _ h => (by cases h), fun _ h => by cases h⟩) fun _ _ h => by cases h
  intro hs a s' hgives
  obtain ⟨-, rfl⟩ := gives_emit hgives
  exact ⟨(h hs _ _ rfl).1, trivial⟩

theorem emits_gep {indices : List Value} (hp : Usable c e s p)
    (hi : ∀ v ∈ indices, Usable c e s v) :
    Emits c e s (emit (Build.gep p indices)) (Usable c e) :=
  .build_congr
    (show _ = Build.push (.gep p indices)
      ((((indices.drop 1).foldl Build.stepType (s.builder.typeOf p).pointee?).map Ty.ptr).getD
        .void) none s.builder from rfl)
    (emits_operation rfl (by simpa [InstKind.operands] using ⟨hp, hi⟩))

theorem emits_structGep {index : Nat} (hp : Usable c e s p) :
    Emits c e s (emit (Build.structGep p index)) (Usable c e) :=
  emits_gep hp (by simp)

theorem usable_foldCast {op : CastOp} {source target : Ty} {w : Value}
    (h : Build.foldCast op v source target = some w) (hv : Usable c e s v) : Usable c e s w := by
  unfold Build.foldCast at h
  split at h
  · split at h
    · simp_all
    · split at h
      · simp only [Option.some.injEq] at h
        rw [← h]
        exact usable_null
      · simp only [Option.some.injEq] at h
        rw [← h]
        exact hv
      · simp only [Option.some.injEq] at h
        rw [← h]
        exact hv
      · cases h
  · split at h
    · simp only [Option.some.injEq] at h
      rw [← h]
      exact usable_null
    · cases h
  · simp only [Option.some.injEq] at h
    rw [← h]
    exact usable_int
  all_goals
    first
    | cases h
    | split at h
      · simp only [Option.some.injEq] at h
        rw [← h]
        exact usable_int
      · cases h

/-- What is folded is not placed. -/
theorem emits_folded {b : Build Value} {folded : Option Value} {kind : InstKind}
    (hb : @Eq (Value × IR.Builder) (b s.builder)
      ((match folded with
        | some w => pure w
        | none => Build.push kind t name : Build Value) s.builder))
    (hf : ∀ w, folded = some w → Usable c e s w) (hk : isOperation kind = true)
    (ho : ∀ v ∈ kind.operands, Usable c e s v) : Emits c e s (emit b) (Usable c e) := by
  cases folded with
  | some w => exact .build hb (fun _ => .inl rfl) fun _ => hf w rfl
  | none => exact .build_congr hb (emits_operation hk ho)

theorem emits_cast {op : CastOp} (hv : Usable c e s v) :
    Emits c e s (emit (Build.cast op v t)) (Usable c e) :=
  emits_folded (show _ = (match Build.foldCast op v (s.builder.typeOf v) t with
      | some w => pure w
      | none => Build.push (.cast op v) t none : Build Value) s.builder from rfl)
    (fun _ h => usable_foldCast h hv) rfl (by simpa [InstKind.operands] using hv)

theorem emits_bitcast (hv : Usable c e s v) :
    Emits c e s (emit (Build.bitcast v t)) (Usable c e) := emits_cast hv

theorem emits_intToPtr (hv : Usable c e s v) :
    Emits c e s (emit (Build.intToPtr v t)) (Usable c e) := emits_cast hv

theorem emits_ptrToInt (hv : Usable c e s v) :
    Emits c e s (emit (Build.ptrToInt v t)) (Usable c e) := emits_cast hv

theorem usable_foldTruth {op : BinaryOp} {w : Value} (h : Build.foldTruth op lhs rhs = some w)
    (hl : Usable c e s lhs) (hr : Usable c e s rhs) : Usable c e s w := by
  unfold Build.foldTruth at h
  split at h <;> cases h <;> first | exact hl | exact hr | exact usable_i1

theorem emits_binary {op : BinaryOp} (hl : Usable c e s lhs) (hr : Usable c e s rhs) :
    Emits c e s (emit (Build.binary op lhs rhs)) (Usable c e) := by
  refine emits_folded (show _ = (match if s.builder.typeOf lhs = .i1 then
        Build.foldTruth op lhs rhs else none with
      | some w => pure w
      | none => Build.push (.binary op lhs rhs) (s.builder.typeOf lhs) none : Build Value)
        s.builder from rfl) (fun w h => ?_) rfl (by simpa [InstKind.operands] using ⟨hl, hr⟩)
  split at h
  · exact usable_foldTruth h hl hr
  · cases h

theorem emits_and (hl : Usable c e s lhs) (hr : Usable c e s rhs) :
    Emits c e s (emit (Build.and lhs rhs)) (Usable c e) := emits_binary hl hr

theorem emits_or (hl : Usable c e s lhs) (hr : Usable c e s rhs) :
    Emits c e s (emit (Build.or lhs rhs)) (Usable c e) := emits_binary hl hr

theorem emits_not (hv : Usable c e s v) : Emits c e s (emit (Build.not v)) (Usable c e) := by
  refine emits_folded (show _ = (match v.constBool?.map fun b => Value.i1 !b with
      | some w => pure w
      | none => Build.push (.not v) (s.builder.typeOf v) none : Build Value) s.builder from ?_)
    (fun w h => ?_) rfl (by simpa [InstKind.operands] using hv)
  · unfold Build.not
    cases v.constBool? <;> rfl
  · obtain ⟨b, -, rfl⟩ := Option.map_eq_some_iff.mp h
    exact usable_i1

theorem emits_icmp {pred : IntPredicate} (hl : Usable c e s lhs) (hr : Usable c e s rhs) :
    Emits c e s (emit (Build.icmp pred lhs rhs)) (Usable c e) := by
  refine emits_folded (show _ = (match
        lhs.constInt?.bind fun a => rhs.constInt?.map fun b => Value.i1 (pred.holds a b) with
      | some w => pure w
      | none => Build.push (.icmp pred lhs rhs) .i1 none : Build Value) s.builder from ?_)
    (fun w h => ?_) rfl (by simpa [InstKind.operands] using ⟨hl, hr⟩)
  · unfold Build.icmp
    cases lhs.constInt? <;> cases rhs.constInt? <;> rfl
  · obtain ⟨a, -, h⟩ := Option.bind_eq_some_iff.mp h
    obtain ⟨b, -, rfl⟩ := Option.map_eq_some_iff.mp h
    exact usable_i1

theorem emits_fcmp {pred : FloatPredicate} (hl : Usable c e s lhs) (hr : Usable c e s rhs) :
    Emits c e s (emit (Build.fcmp pred lhs rhs)) (Usable c e) :=
  emits_operation rfl (by simpa [InstKind.operands] using ⟨hl, hr⟩)

theorem emits_select {cond : Value} (hc : Usable c e s cond) (hl : Usable c e s lhs)
    (hr : Usable c e s rhs) : Emits c e s (emit (Build.select cond lhs rhs)) (Usable c e) := by
  refine emits_folded (show _ = (match cond.constBool?.map fun b => if b then lhs else rhs with
      | some w => pure w
      | none => Build.push (.select cond lhs rhs) (s.builder.typeOf lhs) none : Build Value)
        s.builder from ?_)
    (fun w h => ?_) rfl (by simpa [InstKind.operands] using ⟨hc, hl, hr⟩)
  · unfold Build.select
    cases cond.constBool? with
    | none => rfl
    | some b => cases b <;> rfl
  · obtain ⟨b, -, rfl⟩ := Option.map_eq_some_iff.mp h
    cases b
    · exact hr
    · exact hl

theorem Fits.call {callee : FuncId} {args : List Value} {f : FuncId} {b : BlockId}
    (hc : Callable c e s callee) (ha : ∀ v ∈ args, UsableIn c e s f v) :
    Fits c e s f b (.call callee args) := by
  refine ⟨rfl, fun v hv => .inl (ha v hv), ?_, ?_⟩
  · rintro callee' args' h
    cases h
    exact hc
  · rintro t h
    cases h

/-- A function of the runtime is called. -/
theorem emits_call {callee : FuncId} {args : List Value} (hc : Callable c none s callee)
    (ha : ∀ v ∈ args, Usable c e s v) :
    Emits c e s (emit (Build.call callee args)) (Usable c e) := by
  have hr : ∃ n, (n, callee) ∈ s.runtime :=
    hc.known.resolve_right fun ⟨a, d, ha, _⟩ => by cases ha
  refine .build_congr (show _ = Build.push (.call callee args)
    (s.builder.module.function callee).ret none s.builder from rfl)
    (emits_push (fun b => .call ⟨hc.inside, .inl hr⟩ ha) ?_)
  rintro callee' args' h
  cases h
  exact hr

theorem emits_malloc : Emits c e s (emit (Build.malloc t)) (Usable c e) :=
  emits_operation rfl (by simp [InstKind.operands])

theorem emits_arrayMalloc (hv : Usable c e s v) :
    Emits c e s (emit (Build.arrayMalloc t v)) (Usable c e) :=
  emits_operation rfl (by simpa [InstKind.operands] using hv)

end

/-! ### Other moves -/

theorem emits_addGlobal {g : IR.Global} :
    Emits c e s (emit (Build.addGlobal g)) fun s' id => Plain s' id := by
  refine .build (show _ = (s.builder.module.nextGlobal,
    { s.builder with module := s.builder.module.addGlobal g }) from rfl)
    (fun _ => .inr (.global g)) fun hs => ⟨?_, fun id hm => ?_⟩
  · show s.builder.module.globals.size < (s.builder.module.addGlobal g).globals.size
    simp
  · have := hs.consts _ hm
    simp [Module.nextGlobal] at this

/-- A stack slot can be used in the code of any entity. -/
theorem emits_slot {t : Ty} {name : Option String} :
    Emits c e s (alloca t name) fun s' v => ∀ e', Usable c e' s' v := by
  refine .assume fun hs => .ask rfl ?_
  have hsite : Site c e s s.fn.func s.fn.allocaBlock none := by
    rw [hs.slots]
    exact .slots
  have hfits : Fits c none s s.fn.func s.fn.allocaBlock (.alloca t) := by
    refine ⟨rfl, by simp [InstKind.operands], ?_, ?_⟩
    · rintro callee args h
      cases h
    · rintro t' -
      exact hs.slots
  exact emits_pushInto (fun _ => hsite) rfl hfits fun callee args h => by cases h

theorem emits_alloca {t : Ty} {name : Option String} :
    Emits c e s (alloca t name) (Usable c e) :=
  emits_slot.mono fun _ _ h => h e

/-- A change of tables and records. -/
theorem Emits.note {f : State → State} {P : State → Unit → Prop} (h : Noted s (f s))
    (hp : P (f s) ()) : Emits c e s (modify f) P :=
  .change (fun _ => .note h) hp

theorem Noted.of_tables {s' : State} (hb : s'.builder = s.builder) (ha : s'.act = s.act)
    (hf : s'.fn = s.fn) (hd : s'.definition = s.definition) (ht : s'.constTail = s.constTail)
    (hk : s'.blocks = s.blocks) (hg : s'.targets = s.targets) (hc : s'.consts = s.consts)
    (tables : ∀ g ∈ s'.tableGlobals, g ∈ s.tableGlobals ∨ Plain s g)
    (hr : s'.runtime = s.runtime) (calls : s'.calls = s.calls) : Noted s s' :=
  ⟨by rw [hb], by rw [hb], by rw [hb], ha, hf, hd, ht, hk, hg, hc, tables, hr, calls⟩

theorem emits_note {level : Log.Level} {message : String} :
    Emits c e s (note level message) fun _ _ => True :=
  .note (.of_tables rfl rfl rfl rfl rfl rfl rfl rfl (fun _ h => .inl h) rfl rfl) trivial

theorem emits_declare {name : String} {params : List IR.Param} {ret : Ty} {linkage : IR.Linkage}
    {varargs : Bool} (hn : name ≠ IR.entryName)
    (fresh : ∀ f : FuncId, f.index < s.builder.module.functions.size →
      (s.builder.module.function f).name ≠ name) :
    Emits c e s (emit (Build.declareFunction name params ret linkage varargs)) fun s' f =>
      Foreign s' f ∧ s'.builder.module.function f = { name, params, ret, linkage, varargs } ∧
        s.builder.module.functions.size ≤ f.index ∧ s'.runtime = s.runtime := by
  let fn : IR.Function := { name, params, ret, linkage, varargs }
  refine .build (show _ = (s.builder.module.nextFunction,
    { s.builder with module := s.builder.module.addFunction fn }) from rfl)
    (fun _ => .inr (.declare rfl rfl hn fresh)) fun _ => ?_
  have hf := Module.function_addFunction_self s.builder.module fn
  refine ⟨⟨?_, ?_⟩, hf, le_rfl, rfl⟩
  · show s.builder.module.functions.size < (s.builder.module.addFunction fn).functions.size
    simp
  · exact congrArg IR.Function.blocks hf

theorem mem_of_lookup {κ ν : Type} [BEq κ] [LawfulBEq κ] {l : List (κ × ν)} {k : κ} {v : ν}
    (h : l.lookup k = some v) : (k, v) ∈ l := by
  obtain ⟨l₁, l₂, rfl, -⟩ := List.lookup_eq_some_iff.mp h
  simp

theorem emits_runtimeFunction {name : String} {params : List Ty} {ret : Ty}
    (hn : name ∈ runtimeNames) :
    Emits c e s (runtimeFunction name params ret) (Callable c none) := by
  refine .assume fun hs => .ask rfl ?_
  split
  · rename_i f hf
    have hm := mem_of_lookup hf
    exact .pure ⟨(hs.foreign _ hm).1, .inl ⟨name, hm⟩⟩
  · -- the function is added and noted in one move, since in between it could not be told
    rename_i hmissing
    let fn : IR.Function :=
      { name, ret, linkage := .external, varargs := false
        params := params.zipIdx.map fun p => ⟨"arg" ++ toString p.2, p.1⟩ }
    have hmove : Move c e s (s.withHelper fn) := .helper rfl rfl hn hmissing
    have hforeign : Foreign (s.withModule (s.builder.module.addFunction fn))
        s.builder.module.nextFunction := foreign_nextFunction rfl
    intro _ f s' hg
    cases (show (Except.ok s.builder.module.nextFunction, s.withHelper fn) = _ from hg)
    exact ⟨.of_move hmove, hforeign.1, .inl ⟨name, List.mem_cons_self⟩⟩

theorem emits_bind {a : Entity} {name : String} {v : Variable} (h : Usable c (some a) s v.ptr) :
    Emits c (some a) s (bind name v) fun _ _ => True :=
  .change (fun _ => .bind rfl h) trivial

/-! ### The block of stack slots -/

/-- The state at another position. -/
def State.atPosition (p : Option (FuncId × BlockId)) (s : State) : State :=
  { s with builder := { s.builder with position := p } }

/-- What belongs to no entity can stand in the code of any. -/
theorem UsableIn.of_none {f : FuncId} {v : Value} (h : UsableIn c none s f v) :
    UsableIn c e s f v := by
  have hr : ∀ g, MayRead c none s g → MayRead c e s g := fun g hg id hm => by
    obtain ⟨a, ha, -⟩ := hg id hm
    cases ha
  cases v with
  | inst id => exact h
  | param i => exact h
  | global g => exact ⟨h.1, hr g h.2⟩
  | const k =>
    cases k with
    | globalAddr g t => exact ⟨h.1, hr g h.2⟩
    | _ => exact trivial

theorem Settles.of_none {kind : InstKind} {v : Value} (h : Settles none s kind v) :
    Settles e s kind v := by
  obtain ⟨w, g, hk, hv, hi, hn⟩ := h
  exact ⟨w, g, hk, hv, hi, fun id hm => by cases hn id hm⟩

/-- A move at the end of the block of stack slots is one from any position. -/
theorem Move.atPosition {p : Option (FuncId × BlockId)} (h : Move c none s s')
    (hp : s.builder.position = some (s.fn.func, ⟨0⟩)) :
    Move c e (s.atPosition p) (s'.atPosition p) := by
  cases h with
  | @place f b e' inst ks site fits open_ notes =>
    have hsite : Site c e (s.atPosition p) f b e' := by
      cases site with
      | position h hf =>
        rw [hp, Option.some.injEq, Prod.mk.injEq] at h
        rw [← h.1, ← h.2]
        exact .slots
      | slots => exact .slots
      | entry => exact .entry
    exact .place hsite ⟨fits.notPhi, fun v hv => fits.operands v hv, fun callee args h =>
      ⟨(fits.callee callee args h).inside, (fits.callee callee args h).known⟩, fits.slot⟩ open_
      (notes.of_eq rfl rfl)
  | declare blocks insts name fresh => exact .declare blocks insts name fresh
  | helper blocks insts name missing => exact .helper blocks insts name missing
  | global g => exact .global g
  | content id h => exact .content id h
  | bind code => cases code
  | note h =>
    exact .note ⟨h.functions, h.globals, rfl, h.act, h.fn, h.definition, h.constTail, h.blocks,
      h.targets, h.consts, h.tables, h.runtime, h.calls⟩

theorem Straight.atPosition {p : Option (FuncId × BlockId)} (h : Straight c none s s')
    (hs : Steady c s) (hp : s.builder.position = some (s.fn.func, ⟨0⟩)) :
    Straight c e (s.atPosition p) (s'.atPosition p) := by
  induction h with
  | refl => exact .refl _
  | @tail s₁ s₂ h₁ hm ih =>
    have hk := (show Straight c none s s₁ from h₁).keeps hs
    refine ih.trans (.of_move (hm.atPosition ?_))
    rw [hk.same.position, hk.same.fn, hp]

theorem gives_restorePosition {p : Option (FuncId × BlockId)} (hp : p.isSome)
    (h : Gives (restorePosition p) c s () s') : s' = s.atPosition p := by
  obtain ⟨⟨f, b⟩, rfl⟩ := Option.isSome_iff_exists.mp hp
  exact (gives_emit (b := Build.positionAt f b) h).2

theorem Steady.position_isSome (hs : Steady c s) : s.builder.position.isSome := by
  obtain ⟨b, hp, -⟩ := hs.position
  rw [hp]
  rfl

theorem gives_emitIn {f : FuncId} {b : BlockId} {x : Gen α} {a : α}
    (hp : s.builder.position.isSome) (h : Gives (emitIn f b x) c s a s') :
    ∃ s₁, Gives x c (s.atPosition (some (f, b))) a s₁ ∧
      s' = s₁.atPosition s.builder.position := by
  have hat : Gives (emit (Build.positionAt f b)) c s () (s.atPosition (some (f, b))) := rfl
  have h : Gives (do
      emit (Build.positionAt f b)
      let r ← attempt x
      restorePosition s.builder.position
      resume r) c s a s' := gives_after (x := get) rfl h
  have h := gives_after hat h
  obtain ⟨s₁, hx, hr⟩ := gives_attempt h
  exact ⟨s₁, hx, gives_restorePosition hp hr⟩

/-- Instructions at the end of the block of stack slots. -/
theorem emits_inSlots {x : Gen α} {P : State → α → Prop}
    (hx : Emits c none (s.atPosition (some (s.fn.func, ⟨0⟩))) x P) :
    Emits c e s (emitIn s.fn.func s.fn.allocaBlock x) fun _ _ => True := by
  intro hs a s' hg
  rw [hs.slots] at hg
  obtain ⟨s₁, hg₁, rfl⟩ := gives_emitIn hs.position_isSome hg
  obtain ⟨b, -, hb⟩ := hs.position
  have hs₁ : Steady c (s.atPosition (some (s.fn.func, ⟨0⟩))) :=
    { hs with position := ⟨⟨0⟩, rfl, lt_of_le_of_lt (Nat.zero_le _) hb⟩ }
  exact ⟨(hx hs₁ a s₁ hg₁).1.atPosition hs₁ rfl, trivial⟩

end Lowering.Gen
