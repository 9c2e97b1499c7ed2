import Lowering.Proofs.Layout
import Lowering.Proofs.Nesting
import Lowering.Proofs.Pointers

/-!
# The bodies of the pointer primitives

What the body of each pointer primitive does to memory, and what value it gives, told from the
allocation that its receiver points into.

* `Gen.Spot.Params`: a spot at which the parameters of a function are in scope;
* `TypeTable.Points`: a pointer type and what it points to;
* `Gen.achieves_malloc`, `Gen.achieves_realloc`, `Gen.performs_add`, `Gen.performs_get`,
  `Gen.performs_set`, `Gen.achieves_copyFrom`, and the `concludes_` rules for those that stop.
-/

namespace Lowering

open IR (Ty Value FuncId BlockId InstId InstKind Build Module)
open Exec (RtValue Fault Memory Allocation encode decode baseAddress offsetRange)
open Exec.Run (Returns Stops)

/-- A pointer type with what it points to. -/
structure TypeTable.Points (ts : TypeTable) (t elem : TypeId) : Prop where
  kind : ts.kind t = .pointer elem
  type : ts.irType t = .ptr (ts.irType elem)
  size : 0 < (ts.irType elem).size

theorem TypeTable.points {ts : TypeTable} {t elem : TypeId} (hc : ts.Closed) (h : ts.LayoutsEnd)
    (hk : ts.kind t = .pointer elem) : ts.Points t elem :=
  ⟨hk, irType_of_pointer hc h hk, size_irType_pos elem⟩

theorem TypeTable.Points.isAddressHeld {ts : TypeTable} {t elem : TypeId} (h : ts.Points t elem) :
    ts.isAddressHeld t = false :=
  not_isAddressHeld_of_kind h.kind nofun nofun

theorem TypeTable.Points.argType {ts : TypeTable} {t elem : TypeId} (h : ts.Points t elem) :
    ts.argType t = .ptr (ts.irType elem) := by
  rw [argType_of_register h.isAddressHeld, h.type]

namespace Gen

variable {w : Setting} {c : Context} {k : Spot} {d : Def} {selfType : Option TypeId}
  {xs : List RtValue} {x : RtValue} {t elem : TypeId} {i j n : Nat} {count : Int} {a : Arg}

/-! ### Parameters -/

theorem lookup_of_nodup {κ ν : Type} [BEq κ] [LawfulBEq κ] {l : List (κ × ν)} {key : κ} {v : ν}
    (hn : (l.map Prod.fst).Nodup) (h : (key, v) ∈ l) : l.lookup key = some v := by
  induction l with
  | nil => cases h
  | cons p l ih =>
    obtain ⟨key', v'⟩ := p
    rw [List.map_cons, List.nodup_cons] at hn
    rw [List.lookup_cons]
    rcases List.mem_cons.mp h with he | h
    · cases he
      simp
    · have hne : key ≠ key' := fun he => hn.1 (he ▸ List.mem_map.mpr ⟨_, h, rfl⟩)
      simp [beq_false_of_ne hne, ih hn.2 h]

/-- The parameters of a definition have names of their own. -/
def Named (d : Def) (selfType : Option TypeId) : Prop := ((parameters d selfType).map Prod.fst).Nodup

theorem lookup_primitiveScope {name : String} (hn : Named d selfType)
    (h : (parameters d selfType)[i]? = some (name, t)) :
    (primitiveScope d selfType).lookup name = some { ptr := .param i, type := t, direct := true } := by
  refine lookup_of_nodup ?_ ?_
  · rw [Named, ← List.zipIdx_map_fst 0 (parameters d selfType), List.map_map] at hn
    rwa [primitiveScope, List.map_reverse, List.nodup_reverse, List.map_map]
  · rw [primitiveScope, List.mem_reverse, List.mem_map]
    exact ⟨((name, t), i), List.mem_zipIdx_iff_getElem?.mpr h, rfl⟩

theorem parameters_argument (h : d.args[i]? = some a) :
    (parameters d selfType)[selfType.toList.length + i]? = some (a.name, a.type) := by
  rw [parameters, List.getElem?_append_right (by cases selfType <;> simp)]
  cases selfType <;> simp [h]

section

variable {s : State} (hn : Named d selfType) (hv : s.act.vars = primitiveScope d selfType)
include hn hv

theorem gives_receiver (hself : selfType = some t) : Gives receiver c s (.param 0, t) s := by
  have hlookup : s.act.vars.lookup "self" = _ := hv ▸
    lookup_primitiveScope (i := 0) (t := t) hn (by simp [parameters, hself])
  refine gives_bind.mpr ⟨_, _, congrArg (fun v => (Except.ok v, s)) hlookup, rfl⟩

theorem gives_argument (hi : d.args[i]? = some a) :
    Gives (argument d i) c s (.param (selfType.toList.length + i), a.type) s := by
  have hlookup : s.act.vars.lookup a.name = _ :=
    hv ▸ lookup_primitiveScope hn (parameters_argument hi)
  unfold argument
  rw [hi]
  exact gives_bind.mpr ⟨_, _, congrArg (fun v => (Except.ok v, s)) hlookup, rfl⟩

end

/-- The parameters of a function are in scope, and have values. -/
structure Spot.Params (w : Setting) (c : Context) (k : Spot) (d : Def) (selfType : Option TypeId)
    (xs : List RtValue) : Prop where
  named : Named d selfType
  vars : k.gen.act.vars = primitiveScope d selfType
  types : ∀ i name t, (parameters d selfType)[i]? = some (name, t) →
    k.gen.builder.typeOf (.param i) = c.program.types.argType t
  args : k.frame.args = xs

namespace Spot.Params

variable (h : k.Params w c d selfType xs)
include h

theorem holds {name : String} (hi : (parameters d selfType)[i]? = some (name, t)) (hx : xs[i]? = some x) :
    k.Holds w (.param i) (c.program.types.argType t) x := by
  refine ⟨trivial, h.types i name t hi, ?_⟩
  show k.frame.args[i]? = some x
  rw [h.args, hx]

theorem holds_self (hself : selfType = some t) (hx : xs[0]? = some x) :
    k.Holds w (.param 0) (c.program.types.argType t) x :=
  have hparam : (parameters d selfType)[0]? = some ("self", t) := by simp [parameters, hself]
  h.holds hparam hx

theorem holds_receiver {p : Nat} (ht : c.program.types.Points t elem) (hself : selfType = some t)
    (hx : xs[0]? = some (.ptr p)) :
    k.Holds w (.param 0) (.ptr (c.program.types.irType elem)) (.ptr p) :=
  ht.argType ▸ h.holds_self hself hx

theorem gives_receiver (hself : selfType = some t) : Gives receiver c k.gen (.param 0, t) k.gen :=
  Gen.gives_receiver h.named h.vars hself

theorem gives_argument (hi : d.args[i]? = some a) :
    Gives (argument d i) c k.gen (.param (selfType.toList.length + i), a.type) k.gen :=
  Gen.gives_argument h.named h.vars hi

theorem holds_argument (hi : d.args[i]? = some a) (hx : xs[selfType.toList.length + i]? = some x) :
    k.Holds w (.param (selfType.toList.length + i)) (c.program.types.argType a.type) x :=
  h.holds (parameters_argument hi) hx

end Spot.Params

theorem gives_elementOf {s : State} (ht : c.program.types.Points t elem) :
    Gives (elementOf t) c s elem s := by
  unfold elementOf
  refine gives_bind.mpr ⟨c.program.types, s, rfl, ?_⟩
  rw [ht.kind]
  rfl

theorem gives_returned {s : State} (h : d.type = some t) : Gives (returned d) c s t s := by
  unfold returned
  rw [h]
  rfl

/-! ### Fresh elements -/

/-- The first part of a change of size: the type of the receiver, and the operands of the runtime's
function. -/
def resizing (d : Def) : Gen (TypeId × FuncId × List Value) := do
  let (ptr, t) ← receiver
  let elem ← elementOf t
  let (count, countType) ← argument d 0
  let count ← toInt64 count countType
  let bytes ← scaled count elem
  let realloc ← runtimeFunction "realloc" [.bytePtr, .i64] .bytePtr
  let raw ← Build.bitcast ptr .bytePtr
  return (t, realloc, [raw, bytes])

section

variable (hw : w.call = Exec.Run.runtimeCall w.module) (hp : k.Params w c d selfType xs)
  (ht : c.program.types.Points t elem)
include hw hp ht

theorem achieves_malloc (htype : d.type = some t) (ha : d.args[0]? = some a)
    (hx : xs[selfType.toList.length]? = some x) (hc : Counts c.program.types a.type x count)
    (h0 : 0 ≤ count) (hn : count * (c.program.types.irType elem).size < offsetRange) :
    Achieves w c k (primitiveBody d .pointerMalloc) fun k' v =>
      k'.Holds w v (c.program.types.argType t) (.ptr (baseAddress k.run.memory.allocations.size)) ∧
        k'.run.memory =
          (k.run.memory.allocate ((c.program.types.irType elem).size * count.toNat)).2 := by
  obtain ⟨m, rfl⟩ := Int.eq_ofNat_of_zero_le h0
  set size := (c.program.types.irType elem).size
  have hsize : size * m < offsetRange := by
    rw [mul_comm]
    exact_mod_cast hn
  show Achieves w c k (allocateElements d) _
  unfold allocateElements
  refine .ask (gives_returned htype) (.ask (gives_elementOf ht) (.ask (hp.gives_argument ha) ?_))
  have harg : k.Holds w (.param (selfType.toList.length + 0)) (c.program.types.argType a.type) x :=
    hp.holds_argument ha hx
  refine (performs_toInt64 hc harg rfl).achieves.bind (fun _ => adds_irType.bind fun _ =>
    adds_arrayMalloc.bind fun _ => adds_scaled.bind fun _ => adds_zeroFill.bind fun _ => .pure _)
    fun k₁ v hr₁ ho₁ ⟨hv, hm₁⟩ => .ask (a := c.program.types.irType elem) rfl ?_
  refine (performs_arrayMalloc hv hsize).achieves.bind (fun _ => adds_scaled.bind fun _ =>
    adds_zeroFill.bind fun _ => .pure _) fun k₂ p hr₂ ho₂ ⟨hptr, hm₂⟩ => ?_
  refine (performs_scaled (hv.along ho₁ hr₂ ho₂) ht.size h0 hn).achieves.bind (fun _ =>
    adds_zeroFill.bind fun _ => .pure _) fun k₃ bytes hr₃ ho₃ ⟨hb, hm₃⟩ => ?_
  rw [hm₁] at hm₂ hptr
  have hptr₃ := hptr.along ho₂ hr₃ ho₃
  have hb : k₃.Holds w bytes .i64 (.int 64 (m * size : Nat)) := by exact_mod_cast hb
  have hfresh : k₃.run.memory.allocations[k.run.memory.allocations.size]? =
      some { size := max (size * m) 1 } := by
    rw [hm₃, hm₂]
    exact Memory.getElem?_allocate_self
  refine (achieves_zeroFill hw hptr₃ hb hfresh ((mul_comm m size).le.trans (le_max_left _ _))).bind
    (fun _ => .pure _) fun k₄ _ hr₄ ho₄ hm₄ => .pure ⟨?_, ?_⟩
  · rw [ht.argType]
    exact hptr₃.along ho₃ hr₄ ho₄
  · rw [hm₄, hm₃, hm₂]

/-! ### Elements in another number -/

variable {p : Nat} {al : Allocation}

omit hw hp ht in
theorem reallocateElements_eq : reallocateElements d = (do
    let (t, realloc, operands) ← resizing d
    let grown ← Build.call realloc operands
    Build.bitcast grown (← irType t)) := by
  unfold reallocateElements resizing
  simp only [bind_assoc, pure_bind]

omit hw in
theorem achieves_resizing (hself : selfType = some t) (ha : d.args[0]? = some a)
    (hptr : xs[0]? = some (.ptr p)) (hx : xs[1]? = some x)
    (hc : Counts c.program.types a.type x (n : Nat))
    (hn : n * (c.program.types.irType elem).size < offsetRange) :
    Achieves w c k (resizing d) fun k' r =>
      r.1 = t ∧ (w.module.function r.2.1).name = "realloc" ∧
        (w.module.function r.2.1).isDeclaration = true ∧
        k'.Values r.2.2 [.ptr p, .int 64 (n * (c.program.types.irType elem).size : Nat)] ∧
        k'.run.memory = k.run.memory := by
  subst hself
  have hself := hp.holds_receiver ht rfl hptr
  have harg : k.Holds w (.param (1 + 0)) (c.program.types.argType a.type) x :=
    hp.holds_argument ha hx
  unfold resizing
  refine .assume fun ho => .ask (hp.gives_receiver rfl) (.ask (gives_elementOf ht)
    (.ask (hp.gives_argument ha) ?_))
  refine (performs_toInt64 hc harg rfl).achieves.bind (fun _ => adds_scaled.bind fun _ =>
    adds_runtimeFunction.bind fun _ => adds_bitcast.bind fun _ => .pure _)
    fun k₁ v hr₁ ho₁ ⟨hv, hm₁⟩ => ?_
  refine (performs_scaled hv ht.size (Int.natCast_nonneg n) (by exact_mod_cast hn)).achieves.bind
    (fun _ => adds_runtimeFunction.bind fun _ => adds_bitcast.bind fun _ => .pure _)
    fun k₂ bytes hr₂ ho₂ ⟨hb, hm₂⟩ => ?_
  refine achieves_runtimeFunction.bind (fun _ => adds_bitcast.bind fun _ => .pure _)
    fun k₃ g hr₃ ho₃ ⟨hrun, hname, hdecl⟩ => ?_
  have hself₃ := ((hself.along ho hr₁ ho₁).along ho₁ hr₂ ho₂).along ho₂ hr₃ ho₃
  refine (performs_bitcast hself₃).achieves.bind (fun _ => .pure _) fun k₄ raw hr₄ ho₄ hraw =>
    .pure ⟨rfl, hname, hdecl, .cons hraw.holds.value (.cons ?_ .nil), ?_⟩
  · exact_mod_cast ((hb.along ho₂ hr₃ ho₃).along ho₃ hr₄ ho₄).value
  · rw [hraw.memory, hrun, hm₂, hm₁]

theorem achieves_realloc (hself : selfType = some t) (ha : d.args[0]? = some a)
    (hptr : xs[0]? = some (.ptr (baseAddress i + j))) (hx : xs[1]? = some x)
    (hc : Counts c.program.types a.type x (n : Nat))
    (hn : n * (c.program.types.irType elem).size < offsetRange)
    (hal : k.run.memory.allocations[i]? = some al) (hlive : al.live = true) (hj : j < offsetRange)
    (hin : j ≤ al.size) :
    Achieves w c k (primitiveBody d .pointerRealloc) fun k' v =>
      k'.Holds w v (c.program.types.argType t) (.ptr (baseAddress k.run.memory.allocations.size)) ∧
        k'.run.memory = ((k.run.memory.allocate (n * (c.program.types.irType elem).size)).2.put
          (al.slice j (min (al.size - j) (n * (c.program.types.irType elem).size)))
          (k.run.memory.allocations.size, 0)).release (baseAddress i + j) := by
  rw [ht.argType]
  show Achieves w c k (reallocateElements d) _
  rw [reallocateElements_eq]
  refine (achieves_resizing hp ht hself ha hptr hx hc hn).bind (fun _ => adds_call.bind fun _ =>
    adds_irType.bind fun _ => adds_bitcast) fun k₁ r hr₁ ho₁ ⟨htype, hname, hdecl, hvs, hm₁⟩ => ?_
  have hal₁ : k₁.run.ticked.memory.allocations[i]? = some al := by
    rw [← hal, ← hm₁]
    rfl
  have hcall : Returns (Exec.Run.builtin "realloc" [.ptr (baseAddress i + j),
      .int 64 (n * (c.program.types.irType elem).size : Nat)]) k₁.run.ticked _ _ :=
    Exec.Run.returns_realloc hal₁ hlive hj hin
  rw [← hname] at hcall
  refine (performs_call hw hdecl hvs hcall).achieves.bind (fun _ => adds_irType.bind fun _ =>
    adds_bitcast) fun k₂ grown hr₂ ho₂ ⟨⟨id, hid⟩, ⟨s, hgrown⟩, hm₂⟩ => ?_
  refine .ask (a := c.program.types.irType r.1) rfl ?_
  subst hid
  rw [htype, ht.type]
  refine (performs_bitcast_call hgrown).achieves.mono fun k₃ v _ _ h => ?_
  rw [h.2, hm₂]
  exact ⟨hm₁ ▸ h.1, by rw [← hm₁]; rfl⟩

/-- A released pointer is not resized: only the fresh allocation was made. -/
theorem concludes_realloc (hself : selfType = some t) (ha : d.args[0]? = some a)
    (hptr : xs[0]? = some (.ptr (baseAddress i + j))) (hx : xs[1]? = some x)
    (hc : Counts c.program.types a.type x (n : Nat))
    (hn : n * (c.program.types.irType elem).size < offsetRange)
    (hal : k.run.memory.allocations[i]? = some al) (hlive : al.live = false)
    (hj : j < offsetRange) {m : Nat} :
    Concludes w m c k (primitiveBody d .pointerRealloc) (.error (.useAfterFree (baseAddress i + j)))
      fun σ => σ.memory = (k.run.memory.allocate (n * (c.program.types.irType elem).size)).2 := by
  show Concludes w m c k (reallocateElements d) _ _
  rw [reallocateElements_eq]
  refine .after hw (fun _ => adds_call.bind fun _ => adds_irType.bind fun _ => adds_bitcast)
    (achieves_resizing hp ht hself ha hptr hx hc hn)
    fun k₁ r hr₁ ho₁ ⟨htype, hname, hdecl, hvs, hm₁⟩ => ?_
  have hdead : (k₁.run.ticked.memory.allocate (n * (c.program.types.irType elem).size)).2.locate
      (baseAddress i + j) 0 = .error (.useAfterFree (baseAddress i + j)) := by
    refine Memory.locate_released (a := al) ?_ hlive hj
    rw [Memory.getElem?_allocate_of_lt]
    · exact hm₁ ▸ hal
    · exact Memory.lt_of_getElem? (hm₁ ▸ hal)
  have hcall : Stops (Exec.Run.builtin "realloc" [.ptr (baseAddress i + j),
      .int 64 (n * (c.program.types.irType elem).size : Nat)]) k₁.run.ticked _ _ :=
    Exec.Run.stops_realloc Exec.baseAddress_add_ne_zero hdead
  rw [← hname] at hcall
  refine .first (fun _ => adds_irType.bind fun _ => adds_bitcast)
    ((concludes_call hdecl hvs hcall).mono ?_)
  rintro σ rfl
  exact congrArg (fun μ => (Memory.allocate μ _).2) hm₁

/-! ### Other elements -/

section

variable {q : Nat} {step : Int}

omit hw

theorem performs_add (hself : selfType = some t) (ha : d.args[0]? = some a)
    (hptr : xs[0]? = some (.ptr p)) (h0 : p ≠ 0) (hx : xs[1]? = some x)
    (hc : Counts c.program.types a.type x count)
    (hstep : Exec.firstStep? (c.program.types.irType elem) count = some step)
    (hq : Exec.moved? p step = some q) :
    Performs w c k (primitiveBody d .pointerAdd) fun k' v =>
      k'.Holds w v (c.program.types.argType t) (.ptr q) ∧ k'.run.memory = k.run.memory := by
  subst hself
  have hself := hp.holds_receiver ht rfl hptr
  have harg : k.Holds w (.param (1 + 0)) (c.program.types.argType a.type) x :=
    hp.holds_argument ha hx
  rw [ht.argType]
  refine .assume fun ho => .ask (hp.gives_receiver rfl) (.ask (hp.gives_argument ha) ?_)
  refine (performs_toInt64 hc harg rfl).bind (fun _ => adds_gep.grow) fun k₁ v hr₁ ho₁ ⟨hv, hm₁⟩ => ?_
  exact (performs_element (hself.along ho hr₁ ho₁) h0 hv hstep hq).mono fun _ _ _ _ h =>
    ⟨h.holds, h.memory.trans hm₁⟩

include hw in
theorem concludes_add (hself : selfType = some t) (ha : d.args[0]? = some a)
    (hptr : xs[0]? = some (.ptr p)) (h0 : p ≠ 0) (hx : xs[1]? = some x)
    (hc : Counts c.program.types a.type x count)
    (h : ∀ step, Exec.firstStep? (c.program.types.irType elem) count = some step →
      Exec.moved? p step = none) :
    Concludes w n c k (primitiveBody d .pointerAdd) (.error (.outOfBounds p 0)) fun σ =>
      σ.memory = k.run.memory := by
  subst hself
  have hself := hp.holds_receiver ht rfl hptr
  have harg : k.Holds w (.param (1 + 0)) (c.program.types.argType a.type) x :=
    hp.holds_argument ha hx
  refine .assume fun ho => .ask (hp.gives_receiver rfl) (.ask (hp.gives_argument ha) ?_)
  refine .after hw (fun _ => adds_gep) (performs_toInt64 hc harg rfl).achieves
    fun k₁ v hr₁ ho₁ ⟨hv, hm₁⟩ => ?_
  exact (concludes_element (hself.along ho hr₁ ho₁) h0 hv h).mono fun σ hσ => hσ.trans hm₁

/-! ### Values of elements -/

/-- The value of an element as it is held. -/
def elementHeld (ts : TypeTable) (μ : Memory) (elem : TypeId) (p : Nat) : RtValue :=
  if ts.isAddressHeld elem then .ptr p
  else decode (μ.bytes p (ts.irType elem).size) (ts.irType elem)

theorem performs_get (hself : selfType = some t) (hptr : xs[0]? = some (.ptr p))
    (hroom : c.program.types.isAddressHeld elem = false →
      k.run.memory.Room p (c.program.types.irType elem).size) :
    Performs w c k (primitiveBody d .pointerGetValue) fun k' v =>
      k'.Holds w v (c.program.types.argType elem)
        (elementHeld c.program.types k.run.memory elem p) ∧ k'.run.memory = k.run.memory := by
  subst hself
  have hself := hp.holds_receiver ht rfl hptr
  refine .ask (hp.gives_receiver rfl) (.ask (gives_elementOf ht) ?_)
  unfold heldIn TypeTable.argType elementHeld
  refine .ask (a := c.program.types.isAddressHeld elem) rfl ?_
  cases hheld : c.program.types.isAddressHeld elem with
  | true => exact .pure ⟨hself, rfl⟩
  | false => exact (performs_load hself (hroom hheld)).mono fun _ _ _ _ h =>
      ⟨h.1.holds, h.1.memory⟩

theorem concludes_get {e : Fault} (hself : selfType = some t) (hptr : xs[0]? = some (.ptr p))
    (hheld : c.program.types.isAddressHeld elem = false)
    (he : k.run.memory.locate p (c.program.types.irType elem).size = .error e) :
    Concludes w n c k (primitiveBody d .pointerGetValue) (.error e) fun σ =>
      σ.memory = k.run.memory := by
  subst hself
  have hself := hp.holds_receiver ht rfl hptr
  refine .ask (hp.gives_receiver rfl) (.ask (gives_elementOf ht) ?_)
  unfold heldIn
  refine .ask (a := false) (congrArg (fun h => (Except.ok h, k.gen)) hheld) ?_
  exact concludes_load hself he

theorem performs_set (hself : selfType = some t) (ha : d.args[0]? = some a) (hty : a.type = elem)
    (hptr : xs[0]? = some (.ptr p)) (hx : xs[1]? = some x)
    (hgiven : Given c.program.types k.run.memory elem x)
    (hroom : k.run.memory.Room p (c.program.types.irType elem).size) :
    Performs w c k (primitiveBody d .pointerSetValue) fun k' v =>
      k'.Holds w v (c.program.types.argType elem) x ∧ k'.run.memory =
        k.run.memory.put (storedBytes c.program.types k.run.memory elem x) (Memory.place p) := by
  subst hself hty
  have hself := hp.holds_receiver ht rfl hptr
  have harg : k.Holds w (.param (1 + 0)) (c.program.types.argType a.type) x :=
    hp.holds_argument ha hx
  refine .assume fun ho => .ask (hp.gives_receiver rfl) (.ask (gives_elementOf ht)
    (.ask (hp.gives_argument ha) ?_))
  exact (performs_assign_self hself harg hgiven hroom).bind (fun _ => .pure _)
    fun k₁ _ hr₁ ho₁ hm₁ => .pure ⟨harg.along ho hr₁ ho₁, hm₁⟩

include hw in
theorem concludes_set {e : Fault} (hself : selfType = some t) (ha : d.args[0]? = some a)
    (hty : a.type = elem) (hptr : xs[0]? = some (.ptr p)) (hx : xs[1]? = some x)
    (hgiven : Given c.program.types k.run.memory elem x)
    (he : k.run.memory.locate p (c.program.types.irType elem).size = .error e) :
    Concludes w n c k (primitiveBody d .pointerSetValue) (.error e) fun σ =>
      σ.memory = k.run.memory := by
  subst hself hty
  have hself := hp.holds_receiver ht rfl hptr
  have harg : k.Holds w (.param (1 + 0)) (c.program.types.argType a.type) x :=
    hp.holds_argument ha hx
  refine .ask (hp.gives_receiver rfl) (.ask (gives_elementOf ht) (.ask (hp.gives_argument ha) ?_))
  exact .first (fun _ => .pure _) (concludes_assign_self hw hself harg hgiven he)

end

/-! ### Copies -/

theorem achieves_copyFrom {source : Arg} {q : Nat} {bs : List UInt8} {place : Nat × Nat}
    (hself : selfType = some t) (hs : d.args[0]? = some source) (hty : source.type = t)
    (ha : d.args[1]? = some a) (hptr : xs[0]? = some (.ptr p)) (hsource : xs[1]? = some (.ptr q))
    (hx : xs[2]? = some x) (hc : Counts c.program.types a.type x (n : Nat))
    (hn : n * (c.program.types.irType elem).size < offsetRange)
    (hread : k.run.memory.read q (n * (c.program.types.irType elem).size) = .ok bs)
    (hplace : k.run.memory.locate p bs.length = .ok place) :
    Achieves w c k (primitiveBody d .pointerCopyFrom) fun k' v =>
      k'.Holds w v (c.program.types.argType t) (.ptr p) ∧
        k'.run.memory = k.run.memory.put bs place := by
  subst hself hty
  have hself := hp.holds_receiver ht rfl hptr
  have hsource : k.Holds w (.param (1 + 0)) (c.program.types.argType source.type) (.ptr q) :=
    hp.holds_argument hs hsource
  have harg : k.Holds w (.param (1 + 1)) (c.program.types.argType a.type) x :=
    hp.holds_argument ha hx
  rw [ht.argType] at hsource ⊢
  show Achieves w c k (copyElements d) _
  unfold copyElements
  refine .assume fun ho => .ask (hp.gives_receiver rfl) (.ask (gives_elementOf ht)
    (.ask (hp.gives_argument hs) (.ask (hp.gives_argument ha) ?_)))
  refine (performs_toInt64 hc harg rfl).achieves.bind (fun _ => adds_scaled.bind fun _ =>
    adds_runtimeFunction.bind fun _ => adds_bitcast.bind fun _ => adds_bitcast.bind fun _ =>
    adds_call.bind fun _ => .pure _) fun k₁ v hr₁ ho₁ ⟨hv, hm₁⟩ => ?_
  refine (performs_scaled hv ht.size (Int.natCast_nonneg n) (by exact_mod_cast hn)).achieves.bind
    (fun _ => adds_runtimeFunction.bind fun _ => adds_bitcast.bind fun _ => adds_bitcast.bind fun _ =>
    adds_call.bind fun _ => .pure _) fun k₂ bytes hr₂ ho₂ ⟨hb, hm₂⟩ => ?_
  refine achieves_runtimeFunction.bind (fun _ => adds_bitcast.bind fun _ => adds_bitcast.bind fun _ =>
    adds_call.bind fun _ => .pure _) fun k₃ g hr₃ ho₃ ⟨hrun, hname, hdecl⟩ => ?_
  have hself₃ := ((hself.along ho hr₁ ho₁).along ho₁ hr₂ ho₂).along ho₂ hr₃ ho₃
  have hsource₃ := ((hsource.along ho hr₁ ho₁).along ho₁ hr₂ ho₂).along ho₂ hr₃ ho₃
  refine (performs_bitcast hself₃).achieves.bind (fun _ => adds_bitcast.bind fun _ =>
    adds_call.bind fun _ => .pure _) fun k₄ dst hr₄ ho₄ hdst => ?_
  refine (performs_bitcast (hsource₃.along ho₃ hr₄ ho₄)).achieves.bind (fun _ =>
    adds_call.bind fun _ => .pure _) fun k₅ src hr₅ ho₅ hsrc => ?_
  have hmemory : k₅.run.memory = k.run.memory := by
    rw [hsrc.memory, hdst.memory, hrun, hm₂, hm₁]
  have hvalues : k₅.Values [dst, src, bytes] [.ptr p, .ptr q,
      .int 64 (n * (c.program.types.irType elem).size : Nat)] := by
    refine .cons (hdst.holds.along ho₄ hr₅ ho₅).value (.cons hsrc.holds.value (.cons ?_ .nil))
    exact_mod_cast (((hb.along ho₂ hr₃ ho₃).along ho₃ hr₄ ho₄).along ho₄ hr₅ ho₅).value
  have hcall : Returns (Exec.Run.builtin (w.module.function g).name [.ptr p, .ptr q,
      .int 64 (n * (c.program.types.irType elem).size : Nat)]) k₅.run.ticked (.ptr p)
      { k₅.run.ticked with memory := k₅.run.memory.put bs place } := by
    rw [hname]
    exact Exec.Run.returns_memcpy (σ := k₅.run.ticked) (hmemory ▸ hread) (hmemory ▸ hplace)
  refine (performs_call hw hdecl hvalues hcall).achieves.bind (fun _ => .pure _)
    fun k₆ _ hr₆ ho₆ ⟨_, _, hm₆⟩ => .pure ⟨?_, ?_⟩
  · exact ((hself₃.along ho₃ hr₄ ho₄).along ho₄ hr₅ ho₅).along ho₅ hr₆ ho₆
  · rw [hm₆, hmemory]

end

end Gen

end Lowering
