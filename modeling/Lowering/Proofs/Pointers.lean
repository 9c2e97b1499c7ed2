import Lowering.Proofs.Ending

/-!
# Running the parts of pointer primitives

What the parts do of which the bodies of the pointer primitives are made: elements counted from a
pointer, numbers of elements and of bytes, fresh memory, and values in memory as they are held.

* `NumberClass.number`: the number that an integer operand stands for;
* `Gen.performs_cast`, `Gen.performs_toInt64`, `Gen.performs_scaled`: changes of width, numbers of
  elements and of bytes;
* `Gen.performs_element`, `Gen.concludes_element`: the address of an element;
* `Gen.performs_arrayMalloc`, `Gen.achieves_zeroFill`: fresh memory;
* `Gen.performs_assign_self`, `Gen.concludes_assign_self`: storing a value as it is held.
-/

namespace Lowering

open IR (Ty Value FuncId BlockId InstId InstKind Build Module)
open Exec (RtValue Fault Memory encode decode baseAddress offsetRange)
open Exec.Run (Returns Stops)

/-! ### Numbers of elements -/

/-- The number that an integer operand of a class stands for: a value of a class without sign is not
negative, and one bit with a sign is zero or minus one. -/
def NumberClass.number : NumberClass → Int → Int
  | .int bits unsigned, i =>
    if unsigned then Exec.zeroExtend bits i else if bits = 1 then -i else i
  | .float _, i => i

namespace Exec

variable {bits : Nat} {i : Int}

theorem wrap_64 : wrap 64 i = Int.bmod i (2 ^ 64) := by
  rw [wrap, if_neg (by decide), min_self, twoTo_eq]

theorem wrap_of_fits (h : -2 ^ 63 ≤ i) (h' : i < 2 ^ 63) : wrap 64 i = i := by
  rw [wrap_64]
  exact Int.bmod_eq_of_le (by norm_num; exact h) (by norm_num; exact h')

/-- A number of a width fits a word. -/
theorem fits_of_wrap (h : wrap bits i = i) : -2 ^ 63 ≤ i ∧ i < 2 ^ 63 := by
  unfold wrap at h
  split at h
  · omega
  · rw [twoTo_eq] at h
    have hpos : 0 < 2 ^ min bits 64 := Nat.two_pow_pos _
    have hle : 2 ^ min bits 64 ≤ 2 ^ 64 := Nat.pow_le_pow_right (by decide) (min_le_right _ _)
    have hlow := Int.le_bmod (x := i) hpos
    have hhigh := Int.bmod_lt (x := i) hpos
    rw [h] at hlow hhigh
    omega

end Exec

theorem NumberClass.number_fits {bits : Nat} {b : Bool} {i : Int} (h : Exec.wrap bits i = i) :
    Exec.wrap 64 ((NumberClass.int bits b).number i) = (NumberClass.int bits b).number i := by
  obtain ⟨hlow, hhigh⟩ := Exec.fits_of_wrap h
  have hfits : -2 ^ 63 ≤ (NumberClass.int bits b).number i ∧
      (NumberClass.int bits b).number i < 2 ^ 63 := by
    cases b with
    | false =>
      by_cases h1 : bits = 1
      · subst h1
        simp only [Exec.wrap, if_true] at h
        simp only [number, Bool.false_eq_true, if_false, if_true]
        omega
      · simp only [number, Bool.false_eq_true, if_false, if_neg h1]
        exact ⟨hlow, hhigh⟩
    | true =>
      simp only [number, if_true, Exec.zeroExtend]
      split
      · exact ⟨hlow, hhigh⟩
      · rw [Exec.twoTo_eq]
        have hpos : (0 : Int) < (2 ^ bits : Nat) := Int.natCast_pos.mpr (Nat.two_pow_pos _)
        have hle : 2 ^ bits ≤ 2 ^ 63 := Nat.pow_le_pow_right (by decide) (by omega)
        have h0 := Int.emod_nonneg i hpos.ne'
        have h1 := Int.emod_lt_of_pos i hpos
        omega
  exact Exec.wrap_of_fits hfits.1 hfits.2

theorem TypeTable.irType_of_isAddressHeld {ts : TypeTable} {t : TypeId}
    (h : ts.isAddressHeld t = true) : ∃ fields, ts.irType t = .struct fields := by
  rw [← shape_isAddressHeld] at h
  unfold irType irTypeWithin
  unfold shape at h
  cases hk : ts.kind t with
  | union members =>
    rw [hk] at h
    dsimp only at h ⊢
    cases hm : ts.nilableMember t with
    | some member =>
      rw [hm] at h
      cases h
    | none => exact ⟨_, rfl⟩
  | hierarchy base => exact ⟨_, rfl⟩
  | _ =>
    rw [hk] at h
    cases h

/-- Only unions and hierarchies are handled through their address. -/
theorem TypeTable.not_isAddressHeld_of_kind {ts : TypeTable} {t : TypeId} {kind : TypeKind}
    (h : ts.kind t = kind) (hunion : ∀ members, kind ≠ .union members)
    (hhierarchy : ∀ base, kind ≠ .hierarchy base) : ts.isAddressHeld t = false := by
  rw [isAddressHeld, isUnion, isHierarchy, h]
  cases kind with
  | union members => exact absurd rfl (hunion members)
  | hierarchy base => exact absurd rfl (hhierarchy base)
  | _ => rfl

theorem TypeTable.not_isAddressHeld_of_class {ts : TypeTable} {t : TypeId} {n : NumberClass}
    (h : ts.numberClass? t = some n) : ts.isAddressHeld t = false := by
  unfold numberClass? at h
  refine not_isAddressHeld_of_kind rfl (fun members hk => ?_) fun base hk => ?_ <;>
    simp [hk] at h

theorem TypeTable.argType_of_register {ts : TypeTable} {t : TypeId}
    (h : ts.isAddressHeld t = false) : ts.argType t = ts.irType t := by
  rw [argType, h, if_neg (by decide)]

theorem TypeTable.argType_of_numberClass {ts : TypeTable} {t : TypeId} {bits : Nat} {b : Bool}
    (h : ts.numberClass? t = some (.int bits b)) : ts.argType t = .int bits := by
  rw [argType_of_register (not_isAddressHeld_of_class h)]
  unfold irType irTypeWithin
  unfold numberClass? at h
  cases hk : ts.kind t <;> simp_all [Ty.i8, Ty.i1, Ty.i32]

namespace Gen

variable {w : Setting} {c : Context} {k : Spot} {v u p : Value} {t t' elem : Ty} {x y : RtValue}
  {a n : Nat} {i : Int} {ty : TypeId} {μ : Memory}

/-! ### Numbers -/

/-- A value of an integer type stands for a number. -/
def Counts (ts : TypeTable) (ty : TypeId) (x : RtValue) (n : Int) : Prop :=
  ∃ bits unsigned i, ts.numberClass? ty = some (.int bits unsigned) ∧ x = .int bits i ∧
    Exec.wrap bits i = i ∧ (NumberClass.int bits unsigned).number i = n

/-- A change of width of an operand that is no constant. -/
theorem performs_cast {op : IR.CastOp} (hop : op = .trunc ∨ op = .zext ∨ op = .sext)
    (hv : k.Holds w v t x) (hopen : v.constInt? = none) :
    Performs w c k (emit (Build.cast op v t')) fun k' r =>
      k.Gets w t' (Exec.castValue op x t t') k' r ∧ r.constInt? = none := by
  have hfold : Build.foldCast op v t t' = none := by
    rcases hop with rfl | rfl | rfl <;> simp [Build.foldCast, hopen]
  refine .assume fun ho => .build_congr (Build.push (.cast op v) t') ?_
    ((performs_pushQuiet (x := Exec.castValue op x t t') rfl ?_).mono ?_)
  · rw [Build.cast_eq, hv.type, hfold]
    rfl
  · have hrun : Exec.Run.Returns (Exec.Run.instruction w.module w.call w.func k.frame
        (.cast op v) t') k.run.ticked _ k.run.ticked := Exec.Run.returns_cast hv.value
    rwa [hv.typeOf ho] at hrun
  · rintro k' _ - - ⟨hg, id, rfl⟩
    exact ⟨hg, rfl⟩

theorem performs_toInt64 (hx : Counts c.program.types ty x i)
    (hv : k.Holds w v (c.program.types.argType ty) x) (hopen : v.constInt? = none) :
    Performs w c k (toInt64 v ty) fun k' r =>
      k'.Holds w r .i64 (.int 64 i) ∧ k'.run.memory = k.run.memory := by
  obtain ⟨bits, unsigned, i, hclass, rfl, hi, rfl⟩ := hx
  rw [TypeTable.argType_of_numberClass hclass] at hv
  unfold toInt64
  refine .ask (a := c.program.types) rfl ?_
  simp only [hclass]
  by_cases hbits : bits = 64
  · subst hbits
    rw [if_pos rfl]
    refine .pure ⟨?_, rfl⟩
    have hnumber : (NumberClass.int 64 unsigned).number i = i := by
      cases unsigned <;> simp [NumberClass.number, Exec.zeroExtend]
    rwa [hnumber]
  · rw [if_neg hbits]
    have hcast : Exec.castValue (if unsigned then .zext else .sext) (.int bits i) (.int bits) .i64 =
        .int 64 ((NumberClass.int bits unsigned).number i) := by
      have hfits := NumberClass.number_fits (b := unsigned) hi
      cases unsigned <;> exact congrArg (RtValue.int 64) hfits
    have hop : (if unsigned then IR.CastOp.zext else .sext) = .trunc ∨
        (if unsigned then IR.CastOp.zext else .sext) = .zext ∨
        (if unsigned then IR.CastOp.zext else .sext) = .sext := by cases unsigned <;> simp
    rw [← hcast]
    exact (performs_cast hop hv hopen).mono fun _ _ _ _ h => ⟨h.1.holds, h.1.memory⟩

/-- An operation on operands that are no truth values is not folded. -/
theorem binary_placed {op : IR.BinaryOp} (hv : k.Holds w v t x) (ht : t ≠ .i1) :
    @Eq (Value × IR.Builder) (Build.binary op v u k.gen.builder)
      (Build.push (.binary op v u) t none k.gen.builder) := by
  rw [Build.binary_eq, hv.type, if_neg ht]
  rfl

theorem performs_scaled {elem : TypeId} (hv : k.Holds w v .i64 (.int 64 i))
    (hsize : 0 < (c.program.types.irType elem).size) (h0 : 0 ≤ i)
    (h : i * (c.program.types.irType elem).size < offsetRange) :
    Performs w c k (scaled v elem) fun k' r =>
      k'.Holds w r .i64 (.int 64 (i * (c.program.types.irType elem).size)) ∧
        k'.run.memory = k.run.memory := by
  unfold scaled
  refine .ask (a := c.program.types.irType elem) rfl ?_
  rw [max_eq_left (Nat.one_le_iff_ne_zero.mpr hsize.ne')]
  set size := (c.program.types.irType elem).size
  refine .build_congr _ (binary_placed hv (by decide)) ((performs_quiet rfl ?_).mono fun _ _ _ _ h => ⟨h.holds, h.memory⟩)
  have hconst : k.Holds w (.i64 size) .i64 (.int 64 (Exec.wrap 64 size)) := Spot.holds_const (.int 64 size)
  refine Exec.Run.returns_binary (σ := k.run.ticked) hv.value hconst.value ?_
  -- a size that does not fit a word is the size of no element
  have hproduct : Exec.wrap 64 (i * Exec.wrap 64 size) = i * size := by
    by_cases hi : i = 0
    · subst hi
      rw [zero_mul, zero_mul]
      exact Exec.wrap_of_fits (by norm_num) (by norm_num)
    · have h1 : 1 * (size : Int) ≤ i * size :=
        mul_le_mul_of_nonneg_right (by omega) (Int.natCast_nonneg _)
      have h0 : 0 ≤ i * (size : Int) := mul_nonneg h0 (Int.natCast_nonneg _)
      unfold offsetRange at h
      rw [Exec.wrap_of_fits (i := size) (by omega) (by omega)]
      exact Exec.wrap_of_fits (by omega) (by omega)
  exact congrArg (fun i => Except.ok (RtValue.int 64 i)) hproduct

/-! ### Addresses of elements -/

section

variable {q : Nat} {step : Int}

theorem element_eq (hp : k.Holds w p (.ptr elem) x) :
    @Eq (Value × IR.Builder) (Build.gep p [v] k.gen.builder)
      (Build.push (.gep p [v]) (.ptr elem) none k.gen.builder) := by
  show Build.push _ ((([] : List Value).foldl Build.stepType
    (k.gen.builder.typeOf p).pointee?).map Ty.ptr |>.getD .void) none _ = _
  rw [hp.type]
  rfl

theorem performs_element (hp : k.Holds w p (.ptr elem) (.ptr a)) (h0 : a ≠ 0)
    (hv : k.Holds w v .i64 (.int 64 i)) (hstep : Exec.firstStep? elem i = some step)
    (hq : Exec.moved? a step = some q) :
    Performs w c k (emit (Build.gep p [v])) (k.Gets w (.ptr elem) (.ptr q)) :=
  .assume fun ho => .build_congr _ (element_eq hp) <| performs_quiet rfl <|
    Exec.Run.returns_element (σ := k.run.ticked) (hp.typeOf ho) hp.value h0 hv.value hstep hq

theorem concludes_element (hp : k.Holds w p (.ptr elem) (.ptr a)) (h0 : a ≠ 0)
    (hv : k.Holds w v .i64 (.int 64 i))
    (h : ∀ step, Exec.firstStep? elem i = some step → Exec.moved? a step = none) :
    Concludes w n c k (emit (Build.gep p [v])) (.error (.outOfBounds a 0)) fun σ =>
      σ.memory = k.run.memory := by
  refine .assume fun ho => .build_congr _ (congrArg Prod.snd (element_eq hp)) ((concludes_push rfl
    (Exec.Run.stops_element (σ := k.run.ticked) (hp.typeOf ho) hp.value h0 hv.value h)).mono ?_)
  rintro σ rfl
  rfl

end

/-- The address that a call gives is a pointer to whatever it is taken for. -/
theorem performs_bitcast_call {id : InstId} (hv : k.Holds w (.inst id) t (.ptr a)) :
    Performs w c k (emit (Build.bitcast (.inst id) (.ptr t'))) fun k' r =>
      k'.Holds w r (.ptr t') (.ptr a) ∧ k'.run.memory = k.run.memory := by
  refine (performs_folded (.cast .bitcast (.inst id))
    (Build.foldCast .bitcast (.inst id) t (.ptr t')) ?_ (fun u hu => ?_) fun _ => ?_).mono
      fun _ _ _ _ h => ⟨h.holds, h.memory⟩
  · have htype := hv.type
    subst htype
    rfl
  · unfold Build.foldCast at hu
    dsimp only at hu
    split at hu
    · rename_i he
      subst he
      exact Option.some.inj hu ▸ ⟨hv, exact_inst id⟩
    · cases hu
  · exact performs_quiet rfl (Exec.Run.returns_bitcast (σ := k.run.ticked) hv.value)

/-! ### Fresh memory -/

theorem performs_arrayMalloc {bits : Nat} (hv : k.Holds w v t (.int bits i))
    (h : elem.size * i.toNat < offsetRange) :
    Performs w c k (emit (Build.arrayMalloc elem v)) fun k' r =>
      k'.Holds w r (.ptr elem) (.ptr (baseAddress k.run.memory.allocations.size)) ∧
        k'.run.memory = (k.run.memory.allocate (elem.size * i.toNat)).2 := by
  have hrun : Exec.Run.Returns (Exec.Run.instruction w.module w.call w.func k.frame
      (.arrayMalloc elem v) (.ptr elem)) k.run.ticked _ _ :=
    Exec.Run.returns_arrayMalloc (σ := k.run.ticked) hv.value h
  refine (performs_push (k := k) rfl hrun rfl rfl rfl).mono
    fun k' r _ _ hr => ⟨hr.2.1, ?_⟩
  rw [hr.2.2]
  rfl

/-- Memory that was just allocated is zero already. -/
theorem achieves_zeroFill {b : Nat} (hw : w.call = Exec.Run.runtimeCall w.module)
    (hp : k.Holds w p (.ptr t) (.ptr (baseAddress n)))
    (hv : k.Holds w v .i64 (.int 64 (b : Nat)))
    (hfresh : k.run.memory.allocations[n]? = some { size := a }) (hb : b ≤ a) :
    Achieves w c k (zeroFill p v) fun k' _ => k'.run.memory = k.run.memory := by
  unfold zeroFill
  refine .assume fun ho => ?_
  refine achieves_runtimeFunction.bind (fun _ => adds_bitcast.bind fun _ => adds_call.bind
    fun _ => .pure _) fun k₁ g hr₁ ho₁ ⟨hrun, hname, hdecl⟩ => ?_
  have hp₁ := hp.along ho hr₁ ho₁
  have hv₁ := hv.along ho hr₁ ho₁
  refine (performs_bitcast hp₁).achieves.bind (fun _ => adds_call.bind fun _ => .pure _)
    fun k₂ raw hr₂ ho₂ hraw => ?_
  have hmemory : k₂.run.memory = k.run.memory := by rw [hraw.memory, hrun]
  have hplace : k₂.run.memory.locate (baseAddress n) b = .ok (n, 0) := by
    rw [hmemory]
    exact Memory.locate_start hfresh rfl hb
  have hfill : Returns (Exec.Run.builtin (w.module.function g).name
      [.ptr (baseAddress n), .int 8 0, .int 64 (b : Nat)]) k₂.run.ticked (.ptr (baseAddress n))
      { k₂.run.ticked with memory := k₂.run.memory } := by
    rw [hname]
    refine (Exec.Run.returns_memset (σ := k₂.run.ticked) hplace).trans ?_
    rw [show k₂.run.ticked.memory = k₂.run.memory from rfl, Memory.fill_fresh (hmemory ▸ hfresh)]
  have hvalues : k₂.Values [raw, .i8 0, v] [.ptr (baseAddress n), .int 8 0, .int 64 (b : Nat)] :=
    .cons hraw.holds.value (.cons rfl (.cons (hv₁.along ho₁ hr₂ ho₂).value .nil))
  refine (performs_call hw hdecl hvalues hfill).achieves.bind (fun _ => .pure _)
    fun k₃ _ _ _ h => .pure ?_
  rw [h.2.2, hmemory]

/-! ### Values in memory -/

theorem concludes_load {e : Fault} {name : Option String} (hp : k.Holds w p (.ptr t) (.ptr a))
    (h : k.run.memory.locate a t.size = .error e) :
    Concludes w n c k (emit (Build.load p name)) (.error e) fun σ => σ.memory = k.run.memory := by
  refine .build_congr (Build.push (.load p) t name) ?_ ((concludes_push rfl
    (Exec.Run.stops_load (σ := k.run.ticked) hp.value h)).mono ?_)
  · show (Build.push (.load p) ((k.gen.builder.typeOf p).pointee?.getD .void) name _).2 = _
    rw [hp.type]
    rfl
  · rintro σ rfl
    rfl

theorem concludes_store {e : Fault} (hv : k.Holds w v t x) (hp : k.Holds w p t' (.ptr a))
    (h : k.run.memory.locate a t.size = .error e) :
    Concludes w n c k (emit (Build.store v p)) (.error e) fun σ => σ.memory = k.run.memory := by
  refine .assume fun ho => .build_congr (Build.push (.store v p) .void) rfl ((concludes_push rfl
    (Exec.Run.stops_store (σ := k.run.ticked) hp.value hv.value
      (by rwa [hv.typeOf ho]))).mono ?_)
  rintro σ rfl
  rfl

/-! ### Values as they are held -/

section

variable {b : Nat} {name : String}

/-- The bytes of a value that is held by address, as they are copied. -/
theorem encode_decode_held (h : c.program.types.isAddressHeld ty = true) :
    encode (decode (μ.bytes b (c.program.types.irType ty).size) (c.program.types.irType ty))
      (c.program.types.irType ty) = μ.bytes b (c.program.types.irType ty).size := by
  obtain ⟨fields, hf⟩ := c.program.types.irType_of_isAddressHeld h
  rw [hf]
  exact Exec.encode_decode_struct Memory.length_bytes

theorem performs_copyWhole (hheld : c.program.types.isAddressHeld ty = true)
    (hp : k.Holds w p (.ptr (c.program.types.irType ty)) (.ptr a))
    (hv : k.Holds w v (.ptr (c.program.types.irType ty)) (.ptr b))
    (ha : k.run.memory.Room a (c.program.types.irType ty).size)
    (hb : k.run.memory.Room b (c.program.types.irType ty).size) :
    Performs w c k (copyHeld p v) fun k' _ => k'.run.memory =
      k.run.memory.put (k.run.memory.bytes b (c.program.types.irType ty).size) (Memory.place a) := by
  unfold copyHeld
  refine .assume fun ho => (performs_load hv hb).bind (fun _ => grow_store)
    fun k₁ whole hr₁ ho₁ ⟨hh, _⟩ => ?_
  refine (performs_store hh.holds (hp.along ho hr₁ ho₁) (by rwa [hh.memory])).mono
    fun k' _ _ _ h => ?_
  rw [h, hh.memory, encode_decode_held hheld]

/-- The bytes that storing a value writes: those of the value, or those at its address. -/
def storedBytes (ts : TypeTable) (μ : Memory) (ty : TypeId) (x : RtValue) : List UInt8 :=
  if ts.isAddressHeld ty then μ.bytes (x.ptr?.getD 0) (ts.irType ty).size
  else encode x (ts.irType ty)

/-- A value as it is held: by the address of its bytes, or itself. -/
def Given (ts : TypeTable) (μ : Memory) (ty : TypeId) (x : RtValue) : Prop :=
  ts.isAddressHeld ty = true → ∃ b, x = .ptr b ∧ μ.Room b (ts.irType ty).size

theorem performs_assign_self (hp : k.Holds w p (.ptr (c.program.types.irType ty)) (.ptr a))
    (hv : k.Holds w v (c.program.types.argType ty) x) (hx : Given c.program.types k.run.memory ty x)
    (ha : k.run.memory.Room a (c.program.types.irType ty).size) :
    Performs w c k (assign p ty ty v) fun k' _ =>
      k'.run.memory = k.run.memory.put (storedBytes c.program.types k.run.memory ty x) (Memory.place a) := by
  unfold assign
  rw [if_pos rfl]
  refine .ask (a := c.program.types.isAddressHeld ty) rfl ?_
  unfold TypeTable.argType at hv
  unfold storedBytes
  split
  · rename_i hheld
    rw [if_pos hheld] at hv
    obtain ⟨b, rfl, hb⟩ := hx hheld
    exact performs_copyWhole hheld hp hv ha hb
  · rename_i hheld
    rw [if_neg hheld] at hv
    exact performs_storeCoerced hv hp ha (.inl rfl)

theorem concludes_assign_self {e : Fault} (hw : w.call = Exec.Run.runtimeCall w.module)
    (hp : k.Holds w p (.ptr (c.program.types.irType ty)) (.ptr a))
    (hv : k.Holds w v (c.program.types.argType ty) x) (hx : Given c.program.types k.run.memory ty x)
    (ha : k.run.memory.locate a (c.program.types.irType ty).size = .error e) :
    Concludes w n c k (assign p ty ty v) (.error e) fun σ => σ.memory = k.run.memory := by
  unfold assign
  rw [if_pos rfl]
  refine .ask (a := c.program.types.isAddressHeld ty) rfl ?_
  unfold TypeTable.argType at hv
  refine .assume fun ho => ?_
  split
  · rename_i hheld
    rw [if_pos hheld] at hv
    obtain ⟨b, rfl, hb⟩ := hx hheld
    unfold copyHeld
    refine .after hw (fun _ => adds_store) (performs_load hv hb).achieves
      fun k₁ whole hr₁ ho₁ ⟨hh, _⟩ => ?_
    refine (concludes_store hh.holds (hp.along ho hr₁ ho₁) ?_).mono fun σ h => h.trans hh.memory
    rwa [hh.memory]
  · rename_i hheld
    rw [if_neg hheld] at hv
    unfold storeCoerced
    refine .ask (a := .ptr (c.program.types.irType ty))
      (congrArg (fun t => (Except.ok t, k.gen)) hp.type) ?_
    refine .after hw (fun _ => adds_store) (performs_coerce hv (.inl rfl)).achieves
      fun k₁ u hr₁ ho₁ ⟨hu, hm⟩ => ?_
    refine (concludes_store hu (hp.along ho hr₁ ho₁) ?_).mono fun σ h => h.trans hm
    rwa [hm]

/-! ### Values that are returned -/

/-- What a function returns for a value: the bytes at its address, or itself. -/
def returnedValue (ts : TypeTable) (μ : Memory) (ty : TypeId) (x : RtValue) : RtValue :=
  if ts.isAddressHeld ty then decode (μ.bytes (x.ptr?.getD 0) (ts.irType ty).size) (ts.irType ty)
  else x

/-- Memory after a value was put together in the return slot. -/
def collected (ts : TypeTable) (μ : Memory) (ty : TypeId) (slot : Nat) (x : RtValue) : Memory :=
  if ts.isAddressHeld ty then
    μ.put (μ.bytes (x.ptr?.getD 0) (ts.irType ty).size) (Memory.place slot)
  else μ

/-- A spot in a function that returns values of a type, with its return slot. -/
structure Spot.Returning (w : Setting) (c : Context) (k : Spot) (ty : TypeId) (slot : Nat) :
    Prop where
  type : k.gen.fn.returnType = some ty
  slot : c.program.types.isAddressHeld ty = true → ∃ v, k.gen.fn.returnSlot = some v ∧
    k.Holds w v (.ptr (c.program.types.irType ty)) (.ptr slot)

theorem Spot.Returning.along {k' : Spot} {slot : Nat} (h : k.Returning w c ty slot) (ho : k.Open w)
    (hr : k.Runs w k') (ho' : k'.Open w) (hfn : k'.gen.fn = k.gen.fn) : k'.Returning w c ty slot where
  type := hfn ▸ h.type
  slot hheld := by
    obtain ⟨v, hv, hslot⟩ := h.slot hheld
    exact ⟨v, hfn ▸ hv, hslot.along ho hr ho'⟩

theorem concludes_return {slot : Nat} (hw : w.call = Exec.Run.runtimeCall w.module)
    (hret : k.Returning w c ty slot) (hv : k.Holds w v (c.program.types.argType ty) x)
    (hx : Given c.program.types k.run.memory ty x)
    (hslot : c.program.types.isAddressHeld ty = true →
      k.run.memory.Room slot (c.program.types.irType ty).size) :
    Concludes w n c k (returnFromFunction v ty) (.ok (returnedValue c.program.types k.run.memory ty x))
      fun σ => σ.memory = collected c.program.types k.run.memory ty slot x := by
  unfold returnFromFunction
  refine .assume fun ho => .ask (a := k.gen) rfl ?_
  simp only [hret.type]
  refine .ask (a := c.program.types.isAddressHeld ty) rfl ?_
  unfold returnedValue collected
  split
  · rename_i hheld
    obtain ⟨s, hs, hslotv⟩ := hret.slot hheld
    obtain ⟨b, rfl, hb⟩ := hx hheld
    rw [hs]
    refine .ask (a := s) rfl ?_
    refine .after hw (fun _ => adds_load.bind fun _ => adds_terminate)
      (performs_assign_self hslotv hv hx (hslot hheld)).achieves fun k₁ _ hr₁ ho₁ hm₁ => ?_
    unfold storedBytes at hm₁
    rw [if_pos hheld] at hm₁
    have hroom : k₁.run.memory.Room slot (c.program.types.irType ty).size := by
      rw [hm₁]
      exact Memory.room_put.mpr (hslot hheld)
    refine .after hw (fun _ => adds_terminate)
      (performs_load (hslotv.along ho hr₁ ho₁) hroom).achieves fun k₂ v₂ hr₂ ho₂ hload => ?_
    obtain ⟨hh, -⟩ := hload
    have hbytes : k₁.run.memory.bytes slot (c.program.types.irType ty).size =
        k.run.memory.bytes b (c.program.types.irType ty).size := by
      have hlength : k.run.memory.Room slot
          (k.run.memory.bytes b (c.program.types.irType ty).size).length := by
        rw [Memory.length_bytes]
        exact hslot hheld
      have hput := Memory.bytes_put_self hlength
      rw [Memory.length_bytes] at hput
      rw [hm₁]
      exact hput
    have hholds := hh.holds
    rw [hbytes] at hholds
    refine (concludes_ret hholds).mono fun σ hσ => ?_
    rw [hσ]
    exact hh.memory.trans hm₁
  · rename_i hheld
    unfold TypeTable.argType at hv
    rw [if_neg hheld] at hv
    have hsame : convert v ty ty = (pure v : Gen Value) := by rw [convert, if_pos rfl]
    unfold convertExactly
    rw [hsame, pure_bind]
    have hview : Performs w c k (irType ty >>= coerce v) fun k' r =>
        k'.Holds w r (c.program.types.irType ty) x ∧ k'.run.memory = k.run.memory :=
      .ask (a := c.program.types.irType ty) rfl (performs_coerce hv (.inl rfl))
    refine .after hw (fun _ => adds_terminate) hview.achieves fun k₁ u hr₁ ho₁ hseen => ?_
    obtain ⟨hu, hm⟩ := hseen
    exact (concludes_ret hu).mono fun σ hσ => hσ ▸ hm

/-- A value that is not at its address cannot be returned. -/
theorem concludes_return_outside {slot b : Nat} {e : Fault}
    (hret : k.Returning w c ty slot) (hheld : c.program.types.isAddressHeld ty = true)
    (hv : k.Holds w v (c.program.types.argType ty) (.ptr b))
    (he : k.run.memory.locate b (c.program.types.irType ty).size = .error e) :
    Concludes w n c k (returnFromFunction v ty) (.error e) fun σ => σ.memory = k.run.memory := by
  obtain ⟨s, hs, -⟩ := hret.slot hheld
  unfold returnFromFunction
  refine .ask (a := k.gen) rfl ?_
  simp only [hret.type]
  refine .ask (a := true) (congrArg (fun h => (Except.ok h, k.gen)) hheld) ?_
  rw [if_pos rfl, hs]
  refine .ask (a := s) rfl (.first (fun _ => adds_load.bind fun _ => adds_terminate) ?_)
  unfold assign
  rw [if_pos rfl]
  refine .ask (a := true) (congrArg (fun h => (Except.ok h, k.gen)) hheld) ?_
  rw [TypeTable.argType, if_pos hheld] at hv
  rw [if_pos rfl]
  exact .first (fun _ => adds_store) (concludes_load hv he)

end

end Gen

end Lowering
