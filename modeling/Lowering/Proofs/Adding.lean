import Lowering.Gen.Storage
import Lowering.Gen.TypeTest
import Lowering.Proofs.Placing

/-!
# Steps that only add code

What is emitted stays: instructions, conversions and type tests leave a module that the old one has
grown to.

* `Gen.Grow`, with its rules;
* `Gen.grow_convert`, `Gen.grow_assign`, `Gen.grow_isA`, `Gen.grow_truth` and those for their parts.
-/

namespace Lowering.Gen

open IR (Ty Value FuncId BlockId InstKind Build)

variable {α β : Type}

/-- A step of generation that only adds to the module. -/
def Grow (x : Gen α) : Prop :=
  ∀ c s a s', Gives x c s a s' → s.builder.module.Grows s'.builder.module

namespace Grow

variable {x : Gen α} {f : α → Gen β}

theorem pure (a : α) : Grow (pure a : Gen α) := by
  intro c s b s' h
  rw [(gives_pure.mp h).2]
  exact .refl _

theorem fail (cause : Cause) : Grow (Gen.fail cause : Gen α) :=
  fun _ _ _ _ h => absurd h not_gives_fail

theorem bind (hx : Grow x) (hf : ∀ a, Grow (f a)) : Grow (x >>= f) := by
  intro c s b s' h
  obtain ⟨a, s₁, h₁, h₂⟩ := gives_bind.mp h
  exact (hx c s a s₁ h₁).trans (hf a c s₁ b s' h₂)

/-- A question leaves the module as it is. -/
theorem ask (h : ∀ c s, ∃ a, Gives x c s a s) : Grow x := by
  intro c s a s' hg
  obtain ⟨b, hb⟩ := h c s
  have he := hb.symm.trans hg
  simp only [Prod.mk.injEq] at he
  rw [← he.2]
  exact .refl _

theorem foldlM {ι : Type} {f : β → ι → Gen β} (hf : ∀ b i, Grow (f b i)) (l : List ι) (b : β) :
    Grow (l.foldlM f b) := by
  induction l generalizing b with
  | nil => exact pure b
  | cons i l ih =>
    rw [List.foldlM_cons]
    exact bind (hf b i) ih

theorem emit {b : Build α} (h : ∀ r : IR.Builder, r.module.Grows (b r).2.module) :
    Grow (Gen.emit b) := by
  intro c s a s' hg
  rw [(gives_emit hg).2]
  exact h s.builder

end Grow

/-! ### Instructions -/

section

variable {r : IR.Builder} {f : FuncId} {b : BlockId} {kind : InstKind} {t : Ty}
  {name : Option String}

theorem grows_pushInto : r.module.Grows (Build.pushInto f b kind t name r).2.module := by
  cases ht : r.blockTerminated f b with
  | true =>
    rw [pushInto_terminated ht]
    exact .refl _
  | false =>
    rw [pushInto_open ht]
    exact .modifyFunction fun _ => .placed (by simpa [IR.Builder.blockTerminated] using ht)

theorem grows_push : r.module.Grows (Build.push kind t name r).2.module := by
  cases hp : r.position with
  | none =>
    rw [Build.push_nowhere hp]
    exact .refl _
  | some p =>
    rw [Build.push_at hp]
    exact grows_pushInto

end

section

variable {p v u cond : Value} {t : Ty} {name : Option String}

/-- A step that is folded to an operand, or else places an instruction. -/
theorem grow_folded {b : Build Value} (kind : InstKind) (folded : IR.Builder → Option Value)
    (type : IR.Builder → Ty) (h : ∀ r, @Eq (Value × IR.Builder) (b r) ((match folded r with
      | some v => pure v
      | none => Build.push kind (type r) : Build Value) r)) : Grow (Gen.emit b) := by
  refine .emit fun r => ?_
  rw [h r]
  cases folded r with
  | some v => exact .refl _
  | none => exact grows_push

theorem grow_load : Grow (emit (Build.load p name)) := .emit fun _ => grows_push

theorem grow_store : Grow (emit (Build.store v p)) := .emit fun _ => grows_push

theorem grow_structGep {index : Nat} : Grow (emit (Build.structGep p index)) :=
  .emit fun _ => grows_push

theorem grow_typeOf : Grow (emit (Build.typeOf v)) := .emit fun _ => .refl _

theorem grow_cast {op : IR.CastOp} : Grow (emit (Build.cast op v t)) :=
  grow_folded (.cast op v) (fun r => Build.foldCast op v (r.typeOf v) t) (fun _ => t)
    fun _ => rfl

theorem grow_bitcast : Grow (emit (Build.bitcast v t)) := grow_cast

theorem grow_intToPtr : Grow (emit (Build.intToPtr v t)) := grow_cast

theorem grow_ptrToInt : Grow (emit (Build.ptrToInt v t)) := grow_cast

theorem grow_or : Grow (emit (Build.or v u)) :=
  grow_folded (.binary .or v u)
    (fun r => if r.typeOf v = .i1 then Build.foldTruth .or v u else none) (fun r => r.typeOf v)
    fun _ => rfl

theorem grow_and : Grow (emit (Build.and v u)) :=
  grow_folded (.binary .and v u)
    (fun r => if r.typeOf v = .i1 then Build.foldTruth .and v u else none) (fun r => r.typeOf v)
    fun _ => rfl

theorem grow_not : Grow (emit (Build.not v)) := by
  refine grow_folded (.not v) (fun _ => v.constBool?.map fun b => .i1 !b) (fun r => r.typeOf v)
    fun _ => ?_
  unfold Build.not
  cases v.constBool? <;> rfl

theorem grow_icmp {pred : IR.IntPredicate} : Grow (emit (Build.icmp pred v u)) := by
  refine grow_folded (.icmp pred v u)
    (fun _ => v.constInt?.bind fun m => u.constInt?.map fun n => .i1 (pred.holds m n)) (fun _ => .i1)
    fun _ => ?_
  unfold Build.icmp
  cases v.constInt? <;> cases u.constInt? <;> rfl

theorem grow_select : Grow (emit (Build.select cond v u)) := by
  refine grow_folded (.select cond v u)
    (fun _ => cond.constBool?.map fun b => if b then v else u) (fun r => r.typeOf v) fun _ => ?_
  unfold Build.select
  cases cond.constBool? with
  | none => rfl
  | some b => cases b <;> rfl

end

section

variable {p v tag found : Value} {t : Ty} {u u' ty member target : TypeId} {name : Option String}
  {ids : List TypeId}

/-! ### Questions and variables -/

theorem grow_types : Grow types := .ask fun _ _ => ⟨_, rfl⟩

theorem grow_irType : Grow (irType ty) := .ask fun _ _ => ⟨_, rfl⟩

theorem grow_shape : Grow (shape ty) := .ask fun _ _ => ⟨_, rfl⟩

theorem grow_nil : Grow nil := .ask fun _ _ => ⟨_, rfl⟩

theorem grow_typeName : Grow (typeName ty) := .ask fun _ _ => ⟨_, rfl⟩

theorem grow_alloca : Grow (alloca t name) :=
  Grow.bind (.ask fun _ _ => ⟨_, rfl⟩) fun _ => .emit fun _ => grows_pushInto

theorem grow_heldValue {name : String} {y : Variable} : Grow (heldValue name y) := by
  unfold heldValue
  refine Grow.bind (.ask fun _ _ => ⟨_, rfl⟩) fun _ => ?_
  split
  · exact .pure _
  · exact grow_load

/-! ### Conversions -/

theorem grow_loadTag : Grow (loadTag p) := grow_structGep.bind fun _ => grow_load

theorem grow_storeTag : Grow (storeTag p v) := grow_structGep.bind fun _ => grow_store

theorem grow_payload : Grow (payload p t) := grow_structGep.bind fun _ => grow_bitcast

theorem grow_isNull : Grow (isNull v) := grow_ptrToInt.bind fun _ => grow_icmp

theorem grow_isNotNull : Grow (isNotNull v) := grow_ptrToInt.bind fun _ => grow_icmp

theorem grow_coerce : Grow (coerce v t) := by
  unfold coerce
  refine grow_typeOf.bind fun source => ?_
  split
  · exact .pure v
  · split
    · exact grow_bitcast
    · split
      · exact grow_intToPtr
      · exact .pure v

theorem grow_storeCoerced : Grow (storeCoerced v p) := by
  unfold storeCoerced
  refine grow_typeOf.bind fun source => ?_
  split
  · exact grow_coerce.bind fun _ => grow_store
  · exact grow_store

theorem grow_fillBox : Grow (fillBox p ty v) :=
  grow_storeTag.bind fun _ => grow_bitcast.bind fun _ => grow_structGep.bind fun _ => grow_store

theorem grow_boxed : Grow (boxed ty v) :=
  grow_alloca.bind fun _ => grow_fillBox.bind fun _ => .pure _

theorem grow_storeScalarInUnion : Grow (storeScalarInUnion p u ty v) := by
  unfold storeScalarInUnion
  refine grow_types.bind fun ts => ?_
  split
  · exact grow_storeTag.bind fun _ => grow_payload.bind fun _ => grow_fillBox
  · exact grow_storeTag.bind fun _ => grow_payload.bind fun _ => grow_storeCoerced

theorem grow_storeBoxInUnion : Grow (storeBoxInUnion p u ty v) := by
  unfold storeBoxInUnion
  refine grow_types.bind fun ts => ?_
  split
  · exact grow_storeTag.bind fun _ => grow_load.bind fun _ => grow_payload.bind fun _ => grow_store
  · exact grow_loadTag.bind fun _ => grow_structGep.bind fun _ => grow_load.bind fun _ =>
      grow_storeTag.bind fun _ => grow_payload.bind fun _ => grow_store

theorem grow_storeNilableInUnion : Grow (storeNilableInUnion p u member v) :=
  grow_isNull.bind fun _ => grow_nil.bind fun _ => grow_select.bind fun _ =>
    grow_storeTag.bind fun _ => grow_irType.bind fun _ => grow_payload.bind fun _ => grow_store

theorem grow_copyUnion : Grow (copyUnion p u' u v) :=
  grow_irType.bind fun _ => grow_irType.bind fun _ => grow_bitcast.bind fun _ =>
    grow_load.bind fun _ => grow_bitcast.bind fun _ => grow_store

theorem grow_storeInUnion : Grow (storeInUnion p u' u v) := by
  unfold storeInUnion
  refine grow_shape.bind fun shape => ?_
  split
  · exact grow_copyUnion
  · exact grow_storeNilableInUnion
  · exact grow_storeBoxInUnion
  · exact grow_storeScalarInUnion

theorem grow_inUnion : Grow (inUnion v u u') :=
  grow_irType.bind fun _ => grow_alloca.bind fun _ => grow_storeInUnion.bind fun _ => .pure _

theorem grow_boxOfUnion : Grow (boxOfUnion v u u') := by
  unfold boxOfUnion
  refine grow_types.bind fun ts => ?_
  split
  · exact grow_payload
  · exact grow_alloca.bind fun _ => grow_loadTag.bind fun _ => grow_payload.bind fun _ =>
      grow_load.bind fun _ => grow_storeTag.bind fun _ => grow_structGep.bind fun _ =>
        grow_store.bind fun _ => .pure _

theorem grow_nilableOfUnion : Grow (nilableOfUnion v t) :=
  grow_loadTag.bind fun _ => grow_nil.bind fun _ => grow_icmp.bind fun _ =>
    grow_payload.bind fun _ => grow_load.bind fun _ => grow_select

theorem grow_objectOfBox : Grow (objectOfBox v t) :=
  grow_structGep.bind fun _ => grow_load.bind fun _ => grow_bitcast

theorem grow_scalarOfUnion : Grow (scalarOfUnion v t) := grow_payload.bind fun _ => grow_load

theorem grow_scalarOfScalar : Grow (scalarOfScalar v u u') := by
  unfold scalarOfScalar
  refine grow_irType.bind fun _ => grow_irType.bind fun _ => ?_
  split
  · exact .pure v
  · split
    · exact grow_bitcast
    · exact grow_typeName.bind fun _ => grow_typeName.bind fun _ => .fail _

theorem grow_convert : Grow (convert v u u') := by
  unfold convert
  split
  · exact .pure v
  refine grow_types.bind fun ts => ?_
  split
  · split
    · exact grow_bitcast
    · exact grow_inUnion
  · exact grow_inUnion
  · exact .pure v
  · exact grow_boxed
  · exact grow_boxed
  · exact grow_boxOfUnion
  · exact grow_nilableOfUnion
  · exact grow_objectOfBox
  · exact grow_objectOfBox
  · split
    · exact .pure _
    · exact grow_coerce
  · split
    · exact .pure _
    · split
      · exact grow_scalarOfUnion
      · exact grow_scalarOfScalar
      · exact grow_coerce

theorem grow_copyHeld : Grow (copyHeld p v) := grow_load.bind fun _ => grow_store

theorem grow_assign : Grow (assign p u' u v) := by
  unfold assign
  split
  · refine Grow.bind (.ask fun _ _ => ⟨_, rfl⟩) fun _ => ?_
    split
    · exact grow_copyHeld
    · exact grow_storeCoerced
  · refine grow_shape.bind fun shape => ?_
    split
    · exact grow_storeInUnion
    · refine grow_shape.bind fun shape => ?_
      split
      · exact grow_fillBox
      · exact grow_convert.bind fun _ => grow_copyHeld
    all_goals exact grow_convert.bind fun _ => grow_storeCoerced

/-! ### Type tests -/

theorem grow_foldTags :
    Grow (ids.foldlM (fun found id => do
      let same ← Build.icmp .eq tag (tagOf id)
      Build.or found same) found) :=
  .foldlM (fun _ _ => grow_icmp.bind fun _ => grow_or) _ _

theorem grow_unionIsA : Grow (unionIsA v u target) := by
  unfold unionIsA
  refine grow_types.bind fun ts => ?_
  dsimp only
  split
  · exact .pure _
  · split
    · exact .pure _
    · exact grow_loadTag.bind fun _ => grow_foldTags

theorem grow_isA : Grow (isA v u target) := by
  unfold isA
  refine grow_types.bind fun ts => ?_
  split
  · exact grow_unionIsA
  · split
    · exact grow_isNull
    · split
      · exact grow_isNotNull
      · exact .pure _
  all_goals exact .pure _

theorem grow_unionTruth {bool : TypeId} {nil : Option TypeId} :
    Grow (unionTruth v u bool nil) := by
  unfold unionTruth
  refine grow_loadTag.bind fun _ => grow_icmp.bind fun _ => grow_convert.bind fun _ =>
    grow_icmp.bind fun _ => grow_and.bind fun _ => ?_
  split
  · exact grow_icmp.bind fun _ => grow_or.bind fun _ => grow_not
  · exact grow_not

theorem grow_truth : Grow (truth v u) := by
  unfold truth
  refine grow_types.bind fun ts => ?_
  split
  · exact .pure _
  · exact grow_icmp
  · split
    · exact grow_isNotNull
    · split
      · exact .pure _
      · exact grow_loadTag.bind fun _ => grow_icmp
      · exact grow_unionTruth
  · exact grow_isNotNull
  · exact .pure _

end

end Lowering.Gen
