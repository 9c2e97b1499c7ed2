import Lowering.Gen.Primitive
import Lowering.Proofs.Values

/-!
# Operations in a straight line

Arithmetic and the bodies of primitives neither end a block nor begin one.

* `Gen.emits_numericCast`, `Gen.emits_combine`;
* `Gen.emits_primitive`.
-/

namespace Lowering.Gen

open IR (Ty Value FuncId Build)

variable {c : Context} {e : Option Entity} {s : State} {v w p : Value}

/-! ### Arithmetic -/

theorem emits_resize {source bits : Nat} {unsigned : Bool} {t : Ty} (hv : Usable c e s v) :
    Emits c e s (resize v source unsigned bits t) (Usable c e) := by
  unfold resize
  split
  · exact .pure hv
  · split
    · exact emits_cast hv
    · split <;> exact emits_cast hv

theorem emits_numericCast {source target : TypeId} (hv : Usable c e s v) :
    Emits c e s (numericCast v source target) (Usable c e) := by
  unfold numericCast
  refine .ask rfl ?_
  dsimp only
  split
  · exact emits_resize hv
  · exact emits_cast hv
  · exact emits_cast hv
  · exact emits_cast hv
  · exact emits_cast hv
  · exact .pure hv
  · exact .fail

theorem emits_toInt64 {t : TypeId} (hv : Usable c e s v) :
    Emits c e s (toInt64 v t) (Usable c e) := by
  unfold toInt64
  refine .ask rfl ?_
  split
  · split
    · exact .pure hv
    · exact emits_cast hv
  · exact .ask rfl .fail

theorem emits_toFloat {n : NumberClass} {double : Bool} (hv : Usable c e s v) :
    Emits c e s (toFloat v n double) (Usable c e) := by
  unfold toFloat
  dsimp only
  split
  · exact emits_cast hv
  · split
    · exact .pure hv
    · exact emits_cast hv

theorem emits_combineInts {op : BinaryPrimitive} (hv : Usable c e s v) (hw : Usable c e s w) :
    Emits c e s (combineInts op v w) (Usable c e) := by
  unfold combineInts
  split
  · exact emits_binary hv hw
  · exact emits_icmp hv hw

theorem emits_combineFloats {op : BinaryPrimitive} (hv : Usable c e s v) (hw : Usable c e s w) :
    Emits c e s (combineFloats op v w) (Usable c e) := by
  unfold combineFloats
  split
  · exact emits_binary hv hw
  · exact emits_fcmp hv hw
  · exact .fail

theorem emits_combineNumbers {op : BinaryPrimitive} {lt rt : TypeId} {l r : NumberClass}
    (hv : Usable c e s v) (hw : Usable c e s w) :
    Emits c e s (combineNumbers op v lt w rt l r) (Usable c e) := by
  unfold combineNumbers
  split
  · refine .ask rfl ((emits_numericCast hv).bind fun v' s₁ k₁ hv' => ?_)
    refine (emits_numericCast (k₁.usable hw)).bind fun w' s₂ k₂ hw' => ?_
    exact emits_combineInts (k₂.usable hv') hw'
  · refine (emits_toFloat hv).bind fun v' s₁ k₁ hv' => ?_
    refine (emits_toFloat (k₁.usable hw)).bind fun w' s₂ k₂ hw' => ?_
    exact emits_combineFloats (k₂.usable hv') hw'

theorem emits_asReturned {source : TypeId} {t : Option TypeId} (hv : Usable c e s v) :
    Emits c e s (asReturned v source t) (Usable c e) := by
  unfold asReturned
  split
  · refine .ask rfl ?_
    split
    · exact .pure hv
    · refine .ask rfl ?_
      split
      · exact .pure hv
      · exact emits_numericCast hv
  · exact .pure hv

theorem emits_combine {op : BinaryPrimitive} {lt rt : TypeId} {returned : Option TypeId}
    (hv : Usable c e s v) (hw : Usable c e s w) :
    Emits c e s (combine op v lt w rt returned) (Usable c e) := by
  unfold combine
  refine .ask rfl ?_
  split
  · exact (emits_combineNumbers hv hw).bind fun r s₁ _ hr => emits_asReturned hr
  · exact .fail

/-! ### Primitives -/

theorem emits_receiver (hv : Scoped c e s) :
    Emits c e s receiver fun s' r => Usable c e s' r.1 :=
  emits_lookup hv fun _ _ _ hx => .pure hx

theorem emits_argument {d : Def} {i : Nat} (hv : Scoped c e s) :
    Emits c e s (argument d i) fun s' r => Usable c e s' r.1 := by
  unfold argument
  split
  · exact emits_lookup hv fun _ _ _ hx => .pure hx
  · exact .ask rfl ((Emits.orFail (P := fun _ _ => False) fun _ h => by cases h).bind
      fun _ _ _ h => h.elim)

theorem emits_returned {d : Def} : Emits c e s (returned d) fun _ _ => True :=
  .orFail fun _ _ => trivial

theorem emits_elementOf {t : TypeId} : Emits c e s (elementOf t) fun _ _ => True := by
  unfold elementOf
  refine .ask rfl ?_
  split
  · exact .pure trivial
  · exact .ask rfl .fail

theorem emits_receiverField {field : String} (hv : Scoped c e s) :
    Emits c e s (receiverField field) fun s' r => Usable c e s' r.1 := by
  unfold receiverField
  exact (emits_receiver hv).bind fun r s₁ _ hr => .ask rfl (emits_fieldOf hr)

theorem emits_scaled {elem : TypeId} (hv : Usable c e s v) :
    Emits c e s (scaled v elem) (Usable c e) :=
  .ask rfl (emits_binary hv usable_i64)

theorem emits_zeroFill (hp : Usable c e s p) (hv : Usable c e s v) :
    Emits c e s (zeroFill p v) fun _ _ => True := by
  unfold zeroFill
  refine (emits_runtimeFunction (by decide)).bind fun memset s₁ k₁ hm => ?_
  refine (emits_bitcast (k₁.usable hp)).bind fun raw s₂ k₂ hr => ?_
  refine (emits_call (k₂.callable hm) ?_).bind fun _ s₃ _ _ => .pure trivial
  simpa using ⟨hr, (k₁.trans k₂).usable hv⟩

theorem emits_allocateObject {d : Def} : Emits c e s (allocateObject d) (Usable c e) := by
  unfold allocateObject
  refine .ask rfl (emits_returned.bind fun t s₁ k₁ _ => ?_)
  refine emits_malloc.bind fun object s₂ k₂ ho => ?_
  exact (emits_zeroFill ho usable_i64).bind fun _ s₃ k₃ _ => .pure (k₃.usable ho)

theorem emits_allocateElements {d : Def} (hv : Scoped c e s) :
    Emits c e s (allocateElements d) (Usable c e) := by
  unfold allocateElements
  refine emits_returned.bind fun t s₁ k₁ _ => emits_elementOf.bind fun elem s₂ k₂ _ => ?_
  refine (emits_argument (k₂.vars (k₁.vars hv))).bind fun r s₃ k₃ hr => ?_
  refine (emits_toInt64 hr).bind fun count s₄ k₄ hc => .ask rfl ?_
  refine (emits_arrayMalloc hc).bind fun ptr s₅ k₅ hp => ?_
  refine (emits_scaled (k₅.usable hc)).bind fun bytes s₆ k₆ hb => ?_
  refine (emits_zeroFill (k₆.usable hp) hb).bind fun _ s₇ k₇ _ => ?_
  exact .pure ((k₆.trans k₇).usable hp)

theorem emits_reallocateElements {d : Def} (hv : Scoped c e s) :
    Emits c e s (reallocateElements d) (Usable c e) := by
  unfold reallocateElements
  refine (emits_receiver hv).bind fun r s₁ k₁ hr => emits_elementOf.bind fun elem s₂ k₂ _ => ?_
  refine (emits_argument (k₂.vars (k₁.vars hv))).bind fun a s₃ k₃ ha => ?_
  refine (emits_toInt64 ha).bind fun count s₄ k₄ hc => ?_
  refine (emits_scaled hc).bind fun bytes s₅ k₅ hb => ?_
  refine (emits_runtimeFunction (by decide)).bind fun realloc s₆ k₆ hf => ?_
  have k := ((k₂.trans k₃).trans (k₄.trans k₅)).trans k₆
  refine (emits_bitcast (k.usable hr)).bind fun raw s₇ k₇ hraw => ?_
  refine (emits_call (k₇.callable hf) ?_).bind fun grown s₈ k₈ hg => .ask rfl (emits_bitcast hg)
  simpa using ⟨hraw, (k₆.trans k₇).usable hb⟩

theorem emits_copyElements {d : Def} (hv : Scoped c e s) :
    Emits c e s (copyElements d) (Usable c e) := by
  unfold copyElements
  refine (emits_receiver hv).bind fun r s₁ k₁ hr => emits_elementOf.bind fun elem s₂ k₂ _ => ?_
  refine (emits_argument (k₂.vars (k₁.vars hv))).bind fun a s₃ k₃ ha => ?_
  refine (emits_argument (k₃.vars (k₂.vars (k₁.vars hv)))).bind fun n s₄ k₄ hn => ?_
  refine (emits_toInt64 hn).bind fun count s₅ k₅ hc => ?_
  refine (emits_scaled hc).bind fun bytes s₆ k₆ hb => ?_
  refine (emits_runtimeFunction (by decide)).bind fun memcpy s₇ k₇ hf => ?_
  have k := (k₂.trans k₃).trans (((k₄.trans k₅).trans k₆).trans k₇)
  refine (emits_bitcast (k.usable hr)).bind fun dst s₈ k₈ hdst => ?_
  have k' := ((k₄.trans k₅).trans (k₆.trans k₇)).trans k₈
  refine (emits_bitcast (k'.usable ha)).bind fun src s₉ k₉ hsrc => ?_
  refine (emits_call (k₉.callable (k₈.callable hf)) ?_).bind fun _ s₁₀ k₁₀ _ => ?_
  · simpa using ⟨k₉.usable hdst, hsrc, ((k₇.trans k₈).trans k₉).usable hb⟩
  · exact .pure (((k.trans k₈).trans (k₉.trans k₁₀)).usable hr)

theorem emits_primitiveBody {d : Def} {op : Primitive} (hv : Scoped c e s) :
    Emits c e s (primitiveBody d op) (Usable c e) := by
  cases op with
  | binary op =>
    refine (emits_receiver hv).bind fun l s₁ k₁ hl => ?_
    exact (emits_argument (k₁.vars hv)).bind fun r s₂ k₂ hr => emits_combine (k₂.usable hl) hr
  | convert =>
    refine (emits_receiver hv).bind fun r s₁ k₁ hr => ?_
    exact emits_returned.bind fun t s₂ k₂ _ => emits_numericCast (k₂.usable hr)
  | allocate => exact emits_allocateObject
  | structAlloc => exact emits_allocateObject
  | structGet field =>
    exact (emits_receiverField hv).bind fun r s₁ _ hr => emits_heldIn hr
  | structSet field =>
    refine (emits_receiver hv).bind fun r s₁ k₁ hr => ?_
    refine (emits_argument (k₁.vars hv)).bind fun a s₂ k₂ ha => .ask rfl ?_
    refine (emits_fieldOf (k₂.usable hr)).bind fun p s₃ k₃ hp => ?_
    exact (emits_assign hp (k₃.usable ha)).bind fun _ s₄ k₄ _ => .pure ((k₃.trans k₄).usable ha)
  | pointerMalloc => exact emits_allocateElements hv
  | pointerRealloc => exact emits_reallocateElements hv
  | pointerGetValue =>
    refine (emits_receiver hv).bind fun r s₁ k₁ hr => ?_
    exact emits_elementOf.bind fun elem s₂ k₂ _ => emits_heldIn (k₂.usable hr)
  | pointerSetValue =>
    refine (emits_receiver hv).bind fun r s₁ k₁ hr => emits_elementOf.bind fun elem s₂ k₂ _ => ?_
    refine (emits_argument (k₂.vars (k₁.vars hv))).bind fun a s₃ k₃ ha => ?_
    refine (emits_assign ((k₂.trans k₃).usable hr) ha).bind fun _ s₄ k₄ _ => ?_
    exact .pure (k₄.usable ha)
  | pointerAdd =>
    refine (emits_receiver hv).bind fun r s₁ k₁ hr => ?_
    refine (emits_argument (k₁.vars hv)).bind fun a s₂ k₂ ha => ?_
    refine (emits_toInt64 ha).bind fun offset s₃ k₃ ho => ?_
    exact emits_gep ((k₂.trans k₃).usable hr) (by simpa using ho)
  | pointerCast =>
    refine (emits_receiver hv).bind fun r s₁ k₁ hr => ?_
    exact emits_returned.bind fun t s₂ k₂ _ => .ask rfl (emits_bitcast (k₂.usable hr))
  | pointerCopyFrom => exact emits_copyElements hv
  | pointerAddress =>
    exact (emits_receiver hv).bind fun r s₁ k₁ hr => emits_ptrToInt hr
  | symbolToString =>
    exact (emits_receiver hv).bind fun r s₁ k₁ hr => emits_symbolText hr

theorem emits_primitive {op : Primitive} (hv : Scoped c e s) :
    Emits c e s (primitive op) (Usable c e) := by
  unfold primitive
  refine .ask rfl ((Emits.orFail (P := fun _ _ => True) fun _ _ => trivial).bind fun d s₁ k₁ _ => ?_)
  exact emits_note.bind fun _ s₂ k₂ _ => emits_primitiveBody (k₂.vars (k₁.vars hv))

end Lowering.Gen
