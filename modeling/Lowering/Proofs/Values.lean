import Lowering.Gen.Interning
import Lowering.Gen.Storage
import Lowering.Gen.TypeTest
import Lowering.Proofs.Placing

/-!
# Values in a straight line

Conversions, type tests and accesses to storage neither end a block nor begin one, and the operands
they give can be used.

* `Gen.emits_convert`, `Gen.emits_assign` and the rules for their parts;
* `Gen.emits_isA`, `Gen.emits_truth`;
* `Gen.emits_readVariable`, `Gen.emits_assignTarget`, `Gen.emits_pointerTo` and others on storage.
-/

namespace Lowering.Gen

open IR (Ty Value FuncId BlockId GlobalId Build)

variable {c : Context} {e : Option Entity} {s : State} {v w p : Value}

/-! ### Parts of address-held values -/

theorem usable_tagOf {t : TypeId} : Usable c e s (tagOf t) := trivial

theorem emits_loadTag (hp : Usable c e s p) : Emits c e s (loadTag p) (Usable c e) := by
  unfold loadTag
  exact (emits_structGep hp).bind fun slot s₁ k hs => emits_load hs

theorem emits_storeTag (hp : Usable c e s p) (hv : Usable c e s v) :
    Emits c e s (storeTag p v) fun _ _ => True := by
  unfold storeTag
  exact (emits_structGep hp).bind fun slot s₁ k hs => emits_store (k.usable hv) hs

theorem emits_payload {t : Ty} (hp : Usable c e s p) :
    Emits c e s (payload p t) (Usable c e) := by
  unfold payload
  exact (emits_structGep hp).bind fun bytes s₁ k hb => emits_bitcast hb

theorem emits_isNull (hv : Usable c e s v) : Emits c e s (isNull v) (Usable c e) := by
  unfold isNull
  exact (emits_ptrToInt hv).bind fun address s₁ k ha => emits_icmp ha usable_i64

theorem emits_isNotNull (hv : Usable c e s v) : Emits c e s (isNotNull v) (Usable c e) := by
  unfold isNotNull
  exact (emits_ptrToInt hv).bind fun address s₁ k ha => emits_icmp ha usable_i64

/-! ### Coercion -/

theorem emits_coerce {t : Ty} (hv : Usable c e s v) :
    Emits c e s (coerce v t) (Usable c e) := by
  unfold coerce
  refine .ask rfl ?_
  split
  · exact .pure hv
  · split
    · exact emits_bitcast hv
    · split
      · exact emits_intToPtr hv
      · exact .pure hv

theorem emits_storeCoerced (hv : Usable c e s v) (hp : Usable c e s p) :
    Emits c e s (storeCoerced v p) fun _ _ => True := by
  unfold storeCoerced
  refine .ask rfl ?_
  split
  · exact (emits_coerce hv).bind fun w s₁ k hw => emits_store hw (k.usable hp)
  · exact emits_store hv hp

/-! ### Writing into storage -/

theorem emits_fillBox {t : TypeId} (hp : Usable c e s p) (hv : Usable c e s v) :
    Emits c e s (fillBox p t v) fun _ _ => True := by
  unfold fillBox
  refine (emits_storeTag hp usable_tagOf).bind fun _ s₁ k₁ _ => ?_
  refine (emits_bitcast (k₁.usable hv)).bind fun object s₂ k₂ ho => ?_
  refine (emits_structGep (k₂.usable (k₁.usable hp))).bind fun ptr s₃ k₃ hptr => ?_
  exact emits_store (k₃.usable ho) hptr

theorem emits_boxed {t : TypeId} (hv : Usable c e s v) :
    Emits c e s (boxed t v) (Usable c e) := by
  unfold boxed
  refine emits_alloca.bind fun slot s₁ k₁ hs => ?_
  exact (emits_fillBox hs (k₁.usable hv)).bind fun _ s₂ k₂ _ => .pure (k₂.usable hs)

theorem emits_storeScalarInUnion {target source : TypeId} (hp : Usable c e s p)
    (hv : Usable c e s v) : Emits c e s (storeScalarInUnion p target source v) fun _ _ => True := by
  unfold storeScalarInUnion
  refine .ask rfl ?_
  split
  · refine (emits_storeTag hp usable_tagOf).bind fun _ s₁ k₁ _ => ?_
    refine (emits_payload (k₁.usable hp)).bind fun room s₂ k₂ hr => ?_
    exact emits_fillBox hr (k₂.usable (k₁.usable hv))
  · refine (emits_storeTag hp usable_tagOf).bind fun _ s₁ k₁ _ => ?_
    refine (emits_payload (k₁.usable hp)).bind fun room s₂ k₂ hr => ?_
    exact emits_storeCoerced (k₂.usable (k₁.usable hv)) hr

theorem emits_storeBoxInUnion {target source : TypeId} (hp : Usable c e s p)
    (hv : Usable c e s v) : Emits c e s (storeBoxInUnion p target source v) fun _ _ => True := by
  unfold storeBoxInUnion
  refine .ask rfl ?_
  split
  · refine (emits_storeTag hp usable_tagOf).bind fun _ s₁ k₁ _ => ?_
    refine (emits_load (k₁.usable hv)).bind fun box s₂ k₂ hb => ?_
    refine (emits_payload (k₂.usable (k₁.usable hp))).bind fun room s₃ k₃ hr => ?_
    exact emits_store (k₃.usable hb) hr
  · refine (emits_loadTag hv).bind fun tag s₁ k₁ ht => ?_
    refine (emits_structGep (k₁.usable hv)).bind fun objectPtr s₂ k₂ ho => ?_
    refine (emits_load ho).bind fun object s₃ k₃ ho => ?_
    have k := (k₁.trans k₂).trans k₃
    refine (emits_storeTag (k.usable hp) ((k₂.trans k₃).usable ht)).bind fun _ s₄ k₄ _ => ?_
    refine (emits_payload ((k.trans k₄).usable hp)).bind fun room s₅ k₅ hr => ?_
    exact emits_store ((k₄.trans k₅).usable ho) hr

theorem emits_storeNilableInUnion {source member : TypeId} (hp : Usable c e s p)
    (hv : Usable c e s v) :
    Emits c e s (storeNilableInUnion p source member v) fun _ _ => True := by
  unfold storeNilableInUnion
  refine (emits_isNull hv).bind fun null s₁ k₁ hn => .ask rfl ?_
  refine (emits_select hn usable_tagOf usable_tagOf).bind fun tag s₂ k₂ ht => ?_
  have k := k₁.trans k₂
  refine (emits_storeTag (k.usable hp) ht).bind fun _ s₃ k₃ _ => .ask rfl ?_
  refine (emits_payload ((k.trans k₃).usable hp)).bind fun room s₄ k₄ hr => ?_
  exact emits_store (((k.trans k₃).trans k₄).usable hv) hr

theorem emits_copyUnion {target source : TypeId} (hp : Usable c e s p) (hv : Usable c e s v) :
    Emits c e s (copyUnion p target source v) fun _ _ => True := by
  unfold copyUnion
  refine .ask rfl (.ask rfl ?_)
  refine (emits_bitcast hv).bind fun src s₁ k₁ hs => ?_
  refine (emits_load hs).bind fun bytes s₂ k₂ hb => ?_
  refine (emits_bitcast ((k₁.trans k₂).usable hp)).bind fun dst s₃ k₃ hd => ?_
  exact emits_store (k₃.usable hb) hd

theorem emits_storeInUnion {target source : TypeId} (hp : Usable c e s p) (hv : Usable c e s v) :
    Emits c e s (storeInUnion p target source v) fun _ _ => True := by
  unfold storeInUnion
  refine .ask rfl ?_
  split
  · exact emits_copyUnion hp hv
  · exact emits_storeNilableInUnion hp hv
  · exact emits_storeBoxInUnion hp hv
  · exact emits_storeScalarInUnion hp hv

/-! ### Views -/

theorem emits_inUnion {source target : TypeId} (hv : Usable c e s v) :
    Emits c e s (inUnion v source target) (Usable c e) := by
  unfold inUnion
  refine .ask rfl (emits_alloca.bind fun slot s₁ k₁ hs => ?_)
  exact (emits_storeInUnion hs (k₁.usable hv)).bind fun _ s₂ k₂ _ => .pure (k₂.usable hs)

theorem emits_boxOfUnion {source target : TypeId} (hv : Usable c e s v) :
    Emits c e s (boxOfUnion v source target) (Usable c e) := by
  unfold boxOfUnion
  refine .ask rfl ?_
  split
  · exact emits_payload hv
  · refine emits_alloca.bind fun slot s₁ k₁ hs => ?_
    refine (emits_loadTag (k₁.usable hv)).bind fun tag s₂ k₂ ht => ?_
    refine (emits_payload ((k₁.trans k₂).usable hv)).bind fun objectPtr s₃ k₃ ho => ?_
    refine (emits_load ho).bind fun object s₄ k₄ ho => ?_
    have k := (k₂.trans k₃).trans k₄
    refine (emits_storeTag (k.usable hs) ((k₃.trans k₄).usable ht)).bind fun _ s₅ k₅ _ => ?_
    refine (emits_structGep ((k.trans k₅).usable hs)).bind fun ptr s₆ k₆ hp => ?_
    refine (emits_store ((k₅.trans k₆).usable ho) hp).bind fun _ s₇ k₇ _ => ?_
    exact .pure ((((k.trans k₅).trans k₆).trans k₇).usable hs)

theorem emits_nilableOfUnion {t : Ty} (hv : Usable c e s v) :
    Emits c e s (nilableOfUnion v t) (Usable c e) := by
  unfold nilableOfUnion
  refine (emits_loadTag hv).bind fun tag s₁ k₁ ht => .ask rfl ?_
  refine (emits_icmp ht usable_tagOf).bind fun isNil s₂ k₂ hn => ?_
  refine (emits_payload ((k₁.trans k₂).usable hv)).bind fun objectPtr s₃ k₃ ho => ?_
  refine (emits_load ho).bind fun object s₄ k₄ ho => ?_
  exact emits_select ((k₃.trans k₄).usable hn) usable_null ho

theorem emits_objectOfBox {t : Ty} (hv : Usable c e s v) :
    Emits c e s (objectOfBox v t) (Usable c e) := by
  unfold objectOfBox
  refine (emits_structGep hv).bind fun ptr s₁ k₁ hp => ?_
  exact (emits_load hp).bind fun object s₂ k₂ ho => emits_bitcast ho

theorem emits_scalarOfUnion {t : Ty} (hv : Usable c e s v) :
    Emits c e s (scalarOfUnion v t) (Usable c e) := by
  unfold scalarOfUnion
  exact (emits_payload hv).bind fun room s₁ k₁ hr => emits_load hr

theorem emits_scalarOfScalar {source target : TypeId} (hv : Usable c e s v) :
    Emits c e s (scalarOfScalar v source target) (Usable c e) := by
  unfold scalarOfScalar
  refine .ask rfl (.ask rfl ?_)
  split
  · exact .pure hv
  · split
    · exact emits_bitcast hv
    · exact .ask rfl (.ask rfl .fail)

theorem emits_convert {source target : TypeId} (hv : Usable c e s v) :
    Emits c e s (convert v source target) (Usable c e) := by
  unfold convert
  split
  · exact .pure hv
  refine .ask rfl ?_
  split
  · split
    · exact emits_bitcast hv
    · exact emits_inUnion hv
  · exact emits_inUnion hv
  · exact .pure hv
  · exact emits_boxed hv
  · exact emits_boxed hv
  · exact emits_boxOfUnion hv
  · exact emits_nilableOfUnion hv
  · exact emits_objectOfBox hv
  · exact emits_objectOfBox hv
  · split
    · exact .pure usable_null
    · exact emits_coerce hv
  · split
    · exact .pure usable_nil
    · split
      · exact emits_scalarOfUnion hv
      · exact emits_scalarOfScalar hv
      · exact emits_coerce hv

theorem emits_convertExactly {source target : TypeId} (hv : Usable c e s v) :
    Emits c e s (convertExactly v source target) (Usable c e) := by
  unfold convertExactly
  exact (emits_convert hv).bind fun w s₁ k₁ hw => .ask rfl (emits_coerce hw)

/-! ### Assignment -/

theorem emits_copyHeld (hp : Usable c e s p) (hv : Usable c e s v) :
    Emits c e s (copyHeld p v) fun _ _ => True := by
  unfold copyHeld
  exact (emits_load hv).bind fun held s₁ k₁ hh => emits_store hh (k₁.usable hp)

theorem emits_assign {target source : TypeId} (hp : Usable c e s p) (hv : Usable c e s v) :
    Emits c e s (assign p target source v) fun _ _ => True := by
  unfold assign
  split
  · refine .ask rfl ?_
    split
    · exact emits_copyHeld hp hv
    · exact emits_storeCoerced hv hp
  · refine .ask rfl ?_
    split
    · exact emits_storeInUnion hp hv
    · refine .ask rfl ?_
      split
      · exact emits_fillBox hp hv
      · exact (emits_convert hv).bind fun box s₁ k₁ hb => emits_copyHeld (k₁.usable hp) hb
    all_goals
      exact (emits_convert hv).bind fun w s₁ k₁ hw => emits_storeCoerced hw (k₁.usable hp)

/-! ### Type tests -/

theorem emits_tagIsAny {ids : List TypeId} (hv : Usable c e s v) :
    Emits c e s (tagIsAny v ids) (Usable c e) := by
  unfold tagIsAny
  refine (Emits.foldlM (Q := fun s' w => Usable c e s' v ∧ Usable c e s' w) ?_ ?_).mono
    fun _ _ h => h.2
  · intro found id s _ h
    refine (emits_icmp h.1 usable_tagOf).bind fun same s₁ k₁ hsame => ?_
    exact (emits_or (k₁.usable h.2) hsame).kept.mono fun s₂ w hw =>
      ⟨hw.2.usable (k₁.usable h.1), hw.1⟩
  · exact ⟨hv, usable_i1⟩

theorem emits_tagBelongs {t : TypeId} (hv : Usable c e s v) :
    Emits c e s (tagBelongs t v) (Usable c e) :=
  .ask rfl (emits_tagIsAny hv)

theorem emits_unionIsA {source target : TypeId} (hv : Usable c e s v) :
    Emits c e s (unionIsA v source target) (Usable c e) := by
  unfold unionIsA
  refine .ask rfl ?_
  dsimp only
  split
  · exact .pure usable_i1
  · split
    · exact .pure usable_i1
    · exact (emits_loadTag hv).bind fun tag s₁ k₁ ht => emits_tagIsAny ht

theorem emits_isA {source target : TypeId} (hv : Usable c e s v) :
    Emits c e s (isA v source target) (Usable c e) := by
  unfold isA
  refine .ask rfl ?_
  split
  · exact emits_unionIsA hv
  · split
    · exact emits_isNull hv
    · split
      · exact emits_isNotNull hv
      · exact .pure usable_i1
  all_goals exact .pure usable_i1

theorem emits_unionTruth {source bool : TypeId} {nil : Option TypeId} (hv : Usable c e s v) :
    Emits c e s (unionTruth v source bool nil) (Usable c e) := by
  unfold unionTruth
  refine (emits_loadTag hv).bind fun tag s₁ k₁ ht => ?_
  refine (emits_icmp ht usable_tagOf).bind fun isBool s₂ k₂ hb => ?_
  refine (emits_convert ((k₁.trans k₂).usable hv)).bind fun bit s₃ k₃ hbit => ?_
  refine (emits_icmp hbit usable_i1).bind fun isFalse s₄ k₄ hf => ?_
  refine (emits_and ((k₃.trans k₄).usable hb) hf).bind fun falsy s₅ k₅ hfalsy => ?_
  split
  · refine (emits_icmp (((k₂.trans k₃).trans (k₄.trans k₅)).usable ht) usable_tagOf).bind
      fun isNil s₆ k₆ hn => ?_
    exact (emits_or hn (k₆.usable hfalsy)).bind fun falsy s₇ k₇ hfalsy => emits_not hfalsy
  · exact emits_not hfalsy

theorem emits_truth {t : TypeId} (hv : Usable c e s v) :
    Emits c e s (truth v t) (Usable c e) := by
  unfold truth
  refine .ask rfl ?_
  split
  · exact .pure usable_i1
  · exact emits_icmp hv usable_i1
  · split
    · exact emits_isNotNull hv
    · split
      · exact .pure usable_i1
      · exact (emits_loadTag hv).bind fun tag s₁ k₁ ht => emits_icmp ht usable_tagOf
      · exact emits_unionTruth hv
  · exact emits_isNotNull hv
  · exact .pure usable_i1

/-! ### Interned texts -/

theorem emits_stringGlobal {text : String} :
    Emits c e s (stringGlobal text) fun s' g => Plain s' g := by
  unfold stringGlobal
  refine .assume fun hs => .ask rfl ?_
  split
  · rename_i g hg
    exact .pure (hs.tables g (by
      simp only [State.tableGlobals, List.mem_append, List.mem_map]
      exact .inl (.inl (.inl ⟨_, mem_of_lookup hg, rfl⟩))))
  · refine .ask rfl ?_
    refine emits_addGlobal.bind fun g s₁ _ hg => ?_
    refine (Emits.note (P := fun s' _ => Plain s' g) (.of_tables rfl rfl rfl rfl rfl rfl rfl rfl ?_
      rfl rfl) hg).bind fun _ s₂ _ h => .pure h
    intro g' hg'
    simp only [State.tableGlobals, List.map_cons, List.cons_append, List.mem_cons] at hg' ⊢
    rcases hg' with rfl | hg'
    · exact .inr hg
    · exact .inl hg'

theorem emits_stringValue {text : String} :
    Emits c e s (stringValue text) (Usable c e) := by
  unfold stringValue
  exact emits_stringGlobal.bind fun g s₁ k₁ hg => .pure (usable_global hg)

theorem emits_symbolValue {name : String} : Emits c e s (symbolValue name) (Usable c e) := by
  unfold symbolValue
  refine .ask rfl ?_
  exact (Emits.orFail (P := fun _ _ => True) fun _ _ => trivial).bind fun i s₁ k₁ _ =>
    .pure usable_i32

theorem emits_symbolText (hv : Usable c e s v) : Emits c e s (symbolText v) (Usable c e) := by
  unfold symbolText
  refine .assume fun hs => .ask rfl ?_
  refine (Emits.orFail (P := fun s' g => Plain s' g) fun g hg => hs.tables g ?_).bind
    fun table s₁ k₁ ht => ?_
  · simp [State.tableGlobals, hg]
  refine (emits_cast (k₁.usable hv)).bind fun index s₂ k₂ hi => ?_
  refine (emits_gep (k₂.usable (usable_global ht)) ?_).bind fun slot s₃ k₃ hslot =>
    emits_load hslot
  simpa using hi

/-! ### Storage -/

theorem emits_clearSlot {t : TypeId} (hv : ∀ e', Usable c e' s v) :
    Emits c e s (clearSlot v t) fun _ _ => True := by
  unfold clearSlot
  refine .ask rfl (.ask rfl ?_)
  split
  · split
    · exact emits_inSlots (.ask rfl (emits_assign (hv none) usable_nil))
    · exact .pure trivial
  · exact emits_inSlots (emits_store usable_null (hv none))
  · exact .pure trivial

theorem emits_declareVariable {a : Entity} {name : String} {t : TypeId}
    (hv : Scoped c (some a) s) :
    Emits c (some a) s (declare name t) fun s' v => Usable c (some a) s' v.ptr := by
  unfold declare
  refine .ask rfl ?_
  split
  · rename_i v hl
    exact .pure (hv _ (mem_of_lookup hl))
  · refine .ask rfl (emits_slot.bind fun slot s₁ k₁ hs => ?_)
    refine (emits_clearSlot hs).bind fun _ s₂ k₂ _ => ?_
    have hv₂ := k₂.usable (hs (some a))
    exact (emits_bind (v := { ptr := slot, type := t }) hv₂).bind fun _ s₃ k₃ _ =>
      .pure (k₃.usable hv₂)

theorem emits_heldValue {name : String} {x : Variable} (hx : Usable c e s x.ptr) :
    Emits c e s (heldValue name x) (Usable c e) := by
  unfold heldValue
  refine .ask rfl ?_
  split
  · exact .pure hx
  · exact emits_load hx

theorem emits_lookup {β : Type} {name : String} {cause : Cause} {f : Variable → Gen β}
    {Q : State → β → Prop} (hv : Scoped c e s)
    (hf : ∀ v s₁, Keeps c e s s₁ → Usable c e s₁ v.ptr → Emits c e s₁ (f v) Q) :
    Emits c e s (do let v ← orFail cause (← lookup? name); f v) Q := by
  refine .ask rfl ?_
  refine (Emits.orFail (P := fun s' v => Usable c e s' v.ptr) fun v hl => ?_).bind hf
  exact hv _ (mem_of_lookup hl)

theorem emits_readVariable {name : String} {t : TypeId} (hv : Scoped c e s) :
    Emits c e s (readVariable name t) (Usable c e) :=
  emits_lookup hv fun _ _ _ hx => (emits_heldValue hx).bind fun _ _ _ hh => emits_convert hh

theorem emits_implicitSelf {t : TypeId} (hv : Scoped c e s) :
    Emits c e s (implicitSelf t) (Usable c e) :=
  emits_lookup hv fun _ _ _ hx => (emits_heldValue hx).bind fun _ _ _ hh => emits_convert hh

theorem emits_selfObject (hv : Scoped c e s) :
    Emits c e s selfObject fun s' r => Usable c e s' r.1 := by
  refine emits_lookup hv fun v s₁ _ hx => .ask rfl ?_
  split
  · exact (emits_convert hx).bind fun object s₂ k₂ ho => .pure ho
  · split
    · exact .pure hx
    · exact (emits_load hx).bind fun object s₂ k₂ ho => .pure ho
  · exact .ask rfl .fail

theorem emits_fieldOf {owner : TypeId} {name : String} {missing : Cause}
    (hv : Usable c e s v) :
    Emits c e s (fieldOf v owner name missing) fun s' r => Usable c e s' r.1 := by
  unfold fieldOf
  refine .ask rfl ?_
  refine (Emits.orFail (P := fun _ _ => True) fun _ _ => trivial).bind fun r s₁ k₁ _ => ?_
  refine (emits_structGep (k₁.usable hv)).bind fun raw s₂ k₂ hr => .ask rfl ?_
  exact (emits_bitcast hr).bind fun typed s₃ k₃ ht => .pure ht

theorem emits_fieldSlot {name : String} (hv : Scoped c e s) :
    Emits c e s (fieldSlot name) fun s' r => Usable c e s' r.1 := by
  unfold fieldSlot
  exact (emits_selfObject hv).bind fun r s₁ k₁ ho => .ask rfl (emits_fieldOf ho)

theorem emits_heldIn {t : TypeId} {name : String} (hp : Usable c e s p) :
    Emits c e s (heldIn p t name) (Usable c e) := by
  unfold heldIn
  refine .ask rfl ?_
  split
  · exact .pure hp
  · exact emits_load hp

theorem emits_readField {name : String} {t : TypeId} (hv : Scoped c e s) :
    Emits c e s (readField name t) (Usable c e) := by
  unfold readField
  refine (emits_fieldSlot hv).bind fun r s₁ k₁ hp => ?_
  exact (emits_heldIn hp).bind fun held s₂ k₂ hh => emits_convert hh

/-! ### Globals -/

theorem emits_zeroGlobal {name : String} {t : Ty} :
    Emits c e s (zeroGlobal name t) fun s' g => Plain s' g :=
  .ask rfl emits_addGlobal

theorem emits_globalSlot {name : String} {t : TypeId} :
    Emits c e s (globalSlot name t) fun s' g => Plain s' g := by
  unfold globalSlot
  refine .assume fun hs => .ask rfl ?_
  split
  · rename_i g hg
    refine .pure (hs.tables g ?_)
    simp only [State.tableGlobals, List.mem_append, List.mem_map]
    exact .inl (.inr ⟨_, mem_of_lookup hg, rfl⟩)
  · refine .ask rfl (emits_zeroGlobal.bind fun g s₁ _ hg => ?_)
    refine (Emits.note (P := fun s' _ => Plain s' g) (.of_tables rfl rfl rfl rfl rfl rfl rfl rfl ?_
      rfl rfl) hg).bind fun _ s₂ _ h => .pure h
    intro g' hg'
    simp only [State.tableGlobals, List.map_cons, List.mem_append, List.mem_cons] at hg' ⊢
    rcases hg' with (hg' | rfl | hg') | hg'
    · exact .inl (.inl (.inl hg'))
    · exact .inr hg
    · exact .inl (.inl (.inr hg'))
    · exact .inl (.inr hg')

theorem emits_readGlobal {name : String} {t : TypeId} :
    Emits c e s (readGlobal name t) (Usable c e) := by
  unfold readGlobal
  refine .ask rfl (emits_globalSlot.bind fun g s₁ k₁ hg => ?_)
  exact (emits_heldIn (usable_global hg)).bind fun held s₂ k₂ hh => emits_convert hh

theorem gives_store_at {f : FuncId} {b : BlockId} {s' : State}
    (hp : s.builder.position = some (f, b)) (h : Gives (emit (Build.store v w)) c s () s') :
    s' = s ∨ ((s.builder.module.function f).block b).term = none ∧
      s' = s.withModule (s.builder.module.modifyFunction f
        (Build.placed b ⟨.store v w, .void, none, s.builder.location⟩)) := by
  have hs : s' = { s with builder := (Build.push (.store v w) .void none s.builder).2 } :=
    (gives_emit h).2
  rw [Build.push_at hp] at hs
  cases ht : s.builder.blockTerminated f b with
  | true =>
    rw [pushInto_terminated ht] at hs
    exact .inl hs
  | false =>
    rw [pushInto_open ht] at hs
    exact .inr ⟨by simpa [IR.Builder.blockTerminated] using ht, hs⟩

/-- A store at the end of the block of stack slots of the entry function. -/
theorem straight_entryStore {q : Option (FuncId × BlockId)} {s' : State}
    (hp : s.builder.position = some (c.main.func, ⟨0⟩))
    (hv : UsableIn c none s c.main.func v) (hw : UsableIn c none s c.main.func w)
    (h : Gives (emit (Build.store v w)) c s () s') :
    Straight c e (s.atPosition q) (s'.atPosition q) ∧ s'.builder.position = s.builder.position := by
  rcases gives_store_at hp h with rfl | ⟨hopen, rfl⟩
  · exact ⟨.refl _, rfl⟩
  · refine ⟨.of_move ?_, rfl⟩
    have hfits : Fits c none (s.atPosition q) c.main.func ⟨0⟩
        (IR.Inst.kind ⟨.store v w, .void, none, s.builder.location⟩) :=
      .of_operands rfl (by simp) (by simp) (by simpa [IR.InstKind.operands] using ⟨hv, hw⟩)
    exact .ofPlaced .entry hfits hopen fun _ _ h => by cases h

/-- Stores that fill the globals of the arguments of the program. -/
theorem emits_fillArguments {argc argv : GlobalId} (hc : Plain s argc) (hv : Plain s argv) :
    Emits c e s (emitIn c.main.func c.main.allocaBlock do
      Build.store (.param 0) (.global argc)
      Build.store (.param 1) (.global argv)) fun _ _ => True := by
  intro hs a s' hg
  rw [hs.entrySlots] at hg
  obtain ⟨s₂, hg₀, rfl⟩ := gives_emitIn hs.position_isSome hg
  obtain ⟨_, s₁, hg₁, hg₂⟩ := gives_bind.mp hg₀
  have hparam : ∀ i : Nat, i < 2 → UsableIn c none s c.main.func (.param i) := fun i hi => by
    show i < _
    rw [hs.entryParams]
    exact hi
  let s₀ := s.atPosition (some (c.main.func, ⟨0⟩))
  have hargc : UsableIn c none s₀ c.main.func (.global argc) := usable_global (e := none) hc
  have hargv : UsableIn c none s c.main.func (.global argv) := usable_global (e := none) hv
  have hparam₀ : UsableIn c none s₀ c.main.func (.param 0) := hparam 0 (by omega)
  have h₁ := straight_entryStore (s := s₀) (e := e) (q := s.builder.position) rfl hparam₀ hargc hg₁
  have hk : s.Grows s₁ := ⟨(h₁.1.keeps hs).grows.code, (h₁.1.keeps hs).grows.consts⟩
  have h₂ := straight_entryStore (s := s₁) (e := e) (q := s.builder.position) h₁.2
    ((hparam 1 (by omega)).mono hk) (hargv.mono hk) hg₂
  exact ⟨h₁.1.trans h₂.1, trivial⟩

theorem emits_entryArguments :
    Emits c e s entryArguments fun s' r => Plain s' r.1 ∧ Plain s' r.2 := by
  unfold entryArguments
  refine .assume fun hs => .ask rfl ?_
  split
  · rename_i r hr
    exact .pure ⟨hs.tables _ (by simp [State.tableGlobals, hr]),
      hs.tables _ (by simp [State.tableGlobals, hr])⟩
  · refine emits_zeroGlobal.bind fun argc s₁ _ hc => ?_
    refine emits_zeroGlobal.bind fun argv s₂ k₂ hv => .ask rfl ?_
    have hc₂ := k₂.plain argc hc
    refine (emits_fillArguments hc₂ hv).bind fun _ s₃ k₃ _ => ?_
    have hc₃ := k₃.plain argc hc₂
    have hv₃ := k₃.plain argv hv
    refine (Emits.note (P := fun s' _ => Plain s' argc ∧ Plain s' argv) (.of_tables rfl rfl rfl rfl
      rfl rfl rfl rfl ?_ rfl rfl) ⟨hc₃, hv₃⟩).bind fun _ s₄ _ h => .pure h
    intro g hg
    simp only [State.tableGlobals, Option.toList_some, List.flatMap_cons, List.flatMap_nil,
      List.append_nil, List.mem_append, List.mem_cons, List.not_mem_nil, or_false] at hg ⊢
    rcases hg with hg | rfl | rfl
    · exact .inl (.inl hg)
    · exact .inr hc₃
    · exact .inr hv₃

theorem emits_argumentCount : Emits c e s argumentCount (Usable c e) := by
  unfold argumentCount
  exact emits_entryArguments.bind fun r s₁ _ h => emits_load (usable_global h.1)

theorem emits_argumentVector : Emits c e s argumentVector (Usable c e) := by
  unfold argumentVector
  exact emits_entryArguments.bind fun r s₁ _ h => emits_load (usable_global h.2)

/-! ### Storage behind an expression -/

theorem emits_assignTarget {a : Entity} {n : Node} (hv : Scoped c (some a) s) :
    Emits c (some a) s (assignTarget n) fun s' r => Usable c (some a) s' r.1 := by
  unfold assignTarget
  split
  · refine .ask rfl ((emits_declareVariable hv).bind fun x s₁ _ hx => ?_)
    split
    · exact .fail
    · exact .pure hx
  · exact emits_fieldSlot hv
  · refine .ask rfl (.ask rfl ?_)
    exact emits_globalSlot.bind fun g s₁ _ hg => .pure (usable_global hg)
  · exact .fail

theorem emits_slotOf {a : Entity} {name : String} {t : TypeId} (hv : Scoped c (some a) s) :
    Emits c (some a) s (slotOf name t) (Usable c (some a)) := by
  unfold slotOf
  refine (emits_declareVariable hv).bind fun x s₁ k₁ hx => ?_
  split
  · refine .ask rfl (emits_alloca.bind fun slot s₂ k₂ hs => ?_)
    refine (emits_store (k₂.usable hx) hs).bind fun _ s₃ k₃ _ => ?_
    have hs₃ := k₃.usable hs
    exact (emits_bind (v := { ptr := slot, type := x.type }) hs₃).bind fun _ s₄ k₄ _ =>
      .pure (k₄.usable hs₃)
  · exact .pure hx

theorem emits_addressOf {a : Entity} {n : Node} (hv : Scoped c (some a) s) :
    Emits c (some a) s (addressOf n) (Usable c (some a)) := by
  unfold addressOf
  split
  · exact .ask rfl (emits_slotOf hv)
  · exact (emits_fieldSlot hv).bind fun r s₁ _ hr => .pure hr
  · refine .ask rfl (.ask rfl ?_)
    exact emits_globalSlot.bind fun g s₁ _ hg => .pure (usable_global hg)
  · exact .fail

theorem emits_pointerTo {a : Entity} {n : Node} {t : TypeId} (hv : Scoped c (some a) s) :
    Emits c (some a) s (pointerTo n t) (Usable c (some a)) := by
  unfold pointerTo
  exact (emits_addressOf hv).bind fun p s₁ _ hp => .ask rfl (emits_coerce hp)

end Lowering.Gen
