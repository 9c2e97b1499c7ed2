import Lowering.Proofs.Refusal
import Lowering.Proofs.Union

/-!
# Truth

Nil, `false` and null pointers count as false, all else counts as true.  What a type or a constant
decides before the program runs and what the code of a test finds out while it runs follow this one
law.

* `Gen.countsAsTrue`: the law;
* `Gen.Spot.Shows`: the values that the operand of a condition stands for;
* `Gen.performs_truth`: the code of a test;
* `Gen.Spot.Shows.known`: what is decided without one.
-/

namespace Lowering

open IR (Ty Value Build)
open Exec (RtValue Memory encode decode)

/-! ### Truth types -/

namespace TypeTable

variable {ts : TypeTable} {t u : TypeId}

/-- A type table has one truth type at most. -/
def OneBool (ts : TypeTable) : Prop :=
  ∀ t t', ts.isBool t = true → ts.isBool t' = true → t = t'

theorem isBool_of_kind (h : ts.kind t = .bool) : ts.isBool t = true := by
  rw [isBool, h]
  rfl

theorem isPointer_of_kind {elem : TypeId} (h : ts.kind t = .pointer elem) :
    ts.isPointer t = true := by
  rw [isPointer, h]
  rfl

theorem irType_of_isBool (h : ts.isBool t = true) : ts.irType t = .i1 := by
  rw [irType, irTypeWithin, beq_iff_eq.mp h]

theorem shape_of_isBool (h : ts.isBool t = true) : ts.shape t = .scalar := by
  rw [shape, beq_iff_eq.mp h]

theorem not_isUnion_of_isBool (h : ts.isBool t = true) : ts.isUnion t = false := by
  rw [isUnion, beq_iff_eq.mp h]

theorem not_isNil_of_isBool (h : ts.isBool t = true) : ts.isNil t = false := by
  rw [isNil, beq_iff_eq.mp h]
  rfl

theorem not_isNil_of_isObject (h : ts.isObject t = true) : ts.isNil t = false := by
  unfold isObject at h
  unfold isNil
  cases hk : ts.kind t <;> simp_all [TypeKind.isObject]

theorem not_isBool_of_isObject (h : ts.isObject t = true) : ts.isBool t = false := by
  unfold isObject at h
  unfold isBool
  cases hk : ts.kind t <;> simp_all [TypeKind.isObject]

theorem not_isBool_of_isPointerLike (h : ts.isPointerLike t = true) : ts.isBool t = false := by
  unfold isPointerLike isObject isPointer at h
  unfold isBool
  cases hk : ts.kind t <;> simp_all [TypeKind.isObject, TypeKind.isPointer]

theorem shape_of_isPointer (h : ts.isPointer t = true) : ts.shape t = .scalar := by
  unfold isPointer at h
  unfold shape
  cases hk : ts.kind t <;> simp_all [TypeKind.isPointer]

theorem not_isPointer_of_isUnion (h : ts.isUnion u = true) : ts.isPointer u = false := by
  unfold isUnion at h
  unfold isPointer
  cases hk : ts.kind u <;> simp_all [TypeKind.isPointer]

theorem not_isNilable_of_not_isUnion (h : ts.isUnion u = false) : ts.isNilable u = false := by
  unfold isUnion at h
  unfold isNilable nilableMember members
  split at h <;> simp_all

theorem index_lt_of_isObject (h : ts.isObject t = true) : t.index < ts.size :=
  index_lt_of_kind fun hk => by
    rw [isObject, hk] at h
    cases h

theorem index_lt_of_isBool (h : ts.isBool t = true) : t.index < ts.size :=
  index_lt_of_kind fun hk => by
    rw [isBool, hk] at h
    cases h

/-- Whether there is one truth type is decided from the types in the table. -/
theorem oneBool_of_lt (h : ∀ i < ts.size, ∀ j < ts.size, ts.isBool ⟨i⟩ = true →
    ts.isBool ⟨j⟩ = true → i = j) : ts.OneBool := by
  intro t t' ht ht'
  have hindex := h t.index (index_lt_of_isBool ht) t'.index (index_lt_of_isBool ht') ht ht'
  exact congrArg TypeId.mk hindex

end TypeTable

namespace Gen

variable {c : Context} {w : Setting} {k : Spot} {v : Value} {u t bool : TypeId} {x : RtValue}
  {a n : Nat} {ts : TypeTable}

/-! ### The law -/

/-- Whether a value of a type counts as true in a condition of a static type: it is not nil, not
`false`, and for pointers and nilable types not null. -/
def countsAsTrue (ts : TypeTable) (u t : TypeId) (x : RtValue) : Bool :=
  !ts.isNil t && !(ts.isBool t && decide (x = bit false)) &&
    !((ts.isPointer u || ts.isNilable u) && decide (x = .ptr 0))

/-- The values that the operand of a condition stands for: one of the static type, or one in a union.
A truth that is a constant is 0 or 1.  A tagged union holds a value of a member, or an object that a hierarchy among them admits; a union
without a tag holds a pointer, which is null for nil and may be null for a pointer type. -/
inductive Spot.Shows (w : Setting) (k : Spot) (ts : TypeTable) (v : Value) (u : TypeId) :
    TypeId → RtValue → Prop
  | single {x : RtValue} (noUnion : ts.isUnion u = false) (held : k.Is w ts v u x)
      (of : RtValue.Of (ts.irType u) x) (exact : ts.isBool u = true → Exact v) : Shows w k ts v u u x
  | tagged {n a : Nat} {t : TypeId} {x : RtValue} (shape : ts.shape u = .tagged n)
      (address : k.Holds w v (.ptr (ts.irType u)) (.ptr a))
      (carried : Carries ts k.run.memory a u t x) (of : RtValue.Of (ts.irType t) x)
      (belongs : t ∈ ts.members u ∨ ts.isObject t = true) : Shows w k ts v u t x
  | nilable {member t : TypeId} {p : Nat} {x : RtValue} (shape : ts.shape u = .nilable member)
      (belongs : t ∈ ts.members u) (held : k.Holds w v (ts.irType u) (.ptr p)) (small : p < 2 ^ 64)
      (null : ts.isNil t = true → p = 0) (object : ts.isNil t = false → x = .ptr p) :
      Shows w k ts v u t x

/-! ### Truths -/

theorem exists_bit (h : RtValue.Of .i1 x) : ∃ b, x = bit b := by
  cases h with
  | @int _ value _ h =>
    have hmod : value % 2 = value := h
    rcases Int.emod_two_eq_zero_or_one value with h0 | h1
    · exact ⟨false, by rw [← hmod, h0]; rfl⟩
    · exact ⟨true, by rw [← hmod, h1]; rfl⟩

/-- An operand for a truth. -/
theorem Spot.Is.exists_bit (hv : k.Is w ts v u x) (hof : RtValue.Of (ts.irType u) x)
    (hb : ts.isBool u = true) : ∃ b, x = bit b ∧ k.Holds w v .i1 (bit b) := by
  rw [TypeTable.irType_of_isBool hb] at hof
  obtain ⟨b, rfl⟩ := Gen.exists_bit hof
  cases hv with
  | scalar _ hheld =>
    rw [TypeTable.irType_of_isBool hb] at hheld
    exact ⟨b, rfl, hheld⟩
  | boxed hbox _ _ =>
    rw [TypeTable.shape_of_isBool hb] at hbox
    cases hbox

/-- An operand for a pointer. -/
theorem Spot.Is.exists_pointer (hv : k.Is w ts v u x) (hof : RtValue.Of (ts.irType u) x)
    (hp : ts.isPointer u = true) :
    ∃ s p, x = .ptr p ∧ p < 2 ^ 64 ∧ k.Holds w v (.ptr s) (.ptr p) := by
  obtain ⟨s, hs⟩ := ts.irType_of_isPointerLike
    (show ts.isPointerLike u = true by rw [TypeTable.isPointerLike, hp, Bool.or_true])
  rw [hs] at hof
  cases hv with
  | scalar _ hheld =>
    rw [hs] at hheld
    cases hof with
    | ptr hsmall => exact ⟨s, _, rfl, hsmall, hheld⟩
  | boxed hbox _ _ =>
    rw [TypeTable.shape_of_isPointer hp] at hbox
    cases hbox

theorem performs_compareFalse (pred : IR.IntPredicate) {i : Int} (hv : k.Holds w v .i1 (.int 1 i))
    (he : Exact v) :
    Performs w c k (emit (Build.icmp pred v (.i1 false))) (k.Gets w .i1 (bit (pred.holds i 0))) := by
  refine performs_icmp hv (Spot.holds_i1 false) fun m n hm hn => ?_
  rw [hv.constInt he hm, ← Option.some.inj hn]
  rfl

theorem int_eq_bit_false {i : Int} : RtValue.int 1 i = bit false ↔ i = 0 := by simp [bit]

theorem performs_isFalse {i : Int} (hv : k.Holds w v .i1 (.int 1 i)) (he : Exact v) :
    Performs w c k (emit (Build.icmp .eq v (.i1 false)))
      (k.Gets w .i1 (bit (decide (RtValue.int 1 i = bit false)))) := by
  have h := performs_compareFalse (c := c) .eq hv he
  simp only [int_eq_bit_false]
  exact h

theorem performs_isNotFalse {i : Int} (hv : k.Holds w v .i1 (.int 1 i)) (he : Exact v) :
    Performs w c k (emit (Build.icmp .ne v (.i1 false)))
      (k.Gets w .i1 (bit (decide (RtValue.int 1 i ≠ bit false)))) := by
  have h := performs_compareFalse (c := c) .ne hv he
  simp only [ne_eq, int_eq_bit_false]
  exact h

/-- The payload of a tagged union can be read as a truth whatever it holds. -/
theorem performs_readTruth (hu : c.program.types.shape u = .tagged n)
    (hb : c.program.types.isBool bool = true) (hmem : bool ∈ c.program.types.members u)
    (hslot : k.Slot w c.program.types v u a) :
    Performs w c k (convert v u bool)
      (k.Gets w .i1 (decode (k.run.memory.bytes (a + 4) 1) .i1)) := by
  obtain ⟨q, -, haddress, hroom, hsize, hfit⟩ := hslot.tagged hu
  have hsingle := TypeTable.not_isUnion_of_isBool hb
  have hfit := hfit bool hmem hsingle
  have hne : u ≠ bool := fun h => by
    simp [← h, c.program.types.isUnion_of_mem_members hmem] at hsingle
  rw [TypeTable.irType_of_isBool hb, size_i1] at hfit
  unfold convert
  rw [if_neg hne]
  refine .ask (a := c.program.types) rfl ?_
  dsimp only
  rw [TypeTable.shape_of_isBool hb, hu, TypeTable.irType_of_isBool hb]
  dsimp only
  rw [TypeTable.not_isNil_of_isBool hb]
  refine (performs_payload haddress hroom hsize).bind (fun _ => grow_load) fun k₁ room _ _ hg₁ => ?_
  refine (performs_load hg₁.holds ?_).mono fun k' r _ _ ⟨hg, _⟩ => ?_
  · rw [hg₁.memory, size_i1]
    exact hroom.sub hfit hsize
  · rw [hg₁.memory, size_i1] at hg
    exact hg.after hg₁.memory

/-! ### Tags -/

/-- The comparison of the tag of a type with that of another one. -/
theorem performs_compareTag (pred : IR.IntPredicate) {tag : Value}
    (htag : k.Holds w tag .i32 (tagWord t)) (hid : ∃ id, tag = .inst id) :
    Performs w c k (emit (Build.icmp pred tag (tagOf u)))
      (k.Gets w .i1 (bit (pred.holds (Exec.wrap 32 t.index) (Exec.wrap 32 u.index)))) := by
  obtain ⟨id, rfl⟩ := hid
  exact performs_icmp htag (holds_tagOf k u) fun _ _ h => by cases h

theorem performs_isTag {tag : Value} (ht : t.index < 2 ^ 32) (hu : u.index < 2 ^ 32)
    (htag : k.Holds w tag .i32 (tagWord t)) (hid : ∃ id, tag = .inst id) :
    Performs w c k (emit (Build.icmp .eq tag (tagOf u))) (k.Gets w .i1 (bit (decide (t = u)))) := by
  have h := performs_compareTag (c := c) .eq htag hid (u := u)
  simp only [IR.IntPredicate.holds, tagWord_inj ht hu] at h
  exact h

theorem performs_isNotTag {tag : Value} (ht : t.index < 2 ^ 32) (hu : u.index < 2 ^ 32)
    (htag : k.Holds w tag .i32 (tagWord t)) (hid : ∃ id, tag = .inst id) :
    Performs w c k (emit (Build.icmp .ne tag (tagOf u))) (k.Gets w .i1 (bit (decide (t ≠ u)))) := by
  have h := performs_compareTag (c := c) .ne htag hid (u := u)
  simp only [IR.IntPredicate.holds, ne_eq, tagWord_inj ht hu] at h
  exact h

/-! ### Tests -/

theorem countsAsTrue_single (hu : ts.isUnion u = false) :
    countsAsTrue ts u u x =
      match ts.kind u with
      | .nil => false
      | .bool => decide (x ≠ bit false)
      | .pointer _ => decide (x ≠ .ptr 0)
      | _ => true := by
  rw [countsAsTrue, TypeTable.not_isNilable_of_not_isUnion hu, TypeTable.isNil, TypeTable.isBool,
    TypeTable.isPointer]
  cases ts.kind u <;> simp [TypeKind.isPointer]

/-- A union without a tag counts as true if its pointer is not null. -/
theorem countsAsTrue_nilable {member : TypeId} {p : Nat} (hu : ts.shape u = .nilable member)
    (ht : t ∈ ts.members u) (hnull : ts.isNil t = true → p = 0)
    (hobject : ts.isNil t = false → x = .ptr p) :
    countsAsTrue ts u t x = decide (p ≠ 0) := by
  rw [countsAsTrue, TypeTable.isNilable_of_nilable hu]
  cases hn : ts.isNil t with
  | true => simp [hnull hn]
  | false =>
    rw [TypeTable.not_isBool_of_isPointerLike (TypeTable.isPointerLike_of_mem hu ht hn), hobject hn]
    simp

/-- In a tagged union null pointers count as true. -/
theorem countsAsTrue_tagged (hu : ts.shape u = .tagged n) :
    countsAsTrue ts u t x = (!ts.isNil t && !(ts.isBool t && decide (x = bit false))) := by
  have hkind : ts.isUnion u = true := by rw [TypeTable.isUnion, (TypeTable.shape_eq_tagged hu).1]
  rw [countsAsTrue, TypeTable.isNilable_of_tagged hu, TypeTable.not_isPointer_of_isUnion hkind]
  simp

/-- What the operand of a condition of a tagged union type stands for. -/
structure Spot.Tagged (w : Setting) (c : Context) (k : Spot) (v : Value) (u t : TypeId) (x : RtValue)
    (n a : Nat) : Prop where
  typed : c.Typed
  oneBool : c.program.types.OneBool
  shape : c.program.types.shape u = .tagged n
  slot : k.Slot w c.program.types v u a
  tag : k.run.memory.bytes a 4 = encode (tagWord t) .i32
  payload : k.run.memory.bytes (a + 4) (c.program.types.irType t).size =
    encode x (c.program.types.irType t)
  of : RtValue.Of (c.program.types.irType t) x
  belongs : t ∈ c.program.types.members u ∨ c.program.types.isObject t = true

namespace Spot.Tagged

section

variable (h : k.Tagged w c v u t x n a)
include h

theorem small : t.index < 2 ^ 32 := by
  rcases h.belongs with hm | ho
  · exact h.typed.small hm
  · exact lt_of_lt_of_le (TypeTable.index_lt_of_isObject ho) h.typed.size

theorem isNil_iff {nil : TypeId} (hn : c.program.types.isNil nil = true) :
    c.program.types.isNil t = decide (t = nil) := by
  rw [Bool.eq_iff_iff, decide_eq_true_iff, h.typed.nil, (h.typed.nil nil).mp hn]

theorem isBool_iff (hb : c.program.types.isBool bool = true) :
    c.program.types.isBool t = decide (t = bool) := by
  rw [Bool.eq_iff_iff, decide_eq_true_iff]
  exact ⟨fun ht => h.oneBool t bool ht hb, fun ht => ht ▸ hb⟩

theorem not_isNil (hn : (c.program.types.members u).find? c.program.types.isNil = none) :
    c.program.types.isNil t = false := by
  rcases h.belongs with hm | ho
  · simpa using List.find?_eq_none.mp hn t hm
  · exact TypeTable.not_isNil_of_isObject ho

theorem not_isBool (hb : (c.program.types.members u).find? c.program.types.isBool = none) :
    c.program.types.isBool t = false := by
  rcases h.belongs with hm | ho
  · simpa using List.find?_eq_none.mp hb t hm
  · exact TypeTable.not_isBool_of_isObject ho

theorem performs_loadTag :
    Performs w c k (loadTag v) fun k' tag =>
      k.Gets w .i32 (tagWord t) k' tag ∧ ∃ id, tag = .inst id := by
  obtain ⟨q, -, haddress, hroom, hsize, -⟩ := h.slot.tagged h.shape
  have hload := Gen.performs_loadTag (c := c) haddress (hroom.mono hsize.le)
  rwa [h.tag, decode_tagWord] at hload

end

/-- The payload is taken for `false` only if the value is a truth. -/
theorem decide_payload (h : k.Tagged w c v u t x n a) (hb : c.program.types.isBool bool = true) :
    (decide (t = bool) && decide (decode (k.run.memory.bytes (a + 4) 1) .i1 = bit false)) =
      (c.program.types.isBool t && decide (x = bit false)) := by
  rw [h.isBool_iff hb]
  by_cases ht : t = bool
  · have hpayload := h.payload
    have hof := h.of
    rw [ht, TypeTable.irType_of_isBool hb] at hof hpayload
    rw [size_i1] at hpayload
    rw [hpayload, hof.decode_encode]
  · simp [ht]

/-- The payload is read whatever the union holds, and is asked for only if that is a truth. -/
theorem performs_holdsFalse {rest : Value → Value → Gen Value} {Q : Spot → Value → Prop}
    (h : k.Tagged w c v u t x n a) (hb : c.program.types.isBool bool = true)
    (hmem : bool ∈ c.program.types.members u) (hrest : ∀ tag falsy, Grow (rest tag falsy))
    (hq : ∀ k' tag falsy, k.Runs w k' → k'.Open w → k'.Holds w tag .i32 (tagWord t) →
      (∃ id, tag = .inst id) →
      k.Gets w .i1 (bit (c.program.types.isBool t && decide (x = bit false))) k' falsy →
      Performs w c k' (rest tag falsy) Q) :
    Performs w c k (do
      let tag ← loadTag v
      let isBool ← Build.icmp .eq tag (tagOf bool)
      let bit ← convert v u bool
      let isFalse ← Build.icmp .eq bit (.i1 false)
      let falsy ← Build.and isBool isFalse
      rest tag falsy) Q := by
  refine .assume fun ho => ?_
  refine h.performs_loadTag.bind (fun _ => grow_icmp.bind fun _ => grow_convert.bind fun _ =>
    grow_icmp.bind fun _ => grow_and.bind fun _ => hrest _ _) fun k₁ tag hr₁ ho₁ ⟨hg₁, hid⟩ => ?_
  refine (performs_isTag h.small (h.typed.small hmem) hg₁.holds hid).bind
    (fun _ => grow_convert.bind fun _ => grow_icmp.bind fun _ => grow_and.bind fun _ => hrest _ _)
    fun k₂ isBool hr₂ ho₂ hg₂ => ?_
  -- the tag and its comparison leave the union as it was
  have hm₂ := hg₂.memory.trans hg₁.memory
  have hr₁₂ := hr₁.trans hr₂ ho
  refine (performs_readTruth h.shape hb hmem (h.slot.along ho hr₁₂ ho₂ (by simp [hm₂]))).bind
    (fun _ => grow_icmp.bind fun _ => grow_and.bind fun _ => hrest _ _) fun k₃ payload hr₃ ho₃ hg₃ => ?_
  refine (performs_isFalse hg₃.holds hg₃.exact).bind (fun _ => grow_and.bind fun _ => hrest _ _)
    fun k₄ isFalse hr₄ ho₄ hg₄ => ?_
  have hr₃₄ := hr₃.trans hr₄ ho₂
  refine (performs_and (hg₂.holds.along ho₂ hr₃₄ ho₄) hg₄.holds hg₂.exact hg₄.exact).bind
    (fun _ => hrest _ _) fun k₅ falsy hr₅ ho₅ hg₅ => ?_
  have hr₂₅ := hr₃₄.trans hr₅ ho₂
  refine hq k₅ tag falsy (hr₁₂.trans hr₂₅ ho) ho₅
    (hg₁.holds.along ho₁ (hr₂.trans hr₂₅ ho₁) ho₅) hid ?_
  have hg := hg₅.after (hg₄.memory.trans (hg₃.memory.trans hm₂))
  -- with another tag the comparison of the payload does not count
  rw [← h.decide_payload hb, ← hm₂]
  exact hg

/-- The value of a tagged union with a truth member is tested. -/
theorem performs_unionTruth (h : k.Tagged w c v u t x n a)
    (hb : (c.program.types.members u).find? c.program.types.isBool = some bool) :
    Performs w c k
      (unionTruth v u bool ((c.program.types.members u).find? c.program.types.isNil))
      (k.Gets w .i1 (bit (countsAsTrue c.program.types u t x))) := by
  rw [countsAsTrue_tagged h.shape]
  unfold unionTruth
  refine h.performs_holdsFalse (List.find?_some hb) (List.mem_of_find?_eq_some hb)
    (fun tag falsy => ?_) fun k₁ tag falsy _ ho₁ htag hid hg₁ => ?_
  · split
    · exact grow_icmp.bind fun _ => grow_or.bind fun _ => grow_not
    · exact grow_not
  · split
    · rename_i nil hnil
      have hisNil := List.find?_some hnil
      refine (performs_isTag h.small (h.typed.small (List.mem_of_find?_eq_some hnil)) htag hid).bind
        (fun _ => grow_or.bind fun _ => grow_not) fun k₂ isNil hr₂ ho₂ hg₂ => ?_
      refine (performs_or hg₂.holds (hg₁.holds.along ho₁ hr₂ ho₂) hg₂.exact hg₁.exact).bind
        (fun _ => grow_not) fun k₃ either _ _ hg₃ => ?_
      refine (performs_not hg₃.holds hg₃.exact).mono fun k' r _ _ hg => ?_
      rw [h.isNil_iff hisNil, ← Bool.not_or]
      exact hg.after (hg₃.memory.trans (hg₂.memory.trans hg₁.memory))
    · rename_i hnone
      rw [h.not_isNil hnone, Bool.not_false, Bool.true_and]
      exact (performs_not hg₁.holds hg₁.exact).mono fun k' r _ _ hg => hg.after hg₁.memory

/-- The value of a tagged union is tested. -/
theorem performs_truth (h : k.Tagged w c v u t x n a) :
    Performs w c k (truth v u) (k.Gets w .i1 (bit (countsAsTrue c.program.types u t x))) := by
  unfold truth
  refine .ask (a := c.program.types) rfl ?_
  rw [(TypeTable.shape_eq_tagged h.shape).1]
  dsimp only
  rw [TypeTable.isNilable_of_tagged h.shape, if_neg Bool.false_ne_true]
  split
  · rename_i hnil hbool
    rw [countsAsTrue_tagged h.shape, h.not_isNil hnil, h.not_isBool hbool]
    exact .pure ⟨Spot.holds_i1 true, exact_i1 true, rfl⟩
  · rename_i nil hnil hbool
    have hsmall := h.typed.small (List.mem_of_find?_eq_some hnil)
    rw [countsAsTrue_tagged h.shape, h.not_isBool hbool, h.isNil_iff (List.find?_some hnil)]
    refine h.performs_loadTag.bind (fun _ => grow_icmp) fun k₁ tag _ _ ⟨hg₁, hid⟩ => ?_
    refine (performs_isNotTag h.small hsmall hg₁.holds hid).mono fun k' r _ _ hg => ?_
    rw [Bool.false_and, Bool.not_false, Bool.and_true, ← decide_not]
    exact hg.after hg₁.memory
  · rename_i hbool
    exact h.performs_unionTruth hbool

end Spot.Tagged

/-- The value of a type that is no union is tested. -/
theorem performs_truth_single (hu : c.program.types.isUnion u = false)
    (hv : k.Is w c.program.types v u x) (hof : RtValue.Of (c.program.types.irType u) x)
    (he : c.program.types.isBool u = true → Exact v) :
    Performs w c k (truth v u) (k.Gets w .i1 (bit (countsAsTrue c.program.types u u x))) := by
  rw [countsAsTrue_single hu]
  unfold truth
  refine .ask (a := c.program.types) rfl ?_
  cases hk : c.program.types.kind u with
  | nil => exact .pure ⟨Spot.holds_i1 false, exact_i1 false, rfl⟩
  | bool =>
    have hbool : c.program.types.isBool u = true := TypeTable.isBool_of_kind hk
    obtain ⟨b, rfl, hheld⟩ := hv.exists_bit hof hbool
    exact performs_isNotFalse hheld (he hbool)
  | union members =>
    rw [TypeTable.isUnion, hk] at hu
    cases hu
  | pointer elem =>
    obtain ⟨s, p, rfl, hp, hheld⟩ := hv.exists_pointer hof (TypeTable.isPointer_of_kind hk)
    simpa using performs_isNotNull (c := c) hheld hp
  | _ => exact .pure ⟨Spot.holds_i1 true, exact_i1 true, rfl⟩

/-- The code of a test gives the truth of the value and leaves memory alone. -/
theorem performs_truth (hc : c.Typed) (hb : c.program.types.OneBool)
    (hv : k.Shows w c.program.types v u t x) :
    Performs w c k (truth v u) (k.Gets w .i1 (bit (countsAsTrue c.program.types u t x))) := by
  cases hv with
  | single hu hv hof he => exact performs_truth_single hu hv hof he
  | tagged hu haddress hcar hof hbelongs =>
    obtain ⟨htag, hpayload⟩ := hcar.of_tagged hu
    exact Spot.Tagged.performs_truth
      ⟨hc, hb, hu, ⟨haddress, hcar.room⟩, htag, hpayload, hof, hbelongs⟩
  | nilable hu ht hv hp hnull hobject =>
    obtain ⟨s, hs⟩ := c.program.types.irType_of_nilable hu
    rw [hs] at hv
    rw [countsAsTrue_nilable hu ht hnull hobject]
    unfold truth
    refine .ask (a := c.program.types) rfl ?_
    rw [(TypeTable.shape_eq_nilable hu).1]
    dsimp only
    rw [TypeTable.isNilable_of_nilable hu, if_pos rfl]
    exact performs_isNotNull hv hp

/-- A test is emitted for every operand of every type. -/
theorem total_truth : Total c (truth v u) := by
  unfold truth
  refine .ask (fun _ => rfl) ?_
  split
  · exact .pure _
  · exact .emit _
  · rename_i members hk
    split
    · exact total_isNotNull
    · rename_i hnilable
      -- a union that is not nilable has a tag and a payload
      split
      · exact .pure _
      · exact total_loadTag.bind fun _ => .emit _
      · rename_i bool hbool
        have hshape : ∃ n, c.program.types.shape u = .tagged n := by
          rw [TypeTable.shape, hk]
          rw [TypeTable.isNilable, Option.isSome_iff_ne_none, ne_eq, not_not] at hnilable
          exact ⟨_, by rw [hnilable]⟩
        obtain ⟨n, hu⟩ := hshape
        have hviewed : ∀ t, ¬ c.program.types.Refuses u t := fun t hrefused => by
          cases hu.symm.trans hrefused.2.1.1
        unfold unionTruth
        refine total_loadTag.bind fun _ => (Total.emit _).bind fun _ =>
          (total_convert (hviewed _)).bind fun _ =>
            (Total.emit _).bind fun _ => (Total.emit _).bind fun _ => ?_
        split
        · exact (Total.emit _).bind fun _ => (Total.emit _).bind fun _ => .emit _
        · exact .emit _
  · exact total_isNotNull
  · exact .pure _

/-! ### What is decided without a test -/

theorem Spot.Holds.constBool_of_ptr {s : Ty} (h : k.Holds w v (.ptr s) x) : v.constBool? = none := by
  cases hb : v.constBool? with
  | none => rfl
  | some b =>
    unfold Value.constBool? at hb
    split at hb
    · exact absurd h.type (by simp [IR.Builder.typeOf, IR.Constant.type])
    · cases hb

namespace Spot.Shows

/-- What a type decides holds of all values of the type. -/
theorem byType {b : Bool} (hv : k.Shows w ts v u t x) (h : truthByType? ts u = some b) :
    countsAsTrue ts u t x = b := by
  unfold truthByType? at h
  cases hv with
  | single hu _ _ _ =>
    rw [countsAsTrue_single hu]
    cases hk : ts.kind u <;> simp_all [TypeTable.isUnion]
  | tagged hu _ _ _ hbelongs =>
    rw [(TypeTable.shape_eq_tagged hu).1] at h
    dsimp only at h
    split at h
    · cases h
    · rename_i hnone
      rw [TypeTable.isNilable_of_tagged hu, Bool.false_or, Bool.not_eq_true, List.any_eq_false] at hnone
      -- objects of a hierarchy are no members, but neither nil nor truths
      have hneither : ts.isNil t = false ∧ ts.isBool t = false := by
        rcases hbelongs with hm | ho
        · simpa using hnone t hm
        · exact ⟨TypeTable.not_isNil_of_isObject ho, TypeTable.not_isBool_of_isObject ho⟩
      rw [countsAsTrue_tagged hu, hneither.1, hneither.2, ← Option.some.inj h]
      rfl
  | nilable hu _ _ _ _ _ =>
    rw [(TypeTable.shape_eq_nilable hu).1] at h
    dsimp only at h
    rw [TypeTable.isNilable_of_nilable hu, Bool.true_or, if_pos rfl] at h
    cases h

/-- A constant operand is the truth that it stands for. -/
theorem byConstant {b : Bool} (hv : k.Shows w ts v u t x) (hnone : truthByType? ts u = none)
    (h : v.constBool? = some b) : countsAsTrue ts u t x = b := by
  cases hv with
  | single hu hv hof he =>
    rw [countsAsTrue_single hu]
    unfold truthByType? at hnone
    cases hk : ts.kind u with
    | bool =>
      have hbool : ts.isBool u = true := TypeTable.isBool_of_kind hk
      obtain ⟨b', rfl, hheld⟩ := hv.exists_bit hof hbool
      rw [hheld.constBool (he hbool) h]
      cases b' <;> rfl
    | pointer elem =>
      obtain ⟨s, p, -, -, hheld⟩ := hv.exists_pointer hof (TypeTable.isPointer_of_kind hk)
      rw [hheld.constBool_of_ptr] at h
      cases h
    | union members =>
      rw [TypeTable.isUnion, hk] at hu
      cases hu
    | _ =>
      rw [hk] at hnone
      cases hnone
  | tagged hu haddress _ _ _ =>
    rw [haddress.constBool_of_ptr] at h
    cases h
  | nilable hu _ hheld _ _ _ =>
    obtain ⟨s, hs⟩ := ts.irType_of_nilable hu
    rw [hs] at hheld
    rw [hheld.constBool_of_ptr] at h
    cases h

/-- What is decided before the program runs is what the code of a test would find out. -/
theorem known {cond : Node} {s' : State} {b : Bool}
    (hv : k.Shows w c.program.types v (cond.type.getD c.nil) t x)
    (h : Gives (knownTruth? cond v) c k.gen (some b) s') :
    countsAsTrue c.program.types (cond.type.getD c.nil) t x = b := by
  unfold knownTruth? at h
  split at h
  · -- nothing is decided of a condition that yields
    cases (gives_pure.mp h).1
  · have h := gives_after (show Gives types c k.gen c.program.types k.gen from rfl) h
    have h := gives_after (show Gives (typeOf cond) c k.gen (cond.type.getD c.nil) k.gen from rfl) h
    have hknown := (gives_pure.mp h).1
    cases htype : truthByType? c.program.types (cond.type.getD c.nil) with
    | some b' =>
      rw [htype] at hknown
      rw [hv.byType htype, Option.some.inj hknown]
    | none =>
      rw [htype] at hknown
      exact hv.byConstant htype hknown.symm

end Spot.Shows

end Gen

end Lowering
