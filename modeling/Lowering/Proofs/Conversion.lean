import Lowering.Proofs.Emission
import Lowering.Proofs.Layout

/-!
# Running conversions

What the parts do of which the code of conversions is made.

* `Gen.tagWord`: the words that stand for types at run time;
* `Gen.performs_loadTag`, `Gen.performs_storeTag`, `Gen.performs_payload`;
* `Gen.performs_isNull`, `Gen.performs_isNotNull`;
* `Gen.Akin`, `Gen.performs_coerce`, `Gen.performs_storeCoerced`.
-/

namespace Lowering.Gen

open IR (Ty Value Build)
open Exec (RtValue Memory encode decode)

variable {c : Context} {w : Setting} {k : Spot} {p v : Value} {t t' : Ty} {x : RtValue}
  {a b n : Nat}

/-! ### Words for types -/

/-- The word that stands for a type at run time. -/
def tagWord (t : TypeId) : RtValue := .int 32 (Exec.wrap 32 t.index)

theorem decode_tagWord (t : TypeId) : decode (encode (tagWord t) .i32) .i32 = tagWord t :=
  RtValue.Of.decode_encode (.int (by decide) (Exec.wrap_wrap_of_le le_rfl _))

/-- Types have words of their own. -/
theorem tagWord_inj {t u : TypeId} (ht : t.index < 2 ^ 32) (hu : u.index < 2 ^ 32) :
    Exec.wrap 32 t.index = Exec.wrap 32 u.index ↔ t = u := by
  refine ⟨fun h => ?_, fun h => by rw [h]⟩
  simp only [Exec.wrap, if_neg (show ¬ (32 = 1) by decide)] at h
  have hmod := congrArg (· % ((twoTo (min 32 64) : Nat) : Int)) h
  simp only [Int.bmod_emod, Exec.twoTo_eq, show min 32 64 = 32 from rfl] at hmod
  cases t
  cases u
  simp only [TypeId.mk.injEq] at *
  omega

theorem holds_tagOf (k : Spot) (t : TypeId) : k.Holds w (tagOf t) .i32 (tagWord t) :=
  Spot.holds_const (.int 32 t.index)

/-! ### Parts of records -/

section

variable {fields : List Ty}

theorem performs_tagAddress (hp : k.Holds w p (.ptr (.struct (.i32 :: fields))) (.ptr a))
    (hr : k.run.memory.Room a 4) :
    Performs w c k (emit (Build.structGep p 0)) (k.Gets w (.ptr .i32) (.ptr a)) := by
  have h := performs_structGep (c := c) 0 hp rfl hr (by rw [fieldOffset_tag]; omega) (by norm_num)
  rwa [fieldOffset_tag] at h

theorem performs_loadTag (hp : k.Holds w p (.ptr (.struct (.i32 :: fields))) (.ptr a))
    (hr : k.run.memory.Room a 4) :
    Performs w c k (loadTag p) fun k' v =>
      k.Gets w .i32 (decode (k.run.memory.bytes a 4) .i32) k' v ∧ ∃ id, v = .inst id := by
  unfold loadTag
  refine (performs_tagAddress hp hr).bind (fun _ => grow_load) fun k₁ slot _ _ hs => ?_
  refine (performs_load hs.holds (by rwa [hs.memory, size_i32])).mono fun k' v _ _ h => ?_
  rw [hs.memory, size_i32] at h
  exact ⟨h.1.after hs.memory, h.2⟩

theorem performs_storeTag (hp : k.Holds w p (.ptr (.struct (.i32 :: fields))) (.ptr a))
    (hr : k.run.memory.Room a 4) (hv : k.Holds w v .i32 x) :
    Performs w c k (storeTag p v) fun k' _ =>
      k'.run.memory = k.run.memory.put (encode x .i32) (Memory.place a) := by
  unfold storeTag
  refine .assume fun ho => ?_
  refine (performs_tagAddress hp hr).bind (fun _ => grow_store) fun k₁ slot hr₁ ho₁ hs => ?_
  refine (performs_store (hv.along ho hr₁ ho₁) hs.holds (by rwa [hs.memory, size_i32])).mono
    fun k' _ _ _ h => ?_
  rw [h, hs.memory]

theorem performs_payload (hp : k.Holds w p (.ptr (taggedType n)) (.ptr a))
    (hr : k.run.memory.Room a b) (hb : 4 < b) :
    Performs w c k (payload p t) (k.Gets w (.ptr t) (.ptr (a + 4))) := by
  unfold payload
  have hfield := performs_structGep (c := c) 1 hp rfl hr
    (by rw [← taggedType, fieldOffset_payload]; omega) (by norm_num)
  rw [← taggedType, fieldOffset_payload] at hfield
  refine hfield.bind (fun _ => grow_bitcast) fun k₁ bytes _ _ hs => ?_
  exact (performs_bitcast hs.holds).mono fun _ _ _ _ h => h.after hs.memory

end

/-! ### Pointers -/

theorem wrap_ofWord_eq_zero {a : Nat} (h : a < 2 ^ 64) :
    Exec.wrap 64 (Exec.ofWord a) = 0 ↔ a = 0 := by
  have heq : Exec.wrap 64 (Exec.ofWord a) = Int.bmod a (2 ^ 64 : Nat) := by
    rw [Exec.wrap, if_neg (by decide), Exec.ofWord, min_self, Exec.twoTo_eq]
    exact Int.bmod_bmod
  rw [heq]
  constructor
  · intro h0
    have hmod := congrArg (· % ((2 ^ 64 : Nat) : Int)) h0
    simp only [Int.bmod_emod] at hmod
    omega
  · rintro rfl
    rfl

/-- The comparison of a pointer with the null pointer. -/
theorem performs_compareNull (pred : IR.IntPredicate) (hv : k.Holds w v (.ptr t) (.ptr a)) :
    Performs w c k (do
        let address ← Build.ptrToInt v .i64
        Build.icmp pred address (.i64 0))
      (k.Gets w .i1 (bit (pred.holds (Exec.wrap 64 (Exec.ofWord a)) 0))) := by
  refine (performs_ptrToInt hv).bind (fun _ => grow_icmp) fun k₁ address _ _ ha => ?_
  have hzero : k₁.Holds w (.i64 0) .i64 (.int 64 0) := Spot.holds_const (.int 64 0)
  refine (performs_icmp ha.holds hzero fun i j hi hj => ?_).mono fun _ _ _ _ h => h.after ha.memory
  rw [ha.holds.constInt ha.exact hi, ← Option.some.inj hj]

theorem performs_isNull (hv : k.Holds w v (.ptr t) (.ptr a)) (ha : a < 2 ^ 64) :
    Performs w c k (isNull v) (k.Gets w .i1 (bit (decide (a = 0)))) := by
  have h := performs_compareNull (c := c) .eq hv
  simp only [IR.IntPredicate.holds, wrap_ofWord_eq_zero ha] at h
  exact h

theorem performs_isNotNull (hv : k.Holds w v (.ptr t) (.ptr a)) (ha : a < 2 ^ 64) :
    Performs w c k (isNotNull v) (k.Gets w .i1 (bit (decide (a ≠ 0)))) := by
  have h := performs_compareNull (c := c) .ne hv
  simp only [IR.IntPredicate.holds, ne_eq, wrap_ofWord_eq_zero ha] at h
  exact h

/-! ### Coercion -/

/-- Types between which values need no more than another view. -/
def Akin (t t' : Ty) (x : RtValue) : Prop :=
  t = t' ∨ ∃ s s' a, t = .ptr s ∧ t' = .ptr s' ∧ x = .ptr a

theorem performs_coerce (hv : k.Holds w v t x) (ha : Akin t t' x) :
    Performs w c k (coerce v t') fun k' r =>
      k'.Holds w r t' x ∧ k'.run.memory = k.run.memory := by
  unfold coerce
  refine .ask (a := t) (congrArg (fun t => (Except.ok t, k.gen)) hv.type) ?_
  split
  · rename_i he
    subst he
    exact .pure ⟨hv, rfl⟩
  · rename_i hne
    obtain he | ⟨s, s', a, rfl, rfl, rfl⟩ := ha
    · exact absurd he hne
    · exact (performs_bitcast hv).mono fun _ _ _ _ h => ⟨h.holds, h.memory⟩

theorem performs_storeCoerced (hv : k.Holds w v t x) (hp : k.Holds w p (.ptr t') (.ptr a))
    (hr : k.run.memory.Room a t'.size) (ha : Akin t t' x) :
    Performs w c k (storeCoerced v p) fun k' _ =>
      k'.run.memory = k.run.memory.put (encode x t') (Memory.place a) := by
  unfold storeCoerced
  refine .assume fun ho => .ask (a := .ptr t') (congrArg (fun t => (Except.ok t, k.gen)) hp.type) ?_
  refine (performs_coerce hv ha).bind (fun _ => grow_store) fun k₁ u hr₁ ho₁ ⟨hu, hm⟩ => ?_
  refine (performs_store hu (hp.along ho hr₁ ho₁) (by rwa [hm])).mono fun k' _ _ _ h => ?_
  rw [h, hm]

end Lowering.Gen
