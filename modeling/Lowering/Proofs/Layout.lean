import Lowering.Gen.Layout
import Mathlib.Tactic

/-!
# Room in unions

The storage of a tagged union has room for its tag and for a value of any member, and that of a
union without a tag is a pointer.

* `Ty.fieldOffset`, `Ty.size` of `taggedType` and `boxType`;
* `TypeTable.irType_of_tagged`, `TypeTable.irType_of_nilable`;
* `TypeTable.mem_members_of_nilable`.
-/

namespace Lowering

open IR (Ty)

/-! ### Records of unions and hierarchies -/

@[simp] theorem size_i32 : Ty.i32.size = 4 := by rw [Ty.i32, Ty.size]; rfl

@[simp] theorem align_i32 : Ty.i32.align = 4 := by rw [Ty.i32, Ty.align]; rfl

@[simp] theorem size_i8 : Ty.i8.size = 1 := by rw [Ty.i8, Ty.size]; rfl

theorem size_i1 : Ty.i1.size = 1 := by rw [Ty.i1, Ty.size]; rfl

@[simp] theorem align_i8 : Ty.i8.align = 1 := by rw [Ty.i8, Ty.align]; rfl

@[simp] theorem size_ptr (t : Ty) : (Ty.ptr t).size = 8 := by rw [Ty.size]; rfl

@[simp] theorem align_ptr (t : Ty) : (Ty.ptr t).align = 8 := by rw [Ty.align]; rfl

section

variable (payload : Nat)

theorem fieldOffset_tag (fields : List Ty) : (Ty.struct (.i32 :: fields)).fieldOffset 0 = 0 := by
  rw [Ty.fieldOffset, Ty.offsetFrom, align_i32]
  rfl

theorem fieldOffset_payload : (taggedType payload).fieldOffset 1 = 4 := by
  have halign : (Ty.array .i8 payload).align = 1 := by rw [Ty.align, align_i8]
  rw [taggedType, Ty.fieldOffset, Ty.offsetFrom, Ty.offsetFrom, halign, align_i32, size_i32]
  rfl

theorem le_size_taggedType : 4 + payload ≤ (taggedType payload).size := by
  have halign : (Ty.array .i8 payload).align = 1 := by rw [Ty.align, align_i8]
  have hsize : (Ty.array .i8 payload).size = payload := by rw [Ty.size, size_i8, Nat.one_mul]
  have hend : Ty.endOffset 0 [.i32, .array .i8 payload] = 4 + payload := by
    rw [Ty.endOffset, Ty.endOffset, Ty.endOffset, halign, hsize, align_i32, size_i32]
    rfl
  rw [taggedType, Ty.size, hend]
  have hmax : Ty.alignAll [.i32, .array .i8 payload] = 4 := by
    simp only [Ty.alignAll, align_i32, halign]
    rfl
  rw [hmax, Ty.alignTo, if_neg (by norm_num)]
  omega

end

@[simp] theorem size_boxType : boxType.size = 16 := by
  simp only [boxType, Ty.bytePtr, Ty.size, Ty.endOffset, Ty.alignAll, align_i32, align_ptr, size_i32]
  rfl

/-! ### Types of members -/

namespace TypeTable

variable {ts : TypeTable} {u t m : TypeId} {n : Nat}

theorem size_pos_of_isUnion (h : ts.isUnion u = true) : 0 < ts.size := by
  by_contra hz
  have hsize : ts.infos.size = 0 := by unfold size at hz; omega
  simp [isUnion, kind, info, hsize] at h

/-- What a union is that has a tag. -/
theorem shape_eq_tagged (h : ts.shape u = .tagged n) :
    ts.kind u = .union (ts.members u) ∧ ts.nilableMember u = none := by
  unfold shape at h
  split at h
  · rename_i ms hk
    split at h
    · cases h
    · exact ⟨by rw [hk, members, hk], ‹_›⟩
  · cases h
  · cases h

/-- What a union is that has none. -/
theorem shape_eq_nilable (h : ts.shape u = .nilable m) :
    ts.kind u = .union (ts.members u) ∧ ts.nilableMember u = some m := by
  unfold shape at h
  split at h
  · rename_i ms hk
    split at h
    · cases h
      exact ⟨by rw [hk, members, hk], ‹_›⟩
    · cases h
  · cases h
  · cases h

theorem isNilable_of_tagged (h : ts.shape u = .tagged n) : ts.isNilable u = false := by
  rw [isNilable, (shape_eq_tagged h).2]
  rfl

theorem isNilable_of_nilable (h : ts.shape u = .nilable m) : ts.isNilable u = true := by
  rw [isNilable, (shape_eq_nilable h).2]
  rfl

theorem not_isNil_of_isUnion (h : ts.isUnion u = true) : ts.isNil u = false := by
  unfold isUnion at h
  unfold isNil
  cases hk : ts.kind u <;> simp_all

/-- How a union is held. -/
theorem shape_of_isUnion (h : ts.isUnion u = true) :
    (∃ n, ts.shape u = .tagged n) ∨ ∃ m, ts.shape u = .nilable m := by
  unfold isUnion at h
  unfold shape
  cases hk : ts.kind u <;> simp_all
  cases ts.nilableMember u <;> simp

/-- Ids past the table are those of the program. -/
theorem index_lt_of_kind (h : ts.kind t ≠ .program) : t.index < ts.size := by
  by_contra hlt
  rw [kind, info, Array.getElem?_eq_none (not_lt.mp hlt)] at h
  exact h rfl

theorem index_lt_of_isNil (h : ts.isNil t = true) : t.index < ts.size :=
  index_lt_of_kind fun hk => by
    rw [isNil, hk] at h
    cases h

theorem index_lt_of_mem_members (h : t ∈ ts.members u) : u.index < ts.size :=
  index_lt_of_kind fun hk => by
    rw [members, hk] at h
    cases h

theorem isUnion_of_mem_members (h : t ∈ ts.members u) : ts.isUnion u = true := by
  unfold members at h
  unfold isUnion
  split at h
  · simp_all
  · cases h

/-- How a value that is no union is held. -/
theorem shape_of_not_isUnion (h : ts.isUnion t = false) :
    ts.shape t = .scalar ∨ ∃ base, ts.shape t = .boxed base := by
  unfold isUnion at h
  unfold shape
  cases hk : ts.kind t <;> simp_all

theorem irType_of_boxed {base : TypeId} (h : ts.shape t = .boxed base) : ts.irType t = boxType := by
  unfold shape at h
  split at h
  · split at h <;> cases h
  · rename_i hk
    rw [irType, irTypeWithin, hk]
  · cases h

theorem irType_of_isNil (h : ts.isNil t = true) : ts.irType t = .i1 := by
  rw [irType, irTypeWithin, beq_iff_eq.mp h]

/-- A value that is no union takes as many bytes as unions reserve for it. -/
theorem size_irType_of_not_isUnion (hn : 0 < n) (ht : ts.isUnion t = false) :
    (ts.irType t).size =
      if ts.isSinglePointer t then Ty.pointerSize else (ts.irTypeWithin n t).size := by
  obtain ⟨n, rfl⟩ := Nat.exists_eq_succ_of_ne_zero hn.ne'
  have hnil : ts.isNilable t = false := by
    unfold isUnion at ht
    unfold isNilable nilableMember members
    split at ht <;> simp_all
  unfold isSinglePointer isPointerLike isObject isPointer irType
  rw [hnil]
  unfold isUnion at ht
  cases hk : ts.kind t <;>
    simp_all [irTypeWithin, TypeKind.isObject, TypeKind.isPointer, Ty.pointerSize]

theorem le_foldl_max {l : List Nat} {a b : Nat} (h : a ≤ b ∨ a ∈ l) : a ≤ l.foldl max b := by
  induction l generalizing b with
  | nil => simpa using h
  | cons c l ih =>
    refine ih ?_
    rcases h with h | h
    · exact .inl (h.trans (le_max_left b c))
    · rcases List.mem_cons.mp h with rfl | h
      · exact .inl (le_max_right b a)
      · exact .inr h

/-- The storage of a tagged union: a tag, and room for any member. -/
theorem irType_of_tagged (h : ts.shape u = .tagged n) :
    ∃ p, ts.irType u = taggedType p ∧ 0 < p ∧
      ∀ t ∈ ts.members u, ts.isUnion t = false → (ts.irType t).size ≤ p := by
  obtain ⟨hk, hnil⟩ := shape_eq_tagged h
  have hpos : 0 < ts.size := size_pos_of_isUnion (u := u) (by rw [isUnion, hk])
  refine ⟨ts.payloadBy (ts.irTypeWithin ts.size) (ts.members u), ?_, ?_, fun t ht hu => ?_⟩
  · rw [irType, irTypeWithin, hk]
    simp only [hnil]
  · exact le_foldl_max (.inl le_rfl)
  · rw [size_irType_of_not_isUnion hpos hu]
    exact le_foldl_max (.inr (List.mem_map_of_mem ht))

/-- The members of a union without a tag. -/
theorem mem_members_of_nilable (h : ts.shape u = .nilable m) (ht : t ∈ ts.members u) :
    ts.isNil t = true ∨ t = m := by
  have hm := (shape_eq_nilable h).2
  unfold nilableMember at hm
  split at hm
  · rename_i a b hab
    rw [hab] at ht
    dsimp only at hm
    simp only [List.mem_cons, List.not_mem_nil, or_false] at ht
    split at hm
    · rename_i ha
      obtain ⟨he, -⟩ := Option.filter_eq_some_iff.mp hm
      cases he
      rcases ht with rfl | rfl
      · exact .inl ha
      · exact .inr rfl
    · split at hm
      · rename_i hb
        obtain ⟨he, -⟩ := Option.filter_eq_some_iff.mp hm
        cases he
        rcases ht with rfl | rfl
        · exact .inr rfl
        · exact .inl hb
      · cases hm
  · cases hm

theorem isPointerLike_of_nilable (h : ts.shape u = .nilable m) : ts.isPointerLike m = true := by
  have hm := (shape_eq_nilable h).2
  unfold nilableMember at hm
  split at hm
  · exact (Option.filter_eq_some_iff.mp hm).2
  · cases hm

/-- The members of a union without a tag are nil and types of pointers. -/
theorem isPointerLike_of_mem (h : ts.shape u = .nilable m) (ht : t ∈ ts.members u)
    (hn : ts.isNil t = false) : ts.isPointerLike t = true := by
  rcases mem_members_of_nilable h ht with ht | rfl
  · rw [ht] at hn
    cases hn
  · exact isPointerLike_of_nilable h

theorem shape_of_mem_nilable (h : ts.shape u = .nilable m) (ht : t ∈ ts.members u) :
    ts.shape t = .scalar := by
  have hcase : ts.isNil t = true ∨ ts.isPointerLike t = true := by
    cases hn : ts.isNil t with
    | true => exact .inl rfl
    | false => exact .inr (isPointerLike_of_mem h ht hn)
  unfold isNil isPointerLike isObject isPointer at hcase
  unfold shape
  cases hk : ts.kind t <;> simp_all [TypeKind.isObject, TypeKind.isPointer]

theorem irTypeWithin_of_isPointerLike (h : ts.isPointerLike t = true) :
    ∃ s, ts.irTypeWithin (n + 1) t = .ptr s := by
  unfold isPointerLike isObject isPointer at h
  cases hk : ts.kind t <;>
    simp_all [irTypeWithin, TypeKind.isObject, TypeKind.isPointer]

theorem irType_of_isPointerLike (h : ts.isPointerLike t = true) : ∃ s, ts.irType t = .ptr s :=
  irTypeWithin_of_isPointerLike h

/-- A value of a member takes no more room than a pointer. -/
theorem size_irType_of_mem_nilable (h : ts.shape u = .nilable m) (ht : t ∈ ts.members u) :
    (ts.irType t).size ≤ 8 := by
  cases hn : ts.isNil t with
  | true =>
    rw [irType_of_isNil hn, size_i1]
    norm_num
  | false =>
    obtain ⟨s, hs⟩ := irType_of_isPointerLike (isPointerLike_of_mem h ht hn)
    rw [hs, size_ptr]

/-- The storage of a union without a tag is a pointer. -/
theorem irType_of_nilable (h : ts.shape u = .nilable m) : ∃ s, ts.irType u = .ptr s := by
  obtain ⟨hk, hm⟩ := shape_eq_nilable h
  have hpos : 0 < ts.size := size_pos_of_isUnion (u := u) (by rw [isUnion, hk])
  obtain ⟨n, hn⟩ := Nat.exists_eq_succ_of_ne_zero hpos.ne'
  rw [irType, irTypeWithin, hk]
  simp only [hm, hn]
  exact irTypeWithin_of_isPointerLike (isPointerLike_of_nilable h)

theorem intSize_pos (bits : Nat) : 0 < Ty.intSize bits := by
  unfold Ty.intSize
  dsimp only
  split
  · exact Nat.one_pos
  · exact Nat.two_pow_pos _

/-- Every value takes room. -/
theorem size_irType_pos (t : TypeId) : 0 < (ts.irType t).size := by
  cases hshape : ts.shape t with
  | tagged payload =>
    obtain ⟨room, hroom, -⟩ := irType_of_tagged hshape
    rw [hroom]
    have hle := le_size_taggedType room
    omega
  | nilable member =>
    obtain ⟨s, hs⟩ := irType_of_nilable hshape
    rw [hs, size_ptr]
    decide
  | boxed base =>
    rw [irType_of_boxed hshape, size_boxType]
    decide
  | scalar =>
    unfold shape at hshape
    rw [irType, irTypeWithin]
    cases hk : ts.kind t <;> simp only [hk] at hshape ⊢
    case union => split at hshape <;> cases hshape
    case hierarchy => cases hshape
    case float double => cases double <;> simp [Ty.size]
    all_goals first
      | exact (size_ptr _).symm ▸ (by decide)
      | exact intSize_pos _

end TypeTable

end Lowering
