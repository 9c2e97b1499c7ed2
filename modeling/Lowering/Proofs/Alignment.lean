import Lowering.Proofs.Component

/-!
# Alignment of parts

A type is aligned to a power of two that divides its size, and so is each part of it, however deep.
The fields of a struct stand as close as their alignments let them.

* `IR.Ty.isLeast_alignTo`: rounding up to an alignment;
* `IR.Ty.exists_align_eq`, `IR.Ty.align_dvd_size`, `IR.Ty.align_dvd_align`;
* `IR.Ty.endBefore`: where the field before another one ends, and `IR.Ty.isLeast_offsetFrom`;
* `IR.Ty.layout_sound`.
-/

namespace Lowering.IR.Ty

variable {t u s : Ty} {ts : List Ty} {a i o : Nat} {is : List Nat}

/-! ### Rounding up -/

/-- Rounding up leads to the least multiple of an alignment that is not below an offset. -/
theorem isLeast_alignTo (ha : 0 < a) (o : Nat) : IsLeast {n | a ∣ n ∧ o ≤ n} (alignTo o a) := by
  refine ⟨⟨?_, le_alignTo o a⟩, ?_⟩
  · unfold alignTo
    split
    · obtain rfl : a = 1 := by omega
      exact one_dvd o
    · exact Nat.dvd_mul_left a _
  · rintro n ⟨⟨k, rfl⟩, hn⟩
    unfold alignTo
    split
    · exact hn
    · have hlt : o + (a - 1) < (k + 1) * a := by
        rw [Nat.add_mul, Nat.one_mul, Nat.mul_comm k]
        omega
      rw [Nat.mul_comm a k]
      exact Nat.mul_le_mul_right a (Nat.lt_succ_iff.mp ((Nat.div_lt_iff_lt_mul ha).mpr hlt))

/-! ### Alignments -/

theorem exists_intSize_eq (bits : Nat) : ∃ k, intSize bits = 2 ^ k := by
  unfold intSize
  dsimp only
  split
  · exact ⟨0, rfl⟩
  · exact ⟨_, rfl⟩

mutual

/-- An alignment is a power of two. -/
theorem exists_align_eq : ∀ t : Ty, ∃ k, t.align = 2 ^ k
  | .void => ⟨0, by rw [align]; rfl⟩
  | .int bits => by rw [align]; exact exists_intSize_eq bits
  | .float => ⟨2, by rw [align]; rfl⟩
  | .double => ⟨3, by rw [align]; rfl⟩
  | .ptr _ => ⟨3, by rw [align]; rfl⟩
  | .array t _ => by rw [align]; exact exists_align_eq t
  | .struct fields => by rw [align]; exact exists_alignAll_eq fields

theorem exists_alignAll_eq : ∀ ts : List Ty, ∃ k, alignAll ts = 2 ^ k
  | [] => ⟨0, by rw [alignAll]; rfl⟩
  | t :: ts => by
    rw [alignAll]
    rcases le_total t.align (alignAll ts) with h | h
    · rw [max_eq_right h]
      exact exists_alignAll_eq ts
    · rw [max_eq_left h]
      exact exists_align_eq t

end

theorem align_pos (t : Ty) : 0 < t.align := by
  obtain ⟨k, hk⟩ := exists_align_eq t
  exact hk ▸ Nat.two_pow_pos k

/-- Of two powers of two the smaller one divides the other. -/
theorem align_dvd_of_le (h : t.align ≤ u.align) : t.align ∣ u.align := by
  obtain ⟨k, hk⟩ := exists_align_eq t
  obtain ⟨l, hl⟩ := exists_align_eq u
  rw [hk, hl] at h ⊢
  exact Nat.pow_dvd_pow 2 ((Nat.pow_le_pow_iff_right Nat.one_lt_two).mp h)

theorem align_le_alignAll (h : t ∈ ts) : t.align ≤ alignAll ts := by
  induction ts with
  | nil => cases h
  | cons u ts ih =>
    rw [alignAll]
    rcases List.mem_cons.mp h with rfl | h
    · exact le_max_left _ _
    · exact (ih h).trans (le_max_right _ _)

/-- The alignment of a field or an element divides that of the whole. -/
theorem align_dvd_align (h : t.field? i = some u) : u.align ∣ t.align := by
  cases t with
  | struct fields =>
    refine align_dvd_of_le ?_
    rw [align]
    exact align_le_alignAll (List.mem_of_getElem? h)
  | array elem length =>
    obtain rfl := Option.some.inj (Option.ite_none_right_eq_some.mp h).2
    rw [align]
  | _ => cases h

/-- Sizes are multiples of alignments, so that the elements of an array are aligned. -/
theorem align_dvd_size : ∀ t : Ty, t.align ∣ t.size
  | .void => by rw [size]; exact Nat.dvd_zero _
  | .int bits => by rw [align, size]
  | .float => by rw [align, size]
  | .double => by rw [align, size]
  | .ptr _ => by rw [align, size]
  | .array t n => by
    rw [align, size]
    exact (align_dvd_size t).mul_right n
  | .struct fields => by
    have hpos := align_pos (.struct fields)
    rw [align] at hpos ⊢
    rw [size]
    exact (isLeast_alignTo hpos _).1.1

/-! ### Fields -/

/-- Where the field before another one ends, when fields are laid out in order from an offset; the
first field comes after the offset. -/
def endBefore (o : Nat) (ts : List Ty) : Nat → Nat
  | 0 => o
  | i + 1 => offsetFrom o ts i + (ts[i]?).elim 0 size

theorem endBefore_cons (o : Nat) (t : Ty) (ts : List Ty) (i : Nat) :
    endBefore o (t :: ts) (i + 1) = endBefore (alignTo o t.align + t.size) ts i := by
  cases i <;> rfl

/-- A field follows the one before it as closely as its alignment lets it. -/
theorem isLeast_offsetFrom (h : ts[i]? = some t) :
    IsLeast {n | t.align ∣ n ∧ endBefore o ts i ≤ n} (offsetFrom o ts i) := by
  induction ts generalizing o i with
  | nil => cases h
  | cons u ts ih =>
    cases i with
    | zero =>
      obtain rfl := Option.some.inj h
      exact isLeast_alignTo (align_pos u) o
    | succ i =>
      rw [endBefore_cons]
      exact ih h

theorem endOffset_eq (o : Nat) (ts : List Ty) : endOffset o ts = endBefore o ts ts.length := by
  induction ts generalizing o with
  | nil => rw [endOffset]; rfl
  | cons t ts ih => rw [endOffset, List.length_cons, endBefore_cons, ih]

/-- A struct ends at the least multiple of its alignment that is not before the end of its last
field. -/
theorem isLeast_size (fields : List Ty) :
    IsLeast {n | (struct fields).align ∣ n ∧ endBefore 0 fields fields.length ≤ n}
      (struct fields).size := by
  have hpos := align_pos (.struct fields)
  rw [align] at hpos ⊢
  rw [size, endOffset_eq]
  exact isLeast_alignTo hpos _

/-- Fields and elements are aligned inside of the whole. -/
theorem align_dvd_fieldOffset (h : t.field? i = some u) : u.align ∣ t.fieldOffset i := by
  cases t with
  | struct fields => exact (isLeast_offsetFrom h).1.1
  | array elem length =>
    obtain rfl := Option.some.inj (Option.ite_none_right_eq_some.mp h).2
    exact (align_dvd_size elem).mul_right i
  | _ => cases h

/-! ### Parts -/

theorem align_dvd_of_part? (h : t.part? is = some s) : s.align ∣ t.align := by
  induction is generalizing t with
  | nil =>
    obtain rfl := Option.some.inj h
    exact dvd_rfl
  | cons i is ih =>
    obtain ⟨u, hu, hs⟩ := part?_cons h
    exact (ih hs).trans (align_dvd_align hu)

/-- A part is aligned when the whole is. -/
theorem align_dvd_offsetOf (h : t.part? is = some s) : s.align ∣ t.offsetOf is := by
  induction is generalizing t with
  | nil => exact Nat.dvd_zero _
  | cons i is ih =>
    obtain ⟨u, hu, hs⟩ := part?_cons h
    rw [offsetOf_cons hu]
    exact Nat.dvd_add ((align_dvd_of_part? hs).trans (align_dvd_fieldOffset hu)) (ih hs)

/-- The alignment of a type is a power of two that divides its size. Fields and elements are
aligned and inside of the whole, each ends before the next one begins, a field of a struct is at
the least aligned offset after the field before it, and the size of a struct is the least aligned
one that contains its last field. So parts are aligned and inside of the whole at every depth, and
two of them are apart unless one is in the other. -/
theorem layout_sound (t : Ty) :
    ((∃ k, t.align = 2 ^ k) ∧ t.align ∣ t.size) ∧
    (∀ i u, t.field? i = some u → u.align ∣ t.fieldOffset i ∧ t.fieldOffset i + u.size ≤ t.size ∧
      ∀ j, i < j → t.fieldOffset i + u.size ≤ t.fieldOffset j) ∧
    (∀ fields, t = .struct fields →
      (∀ i u, fields[i]? = some u →
        IsLeast {o | u.align ∣ o ∧ endBefore 0 fields i ≤ o} (t.fieldOffset i)) ∧
      IsLeast {n | t.align ∣ n ∧ endBefore 0 fields fields.length ≤ n} t.size) ∧
    ∀ is s, t.part? is = some s → s.align ∣ t.align ∧ s.align ∣ t.offsetOf is ∧
      t.offsetOf is + s.size ≤ t.size ∧
      ∀ js s', t.part? js = some s' → ¬ is <+: js → ¬ js <+: is →
        t.offsetOf is + s.size ≤ t.offsetOf js ∨ t.offsetOf js + s'.size ≤ t.offsetOf is := by
  refine ⟨⟨exists_align_eq t, align_dvd_size t⟩, fun i u h => ?_, ?_, fun is s h => ?_⟩
  · exact ⟨align_dvd_fieldOffset h, fieldOffset_add_size_le h, fun j hij => fieldOffset_apart h hij⟩
  · rintro fields rfl
    exact ⟨fun i u h => isLeast_offsetFrom h, isLeast_size fields⟩
  · exact ⟨align_dvd_of_part? h, align_dvd_offsetOf h, offsetOf_add_size_le h,
      fun js s' h' => offsetOf_apart h h'⟩

/-- A record of a flag, three pairs of integers of odd widths, and a number. -/
def pairs : Ty := .struct [.i1, .array (.struct [.int 13, .int 40]) 3, .double]

theorem pairs_layout :
    pairs.part? [1, 2, 1] = some (.int 40) ∧ (Ty.int 40).align ∣ pairs.offsetOf [1, 2, 1] ∧
      pairs.part? [2] = some .double ∧
      pairs.offsetOf [1, 2, 1] + (Ty.int 40).size ≤ pairs.offsetOf [2] ∧
      IsLeast {o | Ty.double.align ∣ o ∧ endBefore 0 [.i1, .array (.struct [.int 13, .int 40]) 3,
        .double] 2 ≤ o} (pairs.fieldOffset 2) := by
  obtain ⟨-, -, hstruct, hparts⟩ := layout_sound pairs
  obtain ⟨-, haligned, -, hapart⟩ := hparts [1, 2, 1] (.int 40) rfl
  have hdouble := hapart [2] .double rfl (by decide) (by decide)
  exact ⟨rfl, haligned, rfl, hdouble.resolve_right (by decide), (hstruct _ rfl).1 2 .double rfl⟩

end Lowering.IR.Ty
