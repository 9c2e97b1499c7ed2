import Lowering.Proofs.Storage

/-!
# Parts of values

A path of indices leads from a type to the type of a part.  The bytes of the part are those of the
whole from the offset of the part on, and parts are apart unless one of them is in the other.

* `IR.Ty.part?`, `IR.Ty.offsetOf`: the type and the offset of a part;
* `IR.Ty.offsetOf_add_size_le`, `IR.Ty.offsetOf_apart`: where parts are;
* `Exec.RtValue.component`: the part of a value, and `Exec.RtValue.component_decode`;
* `Exec.splice`: bytes with some of them replaced, and what becomes of parts:
  `Exec.component_splice_self`, `Exec.component_splice_apart`.
-/

namespace Lowering.IR.Ty

variable {t u s s' : Ty} {ts : List Ty} {i j o : Nat} {is js : List Nat}

/-! ### Fields -/

theorem le_alignTo (o a : Nat) : o ≤ alignTo o a := by
  unfold alignTo
  split
  · exact le_rfl
  · have hdiv := Nat.div_add_mod (o + (a - 1)) a
    have hmod := Nat.mod_lt (o + (a - 1)) (show a > 0 by omega)
    rw [Nat.mul_comm] at hdiv
    omega

theorem le_endOffset (o : Nat) (ts : List Ty) : o ≤ endOffset o ts := by
  induction ts generalizing o with
  | nil => rw [endOffset]
  | cons t ts ih =>
    rw [endOffset]
    exact (le_alignTo o t.align).trans ((Nat.le_add_right _ _).trans (ih _))

theorem le_offsetFrom (o : Nat) (ts : List Ty) (i : Nat) : o ≤ offsetFrom o ts i := by
  induction ts generalizing o i with
  | nil => rw [offsetFrom]
  | cons t ts ih =>
    cases i with
    | zero => exact le_alignTo o t.align
    | succ i => exact (le_alignTo o t.align).trans ((Nat.le_add_right _ _).trans (ih _ i))

theorem offsetFrom_add_size_le (h : ts[i]? = some t) :
    offsetFrom o ts i + t.size ≤ endOffset o ts := by
  induction ts generalizing o i with
  | nil => cases h
  | cons u ts ih =>
    rw [endOffset]
    cases i with
    | zero =>
      obtain rfl := Option.some.inj h
      exact le_endOffset _ ts
    | succ i => exact ih h

/-- A field ends before the fields after it. -/
theorem offsetFrom_apart (h : ts[i]? = some t) (hij : i < j) :
    offsetFrom o ts i + t.size ≤ offsetFrom o ts j := by
  induction ts generalizing o i j with
  | nil => cases h
  | cons u ts ih =>
    obtain ⟨j, rfl⟩ := Nat.exists_eq_succ_of_ne_zero (Nat.ne_zero_of_lt hij)
    cases i with
    | zero =>
      obtain rfl := Option.some.inj h
      exact le_offsetFrom _ ts j
    | succ i => exact ih h (Nat.lt_of_succ_lt_succ hij)

/-- The type of a field or an element that is there. -/
def field? (i : Nat) : Ty → Option Ty
  | .struct fields => fields[i]?
  | .array elem length => if i < length then some elem else none
  | _ => none

theorem element_of_field? (h : t.field? i = some u) : t.element i = some u := by
  cases t with
  | struct fields => exact h
  | array elem length => exact (Option.ite_none_right_eq_some.mp h).2
  | _ => cases h

theorem fieldOffset_add_size_le (h : t.field? i = some u) :
    t.fieldOffset i + u.size ≤ t.size := by
  cases t with
  | struct fields =>
    rw [size]
    exact (offsetFrom_add_size_le h).trans (le_alignTo _ _)
  | array elem length =>
    obtain ⟨hi, he⟩ := Option.ite_none_right_eq_some.mp h
    cases he
    rw [size, fieldOffset, ← Nat.mul_succ]
    exact Nat.mul_le_mul_left _ hi
  | _ => cases h

theorem fieldOffset_apart (h : t.field? i = some u) (hij : i < j) :
    t.fieldOffset i + u.size ≤ t.fieldOffset j := by
  cases t with
  | struct fields => exact offsetFrom_apart h hij
  | array elem length =>
    obtain ⟨-, he⟩ := Option.ite_none_right_eq_some.mp h
    cases he
    rw [fieldOffset, fieldOffset, ← Nat.mul_succ]
    exact Nat.mul_le_mul_left _ hij
  | _ => cases h

/-! ### Paths -/

/-- The type of the part that a path leads to, if all its indices are in bounds. -/
def part? : List Nat → Ty → Option Ty
  | [], t => some t
  | i :: is, t => (t.field? i).bind (part? is)

/-- The offset that a path leads to. -/
def offsetOf : List Nat → Ty → Nat
  | [], _ => 0
  | i :: is, t => t.fieldOffset i + offsetOf is ((t.element i).getD .void)

theorem part?_cons (h : t.part? (i :: is) = some s) :
    ∃ u, t.field? i = some u ∧ u.part? is = some s :=
  Option.bind_eq_some_iff.mp h

theorem offsetOf_cons (h : t.field? i = some u) :
    t.offsetOf (i :: is) = t.fieldOffset i + u.offsetOf is := by
  rw [offsetOf, element_of_field? h, Option.getD_some]

/-- A part is inside of the whole. -/
theorem offsetOf_add_size_le (h : t.part? is = some s) : t.offsetOf is + s.size ≤ t.size := by
  induction is generalizing t with
  | nil =>
    obtain rfl := Option.some.inj h
    rw [offsetOf, Nat.zero_add]
  | cons i is ih =>
    obtain ⟨u, hu, hs⟩ := part?_cons h
    have hin := ih hs
    have hfield := fieldOffset_add_size_le hu
    rw [offsetOf_cons hu]
    omega

/-- Parts are apart when neither path goes on from the other. -/
theorem offsetOf_apart (hs : t.part? is = some s) (hs' : t.part? js = some s')
    (h : ¬ is <+: js) (h' : ¬ js <+: is) :
    t.offsetOf is + s.size ≤ t.offsetOf js ∨ t.offsetOf js + s'.size ≤ t.offsetOf is := by
  induction is generalizing t js with
  | nil => exact absurd List.nil_prefix h
  | cons i is ih =>
    cases js with
    | nil => exact absurd List.nil_prefix h'
    | cons j js =>
      obtain ⟨u, hu, hsu⟩ := part?_cons hs
      obtain ⟨u', hu', hsu'⟩ := part?_cons hs'
      rw [offsetOf_cons hu, offsetOf_cons hu']
      have hin := offsetOf_add_size_le hsu
      have hin' := offsetOf_add_size_le hsu'
      -- the paths part here, or later on inside of the same field
      rcases Nat.lt_trichotomy i j with hij | rfl | hij
      · have hapart := fieldOffset_apart hu hij
        exact .inl (by omega)
      · obtain rfl := Option.some.inj (hu.symm.trans hu')
        have hapart := ih hsu hsu' (fun hp => h (List.cons_prefix_cons.mpr ⟨rfl, hp⟩))
          fun hp => h' (List.cons_prefix_cons.mpr ⟨rfl, hp⟩)
        omega
      · have hapart := fieldOffset_apart hu' hij
        exact .inr (by omega)

end Lowering.IR.Ty

namespace Lowering.Exec

open IR (Ty)

variable {t u s s' : Ty} {i o k l n : Nat} {is js : List Nat} {bs new : List UInt8}

/-! ### Components -/

namespace RtValue

/-- The part of an aggregate at one index. -/
def field (t : Ty) (i : Nat) (x : RtValue) : RtValue :=
  let u := (t.element i).getD .void
  match x with
  | .bytes bs => decode ((bs.drop (t.fieldOffset i)).take u.size) u
  | x => x

/-- The part of a value that a path leads to. -/
def component : List Nat → Ty → RtValue → RtValue
  | [], _, x => x
  | i :: is, t, x => component is ((t.element i).getD .void) (x.field t i)

end RtValue

theorem take_drop_take_drop {bs : List UInt8} (h : k + l ≤ n) :
    (((bs.drop o).take n).drop k).take l = (bs.drop (o + k)).take l := by
  rw [List.drop_take, List.take_take, List.drop_drop, min_eq_left (by omega)]

theorem length_take_drop {bs : List UInt8} (h : o + n ≤ bs.length) :
    ((bs.drop o).take n).length = n := by
  rw [List.length_take, List.length_drop]
  omega

theorem decode_of_field? (h : t.field? i = some u) (bs : List UInt8) :
    decode bs t = .bytes bs := by
  cases t with
  | struct fields => rfl
  | array elem length => rfl
  | _ => cases h

theorem field_decode (h : t.field? i = some u) (bs : List UInt8) :
    (decode bs t).field t i = decode ((bs.drop (t.fieldOffset i)).take u.size) u := by
  rw [decode_of_field? h, RtValue.field, Ty.element_of_field? h]
  rfl

/-- The bytes of a component are those of the whole from its offset on. -/
theorem component_decode (h : t.part? is = some s) (hl : bs.length = t.size) :
    (decode bs t).component is t = decode ((bs.drop (t.offsetOf is)).take s.size) s := by
  induction is generalizing t bs with
  | nil =>
    obtain rfl := Option.some.inj h
    rw [RtValue.component, Ty.offsetOf, List.drop_zero, List.take_of_length_le hl.le]
  | cons i is ih =>
    obtain ⟨u, hu, hs⟩ := Ty.part?_cons h
    have hfield := Ty.fieldOffset_add_size_le hu
    rw [RtValue.component, Ty.element_of_field? hu, Option.getD_some, field_decode hu,
      ih hs (length_take_drop (by omega)), take_drop_take_drop (Ty.offsetOf_add_size_le hs),
      Ty.offsetOf_cons hu]

/-! ### Replaced bytes -/

/-- Bytes with some of them replaced from an offset on. -/
def splice (o : Nat) (new bs : List UInt8) : List UInt8 :=
  bs.take o ++ new ++ bs.drop (o + new.length)

theorem length_splice (h : o + new.length ≤ bs.length) :
    (splice o new bs).length = bs.length := by
  simp only [splice, List.length_append, List.length_take, List.length_drop]
  omega

theorem splice_self (h : o + new.length ≤ bs.length) :
    ((splice o new bs).drop o).take new.length = new := by
  have ho : (bs.take o).length = o := List.length_take_of_le (by omega)
  rw [splice, List.append_assoc, List.drop_left' ho, List.take_left]

theorem splice_apart (h : o + new.length ≤ bs.length)
    (hk : k + l ≤ o ∨ o + new.length ≤ k) :
    ((splice o new bs).drop k).take l = (bs.drop k).take l := by
  have ho : (bs.take o).length = o := List.length_take_of_le (by omega)
  have hon : (bs.take o ++ new).length = o + new.length := by rw [List.length_append, ho]
  rw [splice]
  rcases hk with hk | hk
  · rw [List.append_assoc, List.drop_append_of_le_length (by omega),
      List.take_append_of_le_length (by rw [List.length_drop]; omega), List.drop_take,
      List.take_take, min_eq_left (by omega)]
  · rw [List.drop_append, List.drop_eq_nil_of_le (by omega), List.nil_append, List.drop_drop, hon,
      Nat.add_sub_cancel' hk]

/-- What is put in the place of a component is the component. -/
theorem component_splice_self (h : t.part? is = some s) (hl : bs.length = t.size)
    (hn : new.length = s.size) :
    (decode (splice (t.offsetOf is) new bs) t).component is t = decode new s := by
  have hin := Ty.offsetOf_add_size_le h
  rw [component_decode h ((length_splice (by omega)).trans hl), ← hn, splice_self (by omega)]

/-- A component apart from what is replaced stays. -/
theorem component_splice_apart (h : t.part? is = some s) (h' : t.part? js = some s')
    (hij : ¬ is <+: js) (hji : ¬ js <+: is) (hl : bs.length = t.size) (hn : new.length = s.size) :
    (decode (splice (t.offsetOf is) new bs) t).component js t = (decode bs t).component js t := by
  have hin := Ty.offsetOf_add_size_le h
  have hapart := Ty.offsetOf_apart h h' hij hji
  rw [component_decode h' ((length_splice (by omega)).trans hl), component_decode h' hl,
    splice_apart (by omega) (by omega)]

end Lowering.Exec
