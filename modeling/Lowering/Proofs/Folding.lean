import Lowering.IR.Builder
import Lowering.Proofs.Allocating
import Lowering.Proofs.Numbering

/-!
# Casts that are folded

A cast of a constant is folded into a constant, and a cast that changes nothing is left out.  A run
cannot tell: it reads from what stands for the cast what the cast instruction comes to.

* `Exec.Resizes`, `Exec.wrap_foldIntCast`: changes of width, before the run and during it;
* `Exec.castValue_bitcast_self`: casts to the type at hand;
* `Exec.Folds`: the casts that are folded or left out;
* `Exec.Run.folds_of_foldCast`: there are no others;
* `Exec.Run.returns_of_folds`: what they come to.
-/

namespace Lowering.Exec

open IR (Ty Constant Value GlobalId FuncId Module Builder Build CastOp)

variable {n k j : Nat} {c : Int}

/-! ### Changes of width -/

@[simp] theorem wrap_zero_right (n : Nat) : wrap n 0 = 0 := by
  unfold wrap
  split <;> simp

theorem lowBits_emod (h : j ≤ k) (c : Int) :
    Build.lowBits k c % (2 ^ j : Nat) = c % (2 ^ j : Nat) := by
  unfold Build.lowBits
  split
  · rfl
  · rw [Exec.twoTo_eq, Int.emod_emod_of_dvd _ (dvd_twoTo h)]

/-- The pairs of widths that a change of width is for. -/
def Resizes (op : CastOp) (n k : Nat) : Prop :=
  match op with
  | .trunc => k ≤ n
  | .zext | .sext => n ≤ k
  | _ => False

theorem wrap_trunc (h : k ≤ n) : wrap k (Build.foldIntCast .trunc c n k) = wrap k (wrap n c) := by
  rw [wrap_wrap_of_le h, Build.foldIntCast, min_eq_right h]
  by_cases h1 : k = 1
  · subst h1
    simp [wrap, Build.lowBits, twoTo]
  · simp only [if_neg h1]
    exact wrap_of_emod le_rfl (lowBits_emod (min_le_left k 64) c)

theorem wrap_zext (h : n ≤ k) :
    wrap k (Build.foldIntCast .zext c n k) = wrap k (zeroExtend n (wrap n c)) := by
  rw [Build.foldIntCast, min_eq_left h, Build.lowBits, zeroExtend]
  by_cases h64 : 64 ≤ n
  · -- both widths take all 64 bits, and nothing is cut off
    have h1 : k ≠ 1 := by omega
    simp only [if_pos h64, if_neg h1]
    exact (wrap_of_emod le_rfl (wrap_emod (by omega : min k 64 ≤ min n 64) c)).symm
  · have hlow : wrap n c % (twoTo n : Nat) = c % (twoTo n : Nat) := wrap_emod (by omega) c
    simp only [if_neg h64, hlow]
    split
    · rename_i h1
      subst h1
      simp [wrap]
    · rfl

theorem wrap_sext (h : n ≤ k) : wrap k (Build.foldIntCast .sext c n k) =
    wrap k (if n = 1 then -wrap n c else wrap n c) := by
  rw [Build.foldIntCast]
  by_cases hc : 64 ≤ n ∨ k ≤ n
  · rw [if_pos hc]
    by_cases h1 : n = 1
    · obtain rfl : k = 1 := by omega
      subst h1
      simp only [wrap, if_true]
      omega
    · rw [if_neg h1]
      exact (wrap_of_emod le_rfl (wrap_emod (by omega : min k 64 ≤ min n 64) c)).symm
  · rw [if_neg hc]
    -- one bit is zero or one at run time, and zero or minus one when it is folded
    by_cases h1 : n = 1
    · subst h1
      have hbit : Int.bmod c (twoTo 1) = -(c % 2) := by
        rw [twoTo_eq, Int.bmod_def]
        split <;> omega
      rw [hbit]
      rfl
    · have hn : wrap n c = Int.bmod c (twoTo n) := by rw [wrap, if_neg h1, min_eq_left (by omega)]
      rw [if_neg h1, hn]

/-- A change of width comes to the same before the run and during it. -/
theorem wrap_foldIntCast {op : CastOp} (h : Resizes op n k) :
    castValue op (.int n (wrap n c)) (.int n) (.int k) =
      .int k (wrap k (Build.foldIntCast op c n k)) := by
  cases op with
  | trunc => exact congrArg (RtValue.int k) (wrap_trunc h).symm
  | zext => exact congrArg (RtValue.int k) (wrap_zext h).symm
  | sext => exact congrArg (RtValue.int k) (wrap_sext h).symm
  | _ => exact h.elim

/-! ### Casts to the type at hand -/

theorem castValue_bitcast_self {t : Ty} {x : RtValue} (h : decode (encode x t) t = x) :
    castValue .bitcast x t t = x := by
  cases x with
  | ptr p => rfl
  | _ => exact h

theorem castValue_bitcast_zeroOf (t : Ty) : castValue .bitcast (zeroOf t) t t = zeroOf t := by
  cases t with
  | ptr t => rfl
  | void => rfl
  | int bits =>
    refine castValue_bitcast_self ?_
    rw [zeroOf, decode_encode_int, wrap_zero_right]
  | float => exact castValue_bitcast_self (RtValue.Of.float _).decode_encode
  | double => exact castValue_bitcast_self (RtValue.Of.double _).decode_encode
  | array elem n => exact castValue_bitcast_self (RtValue.Of.array (by simp)).decode_encode
  | struct fields => exact castValue_bitcast_self (RtValue.Of.struct (by simp)).decode_encode

/-- A constant is kept by a cast to its own type. -/
theorem castValue_bitcast_constantValue (globals : Array Nat) (c : Constant) :
    castValue .bitcast (constantValue globals c) c.type c.type = constantValue globals c := by
  cases c with
  | int bits value =>
    refine castValue_bitcast_self ?_
    rw [constantValue, Constant.type, decode_encode_int, wrap_wrap_of_le le_rfl]
  | float double x =>
    cases double with
    | true => exact castValue_bitcast_self (RtValue.Of.double _).decode_encode
    | false => exact castValue_bitcast_self (RtValue.Of.float _).decode_encode
  | null t => rw [constantValue, Constant.type, castValue_bitcast_zeroOf]
  | undef t => rw [constantValue, Constant.type, castValue_bitcast_zeroOf]
  | array elem values =>
    have hlength : (elementBytes globals elem values).length = (Ty.array elem values.length).size := by
      rw [length_elementBytes, Ty.size]
    rw [constantValue, Constant.type]
    exact castValue_bitcast_self (RtValue.Of.array hlength).decode_encode
  | globalAddr g t =>
    rw [constantValue]
    rfl

/-! ### Folded casts -/

/-- The casts that are folded or left out: the operand, its type, and the new type. -/
inductive Folds : CastOp → Value → Ty → Ty → Prop
  /-- An integer of another width. -/
  | resize {op : CastOp} {v : Value} {n k : Nat} (hop : Resizes op n k)
    (hv : v.constInt?.isSome) : Folds op v (.int n) (.int k)
  /-- Zero as a pointer. -/
  | intToPtr {v : Value} {n : Nat} {t : Ty} (hv : v.constInt? = some 0) :
    Folds .intToPtr v (.int n) (.ptr t)
  /-- The null pointer as an integer. -/
  | ptrToInt {s : Ty} {k : Nat} : Folds .ptrToInt (.null (.ptr s)) (.ptr s) (.int k)
  /-- The null pointer, or the address of a global, as a pointer of another type. -/
  | null {s t : Ty} : Folds .bitcast (.null (.ptr s)) (.ptr s) (.ptr t)
  | globalAddr {g : GlobalId} {s t : Ty} :
    Folds .bitcast (.const (.globalAddr g (.ptr s))) (.ptr s) (.ptr t)
  | global {g : GlobalId} {s t : Ty} : Folds .bitcast (.global g) (.ptr s) (.ptr t)
  /-- Any value as one of its own type. -/
  | self {v : Value} {t : Ty} : Folds .bitcast v t t

namespace Run

/-- An operand is known before the run, or has a value of its type by then. -/
def Suits (m : Module) (f : FuncId) (fr : Frame) (globals : Array Nat) (t : Ty) : Value → Prop
  | .const _ | .global _ => True
  | v => m.typeOf f v = t ∧ ∃ x, fr.value? globals v = some x ∧ RtValue.Of t x

variable {m : Module} {call : FuncId → List RtValue → Run RtValue} {f : FuncId} {fr : Frame}
  {σ : State} {op : CastOp} {v w : Value} {t : Ty} {b : Builder} {x : RtValue}

/-- What is read from a constant integer. -/
theorem value?_of_constInt (hv : v.constInt? = some c) (ht : b.typeOf v = .int n)
    (globals : Array Nat) : fr.value? globals v = some (.int n (wrap n c)) := by
  unfold Value.constInt? at hv
  split at hv
  · cases hv
    cases ht
    rfl
  · cases hv
    cases ht
    rw [wrap_zero_right]
    rfl
  · cases hv

theorem typeOf_of_constInt (hv : v.constInt? = some c) : m.typeOf f v = b.typeOf v := by
  cases v with
  | const d => rfl
  | _ => cases hv

/-- A run reads from an operand what a cast comes to. -/
def StandsFor (w : Value) (op : CastOp) (v : Value) (s t : Ty) : Prop :=
  ∀ (m : Module) (f : FuncId) (fr : Frame) (globals : Array Nat), Suits m f fr globals s v →
    ∃ x, fr.value? globals v = some x ∧
      fr.value? globals w = some (castValue op x (m.typeOf f v) t)

theorem standsFor_resize (hop : Resizes op n k) (hc : v.constInt? = some c)
    (ht : b.typeOf v = .int n) :
    StandsFor (.int k (Build.foldIntCast op c n k)) op v (.int n) (.int k) := by
  refine fun m f fr globals _ => ⟨_, value?_of_constInt hc ht globals, ?_⟩
  rw [typeOf_of_constInt hc, ht, wrap_foldIntCast hop]
  rfl

theorem standsFor_intToPtr (hc : v.constInt? = some 0) (ht : b.typeOf v = .int n) :
    StandsFor (.null (.ptr t)) .intToPtr v (.int n) (.ptr t) := by
  refine fun m f fr globals _ => ⟨_, value?_of_constInt hc ht globals, ?_⟩
  rw [wrap_zero_right]
  rfl

theorem standsFor_ptrToInt {s : Ty} :
    StandsFor (.int k 0) .ptrToInt (.null (.ptr s)) (.ptr s) (.int k) :=
  fun _ _ _ _ _ => ⟨.ptr 0, rfl, rfl⟩

/-- A pointer is the same at every type of pointers. -/
theorem standsFor_pointer {s : Ty}
    (h : ∀ (fr : Frame) (globals : Array Nat), ∃ p, fr.value? globals v = some (.ptr p) ∧
      fr.value? globals w = some (.ptr p)) : StandsFor w .bitcast v s t := by
  intro m f fr globals _
  obtain ⟨p, hv, hw⟩ := h fr globals
  exact ⟨.ptr p, hv, hw⟩

theorem standsFor_self (ht : b.typeOf v = t) : StandsFor v .bitcast v t t := by
  intro m f fr globals hv
  cases v with
  | const c =>
    refine ⟨constantValue globals c, rfl, ?_⟩
    have htype : c.type = t := ht
    show some (constantValue globals c) = some (castValue .bitcast _ c.type t)
    rw [← htype, castValue_bitcast_constantValue]
  | global g => exact ⟨.ptr (globals[g.index]?.getD 0), rfl, rfl⟩
  | inst id | param i =>
    obtain ⟨htype, x, hx, hof⟩ := hv
    refine ⟨x, hx, ?_⟩
    rw [hx, htype, castValue_bitcast_self hof.decode_encode]

/-- A cast to the type at hand is left out, and a cast to another type may be folded. -/
theorem foldCast_bitcast {s : Ty} (hs : b.typeOf v = s)
    (hfold : s ≠ t → Build.foldCast .bitcast v s t = some w) (hw : StandsFor w .bitcast v s t) :
    ∃ w, Build.foldCast .bitcast v s t = some w ∧ StandsFor w .bitcast v s t := by
  by_cases hst : s = t
  · subst hst
    exact ⟨v, if_pos rfl, standsFor_self hs⟩
  · exact ⟨w, hfold hst, hw⟩

/-- A cast of the list is folded, and what it is folded to stands for it. -/
theorem foldCast_of_folds (h : Folds op v (b.typeOf v) t) :
    ∃ w, Build.foldCast op v (b.typeOf v) t = some w ∧ StandsFor w op v (b.typeOf v) t := by
  generalize hs : b.typeOf v = s at h
  cases h with
  | @resize _ _ n k hop hv =>
    obtain ⟨c, hc⟩ := Option.isSome_iff_exists.mp hv
    refine ⟨_, ?_, standsFor_resize hop hc hs⟩
    cases op with
    | trunc | zext | sext => simp only [Build.foldCast, hc, Ty.bits?, Option.getD_some]
    | _ => exact hop.elim
  | intToPtr hv => exact ⟨_, if_pos hv, standsFor_intToPtr hv hs⟩
  | ptrToInt => exact ⟨_, rfl, standsFor_ptrToInt⟩
  | null =>
    exact foldCast_bitcast hs (fun h => if_neg h) (standsFor_pointer fun _ _ => ⟨0, rfl, rfl⟩)
  | globalAddr =>
    exact foldCast_bitcast hs (fun h => if_neg h) (standsFor_pointer fun _ _ => ⟨_, rfl, rfl⟩)
  | global =>
    exact foldCast_bitcast hs (fun h => if_neg h) (standsFor_pointer fun _ _ => ⟨_, rfl, rfl⟩)
  | self => exact foldCast_bitcast hs (fun h => absurd rfl h) (standsFor_self hs)

/-- The types that a cast is for. -/
def Between (op : CastOp) (s t : Ty) : Prop :=
  match op, s, t with
  | .bitcast, .ptr _, .ptr _ | .intToPtr, .int _, .ptr _ | .ptrToInt, .ptr _, .int _ => True
  | .bitcast, s, t => s = t
  | op, .int n, .int k => Resizes op n k
  | _, _, _ => False

/-- Among the casts between types that they are for, no others are folded. -/
theorem folds_of_foldCast (ht : Between op (b.typeOf v) t)
    (h : Build.foldCast op v (b.typeOf v) t = some w) : Folds op v (b.typeOf v) t := by
  generalize hs : b.typeOf v = s at ht h
  unfold Between at ht
  split at ht
  · rename_i s t
    -- a pointer of another type: the operand says which fold it is
    simp only [Build.foldCast] at h
    split at h
    · rename_i hst
      rw [← hst]
      exact .self
    · split at h
      · cases hs
        exact .null
      · cases hs
        exact .globalAddr
      · exact .global
      · cases h
  · simp only [Build.foldCast] at h
    split at h
    · exact .intToPtr ‹_›
    · cases h
  · cases v with
    | const c =>
      cases c with
      | null s =>
        cases hs
        exact .ptrToInt
      | _ => cases h
    | _ => cases h
  · rw [ht]
    exact .self
  · refine .resize ht ?_
    cases hc : v.constInt? with
    | some c => rfl
    | none => cases op <;> first | exact ht.elim | simp [Build.foldCast, hc] at h
  · exact ht.elim

theorem cast_of_foldCast (h : Build.foldCast op v (b.typeOf v) t = some w) :
    @Eq (Value × Builder) (Build.cast op v t b) (w, b) := by
  rw [Build.cast_eq, h]
  rfl

/-- A folded cast places no instruction, and a run reads from what stands for it what the
instruction would come to. -/
theorem returns_of_folds (h : Folds op v (b.typeOf v) t) :
    ∃ w, @Eq (Value × Builder) (Build.cast op v t b) (w, b) ∧
      ∀ (m : Module) (call : FuncId → List RtValue → Run RtValue) (f : FuncId) (fr : Frame)
        (σ : State), Suits m f fr σ.globals (b.typeOf v) v →
          ∃ x, Returns (operand fr w) σ x σ ∧
            Returns (instruction m call f fr (.cast op v) t) σ x σ := by
  obtain ⟨w, hfold, hw⟩ := foldCast_of_folds h
  refine ⟨w, cast_of_foldCast hfold, fun m call f fr σ hv => ?_⟩
  obtain ⟨x, hx, hread⟩ := hw m f fr σ.globals hv
  exact ⟨_, returns_operand hread, returns_cast hx⟩

/-- One number of eight bits, out of their range, sign-extended to 32 bits. -/
theorem returns_of_folds_sext :
    Folds .sext (.i8 200) .i8 .i32 ∧
      Suits { name := "" } ⟨0⟩ ⟨[], #[]⟩ #[] .i8 (.i8 200) ∧
      ∃ x, Returns (operand ⟨[], #[]⟩ (.i32 (-56))) {} x {} ∧
        Returns (instruction { name := "" } (fun _ _ => pure .void) ⟨0⟩ ⟨[], #[]⟩
          (.cast .sext (.i8 200)) .i32) {} x {} := by
  have hfolds : Folds .sext (.i8 200) .i8 .i32 := .resize (by decide : 8 ≤ 32) rfl
  refine ⟨hfolds, trivial, ?_⟩
  obtain ⟨w, hw, hrun⟩ := returns_of_folds (b := .new "") (v := .i8 200) hfolds
  have hfold : w = .i32 (-56) := congrArg Prod.fst (hw.symm.trans (cast_of_foldCast rfl))
  obtain rfl := hfold
  exact hrun _ _ _ _ _ trivial

end Run

end Lowering.Exec
