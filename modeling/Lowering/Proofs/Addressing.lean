import Lowering.IR.Builder
import Lowering.Proofs.Allocating
import Lowering.Proofs.Component

/-!
# Addresses of parts

The address of a part is exact: it has the offset that the indices lead to, counted in the
integers, in the allocation of the pointer they start from, or the run stops.  This is so for
indices after the first that are not negative and lead to less than `2 ^ 63` bytes: a negative
index counts as zero, and a greater offset is read as a negative word.

* `Exec.Run.stepIndices_exact`: the indices after the first;
* `Exec.Run.returns_gep_exact`, `Exec.Run.stops_gep_exact`: what an address comes to;
* `IR.Build.gep_part`: the type that it has.
-/

namespace Lowering

open IR (Ty Value FuncId Module Builder Build)

namespace IR

/-! ### Constant indices -/

/-- A constant operand that stands for a number in the range of its width. -/
inductive Numeral : Value → Int → Prop
  | int {bits : Nat} {i : Int} (h : Exec.wrap bits i = i) : Numeral (.int bits i) i
  | null {bits : Nat} : Numeral (.null (.int bits)) 0

theorem Numeral.constInt? {v : Value} {i : Int} (h : Numeral v i) : v.constInt? = some i := by
  cases h <;> rfl

theorem Numeral.value? {v : Value} {i : Int} (h : Numeral v i) (fr : Exec.Run.Frame)
    (globals : Array Nat) : ∃ bits, fr.value? globals v = some (.int bits i) := by
  cases h with
  | @int bits i h => exact ⟨bits, congrArg (fun j => some (Exec.RtValue.int bits j)) h⟩
  | @null bits => exact ⟨bits, rfl⟩

/-- Constant operands that stand for the indices of a path. -/
abbrev Path (vs : List Value) (path : List Nat) : Prop :=
  List.Forall₂ (fun v (k : Nat) => Numeral v k) vs path

namespace Build

variable {t u s : Ty} {v : Value} {k : Nat} {vs : List Value} {path : List Nat}

theorem stepType_field (hv : Numeral v k) (h : t.field? k = some u) :
    stepType (some t) v = some u := by
  cases t with
  | struct fields =>
    simp only [stepType, hv.constInt?, Int.natCast_nonneg, if_true, Int.toNat_natCast]
    exact h
  | array elem length =>
    obtain ⟨-, he⟩ := Option.ite_none_right_eq_some.mp h
    cases he
    simp only [stepType]
  | _ => cases h

theorem foldl_stepType (hvs : Path vs path) (h : t.part? path = some s) :
    vs.foldl stepType (some t) = some s := by
  induction hvs generalizing t with
  | nil => exact h
  | cons hv _ ih =>
    obtain ⟨u, hu, hs⟩ := Ty.part?_cons h
    rw [List.foldl_cons, stepType_field hv hu]
    exact ih hs

/-- The address of a part has the type of pointers to the type of the part. -/
theorem gep_part {b : Builder} {p z : Value} (hp : b.typeOf p = .ptr t) (hvs : Path vs path)
    (h : t.part? path = some s) :
    @Eq (Value × Builder) (gep p (z :: vs) b) (push (.gep p (z :: vs)) (.ptr s) none b) := by
  show push (.gep p (z :: vs)) ((((vs.foldl stepType (b.typeOf p).pointee?)).map Ty.ptr).getD .void)
    none b = _
  rw [hp, Ty.pointee?, foldl_stepType hvs h]
  rfl

end Build

end IR

namespace Exec

namespace Run

variable {σ : State} {fr : Frame} {m : Module} {f : FuncId} {t : Ty} {v z p : Value}
  {call : FuncId → List RtValue → Run RtValue} {vs : List Value} {path : List Nat}
  {i o : Nat} {start index : Int} {e : Fault}

/-- Operands read as the indices of a path. -/
abbrev Indices (fr : Frame) (σ : State) (vs : List Value) (path : List Nat) : Prop :=
  List.Forall₂ (fun v (k : Nat) => Returns (intOperand fr v) σ k σ) vs path

theorem indices_of_path (h : IR.Path vs path) : Indices fr σ vs path :=
  h.imp fun _ _ hv =>
    let ⟨_, hx⟩ := hv.value? fr σ.globals
    returns_intOperand hx

/-! ### Offsets -/

theorem fitsWord_iff {n : Int} : fitsWord n = true ↔ -2 ^ 63 ≤ n ∧ n < 2 ^ 63 := decide_eq_true_iff

theorem firstStep?_eq_some (h : firstStep? t index = some start) :
    (-2 ^ 63 ≤ index * t.size ∧ index * t.size < 2 ^ 63) ∧ index * t.size = start := by
  obtain ⟨hfits, hstart⟩ := Option.ite_none_right_eq_some.mp h
  exact ⟨fitsWord_iff.mp hfits, Option.some.inj hstart⟩

theorem addOffsets?_word {s : Int} {k : Nat} (hlow : -2 ^ 63 ≤ s) (hk : k < 2 ^ 63) :
    addOffsets? s (ofWord k) = if s + k < 2 ^ 63 then some (s + k) else none := by
  have hfits : fitsWord (s + k) = true ↔ s + k < 2 ^ 63 :=
    fitsWord_iff.trans ⟨And.right, fun h => ⟨by omega, h⟩⟩
  rw [ofWord_of_lt hk, addOffsets?]
  simp only [hfits]

theorem stepIndices_of_some {s r : Int} {k : Nat} (hv : Returns (intOperand fr v) σ k σ)
    (h : addOffsets? s (ofWord (t.fieldOffset k)) = some r) :
    @Eq (Except Fault Int × State) (stepIndices fr e t s (v :: vs) σ)
      (stepIndices fr e ((t.element k).getD .void) r vs σ) := by
  refine (bind_eq hv).trans ?_
  rw [Int.toNat_natCast, h]

theorem stops_stepIndices {s : Int} {k : Nat} (hv : Returns (intOperand fr v) σ k σ)
    (h : addOffsets? s (ofWord (t.fieldOffset k)) = none) :
    Stops (stepIndices fr e t s (v :: vs)) σ e σ := by
  refine .after hv ?_
  simp only [Int.toNat_natCast, h]
  exact stops_throw e

/-- The offsets of parts are added up, unless the sum leaves the words of 64 bits. -/
theorem stepIndices_exact {s : Int} (hvs : Indices fr σ vs path) (hlow : -2 ^ 63 ≤ s)
    (hstart : s < 2 ^ 63) (hoff : t.offsetOf path < 2 ^ 63) :
    if s + t.offsetOf path < 2 ^ 63 then
      Returns (stepIndices fr e t s vs) σ (s + t.offsetOf path) σ
    else Stops (stepIndices fr e t s vs) σ e σ := by
  induction hvs generalizing t s with
  | nil =>
    rw [Ty.offsetOf, Int.natCast_zero, add_zero, if_pos hstart]
    exact returns_pure s σ
  | @cons v k vs path hv _ ih =>
    rw [Ty.offsetOf] at hoff ⊢
    have hadd := addOffsets?_word (k := t.fieldOffset k) hlow (by omega)
    by_cases hfits : s + t.fieldOffset k < 2 ^ 63
    · have hrest := ih (t := (t.element k).getD .void) (s := s + t.fieldOffset k)
        (by omega) hfits (by omega)
      rw [Nat.cast_add, ← add_assoc, Returns, Stops,
        stepIndices_of_some hv (hadd.trans (if_pos hfits))]
      exact hrest
    · -- a sum that is too large stays so, as the parts further inside are not before this one
      rw [if_neg (by push_cast; omega)]
      exact stops_stepIndices hv (hadd.trans (if_neg hfits))

/-! ### Addresses -/

/-- An address moved within its allocation. -/
theorem moved?_inside (ho : o < offsetRange) (d : Int) : moved? (baseAddress i + o) d =
    if 0 ≤ o + d ∧ o + d < offsetRange then some (baseAddress i + (o + d).toNat) else none := by
  have hbase : (baseAddress i + o) / offsetRange * offsetRange = baseAddress i := by
    rw [baseAddress_add_div ho, baseAddress]
  simp only [moved?, baseAddress_add_mod ho, hbase]

/-- The offset that a first index and the indices of a path lead to, counted in the integers. -/
def target (t : Ty) (o : Nat) (index : Int) (path : List Nat) : Int :=
  o + (index * t.size + t.offsetOf path)

section

variable {a : Nat} {stop : Int}

theorem stops_address_first (hz : Returns (intOperand fr z) σ index σ)
    (h : firstStep? t index = none) : Stops (address fr a t (z :: vs)) σ (.outOfBounds a 0) σ := by
  refine .after hz ?_
  rw [h]
  exact (stops_throw _).bind

theorem stops_address_steps (hz : Returns (intOperand fr z) σ index σ)
    (h : firstStep? t index = some start)
    (hstop : Stops (stepIndices fr (.outOfBounds a 0) t start vs) σ e σ) :
    Stops (address fr a t (z :: vs)) σ e σ := by
  refine .after hz ?_
  rw [h]
  exact hstop.bind

theorem stops_address_moved (hz : Returns (intOperand fr z) σ index σ)
    (h : firstStep? t index = some start)
    (hstop : Returns (stepIndices fr (.outOfBounds a 0) t start vs) σ stop σ) (h0 : a ≠ 0)
    (hmoved : moved? a stop = none) :
    Stops (address fr a t (z :: vs)) σ (.outOfBounds a 0) σ := by
  refine .after hz ?_
  rw [h]
  refine .after hstop ?_
  dsimp only
  rw [if_neg h0, hmoved]
  exact stops_throw _

end

section

variable (hp : fr.value? σ.globals p = some (.ptr (baseAddress i + o))) (hty : m.typeOf f p = .ptr t)
  (ho : o < offsetRange) (hz : Returns (intOperand fr z) σ index σ) (hvs : Indices fr σ vs path)
  (hoff : t.offsetOf path + offsetRange ≤ 2 ^ 63)

include hp hty ho hz hvs hoff

theorem returns_gep_exact {u : Ty} {q : Nat} (hq : target t o index path = q)
    (hlt : q < offsetRange) : Returns (instruction m call f fr (.gep p (z :: vs)) u) σ
      (.ptr (baseAddress i + q)) σ := by
  have hrange : offsetRange = 4294967296 := rfl
  unfold target at hq
  -- the whole sum is small, and so is what the first index adds to it, whatever its sign
  have hfirst : firstStep? t index = some (index * t.size) :=
    if_pos (fitsWord_iff.mpr (by omega))
  have hsteps := stepIndices_exact (e := .outOfBounds (baseAddress i + o) 0)
    (t := t) (s := index * t.size) hvs (by omega) (by omega) (by omega)
  rw [if_pos (by omega)] at hsteps
  have hmoved : moved? (baseAddress i + o) (index * t.size + t.offsetOf path) =
      some (baseAddress i + q) := by
    rw [moved?_inside ho, if_pos (by omega), hq, Int.toNat_natCast]
  refine (returns_ptrOperand hp).bind ?_
  rw [hty]
  exact returns_address hz hfirst hsteps baseAddress_add_ne_zero hmoved

theorem stops_gep_exact {u : Ty}
    (hout : ¬ (0 ≤ target t o index path ∧ target t o index path < offsetRange)) :
    Stops (instruction m call f fr (.gep p (z :: vs)) u) σ (.outOfBounds (baseAddress i + o) 0) σ := by
  have hrange : offsetRange = 4294967296 := rfl
  unfold target at hout
  have hmoved : moved? (baseAddress i + o) (index * t.size + t.offsetOf path) = none := by
    rw [moved?_inside ho, if_neg hout]
  refine .after (returns_ptrOperand hp) ?_
  rw [hty]
  cases hfirst : firstStep? t index with
  | none => exact stops_address_first hz hfirst
  | some first =>
    obtain ⟨hfits, rfl⟩ := firstStep?_eq_some hfirst
    have hsteps := stepIndices_exact (t := t) (e := .outOfBounds (baseAddress i + o) 0) hvs
      hfits.1 hfits.2 (by omega)
    split at hsteps
    · exact stops_address_moved hz hfirst hsteps baseAddress_add_ne_zero hmoved
    · exact stops_address_steps hz hfirst hsteps

end

end Run

end Exec

end Lowering
