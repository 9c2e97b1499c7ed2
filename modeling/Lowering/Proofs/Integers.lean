import Mathlib.Data.Int.Bitwise
import Lowering.Proofs.Arrays
import Lowering.Proofs.Range

/-!
# Integer primitives

Operations on integers of two widths are carried out on integers of the wider width, and their
results reduced to it; a conversion reduces a number to the width of its target.

* `reduced`: the number of a width that is congruent to a number;
* `BinaryPrimitive.onIntegers`: what an operation gives, in the integers;
* `Gen.performs_numericCast`, `Gen.performs_combineInts`, `Gen.concludes_combineInts`: the parts of
  the bodies;
* `Gen.Computes`, `Gen.integers_computed`: what calls of the functions come to.
-/

namespace Lowering

open IR (Ty Value FuncId Build Module)
open Exec (RtValue Fault Signed)
open Exec.Run (callWithin callValues Stops)

/-! ### Numbers of a width -/

/-- An integer reduced to a width, as a signed number. -/
def reduced (bits : Nat) (i : Int) : Int := Int.bmod i (2 ^ bits)

theorem signed_reduced {bits : Nat} (h : 2 ≤ bits) (i : Int) : Signed bits (reduced bits i) :=
  Exec.signed_bmod h i

theorem reduced_of_signed {bits : Nat} {i : Int} (h : 2 ≤ bits) (hi : Signed bits i) :
    reduced bits i = i :=
  Exec.bmod_of_signed h hi

theorem reduced_modEq (bits : Nat) (i : Int) : reduced bits i ≡ i [ZMOD 2 ^ bits] := by
  have h : Int.bmod i (2 ^ bits) % (2 ^ bits : Nat) = i % (2 ^ bits : Nat) := Int.bmod_emod
  rwa [Nat.cast_pow] at h

theorem reduced_reduced {a b : Nat} (h : a ≤ b) (i : Int) : reduced a (reduced b i) = reduced a i :=
  Int.bmod_bmod_of_dvd (Nat.pow_dvd_pow 2 h)

theorem wrap_eq_reduced {bits : Nat} (h : 2 ≤ bits) (h' : bits ≤ 64) (i : Int) :
    Exec.wrap bits i = reduced bits i :=
  Exec.wrap_eq h h' i

/-! ### Bits -/

namespace Exec

theorem getLsbD_ofInt {n k : Nat} (x : Int) :
    (BitVec.ofInt n x).getLsbD k = (decide (k < n) && x.testBit k) := by
  cases x with
  | ofNat m =>
    show (BitVec.ofNat n m).getLsbD k = _
    rw [BitVec.getLsbD_ofNat]
    rfl
  | negSucc m =>
    rw [BitVec.ofInt_negSucc_eq_not_ofNat, BitVec.getLsbD_not, BitVec.getLsbD_ofNat]
    by_cases hk : k < n <;> simp [hk, Int.testBit]

theorem ofInt_land (n : Nat) (x y : Int) :
    BitVec.ofInt n (Int.land x y) = BitVec.ofInt n x &&& BitVec.ofInt n y := by
  refine BitVec.eq_of_getLsbD_eq fun k hk => ?_
  simp only [BitVec.getLsbD_and, getLsbD_ofInt, Int.testBit_land, hk, decide_true, Bool.true_and]

theorem ofInt_lor (n : Nat) (x y : Int) :
    BitVec.ofInt n (Int.lor x y) = BitVec.ofInt n x ||| BitVec.ofInt n y := by
  refine BitVec.eq_of_getLsbD_eq fun k hk => ?_
  simp only [BitVec.getLsbD_or, getLsbD_ofInt, Int.testBit_lor, hk, decide_true, Bool.true_and]

theorem bitwise_and (x y : Int) : bitwise (· &&& ·) x y = reduced 64 (Int.land x y) := by
  rw [bitwise, ← ofInt_land, BitVec.toInt_ofInt, reduced]

theorem bitwise_or (x y : Int) : bitwise (· ||| ·) x y = reduced 64 (Int.lor x y) := by
  rw [bitwise, ← ofInt_lor, BitVec.toInt_ofInt, reduced]

end Exec

/-! ### Operations in the integers -/

/-- The outcome of an operation on two integers that meet in a width: the exact result reduced to
the width, or the comparison of the numbers. -/
def BinaryPrimitive.onIntegers (op : BinaryPrimitive) (bits : Nat) (x y : Int) :
    Except Fault RtValue :=
  match op with
  | .add => .ok (.int bits (reduced bits (x + y)))
  | .sub => .ok (.int bits (reduced bits (x - y)))
  | .mul => .ok (.int bits (reduced bits (x * y)))
  | .div => if y = 0 then .error .divisionByZero else .ok (.int bits (reduced bits (x.tdiv y)))
  | .rem => if y = 0 then .error .divisionByZero else .ok (.int bits (reduced bits (x.tmod y)))
  | .and => .ok (.int bits (reduced bits (Int.land x y)))
  | .or => .ok (.int bits (reduced bits (Int.lor x y)))
  | .eq => .ok (Gen.bit (decide (x = y)))
  | .ne => .ok (Gen.bit (decide (x ≠ y)))
  | .lt => .ok (Gen.bit (decide (x < y)))
  | .le => .ok (Gen.bit (decide (x ≤ y)))
  | .gt => .ok (Gen.bit (decide (x > y)))
  | .ge => .ok (Gen.bit (decide (x ≥ y)))

/-- What an operation on integers that meet in a width returns. -/
def BinaryPrimitive.resultKind (op : BinaryPrimitive) (bits : Nat) : TypeKind :=
  match op with
  | .add | .sub | .mul | .div | .rem | .and | .or => .int bits
  | .eq | .ne | .lt | .le | .gt | .ge => .bool

variable {op : BinaryPrimitive} {bits a b : Nat} {x y : Int}

theorem BinaryPrimitive.onIntegers_comparison {pred : IR.IntPredicate}
    (h : Gen.onInts op = .comparison pred) (bits : Nat) (x y : Int) :
    op.onIntegers bits x y = .ok (Gen.bit (pred.holds x y)) ∧ op.resultKind bits = .bool := by
  cases op <;> cases h <;> exact ⟨rfl, rfl⟩

theorem BinaryPrimitive.onIntegers_arithmetic {bop : IR.BinaryOp} (h : 2 ≤ bits) (h' : bits ≤ 64)
    (hop : Gen.onInts op = .arithmetic bop) :
    Exec.binaryValue bop (.int bits x) (.int bits y) (.int bits) = op.onIntegers bits x y ∧
      op.resultKind bits = .int bits := by
  have hvalue : bop.isFloat = false → Exec.binaryValue bop (.int bits x) (.int bits y) (.int bits) =
      (Exec.integerOp bop x y).map fun r => .int bits (reduced bits r) := fun hfloat => by
    rw [Exec.binaryValue, if_neg (by simp [hfloat])]
    refine congrArg (fun f => Except.map f (Exec.integerOp bop x y)) (funext fun r => ?_)
    exact congrArg (RtValue.int bits) (wrap_eq_reduced h h' r)
  cases op with
  | add | sub | mul =>
    cases hop
    exact ⟨hvalue rfl, rfl⟩
  | div | rem =>
    cases hop
    refine ⟨(hvalue rfl).trans ?_, rfl⟩
    by_cases hy : y = 0
    · simp only [Exec.integerOp, BinaryPrimitive.onIntegers, if_pos hy]
      rfl
    · simp only [Exec.integerOp, BinaryPrimitive.onIntegers, if_neg hy]
      rfl
  | and =>
    cases hop
    refine ⟨(hvalue rfl).trans ?_, rfl⟩
    rw [Exec.integerOp, Exec.bitwise_and]
    exact congrArg (fun i => Except.ok (RtValue.int bits i)) (reduced_reduced h' _)
  | or =>
    cases hop
    refine ⟨(hvalue rfl).trans ?_, rfl⟩
    rw [Exec.integerOp, Exec.bitwise_or]
    exact congrArg (fun i => Except.ok (RtValue.int bits i)) (reduced_reduced h' _)
  | _ => cases hop

/-! ### Integer types -/

namespace TypeTable

variable {ts : TypeTable} {t lhs rhs : TypeId}

theorem numberClass?_of_int (h : ts.kind t = .int bits) :
    ts.numberClass? t = some (.int bits false) := by
  rw [numberClass?, h]

theorem irType_of_int (h : ts.kind t = .int bits) : ts.irType t = .int bits := by
  rw [irType, irTypeWithin, h]

theorem argType_of_int (h : ts.kind t = .int bits) : ts.argType t = .int bits :=
  argType_of_numberClass (numberClass?_of_int h)

theorem numberClass?_of_result (h : ts.kind t = op.resultKind bits) :
    ∃ n, ts.numberClass? t = some n := by
  unfold numberClass?
  rw [h]
  cases op <;> exact ⟨_, rfl⟩

/-- Whatever other types there are, the operands meet in an integer type of the wider width. -/
theorem kind_commonInt (hl : ts.kind lhs = .int a) (hr : ts.kind rhs = .int b) :
    ts.kind (Gen.commonInt ts lhs rhs a b) = .int (max a b) := by
  unfold Gen.commonInt
  cases hfound : ts.int? (max a b) with
  | some t =>
    have hkind : (ts.kind t == .int (max a b)) = true :=
      List.find?_some (p := fun id => ts.kind id == .int (max a b)) hfound
    exact beq_iff_eq.mp hkind
  | none =>
    rw [Option.getD_none]
    split
    · rename_i hle
      rw [hl, max_eq_left hle]
    · rename_i hle
      rw [hr, max_eq_right (not_le.mp hle).le]

end TypeTable

/-! ### Instructions that stop -/

namespace Exec.Run

variable {m : Module} {f : FuncId} {fr : Frame} {σ : State} {v w : Value} {t : Ty}
  {call : FuncId → List RtValue → Run RtValue}

theorem stops_binary {op : IR.BinaryOp} {e : Fault} {x y : RtValue}
    (hv : fr.value? σ.globals v = some x) (hw : fr.value? σ.globals w = some y)
    (hr : binaryValue op x y t = .error e) :
    Stops (instruction m call f fr (.binary op v w) t) σ e σ := by
  refine .after (returns_operand hv) (.after (returns_operand hw) ?_)
  rw [hr]
  exact stops_throw e

end Exec.Run

namespace Gen

/-! ### Steps that only add -/

section

variable {v u : Value} {source target : TypeId} {bop : BinaryPrimitive} {d : Def}

theorem adds_icmp {pred : IR.IntPredicate} : Adds (emit (Build.icmp pred v u)) := by
  refine adds_folded (.icmp pred v u) rfl
    (fun _ => v.constInt?.bind fun m => u.constInt?.map fun n => .i1 (pred.holds m n)) (fun _ => .i1)
    fun r => ?_
  unfold Build.icmp
  cases v.constInt? <;> cases u.constInt? <;> rfl

theorem adds_fcmp {pred : IR.FloatPredicate} : Adds (emit (Build.fcmp pred v u)) :=
  adds_push (.fcmp pred v u) rfl (fun _ => .i1) fun _ => rfl

theorem adds_resize {unsigned : Bool} {t : Ty} : Adds (Gen.resize v a unsigned b t) := by
  unfold Gen.resize
  split
  · exact .pure v
  · split
    · exact adds_cast
    · split <;> exact adds_cast

theorem adds_numericCast : Adds (numericCast v source target) := by
  unfold numericCast
  refine adds_types.bind fun ts => ?_
  dsimp only
  split
  · exact adds_resize
  · exact adds_cast
  · exact adds_cast
  · exact adds_cast
  · exact adds_cast
  · exact .pure v
  · exact .fail _

theorem adds_toFloat {n : NumberClass} {double : Bool} : Adds (toFloat v n double) := by
  unfold toFloat
  cases n with
  | int _ _ => exact adds_cast
  | float given =>
    dsimp only
    split
    · exact .pure v
    · exact adds_cast

theorem adds_combineInts : Adds (combineInts bop v u) := by
  unfold combineInts
  split
  · exact adds_binary
  · exact adds_icmp

theorem adds_combineFloats : Adds (combineFloats bop v u) := by
  unfold combineFloats
  split
  · exact adds_binary
  · exact adds_fcmp
  · exact .fail _

theorem adds_combineNumbers {l r : NumberClass} : Adds (combineNumbers bop v source u target l r) := by
  unfold combineNumbers
  split
  · exact adds_types.bind fun _ => adds_numericCast.bind fun _ => adds_numericCast.bind fun _ =>
      adds_combineInts
  · exact adds_toFloat.bind fun _ => adds_toFloat.bind fun _ => adds_combineFloats

theorem adds_asReturned {returned : Option TypeId} : Adds (asReturned v source returned) := by
  unfold asReturned
  cases returned with
  | none => exact .pure v
  | some t =>
    refine adds_types.bind fun ts => ?_
    split
    · exact .pure v
    · refine adds_typeOf.bind fun given => ?_
      split
      · exact .pure v
      · exact adds_numericCast

theorem adds_combine {returned : Option TypeId} : Adds (combine bop v source u target returned) := by
  unfold combine
  refine adds_types.bind fun ts => ?_
  split
  · exact adds_combineNumbers.bind fun _ => adds_asReturned
  · exact .fail _

theorem adds_binaryPrimitive : Adds (primitiveBody d (.binary bop)) :=
  adds_receiver.bind fun _ => adds_argument.bind fun _ => adds_combine

theorem adds_convertPrimitive : Adds (primitiveBody d .convert) :=
  adds_receiver.bind fun _ => adds_returned.bind fun _ => adds_numericCast

end

/-! ### Operands of integer types -/

section

variable {w : Setting} {c : Context} {k k₁ k' : Spot} {v u : Value} {source target t : TypeId}
  {i j : Int} {n : Nat}

/-- A step gave an operand that is no constant for a number of a width, and left memory alone. -/
structure Spot.GetsInt (w : Setting) (k : Spot) (bits : Nat) (i : Int) (k' : Spot) (v : Value) :
    Prop where
  holds : k'.Holds w v (.int bits) (.int bits i)
  isOpen : v.constInt? = none
  memory : k'.run.memory = k.run.memory

/-- Two widths that integers can have. -/
structure Widths (a b : Nat) : Prop where
  left : 2 ≤ a ∧ a ≤ 64
  right : 2 ≤ b ∧ b ≤ 64

theorem Widths.max (h : Widths a b) : 2 ≤ max a b ∧ max a b ≤ 64 :=
  ⟨h.left.1.trans (le_max_left a b), max_le h.left.2 h.right.2⟩

theorem performs_resize (h : Widths a b) (hi : Signed a i) (hv : k.Holds w v (.int a) (.int a i))
    (hopen : v.constInt? = none) :
    Performs w c k (Gen.resize v a false b (.int b)) (k.GetsInt w b (reduced b i)) := by
  unfold Gen.resize
  have hcast : ∀ op : IR.CastOp, (op = .trunc ∨ op = .sext) →
      Performs w c k (emit (Build.cast op v (.int b))) (k.GetsInt w b (reduced b i)) := fun op hop => by
    have hvalue : Exec.castValue op (.int a i) (.int a) (.int b) = .int b (reduced b i) := by
      have hwrap := congrArg (RtValue.int b) (wrap_eq_reduced h.right.1 h.right.2 i)
      rcases hop with rfl | rfl
      · exact hwrap
      · show RtValue.int b (Exec.wrap b (if a = 1 then -i else i)) = _
        rwa [if_neg (by have := h.left.1; omega)]
    refine (performs_cast (hop.imp_right .inr) hv hopen).mono fun _ _ _ _ ⟨hg, ho⟩ => ?_
    exact ⟨hvalue ▸ hg.holds, ho, hg.memory⟩
  split
  · rename_i heq
    subst heq
    rw [reduced_of_signed h.left.1 hi]
    exact .pure ⟨hv, hopen, rfl⟩
  · split
    · exact hcast .trunc (.inl rfl)
    · exact hcast .sext (.inr rfl)

theorem performs_numericCast (h : Widths a b) (hs : c.program.types.kind source = .int a)
    (ht : c.program.types.kind target = .int b) (hi : Signed a i)
    (hv : k.Holds w v (.int a) (.int a i)) (hopen : v.constInt? = none) :
    Performs w c k (numericCast v source target) (k.GetsInt w b (reduced b i)) := by
  unfold numericCast
  refine .ask (a := c.program.types) rfl ?_
  simp only [TypeTable.numberClass?_of_int hs, TypeTable.numberClass?_of_int ht,
    TypeTable.irType_of_int ht]
  exact performs_resize h hi hv hopen

/-! ### Operations -/

theorem width_ne_one (h : 2 ≤ bits) : Ty.int bits ≠ .i1 := by
  intro he
  have hbits : bits = 1 := Ty.int.inj he
  omega

variable {bop : BinaryPrimitive} {r : RtValue} {e : Fault}

section

variable (hbits : 2 ≤ bits ∧ bits ≤ 64) (hv : k.Holds w v (.int bits) (.int bits i))
  (hu : k.Holds w u (.int bits) (.int bits j))
include hbits hv hu

theorem performs_combineInts (hopen : v.constInt? = none)
    (ht : c.program.types.kind t = bop.resultKind bits) (hr : bop.onIntegers bits i j = .ok r) :
    Performs w c k (combineInts bop v u) fun k' v' =>
      k'.Holds w v' (c.program.types.irType t) r ∧ k'.run.memory = k.run.memory := by
  unfold combineInts
  cases hop : onInts bop with
  | arithmetic op =>
    obtain ⟨hvalue, hkind⟩ := BinaryPrimitive.onIntegers_arithmetic (x := i) (y := j) hbits.1 hbits.2 hop
    rw [TypeTable.irType_of_int (ht.trans hkind)]
    refine .build_congr _ (binary_placed hv (width_ne_one hbits.1)) ((performs_quiet rfl ?_).mono
      fun _ _ _ _ h => ⟨h.holds, h.memory⟩)
    exact Exec.Run.returns_binary (σ := k.run.ticked) hv.value hu.value (hvalue.trans hr)
  | comparison pred =>
    obtain ⟨hvalue, hkind⟩ := BinaryPrimitive.onIntegers_comparison hop bits i j
    obtain rfl := Except.ok.inj (hvalue.symm.trans hr)
    rw [TypeTable.irType_of_isBool (beq_iff_eq.mpr (ht.trans hkind))]
    refine (performs_icmp hv hu fun m n hm _ => ?_).mono fun _ _ _ _ h => ⟨h.holds, h.memory⟩
    rw [hopen] at hm
    cases hm

theorem concludes_combineInts (hr : bop.onIntegers bits i j = .error e) :
    Concludes w n c k (combineInts bop v u) (.error e) fun σ => σ.memory = k.run.memory := by
  unfold combineInts
  cases hop : onInts bop with
  | arithmetic op =>
    obtain ⟨hvalue, -⟩ := BinaryPrimitive.onIntegers_arithmetic (x := i) (y := j) hbits.1 hbits.2 hop
    refine .build_congr _ (congrArg Prod.snd (binary_placed hv (width_ne_one hbits.1)))
      ((concludes_push rfl (Exec.Run.stops_binary (σ := k.run.ticked) hv.value hu.value
        (hvalue.trans hr))).mono ?_)
    rintro σ rfl
    rfl
  | comparison pred =>
    obtain ⟨hvalue, -⟩ := BinaryPrimitive.onIntegers_comparison hop bits i j
    cases hvalue.symm.trans hr

end

/-- The operands of an operation on integers, in the width in which they meet. -/
def widened (lhs : Value) (lhsType : TypeId) (rhs : Value) (rhsType : TypeId) (a b : Nat) :
    Gen (Value × Value) := do
  let common := commonInt (← types) lhsType rhsType a b
  let lhs ← numericCast lhs lhsType common
  let rhs ← numericCast rhs rhsType common
  return (lhs, rhs)

theorem combineNumbers_ints (bop : BinaryPrimitive) (v u : Value) (source target : TypeId)
    (a b : Nat) : combineNumbers bop v source u target (.int a false) (.int b false) =
      widened v source u target a b >>= fun operands => combineInts bop operands.1 operands.2 := by
  simp only [combineNumbers, widened, bind_assoc, pure_bind]

section

variable (h : Widths a b) (hs : c.program.types.kind source = .int a)
  (ht : c.program.types.kind target = .int b) (hi : Signed a i) (hj : Signed b j)
  (hv : k.Holds w v (.int a) (.int a i)) (hu : k.Holds w u (.int b) (.int b j))
  (hvo : v.constInt? = none) (huo : u.constInt? = none)
include h hs ht hi hj hv hu hvo huo

theorem performs_widened :
    Performs w c k (widened v source u target a b) fun k' operands =>
      k'.Holds w operands.1 (.int (max a b)) (.int (max a b) i) ∧
        k'.Holds w operands.2 (.int (max a b)) (.int (max a b) j) ∧
          operands.1.constInt? = none ∧ k'.run.memory = k.run.memory := by
  have hcommon := TypeTable.kind_commonInt hs ht
  have hleft := performs_numericCast (w := w) (c := c) ⟨h.left, h.max⟩ hs hcommon hi hv hvo
  rw [reduced_of_signed h.max.1 (hi.mono (le_max_left a b))] at hleft
  unfold widened
  refine .assume fun ho => .ask (a := c.program.types) rfl (hleft.bind
    (fun _ => (adds_numericCast.bind fun _ => .pure _).grow) fun k₁ l hr₁ ho₁ hl => ?_)
  have hright := performs_numericCast (w := w) (c := c) ⟨h.right, h.max⟩ ht hcommon hj
    (hu.along ho hr₁ ho₁) huo
  rw [reduced_of_signed h.max.1 (hj.mono (le_max_right a b))] at hright
  refine hright.bind (fun _ => Adds.grow (.pure _)) fun k₂ r hr₂ ho₂ hr => .pure ?_
  exact ⟨hl.holds.along ho₁ hr₂ ho₂, hr.holds, hl.isOpen, hr.memory.trans hl.memory⟩

theorem performs_combine (hk : c.program.types.kind t = bop.resultKind (max a b))
    (hr : bop.onIntegers (max a b) i j = .ok r) :
    Performs w c k (combine bop v source u target (some t)) fun k' v' =>
      k'.Holds w v' (c.program.types.irType t) r ∧ k'.run.memory = k.run.memory := by
  unfold combine
  refine .ask (a := c.program.types) rfl ?_
  simp only [TypeTable.numberClass?_of_int hs, TypeTable.numberClass?_of_int ht, combineNumbers_ints,
    bind_assoc]
  refine (performs_widened h hs ht hi hj hv hu hvo huo).bind
    (fun _ => (adds_combineInts.bind fun _ => adds_asReturned).grow) fun k₁ p hr₁ ho₁ hp => ?_
  obtain ⟨hl, hr', hlo, hm⟩ := hp
  refine (performs_combineInts h.max hl hr' hlo hk hr).bind (fun _ => adds_asReturned.grow)
    fun k₂ v' hr₂ ho₂ ⟨hh, hm₂⟩ => ?_
  unfold asReturned
  refine .ask (a := c.program.types) rfl ?_
  split
  · exact .pure ⟨hh, hm₂.trans hm⟩
  · refine .ask (a := c.program.types.irType t) (congrArg (fun t => (Except.ok t, k₂.gen)) hh.type) ?_
    rw [if_pos rfl]
    exact .pure ⟨hh, hm₂.trans hm⟩

theorem concludes_combine {returned : Option TypeId}
    (hw : w.call = Exec.Run.runtimeCall w.module) (hr : bop.onIntegers (max a b) i j = .error e) :
    Concludes w n c k (combine bop v source u target returned) (.error e) fun σ =>
      σ.memory = k.run.memory := by
  unfold combine
  refine .ask (a := c.program.types) rfl ?_
  simp only [TypeTable.numberClass?_of_int hs, TypeTable.numberClass?_of_int ht, combineNumbers_ints,
    bind_assoc]
  refine .after hw (fun _ => adds_combineInts.bind fun _ => adds_asReturned)
    (performs_widened h hs ht hi hj hv hu hvo huo).achieves fun k₁ p hr₁ ho₁ hp => ?_
  obtain ⟨hl, hr', -, hm⟩ := hp
  refine .first (fun _ => adds_asReturned) ((concludes_combineInts h.max hl hr' hr).mono
    fun σ hσ => hσ.trans hm)

end

end

/-! ### Calls -/

/-- A call of the function of a primitive on integers, with its outcome. -/
inductive Computes (c : Context) (m : Module) (f : FuncId) :
    List RtValue → Except Fault RtValue → Prop
  | binary {op : BinaryPrimitive} {d : Def} {lhs t : TypeId} {arg : Arg} {a b : Nat} {x y : Int}
      {rest : List RtValue} (made : Made c m d (some lhs) f)
      (body : d.primitive? = some (.binary op)) (named : Named d (some lhs)) (widths : Widths a b)
      (receiver : c.program.types.kind lhs = .int a) (first : d.args[0]? = some arg)
      (argument : c.program.types.kind arg.type = .int b) (type : d.type = some t)
      (result : c.program.types.kind t = op.resultKind (max a b)) :
      Computes c m f (.int a x :: .int b y :: rest) (op.onIntegers (max a b) x y)
  | convert {d : Def} {source t : TypeId} {a b : Nat} {x : Int} {rest : List RtValue}
      (made : Made c m d (some source) f) (body : d.primitive? = some .convert)
      (named : Named d (some source)) (widths : Widths a b)
      (receiver : c.program.types.kind source = .int a) (type : d.type = some t)
      (result : c.program.types.kind t = .int b) :
      Computes c m f (.int a x :: rest) (.ok (.int b (reduced b x)))

section

variable {c : Context} {m : Module} {f : FuncId} {d : Def} {lhs source t : TypeId} {arg : Arg}
  {i j : Int} {w : Setting} {k : Spot} {rest : List RtValue} {bop : BinaryPrimitive}
  {r : Except Fault RtValue} {n : Nat} {σ : Exec.State} {xs : List RtValue}

theorem answers_binary (hw : w.call = Exec.Run.runtimeCall w.module)
    (hk : k.Called w c d (some lhs) t (.int a i :: .int b j :: rest) σ) (h : Widths a b)
    (hl : c.program.types.kind lhs = .int a) (harg : d.args[0]? = some arg)
    (hr : c.program.types.kind arg.type = .int b) (htype : d.type = some t)
    (hkind : c.program.types.kind t = bop.resultKind (max a b)) (hi : Signed a i) (hj : Signed b j) :
    k.Answers w n c d (.binary bop) t (bop.onIntegers (max a b) i j) fun σ' =>
      σ'.memory = k.run.memory := by
  have hreceiver : k.Holds w (.param 0) (.int a) (.int a i) := by
    have hv := hk.params.holds_self (x := .int a i) rfl rfl
    rwa [TypeTable.argType_of_int hl] at hv
  have hargument : k.Holds w (.param 1) (.int b) (.int b j) := by
    have hu := hk.params.holds_argument (x := .int b j) harg rfl
    rwa [TypeTable.argType_of_int hr] at hu
  have hbody : primitiveBody d (.binary bop) = receiver >>= fun p => argument d 0 >>= fun q =>
    combine bop p.1 p.2 q.1 q.2 d.type := rfl
  cases hresult : bop.onIntegers (max a b) i j with
  | ok x =>
    obtain ⟨l, hclass⟩ := TypeTable.numberClass?_of_result hkind
    have hheld := TypeTable.not_isAddressHeld_of_class hclass
    refine answers_register hw hheld hk ?_
    rw [hbody, TypeTable.argType_of_register hheld]
    refine .ask (hk.params.gives_receiver rfl) (.ask (hk.params.gives_argument harg) ?_)
    rw [htype]
    exact (performs_combine h hl hr hi hj hreceiver hargument rfl rfl hkind hresult).achieves
  | error e =>
    refine .inl ?_
    rw [hbody]
    exact .ask (hk.params.gives_receiver rfl) (.ask (hk.params.gives_argument harg)
      (concludes_combine h hl hr hi hj hreceiver hargument rfl rfl hw hresult))

theorem answers_convert (hw : w.call = Exec.Run.runtimeCall w.module)
    (hk : k.Called w c d (some source) t (.int a i :: rest) σ) (h : Widths a b)
    (hs : c.program.types.kind source = .int a) (htype : d.type = some t)
    (hkind : c.program.types.kind t = .int b) (hi : Signed a i) :
    k.Answers w n c d .convert t (.ok (.int b (reduced b i))) fun σ' =>
      σ'.memory = k.run.memory := by
  have hreceiver : k.Holds w (.param 0) (.int a) (.int a i) := by
    have hv := hk.params.holds_self (x := .int a i) rfl rfl
    rwa [TypeTable.argType_of_int hs] at hv
  have hbody : primitiveBody d .convert = receiver >>= fun p => returned d >>= fun t =>
    numericCast p.1 p.2 t := rfl
  have hheld := TypeTable.not_isAddressHeld_of_class (TypeTable.numberClass?_of_int hkind)
  refine answers_register hw hheld hk ?_
  rw [hbody, TypeTable.argType_of_int hkind]
  refine .ask (hk.params.gives_receiver rfl) (.ask (gives_returned htype) ?_)
  exact (performs_numericCast h hs hkind hi hreceiver rfl).achieves.mono
    fun _ _ _ _ hg => ⟨hg.holds, hg.memory⟩

end

/-- The definition of the quotient of integers of 32 bits. -/
def quotient : Def where
  name := "/"
  owner := Draft.intType
  args := [⟨"divisor", Draft.intType, false⟩]
  type := some Draft.intType
  body := some { id := 0, kind := .primitive (.binary .div) }

/-- The module of the function of the definition alone. -/
def quotientModule : Module :=
  (makeFunction (visit 1) "/" quotient (some Draft.intType) pointing newArrayStart).2.builder.module

theorem quotient_made : Made pointing quotientModule quotient (some Draft.intType) ⟨0⟩ := by
  refine made_self 1 rfl rfl ?_ ?_ ?_ <;> decide +kernel

end Gen

end Lowering
