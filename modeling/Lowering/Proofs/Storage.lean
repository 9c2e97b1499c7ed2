import Lowering.Exec.Memory
import Lowering.Exec.Arith
import Mathlib.Tactic

/-!
# Storage of a running program

Allocations are apart, so that memory can be seen as one row of bytes: what is written to some
addresses is read back from them, and all other addresses keep their bytes.

* `Exec.Memory.byteAt`, `Exec.Memory.bytes`: the bytes at addresses;
* `Exec.Memory.Room`: addresses that can be read and written;
* `Exec.Memory.Room.read`, `Exec.Memory.Room.write`, `Exec.Memory.byteAt_put`;
* `Exec.Memory.Changes`: memory before and after writes to some addresses;
* `Exec.RtValue.Of`, `Exec.RtValue.Of.decode_encode`: values read back from their bytes.
-/

namespace Lowering.Exec

open IR (Ty)

/-! ### Allocations -/

namespace Allocation

variable {written : Array UInt8} {offset i j : Nat} {b : UInt8} {bs : List UInt8}

theorem getD_put : (put written i b)[j]?.getD 0 = if j = i then b else written[j]?.getD 0 := by
  unfold put
  split
  · rename_i h
    by_cases hj : j = i
    · subst hj
      simp [h]
    · simp [hj, Array.getElem?_setIfInBounds_ne (Ne.symm hj)]
  · rename_i h
    split
    · rename_i hb
      by_cases hj : j = i
      · subst hj
        simp [hb, Array.getElem?_eq_none (not_lt.mp h)]
      · simp [hj]
    · by_cases hj : j = i
      · subst hj
        have hsize : (written ++ Array.replicate (j - written.size) 0).size = j := by
          simp
          omega
        rw [Array.getElem?_push, if_pos hsize.symm, if_pos rfl, Option.getD_some]
      · rw [Array.getElem?_push, if_neg (by simp; omega), if_neg hj, Array.getElem?_append]
        split
        · rfl
        · rename_i hs
          rw [Array.getElem?_replicate, Array.getElem?_eq_none (not_lt.mp hs)]
          split <;> rfl

theorem getD_overwrite : (overwrite written offset bs)[j]?.getD 0 =
    if offset ≤ j ∧ j < offset + bs.length then bs[j - offset]?.getD 0
    else written[j]?.getD 0 := by
  induction bs generalizing written offset with
  | nil => rw [overwrite, if_neg (by simp)]
  | cons b bs ih =>
    rw [overwrite, ih, getD_put]
    by_cases hj : j = offset
    · subst hj
      simp
    · by_cases hin : offset + 1 ≤ j ∧ j < offset + 1 + bs.length
      · have : j - offset = (j - (offset + 1)) + 1 := by omega
        rw [if_pos hin, if_pos (by simp; omega), this, List.getElem?_cons_succ]
      · rw [if_neg hin, if_neg hj, if_neg (by simp; omega)]

end Allocation

/-! ### Addresses -/

namespace Memory

variable {m : Memory} {a n k l x : Nat} {bs : List UInt8}

/-- The byte at an address. -/
def byteAt (m : Memory) (a : Nat) : UInt8 :=
  (m.allocation (a / offsetRange - 1)).byte (a % offsetRange)

/-- The bytes from an address on. -/
def bytes (m : Memory) (a n : Nat) : List UInt8 := (List.range n).map fun i => m.byteAt (a + i)

@[simp] theorem length_bytes : (m.bytes a n).length = n := by simp [bytes]

/-- Some bytes from an address on are inside of one allocation that is in use. -/
def Room (m : Memory) (a n : Nat) : Prop :=
  offsetRange ≤ a ∧ a % offsetRange + n ≤ offsetRange ∧
    ∃ x, m.allocations[a / offsetRange - 1]? = some x ∧ x.live = true ∧
      a % offsetRange + n ≤ x.size

/-- Where the bytes at an address are put. -/
def place (a : Nat) : Nat × Nat := (a / offsetRange - 1, a % offsetRange)

theorem div_add (h : a % offsetRange + k < offsetRange) : (a + k) / offsetRange = a / offsetRange := by
  unfold offsetRange at *
  omega

theorem mod_add (h : a % offsetRange + k < offsetRange) :
    (a + k) % offsetRange = a % offsetRange + k := by
  unfold offsetRange at *
  omega

namespace Room

theorem sub (h : m.Room a n) (hk : k + l ≤ n) (hn : k < n) : m.Room (a + k) l := by
  obtain ⟨ha, hr, x, hx, hl, hs⟩ := h
  have hlt : a % offsetRange + k < offsetRange := by omega
  refine ⟨by omega, by rw [mod_add hlt]; omega, x, ?_, hl, by rw [mod_add hlt]; omega⟩
  rw [div_add hlt]
  exact hx

theorem mono (h : m.Room a n) (hl : l ≤ n) : m.Room a l := by
  obtain ⟨ha, hr, x, hx, hlive, hs⟩ := h
  exact ⟨ha, by omega, x, hx, hlive, by omega⟩

theorem ne_zero (h : m.Room a n) : a ≠ 0 := by
  have := h.1
  unfold offsetRange at this
  omega

theorem locate (h : m.Room a n) : m.locate a n = .ok (place a) := by
  obtain ⟨ha, -, x, hx, hl, hs⟩ := h
  have h0 : a ≠ 0 := by unfold offsetRange at ha; omega
  have hi : indexOf a = some (a / offsetRange - 1) := if_neg (not_lt.mpr ha)
  simp only [Memory.locate, h0, if_false, hi, Option.bind_some, hx, Option.map_some, hl,
    Bool.not_true, Bool.false_eq_true, not_lt.mpr hs, place]

theorem read (h : m.Room a n) : m.read a n = .ok (m.bytes a n) := by
  have hslice : (m.allocation (a / offsetRange - 1)).slice (a % offsetRange) n = m.bytes a n := by
    refine List.map_congr_left fun i hi => ?_
    have hlt : a % offsetRange + i < offsetRange := by
      have := List.mem_range.mp hi
      have := h.2.1
      omega
    rw [byteAt, div_add hlt, mod_add hlt]
  rw [Memory.read, h.locate, ← hslice]
  rfl

theorem write (h : m.Room a bs.length) : m.write a bs = .ok (m.put bs (place a)) := by
  rw [Memory.write, h.locate]
  rfl

end Room

theorem room_put {p : Nat × Nat} : (m.put bs p).Room a n ↔ m.Room a n := by
  unfold Room put
  simp only [Array.getElem?_modify]
  split
  · constructor
    · rintro ⟨ha, hr, x, hx, hl, hs⟩
      obtain ⟨y, hy, rfl⟩ := Option.map_eq_some_iff.mp hx
      exact ⟨ha, hr, y, hy, hl, hs⟩
    · rintro ⟨ha, hr, x, hx, hl, hs⟩
      exact ⟨ha, hr, _, Option.map_eq_some_iff.mpr ⟨x, hx, rfl⟩, hl, hs⟩
  · rfl

theorem byteAt_put (h : m.Room a bs.length) (hx : offsetRange ≤ x) :
    (m.put bs (place a)).byteAt x =
      if a ≤ x ∧ x < a + bs.length then bs[x - a]?.getD 0 else m.byteAt x := by
  obtain ⟨ha, hr, y, hy, hl, hs⟩ := h
  by_cases hi : a / offsetRange - 1 = x / offsetRange - 1
  · have hd : a / offsetRange = x / offsetRange := by
      unfold offsetRange at *
      omega
    have hbyte : (m.put bs (place a)).byteAt x =
        (Allocation.overwrite y.written (a % offsetRange) bs)[x % offsetRange]?.getD 0 := by
      simp only [byteAt, allocation, put, place, Array.getElem?_modify, if_pos hi]
      rw [← hi, hy, Option.map_some, Option.getD_some]
      rfl
    have hold : m.byteAt x = y.written[x % offsetRange]?.getD 0 := by
      rw [byteAt, allocation, ← hi, hy, Option.getD_some, Allocation.byte]
    rw [hbyte, hold, Allocation.getD_overwrite]
    have hsub : x % offsetRange - a % offsetRange = x - a := by
      unfold offsetRange at *
      omega
    have hiff : (a % offsetRange ≤ x % offsetRange ∧
        x % offsetRange < a % offsetRange + bs.length) ↔ a ≤ x ∧ x < a + bs.length := by
      unfold offsetRange at *
      omega
    rw [hsub]
    simp only [hiff]
  · have hout : ¬ (a ≤ x ∧ x < a + bs.length) := by
      unfold offsetRange at *
      omega
    rw [if_neg hout]
    simp only [byteAt, allocation, put, place, Array.getElem?_modify, if_neg hi]

theorem bytes_put_self (h : m.Room a bs.length) : (m.put bs (place a)).bytes a bs.length = bs := by
  apply List.ext_getElem?
  intro i
  by_cases hi : i < bs.length
  · simp only [bytes, List.getElem?_map, List.getElem?_range hi, Option.map_some]
    rw [byteAt_put h (h.1.trans (Nat.le_add_right _ _)), if_pos ⟨Nat.le_add_right _ _, by omega⟩,
      Nat.add_sub_cancel_left, List.getElem?_eq_getElem hi]
    rfl
  · rw [List.getElem?_eq_none (by simpa using not_lt.mp hi),
      List.getElem?_eq_none (not_lt.mp hi)]

/-- What is written apart from some addresses leaves their bytes as they are. -/
theorem bytes_put_of_apart (h : m.Room a bs.length) (hx : offsetRange ≤ x)
    (hap : x + n ≤ a ∨ a + bs.length ≤ x) : (m.put bs (place a)).bytes x n = m.bytes x n := by
  refine List.map_congr_left fun i hi => ?_
  have hi := List.mem_range.mp hi
  rw [byteAt_put h (hx.trans (Nat.le_add_right _ _)), if_neg (by omega)]

/-- Memory changed in no more than some bytes from an address on. -/
structure Changes (m m' : Memory) (a n : Nat) : Prop where
  room : ∀ b l, m'.Room b l ↔ m.Room b l
  apart : ∀ b l, offsetRange ≤ b → b + l ≤ a ∨ a + n ≤ b → m'.bytes b l = m.bytes b l

theorem Changes.trans {m₁ m' : Memory} (h₁ : m.Changes m₁ a n) (h₂ : m₁.Changes m' a n) :
    m.Changes m' a n :=
  ⟨fun b l => (h₂.room b l).trans (h₁.room b l),
    fun b l hb hap => (h₂.apart b l hb hap).trans (h₁.apart b l hb hap)⟩

theorem Changes.mono {m' : Memory} (h : m.Changes m' (a + k) l) (hk : k + l ≤ n) :
    m.Changes m' a n :=
  ⟨h.room, fun b l' hb hap => h.apart b l' hb (by omega)⟩

theorem changes_put (h : m.Room a bs.length) : m.Changes (m.put bs (place a)) a bs.length :=
  ⟨fun _ _ => room_put, fun _ _ hb hap => bytes_put_of_apart h hb hap⟩

theorem bytes_sub (hk : k + l ≤ n) : m.bytes (a + k) l = ((m.bytes a n).drop k).take l := by
  apply List.ext_getElem?
  intro i
  by_cases hi : i < l
  · simp only [bytes, List.getElem?_map, List.getElem?_range hi, List.getElem?_take_of_lt hi,
      List.getElem?_drop, List.getElem?_range (show k + i < n by omega), Option.map_some,
      Nat.add_assoc]
  · rw [List.getElem?_eq_none (by simpa using not_lt.mp hi),
      List.getElem?_eq_none (by simp; omega)]

theorem bytes_take (h : l ≤ n) : m.bytes a l = (m.bytes a n).take l :=
  bytes_sub (k := 0) (by omega)

end Memory

/-- An address inside of an allocation moved on inside of it. -/
theorem moved?_of_lt {a k : Nat} (h : a % offsetRange + k < offsetRange) :
    moved? a (k : Int) = some (a + k) := by
  unfold moved?
  have hnat : ((a % offsetRange : Nat) : Int) + (k : Int) = ((a % offsetRange + k : Nat) : Int) := by
    push_cast
    rfl
  simp only [hnat]
  rw [if_pos ⟨Int.natCast_nonneg _, by exact_mod_cast h⟩, Int.toNat_natCast]
  congr 1
  have := Nat.div_add_mod a offsetRange
  rw [Nat.mul_comm] at this
  omega

/-! ### Bytes of values -/

theorem twoTo_eq (n : Nat) : twoTo n = 2 ^ n := rfl

@[simp] theorem length_littleEndian (n v : Nat) : (littleEndian n v).length = n := by
  induction n generalizing v with
  | zero => rfl
  | succ n ih => simp [littleEndian, ih]

theorem take_littleEndian {n k : Nat} (h : k ≤ n) (v : Nat) :
    (littleEndian n v).take k = littleEndian k v := by
  induction n generalizing k v with
  | zero => simp [Nat.le_zero.mp h, littleEndian]
  | succ n ih =>
    cases k with
    | zero => rfl
    | succ k => rw [littleEndian, littleEndian, List.take_succ_cons, ih (by omega)]

theorem ofLittleEndian_littleEndian (n v : Nat) :
    ofLittleEndian (littleEndian n v) = v % 256 ^ n := by
  induction n generalizing v with
  | zero => simp [littleEndian, ofLittleEndian, Nat.mod_one]
  | succ n ih =>
    have hb : (UInt8.ofNat v).toNat = v % 256 := UInt8.toNat_ofNat'
    have hmod : v % (256 * 256 ^ n) = v % 256 + 256 * (v / 256 % 256 ^ n) := Nat.mod_mul
    rw [littleEndian, ofLittleEndian, ih, hb, Nat.pow_succ', hmod]

@[simp] theorem length_resize (n : Nat) (bs : List UInt8) : (resize n bs).length = n := by
  simp [resize]
  omega

@[simp] theorem length_encode (v : RtValue) (t : Ty) : (encode v t).length = t.size :=
  length_resize _ _

theorem resize_self (bs : List UInt8) : resize bs.length bs = bs := by simp [resize]

theorem take_resize {n k : Nat} {bs : List UInt8} (hn : k ≤ n) (hk : k ≤ bs.length) :
    (resize n bs).take k = bs.take k := by
  rw [resize, List.take_append_of_le_length (by simp; omega), List.take_take, min_eq_left hn]

theorem resize_of_le {n : Nat} {bs : List UInt8} (h : n ≤ bs.length) : resize n bs = bs.take n := by
  simp [resize, Nat.sub_eq_zero_of_le h]

/-- An integer type has room for its bits. -/
theorem le_intSize (bits : Nat) : bits ≤ 8 * Ty.intSize bits := by
  unfold Ty.intSize
  dsimp only
  split
  · omega
  · have hlog : (bits + 7) / 8 - 1 < 2 ^ (((bits + 7) / 8 - 1).log2 + 1) := Nat.lt_log2_self
    rw [twoTo_eq]
    omega

theorem dvd_twoTo {j k : Nat} (h : j ≤ k) : ((2 ^ j : Nat) : Int) ∣ ((2 ^ k : Nat) : Int) :=
  Int.natCast_dvd_natCast.mpr (Nat.pow_dvd_pow 2 h)

/-- Only the low bits count, as many as a width has. -/
theorem wrap_of_emod {bits : Nat} {x y : Int} {k : Nat} (hk : min bits 64 ≤ k)
    (h : x % (2 ^ k : Nat) = y % (2 ^ k : Nat)) : wrap bits x = wrap bits y := by
  have hmod : ∀ j, j ≤ k → x % (2 ^ j : Nat) = y % (2 ^ j : Nat) := fun j hj => by
    rw [← Int.emod_emod_of_dvd x (dvd_twoTo hj), h, Int.emod_emod_of_dvd y (dvd_twoTo hj)]
  unfold wrap
  split
  · rename_i h1
    subst h1
    exact hmod 1 hk
  · rw [← Int.emod_bmod, ← Int.emod_bmod (x := y), twoTo_eq, hmod _ hk]

/-- A width keeps the low bits, as many as it has. -/
theorem wrap_emod {n k : Nat} (h : k ≤ min n 64) (c : Int) :
    wrap n c % (2 ^ k : Nat) = c % (2 ^ k : Nat) := by
  have hmod : wrap n c % (2 ^ min n 64 : Nat) = c % (2 ^ min n 64 : Nat) := by
    unfold wrap
    split
    · rename_i h1
      subst h1
      simp
    · rw [twoTo_eq, Int.bmod_emod]
  rw [← Int.emod_emod_of_dvd _ (dvd_twoTo h), hmod, Int.emod_emod_of_dvd _ (dvd_twoTo h)]

theorem wrap_wrap_of_le {n k : Nat} (h : k ≤ n) (c : Int) : wrap k (wrap n c) = wrap k c :=
  wrap_of_emod le_rfl (wrap_emod (min_le_min_right 64 h) c)

/-- A value of a type. -/
inductive RtValue.Of : Ty → RtValue → Prop
  | int {bits : Nat} {value : Int} (hb : bits ≠ 0) (h : wrap bits value = value) :
    Of (.int bits) (.int bits value)
  | float (x : Binary32) : Of .float (.f32 x)
  | double (x : Binary64) : Of .double (.f64 x)
  | ptr {t : Ty} {a : Nat} (h : a < 2 ^ 64) : Of (.ptr t) (.ptr a)
  | array {t : Ty} {n : Nat} {bs : List UInt8} (h : bs.length = (Ty.array t n).size) :
    Of (.array t n) (.bytes bs)
  | struct {ts : List Ty} {bs : List UInt8} (h : bs.length = (Ty.struct ts).size) :
    Of (.struct ts) (.bytes bs)

theorem toWord_eq (value : Int) : (toWord value : Int) = value % (2 ^ 64 : Nat) := by
  rw [toWord, twoTo_eq, Int.toNat_of_nonneg (Int.emod_nonneg _ (by norm_num))]

/-- The bytes of an integer hold as many of its bits as its type has. -/
theorem decode_encode_int (bits b : Nat) (value : Int) :
    decode (encode (.int b value) (.int bits)) (.int bits) = .int bits (wrap bits value) := by
  have hsize : (Ty.int bits).size = Ty.intSize bits := by rw [Ty.size]
  have hbits := le_intSize bits
  have hk : (encode (.int b value) (.int bits)).take 8 =
      littleEndian (min 8 (Ty.intSize bits)) (toWord value) := by
    rw [encode, hsize]
    rcases le_total 8 (Ty.intSize bits) with hle | hle
    · rw [take_resize hle (by simp), min_eq_left hle, take_littleEndian le_rfl]
    · rw [resize_of_le (by simpa using hle), List.take_take, min_eq_right hle,
        take_littleEndian hle]
  rw [decode, hk, ofLittleEndian_littleEndian]
  congr 1
  refine wrap_of_emod (k := 8 * min 8 (Ty.intSize bits)) (by omega) ?_
  rw [show (256 : Nat) = 2 ^ 8 from rfl, ← Nat.pow_mul, Int.natCast_mod, Int.emod_emod_of_dvd _ dvd_rfl,
    toWord_eq, Int.emod_emod_of_dvd]
  exact Int.natCast_dvd_natCast.mpr (Nat.pow_dvd_pow 2 (by omega))

/-- A value is read back from its bytes. -/
theorem RtValue.Of.decode_encode {t : Ty} {v : RtValue} (h : RtValue.Of t v) :
    decode (encode v t) t = v := by
  cases h with
  | int _ h => rw [decode_encode_int, h]
  | float x =>
    have h4 : (encode (.f32 x) .float).take 4 = littleEndian 4 x.word.toNat := by
      rw [encode, show Ty.float.size = 4 by rw [Ty.size], resize_of_le (by simp), List.take_take,
        min_self, take_littleEndian le_rfl]
    rw [decode, h4, ofLittleEndian_littleEndian, show 256 ^ 4 = 2 ^ 32 from rfl,
      Nat.mod_eq_of_lt x.word.toNat_lt]
    simp
  | double x =>
    have h8 : (encode (.f64 x) .double).take 8 = littleEndian 8 x.word.toNat := by
      rw [encode, show Ty.double.size = 8 by rw [Ty.size], resize_of_le (by simp), List.take_take,
        min_self, take_littleEndian le_rfl]
    rw [decode, h8, ofLittleEndian_littleEndian, show 256 ^ 8 = 2 ^ 64 from rfl,
      Nat.mod_eq_of_lt x.word.toNat_lt]
    simp
  | @ptr t a h =>
    have h8 : (encode (.ptr a) (.ptr t)).take 8 = littleEndian 8 a := by
      rw [encode, show (Ty.ptr t).size = 8 by rw [Ty.size, Ty.pointerSize], resize_of_le (by simp),
        List.take_take, min_self, take_littleEndian le_rfl]
    rw [decode, h8, ofLittleEndian_littleEndian, show 256 ^ 8 = 2 ^ 64 from rfl, Nat.mod_eq_of_lt h]
  | array h => rw [encode, decode, ← h, resize_self]
  | struct h => rw [encode, decode, ← h, resize_self]

theorem encode_decode_struct {ts : List Ty} {bs : List UInt8} (h : bs.length = (Ty.struct ts).size) :
    encode (decode bs (.struct ts)) (.struct ts) = bs := by
  rw [decode, encode, ← h, resize_self]

/-- The bytes of a pointer do not depend on what it points to. -/
theorem encode_pointer (q : Nat) (t t' : Ty) :
    encode (.ptr q) (.ptr t) = encode (.ptr q) (.ptr t') := by
  rw [encode, encode, Ty.size, Ty.size]

end Lowering.Exec
