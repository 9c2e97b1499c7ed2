import Lowering.Proofs.Allocating
import Lowering.Proofs.Interned
import Lowering.Proofs.Layout
import Lowering.Proofs.Utf8

/-!
# Memory before a program runs

Every global has an allocation at its own position, and its initializer is in it.

* `Exec.initialAllocation`, `Exec.allocations_initial`: the allocation of a global;
* `Exec.globals_initial`: the addresses of the globals;
* `Exec.readString_initial`: the text in the global of a text.
-/

namespace Lowering.Exec

open IR (Ty Constant Global GlobalId Module)

/-! ### Allocations of globals -/

/-- A fresh allocation for a global. -/
def freshAllocation (g : Global) : Allocation := { size := max g.type.size 1 }

/-- The allocation of a global with its initializer in it, which is left out when it does not fit. -/
def initialAllocation (addresses : Array Nat) (g : Global) : Allocation :=
  match g.init with
  | some c =>
    let bs := constantBytes addresses c
    if bs.length ≤ (freshAllocation g).size then
      { freshAllocation g with written := Allocation.overwrite #[] 0 bs }
    else freshAllocation g
  | none => freshAllocation g

theorem foldl_allocate (gs : List Global) (μ : Memory) (as : Array Nat)
    (h : as.size = μ.allocations.size) :
    let r := gs.foldl (fun (memory, addresses) g =>
      let (address, memory) := memory.allocate g.type.size
      (memory, addresses.push address)) (μ, as)
    r.1.allocations.toList = μ.allocations.toList ++ gs.map freshAllocation ∧
      r.2.toList = as.toList ++ (List.range' as.size gs.length).map baseAddress := by
  induction gs generalizing μ as with
  | nil => simp
  | cons g gs ih =>
    obtain ⟨hμ, has⟩ := ih (μ.allocate g.type.size).2 (as.push (μ.allocate g.type.size).1)
      (by simp [Memory.allocate, h])
    refine ⟨hμ.trans ?_, has.trans ?_⟩
    · simp [Memory.allocate, freshAllocation]
    · simp [Memory.allocate, h, List.range'_succ]

/-- The initializer of a global is put into its allocation, and nothing else changes. -/
theorem getElem?_writeInitializer (addresses : Array Nat) {μ : Memory} {g : Global} {i : Nat}
    (h : μ.allocations[i]? = some (freshAllocation g)) (j : Nat) :
    (State.writeInitializer addresses μ g (baseAddress i)).allocations[j]? =
      if i = j then some (initialAllocation addresses g) else μ.allocations[j]? := by
  have hkept : μ.allocations[j]? =
      if i = j then some (freshAllocation g) else μ.allocations[j]? := by
    split
    · rename_i hij
      rw [← hij, h]
    · rfl
  unfold State.writeInitializer initialAllocation
  cases g.init with
  | none => exact hkept
  | some c =>
    by_cases hfit : (constantBytes addresses c).length ≤ (freshAllocation g).size
    · have hwrite : μ.write (baseAddress i) (constantBytes addresses c) =
          .ok (μ.put (constantBytes addresses c) (i, 0)) := by
        rw [Memory.write, Memory.locate_start h rfl hfit]
        rfl
      simp only [hwrite, if_pos hfit]
      show (μ.put (constantBytes addresses c) (i, 0)).allocations[j]? = _
      rw [Memory.getElem?_put]
      split
      · rename_i hij
        rw [← show i = j from hij, h]
        rfl
      · rfl
    · have hwrite : ∃ e, μ.write (baseAddress i) (constantBytes addresses c) = .error e := by
        have hout := Memory.locate_outside (o := 0) h rfl offsetRange_pos
          ((Nat.lt_of_not_le hfit).trans_eq (Nat.zero_add _).symm)
        rw [Nat.add_zero] at hout
        rw [Memory.write, hout]
        exact ⟨_, rfl⟩
      obtain ⟨e, hwrite⟩ := hwrite
      simp only [hwrite, if_neg hfit]
      exact hkept

theorem foldl_write (addresses : Array Nat) (gs : List Global) (k : Nat) (μ : Memory)
    (h : ∀ j g, gs[j]? = some g → μ.allocations[k + j]? = some (freshAllocation g)) :
    let r := (gs.zipIdx k).foldl (fun μ (g, i) =>
      State.writeInitializer addresses μ g (baseAddress i)) μ
    (∀ j g, gs[j]? = some g → r.allocations[k + j]? = some (initialAllocation addresses g)) ∧
      ∀ i < k, r.allocations[i]? = μ.allocations[i]? := by
  induction gs generalizing k μ with
  | nil => exact ⟨fun j g hg => by simp at hg, fun _ _ => rfl⟩
  | cons g gs ih =>
    have hfirst := getElem?_writeInitializer (i := k) addresses (h 0 g rfl)
    have hrest : ∀ j g', gs[j]? = some g' →
        (State.writeInitializer addresses μ g (baseAddress k)).allocations[k + 1 + j]? =
          some (freshAllocation g') := fun j g' hg => by
      rw [hfirst, if_neg (by omega)]
      exact (congrArg (μ.allocations[·]?) (by omega)).trans (h (j + 1) g' hg)
    obtain ⟨hin, hout⟩ := ih (k + 1) _ hrest
    refine ⟨fun j g' hg => ?_, fun i hi => ?_⟩
    · cases j with
      | zero =>
        obtain rfl := Option.some.inj hg
        rw [List.zipIdx_cons, List.foldl_cons]
        exact (hout k (Nat.lt_succ_self k)).trans ((hfirst k).trans (if_pos rfl))
      | succ j =>
        rw [List.zipIdx_cons, List.foldl_cons]
        exact (congrArg (_[·]?) (by omega)).trans (hin j g' hg)
    · rw [List.zipIdx_cons, List.foldl_cons]
      exact (hout i (Nat.lt_succ_of_lt hi)).trans ((hfirst i).trans (if_neg (by omega)))

namespace State

variable (m : Module)

/-- The globals have the addresses of their positions. -/
theorem globals_initial : (initial m).globals.toList =
    (List.range m.globals.size).map baseAddress := by
  show (allocateGlobals m).2.toList = _
  have h := (foldl_allocate m.globals.toList {} #[] rfl).2
  rw [allocateGlobals, ← Array.foldl_toList, h]
  simp [List.range_eq_range']

theorem address_initial {g : GlobalId} (h : g.index < m.globals.size) :
    (initial m).globals[g.index]? = some (baseAddress g.index) := by
  rw [← Array.getElem?_toList, globals_initial]
  simp [h]

theorem initial_memory : (initial m).memory = (m.globals.toList.zipIdx 0).foldl
    (fun μ (g, i) => writeInitializer (initial m).globals μ g (baseAddress i))
    (allocateGlobals m).1 := by
  have hzip : m.globals.toList.zip (initial m).globals.toList =
      m.globals.toList.zipIdx.map fun (g, i) => (g, baseAddress i) := by
    rw [globals_initial, List.zip_map_right, List.zipIdx_eq_zip_range', List.range_eq_range',
      Array.length_toList]
    rfl
  show (m.globals.zip (initial m).globals).foldl _ _ = _
  rw [← Array.foldl_toList, Array.toList_zip, hzip, List.foldl_map]
  rfl

/-- Each global has its allocation, with its initializer in it. -/
theorem allocations_initial {i : Nat} {g : Global} (h : m.globals[i]? = some g) :
    (initial m).memory.allocations[i]? = some (initialAllocation (initial m).globals g) := by
  have hfresh := (foldl_allocate m.globals.toList {} #[] rfl).1
  have hplaces : ∀ j g, m.globals.toList[j]? = some g →
      (allocateGlobals m).1.allocations[0 + j]? = some (freshAllocation g) := fun j g hg => by
    rw [allocateGlobals, ← Array.foldl_toList, ← Array.getElem?_toList, hfresh, Nat.zero_add]
    simpa using ⟨g, by simpa using hg, rfl⟩
  rw [initial_memory]
  have hin := (foldl_write (initial m).globals _ 0 _ hplaces).1 i g (by simpa using h)
  rwa [Nat.zero_add] at hin

end State

/-! ### Texts in memory -/

/-- The bytes of an array of bytes. -/
theorem elementBytes_bytes (addresses : Array Nat) (bs : List UInt8) :
    elementBytes addresses .i8 (bs.map fun b => .int 8 b.toNat) = bs := by
  induction bs with
  | nil => rfl
  | cons b bs ih =>
    have hmod : toWord (wrap 8 b.toNat) % 256 = b.toNat := by
      have h : ((toWord (wrap 8 b.toNat) % 256 : Nat) : Int) = (b.toNat : Int) := by
        have hwrap : wrap 8 b.toNat = Int.bmod b.toNat 256 := by simp [wrap, twoTo]
        rw [Int.natCast_mod, toWord_eq, hwrap,
          Int.emod_emod_of_dvd _ (by norm_num : ((256 : Nat) : Int) ∣ ((2 ^ 64 : Nat) : Int)),
          Int.bmod_emod]
        exact Int.emod_eq_of_lt (Int.natCast_nonneg _) (by exact_mod_cast b.toNat_lt)
      exact_mod_cast h
    have hb : encode (.int 8 (wrap 8 b.toNat)) .i8 = [b] := by
      have hsize : Ty.i8.size = 1 := size_i8
      rw [encode, hsize, resize_of_le (by simp), take_littleEndian (by decide)]
      show [UInt8.ofNat (toWord (wrap 8 b.toNat))] = [b]
      rw [List.cons.injEq]
      exact ⟨UInt8.toNat_inj.mp (by rw [UInt8.toNat_ofNat', hmod]), rfl⟩
    rw [List.map_cons, elementBytes, ih]
    show encode (.int 8 (wrap 8 b.toNat)) .i8 ++ bs = b :: bs
    rw [hb]
    rfl

theorem constantBytes_bytes (addresses : Array Nat) (bs : List UInt8) :
    constantBytes addresses (.bytes bs) = bs := elementBytes_bytes addresses bs

theorem size_bytes (bs : List UInt8) : (Constant.bytes bs).type.size = bs.length := by
  rw [Constant.bytes, Constant.type, Ty.size, size_i8, List.length_map, Nat.one_mul]

theorem lengthBytes_eq (n : Nat) : Gen.lengthBytes n = littleEndian 4 n := by
  simp [Gen.lengthBytes, littleEndian, Nat.div_div_eq_div_mul]

/-- The length that a string object begins with. -/
theorem decode_lengthBytes {n : Nat} (h : n < 2 ^ 31) :
    decode (Gen.lengthBytes n) .i32 = .int 32 n := by
  have hlen : ((Gen.lengthBytes n).take 8) = littleEndian 4 n := by
    rw [lengthBytes_eq, List.take_of_length_le (by simp)]
  show RtValue.int 32 (wrap 32 (ofLittleEndian ((Gen.lengthBytes n).take 8))) = _
  have hn : n % 256 ^ 4 = n := Nat.mod_eq_of_lt (h.trans (by norm_num))
  rw [hlen, ofLittleEndian_littleEndian, hn]
  have hwrap : wrap 32 (n : Int) = Int.bmod n (2 ^ 32) := by simp [wrap, twoTo]
  rw [hwrap, Int.bmod_eq_of_le (by omega) (by omega)]

namespace Memory

/-- A string object is read back from an allocation that begins with its bytes. -/
theorem readString_of_slice {μ : Memory} {i : Nat} {a : Allocation} {text : String}
    (ha : μ.allocations[i]? = some a) (hl : a.live = true)
    (hs : (Gen.stringBytes text).length ≤ a.size)
    (hb : a.slice 0 (Gen.stringBytes text).length = Gen.stringBytes text)
    (h : (Utf8.bytes text).length < 2 ^ 31) : μ.readString (baseAddress i) = .ok text := by
  have hlength : (Gen.stringBytes text).length = 4 + (Utf8.bytes text).length + 1 := by
    simp [Gen.stringBytes, Utf8.bytes, Gen.lengthBytes_length]
    omega
  have hwhole : Gen.stringBytes text =
      Gen.lengthBytes (Utf8.bytes text).length ++ (Utf8.bytes text ++ [0]) :=
    List.append_assoc _ _ _
  have hfirst : a.slice 0 4 = Gen.lengthBytes (Utf8.bytes text).length := by
    have hpart := Allocation.slice_sub (a := a) (o := 0) (k := 0) (l := 4)
      (n := (Gen.stringBytes text).length) (by omega)
    rw [Nat.add_zero] at hpart
    rw [hpart, hb, hwhole]
    rfl
  have hrest : a.slice 4 (Utf8.bytes text).length = Utf8.bytes text := by
    have hpart := Allocation.slice_sub (a := a) (o := 0) (k := 4) (l := (Utf8.bytes text).length)
      (n := (Gen.stringBytes text).length) (by omega)
    rw [Nat.zero_add] at hpart
    rw [hpart, hb, hwhole]
    exact List.take_left
  have hread : μ.read (baseAddress i) 4 = .ok (a.slice 0 4) := by
    have hread := read_inside (o := 0) (n := 4) ha hl offsetRange_pos (by omega)
    rwa [Nat.add_zero] at hread
  have htext : μ.read (baseAddress i + 4) (Utf8.bytes text).length =
      .ok (a.slice 4 (Utf8.bytes text).length) :=
    read_inside ha hl (by decide) (by omega)
  have hok {α β : Type} (x : α) (f : α → Except Fault β) : (Except.ok x >>= f) = f x := rfl
  simp only [readString, hread, hok, hfirst, decode_lengthBytes h, RtValue.int?, Option.getD_some,
    Int.toNat_natCast, htext, hrest, Utf8.decodeLossy_bytes]
  rfl

end Memory

/-- The bytes of an initializer that fits. -/
theorem slice_initialAllocation (addresses : Array Nat) {g : Global} {c : Constant}
    (hc : g.init = some c) (h : (constantBytes addresses c).length ≤ (freshAllocation g).size) :
    (initialAllocation addresses g).slice 0 (constantBytes addresses c).length =
      constantBytes addresses c := by
  unfold initialAllocation
  rw [hc]
  dsimp only
  rw [if_pos h]
  exact Allocation.slice_overwrite_self

theorem size_initialAllocation (addresses : Array Nat) (g : Global) :
    (initialAllocation addresses g).size = max g.type.size 1 := by
  unfold initialAllocation
  split
  · dsimp only
    split <;> rfl
  · rfl

theorem live_initialAllocation (addresses : Array Nat) (g : Global) :
    (initialAllocation addresses g).live = true := by
  unfold initialAllocation
  split
  · dsimp only
    split <;> rfl
  · rfl

/-- The text in a global that holds it is read back from the allocation of the global. -/
theorem readString_of_initial {m : Module} {μ : Memory} {g : GlobalId} {text : String}
    (hg : g.index < m.globals.size) (ht : Gen.IsText (m.global g) text)
    (h : (Utf8.bytes text).length < 2 ^ 31)
    (hμ : μ.allocations[g.index]? = (State.initial m).memory.allocations[g.index]?) :
    μ.readString (baseAddress g.index) = .ok text := by
  have hat : m.globals[g.index]? = some (m.global g) := by
    simp [Module.global, hg]
  have hbytes := constantBytes_bytes (State.initial m).globals (Gen.stringBytes text)
  have hfits : (Gen.stringBytes text).length ≤ (freshAllocation (m.global g)).size := by
    rw [freshAllocation, ht.2, size_bytes]
    exact le_max_left _ _
  refine Memory.readString_of_slice (hμ.trans (State.allocations_initial m hat))
    (live_initialAllocation _ _) ?_ ?_ h
  · rw [size_initialAllocation, ht.2, size_bytes]
    exact le_max_left _ _
  · have hslice := slice_initialAllocation (State.initial m).globals ht.1
      (by rw [hbytes]; exact hfits)
    rwa [hbytes] at hslice

/-- The text in a global that holds it is read back from the memory a run begins with. -/
theorem readString_initial {m : Module} {g : GlobalId} {text : String}
    (hg : g.index < m.globals.size) (ht : Gen.IsText (m.global g) text)
    (h : (Utf8.bytes text).length < 2 ^ 31) :
    (State.initial m).memory.readString (baseAddress g.index) = .ok text :=
  readString_of_initial hg ht h rfl

end Lowering.Exec
