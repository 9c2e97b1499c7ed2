import Lowering.Proofs.Allocating
import Lowering.Proofs.Rows

/-!
# Rows in memory

A row is held by an allocation of its own, its elements one after the other from the start on.

* `Exec.Memory.movedTo`: memory in which the end of an allocation was moved to a fresh one;
* `Row.moved_inside`, `Row.moved_outside`: the addresses of other elements;
* `Row.In`: an allocation that holds a row, with what becomes of it: `Row.In.splice`,
  `Row.In.resize`, `Row.In.release`;
* `Row.In.room`, `Row.In.decode_bytes`, `Row.In.locate_of_fault`: accesses to an element;
* `Rows.Stored`: memory that holds rows, with `Rows.Stored.lasts`, `Rows.Stored.change` and
  `Rows.Stored.append`;
* `Rows.Becomes`: memory that holds rows in the place of others, and is otherwise what it was.
-/

namespace Lowering

/-! ### Memory with more in it -/

namespace Exec.Memory

variable {m : Exec.Memory} {a n size i : Nat} {bs : List UInt8}

theorem Room.allocate (h : m.Room a n) : (m.allocate size).2.Room a n := by
  obtain ⟨ha, hr, x, hx, hl, hs⟩ := h
  exact ⟨ha, hr, x, (getElem?_allocate_of_lt (lt_of_getElem? hx)).trans hx, hl, hs⟩

theorem bytes_congr {m' : Memory} (hr : a % offsetRange + n ≤ offsetRange)
    (h : m'.allocations[a / offsetRange - 1]? = m.allocations[a / offsetRange - 1]?) :
    m'.bytes a n = m.bytes a n := by
  refine List.map_congr_left fun j hj => ?_
  have hj := List.mem_range.mp hj
  have hlt : a % offsetRange + j < offsetRange := by omega
  rw [byteAt, byteAt, allocation, allocation, div_add hlt, h]

theorem bytes_allocate (h : m.Room a n) : (m.allocate size).2.bytes a n = m.bytes a n := by
  obtain ⟨-, hr, x, hx, -, -⟩ := h
  exact bytes_congr hr (getElem?_allocate_of_lt (lt_of_getElem? hx))

theorem room_fresh (h : size ≤ offsetRange) :
    (m.allocate size).2.Room (baseAddress m.allocations.size) size := by
  have hself : (m.allocate size).2.allocations[m.allocations.size]? = some { size := max size 1 } :=
    getElem?_allocate_self
  have hroom := room_inside (o := 0) (n := size) hself rfl offsetRange_pos (by simp) (by omega)
  rwa [Nat.add_zero] at hroom

/-- Memory in which what lay in an allocation from an offset on was moved to a fresh one. -/
def movedTo (m : Memory) (i : Nat) (al : Allocation) (o size : Nat) : Memory :=
  ((m.allocate size).2.put (al.slice o (min (al.size - o) size)) (m.allocations.size, 0)).release
    (baseAddress i + o)

section

variable {al : Allocation} {o j : Nat}

theorem getElem?_movedTo_of_ne (ho : o < offsetRange) (hj : j < m.allocations.size) (hne : j ≠ i) :
    (m.movedTo i al o size).allocations[j]? = m.allocations[j]? := by
  rw [movedTo, getElem?_release (indexOf_inside ho), getElem?_put, if_neg hj.ne',
    getElem?_allocate_of_lt hj]
  cases m.allocations[j]? <;> simp [hne.symm]

theorem getElem?_movedTo_self (hal : m.allocations[i]? = some al) (ho : o < offsetRange) :
    (m.movedTo i al o size).allocations[i]? = some { al with live := false } := by
  have hi := lt_of_getElem? hal
  rw [movedTo, getElem?_release (indexOf_inside ho), getElem?_put, if_neg hi.ne',
    getElem?_allocate_of_lt hi, hal]
  simp

theorem getElem?_movedTo_fresh (hi : i < m.allocations.size) (ho : o < offsetRange) :
    (m.movedTo i al o size).allocations[m.allocations.size]? = some
      { size := max size 1
        written := Allocation.overwrite #[] 0 (al.slice o (min (al.size - o) size)) } := by
  rw [movedTo, getElem?_release (indexOf_inside ho), getElem?_put, if_pos rfl, getElem?_allocate_self]
  simp [hi.ne]

end

end Exec.Memory

open Exec (RtValue Fault Memory Allocation decode baseAddress offsetRange)
open Rows (zero splice resize)

variable {ts : TypeTable} {row : Row} {al : Allocation} {bs : List UInt8} {xs : List RtValue}
  {x : RtValue} {elem : TypeId} {place i j n o : Nat}

/-! ### Addresses of elements -/

namespace Row

variable {step : Int} (row : Row)

/-- The address of another element, when its offset is one that addresses can express. -/
theorem moved_inside (ho : o * row.width ts < offsetRange) (h0 : 0 ≤ o + step)
    (h : (o + step) * row.width ts < offsetRange) :
    Exec.firstStep? (ts.irType row.elem) step = some (step * row.width ts) ∧
      Exec.moved? (row.address ts o) (step * row.width ts) =
        some (row.address ts (o + step).toNat) := by
  obtain ⟨j, hj⟩ := Int.eq_ofNat_of_zero_le h0
  have hstep : step * row.width ts = (j * row.width ts : Nat) - (o * row.width ts : Nat) := by
    rw [show step = j - o by omega, sub_mul]
    push_cast
    rfl
  have hjw : j * row.width ts < offsetRange := by
    rw [hj] at h
    exact_mod_cast h
  rw [hj, Int.toNat_natCast]
  constructor
  · rw [Exec.firstStep?, if_pos]
    · rfl
    · show Exec.fitsWord (step * row.width ts) = true
      unfold offsetRange at *
      rw [hstep, Exec.fitsWord, decide_eq_true_eq]
      omega
  · have hmod : row.address ts o % offsetRange = o * row.width ts := Exec.baseAddress_add_mod ho
    have hdiv : row.address ts o / offsetRange = row.place + 1 := Exec.baseAddress_add_div ho
    unfold Exec.moved?
    simp only [hmod, hdiv, hstep]
    rw [if_pos ⟨by omega, by omega⟩]
    refine congrArg some ?_
    have hadd : ((o * row.width ts : Nat) + ((j * row.width ts : Nat) - (o * row.width ts : Nat) : Int)).toNat =
        j * row.width ts := by omega
    rw [hadd]
    rfl

theorem moved_outside (hw : 0 < row.width ts) (ho : o * row.width ts < offsetRange)
    (h : ¬ (0 ≤ o + step ∧ (o + step) * row.width ts < offsetRange)) (delta : Int)
    (hdelta : Exec.firstStep? (ts.irType row.elem) step = some delta) :
    Exec.moved? (row.address ts o) delta = none := by
  have hmod : row.address ts o % offsetRange = o * row.width ts := Exec.baseAddress_add_mod ho
  have hstep : step * row.width ts = delta := by
    unfold Exec.firstStep? at hdelta
    dsimp only at hdelta
    split at hdelta
    · exact Option.some.inj hdelta
    · cases hdelta
  have hsum : ((o * row.width ts : Nat) : Int) + delta = (o + step) * row.width ts := by
    rw [← hstep, add_mul]
    push_cast
    rfl
  unfold Exec.moved?
  simp only [hmod, hsum]
  refine if_neg fun hin => h ⟨?_, hin.2⟩
  by_contra hneg
  exact absurd hin.1 (not_le.mpr (mul_neg_of_neg_of_pos (not_le.mp hneg) (by exact_mod_cast hw)))

end Row

/-! ### Rows in allocations -/

/-- An allocation holds a row: its elements, and zeros behind them. -/
structure Row.In (ts : TypeTable) (row : Row) (al : Allocation) : Prop where
  live : al.live = row.live
  size : al.size = max (row.cells.length * row.width ts) 1
  fits : row.cells.length * row.width ts < offsetRange
  cell : ∀ j x, row.cells[j]? = some x →
    decode (al.slice (j * row.width ts) (row.width ts)) (ts.irType row.elem) = x
  rest : ∀ i, row.cells.length * row.width ts ≤ i → al.byte i = 0

namespace Row.In

/-- The bytes of an element, or those behind the last one. -/
theorem decode_slice (h : row.In ts al) (j : Nat) :
    decode (al.slice (j * row.width ts) (row.width ts)) (ts.irType row.elem) =
      row.cells[j]?.getD (zero ts row.elem) := by
  cases hx : row.cells[j]? with
  | some x => exact h.cell j x hx
  | none =>
    have hj := Nat.mul_le_mul_right (row.width ts) (List.getElem?_eq_none_iff.mp hx)
    have hzero : al.slice (j * row.width ts) (row.width ts) = List.replicate (row.width ts) 0 := by
      refine List.eq_replicate_iff.mpr ⟨Allocation.length_slice, fun b hb => ?_⟩
      obtain ⟨i, -, rfl⟩ := List.mem_map.mp hb
      exact h.rest _ (hj.trans (Nat.le_add_right _ _))
    rw [hzero]
    rfl

theorem le_size (h : row.In ts al) (hj : j < row.cells.length) :
    j * row.width ts + row.width ts ≤ al.size := by
  have hle := Nat.mul_le_mul_right (row.width ts) (Nat.succ_le_of_lt hj)
  rw [Nat.succ_mul] at hle
  rw [h.size]
  exact hle.trans (le_max_left _ _)

/-- Where some of the elements lie. -/
theorem part_le (h : row.In ts al) (ho : o + n ≤ row.cells.length) :
    o * row.width ts + n * row.width ts ≤ al.size ∧
      o * row.width ts + n * row.width ts < offsetRange := by
  have hle := Nat.mul_le_mul_right (row.width ts) ho
  rw [Nat.add_mul] at hle
  exact ⟨h.size ▸ hle.trans (le_max_left _ _), hle.trans_lt h.fits⟩

theorem width_lt (h : row.In ts al) (hj : j < row.cells.length) : row.width ts < offsetRange := by
  refine lt_of_le_of_lt ?_ h.fits
  exact Nat.le_mul_of_pos_left _ (Nat.zero_lt_of_lt hj)

theorem fresh (hn : n * (ts.irType elem).size < offsetRange) :
    (⟨place, elem, List.replicate n (zero ts elem), true⟩ : Row).In ts
      { size := max (n * (ts.irType elem).size) 1 } where
  live := rfl
  size := by rw [List.length_replicate]; rfl
  fits := by rwa [List.length_replicate]
  cell j x hx := by
    obtain rfl := List.eq_of_mem_replicate (List.mem_of_getElem? hx)
    rw [Allocation.slice_fresh]
    rfl
  rest i _ := by simp [Allocation.byte]

theorem release (h : row.In ts al) :
    ({ row with live := false } : Row).In ts { al with live := false } :=
  ⟨rfl, h.size, h.fits, h.cell, h.rest⟩

/-- Elements are written over others. -/
theorem splice (h : row.In ts al) (ho : o + xs.length ≤ row.cells.length)
    (hlen : bs.length = xs.length * row.width ts)
    (hxs : ∀ j x, xs[j]? = some x →
      decode ((bs.drop (j * row.width ts)).take (row.width ts)) (ts.irType row.elem) = x) :
    ({ row with cells := splice row.cells o xs } : Row).In ts
      { al with written := Allocation.overwrite al.written (o * row.width ts) bs } := by
  have hcells : (Rows.splice row.cells o xs).length = row.cells.length := by
    simp only [Rows.splice, List.length_append, List.length_take, List.length_drop]
    omega
  have hend : o * row.width ts + bs.length = (o + xs.length) * row.width ts := by
    rw [hlen, Nat.add_mul]
  refine ⟨h.live, ?_, ?_, fun j x hx => ?_, fun i hi => ?_⟩
  · exact h.size.trans (by rw [hcells]; rfl)
  · exact lt_of_eq_of_lt (by rw [hcells]; rfl) h.fits
  · rw [Rows.getElem?_splice ho] at hx
    split at hx
    · rename_i hj
      have hsub : (j - o) * row.width ts + row.width ts ≤ bs.length := by
        rw [hlen, ← Nat.succ_mul]
        exact Nat.mul_le_mul_right _ (by omega)
      have hstart : j * row.width ts = o * row.width ts + (j - o) * row.width ts := by
        rw [← Nat.add_mul]
        congr 1
        omega
      show decode (Allocation.slice _ (j * row.width ts) (row.width ts)) _ = x
      rw [hstart, Allocation.slice_sub hsub, Allocation.slice_overwrite_self]
      exact hxs _ x hx
    · rename_i hj
      refine (congrArg (decode · _) (Allocation.slice_overwrite_apart ?_)).trans (h.cell j x hx)
      show j * row.width ts + row.width ts ≤ _ ∨ _
      rw [hend, ← Nat.succ_mul]
      by_cases hlt : j < o
      · exact .inl (Nat.mul_le_mul_right _ hlt)
      · exact .inr (Nat.mul_le_mul_right _ (by omega))
  · have hi : row.cells.length * row.width ts ≤ i := hcells ▸ hi
    have hout := Nat.mul_le_mul_right (row.width ts) ho
    rw [Allocation.byte, Allocation.getD_overwrite, if_neg (by omega)]
    exact h.rest i hi

/-- What is moved to a fresh allocation of another size, from an element on. -/
theorem resize (h : row.In ts al) (hn : n * row.width ts < offsetRange) :
    (⟨place, row.elem, resize (row.cells.drop o) n (zero ts row.elem), true⟩ : Row).In ts
      { size := max (n * row.width ts) 1
        written := Allocation.overwrite #[] 0 (al.slice (o * row.width ts)
          (min (al.size - o * row.width ts) (n * row.width ts))) } := by
  have hlength : (Rows.resize (row.cells.drop o) n (zero ts row.elem)).length = n := by
    simp [Rows.resize]
  have hsize : row.cells.length * row.width ts ≤ al.size := h.size ▸ le_max_left _ _
  -- the bytes behind the elements that there were are zero
  have hbyte : ∀ i < n * row.width ts, Allocation.byte
      { size := max (n * row.width ts) 1
        written := Allocation.overwrite #[] 0 (al.slice (o * row.width ts)
          (min (al.size - o * row.width ts) (n * row.width ts))) } i =
      al.byte (o * row.width ts + i) := fun i hi => by
    rw [Allocation.byte, Allocation.getD_overwrite, Allocation.length_slice]
    split
    · rename_i hin
      rw [Nat.sub_zero, Allocation.getElem?_slice (by omega)]
      rfl
    · rename_i hout
      exact (h.rest _ (by omega)).symm
  refine ⟨rfl, ?_, ?_, fun j x hx => ?_, fun i hi => ?_⟩
  · rw [hlength]
    rfl
  · rwa [hlength]
  · have hj : j < n := hlength ▸ (List.getElem?_eq_some_iff.mp hx).1
    rw [Rows.getElem?_resize hj, List.getElem?_drop] at hx
    have hle : j * row.width ts + row.width ts ≤ n * row.width ts := by
      rw [← Nat.succ_mul]
      exact Nat.mul_le_mul_right _ hj
    have hslice : Allocation.slice
        { size := max (n * row.width ts) 1
          written := Allocation.overwrite #[] 0 (al.slice (o * row.width ts)
            (min (al.size - o * row.width ts) (n * row.width ts))) }
        (j * row.width ts) (row.width ts) = al.slice ((o + j) * row.width ts) (row.width ts) := by
      refine List.map_congr_left fun i hi => ?_
      have hi := List.mem_range.mp hi
      rw [hbyte _ (by omega), Nat.add_mul, Nat.add_assoc]
    rw [← Option.some.inj hx, ← h.decode_slice]
    exact congrArg (decode · _) hslice
  · have hi : n * row.width ts ≤ i := hlength ▸ hi
    rw [Allocation.byte, Allocation.getD_overwrite, Allocation.length_slice, if_neg (by omega)]
    simp

/-! ### Accesses to an element -/

section

variable {μ : Memory} {e : Fault} (h : row.In ts al) (hal : μ.allocations[row.place]? = some al)
include h hal

theorem room (hl : row.live = true) (hj : j < row.cells.length) :
    μ.Room (row.address ts j) (row.width ts) := by
  have hend : j * row.width ts + row.width ts ≤ row.cells.length * row.width ts := by
    rw [← Nat.succ_mul]
    exact Nat.mul_le_mul_right _ hj
  have hfits := h.fits
  have hpos : 0 < offsetRange := Exec.offsetRange_pos
  exact Memory.room_inside hal (h.live.trans hl) (by omega) (h.le_size hj) (by omega)

theorem decode_bytes (hx : row.cells[j]? = some x) :
    decode (μ.bytes (row.address ts j) (row.width ts)) (ts.irType row.elem) = x := by
  have hj := (List.getElem?_eq_some_iff.mp hx).1
  have hend : j * row.width ts + row.width ts ≤ row.cells.length * row.width ts := by
    rw [← Nat.succ_mul]
    exact Nat.mul_le_mul_right _ hj
  have hbytes := Memory.bytes_inside (n := row.width ts) (o := j * row.width ts) hal
    (hend.trans h.fits.le)
  exact (congrArg (decode · _) hbytes).trans (h.cell j x hx)

/-- An element that cannot be used is not found in memory. -/
theorem locate_of_fault (hw : 0 < row.width ts) (hj : j * row.width ts < offsetRange)
    (hne : row.live = true → row.cells ≠ []) (he : row.fault? ts j = some e) :
    μ.locate (row.address ts j) (row.width ts) = .error e := by
  unfold Row.fault? at he
  cases hl : row.live with
  | false =>
    rw [hl, Bool.not_false, if_pos rfl] at he
    obtain rfl := Option.some.inj he
    exact Memory.locate_released hal (h.live.trans hl) hj
  | true =>
    rw [hl, Bool.not_true, if_neg (by decide)] at he
    split at he
    · rename_i hlen
      obtain rfl := Option.some.inj he
      refine Memory.locate_outside hal (h.live.trans hl) hj ?_
      have hcells : 0 < row.cells.length := List.length_pos_of_ne_nil (hne hl)
      have hmul := Nat.mul_le_mul_right (row.width ts) hlen
      have hone : 1 * row.width ts ≤ row.cells.length * row.width ts :=
        Nat.mul_le_mul_right _ hcells
      rw [h.size]
      omega
    · cases he

end

end Row.In

/-! ### Memory -/

namespace Rows

variable {rows : List Row} {row' : Row} {μ μ' : Memory}

/-- Memory holds rows, each in an allocation of its own. -/
structure Stored (ts : TypeTable) (rows : List Row) (μ : Memory) : Prop where
  held : ∀ row ∈ rows, ∃ al, μ.allocations[row.place]? = some al ∧ row.In ts al
  apart : (rows.map Row.place).Nodup

/-- What lies in the allocations of rows is what it was. -/
def Kept (rows : List Row) (μ μ' : Memory) : Prop :=
  ∀ row ∈ rows, μ'.allocations[row.place]? = μ.allocations[row.place]?

namespace Stored

theorem nil : Stored ts [] μ := ⟨nofun, .nil⟩

theorem lasts (h : Stored ts rows μ) (hk : Kept rows μ μ') : Stored ts rows μ' where
  held row hrow := by
    obtain ⟨al, hal, hin⟩ := h.held row hrow
    exact ⟨al, (hk row hrow).trans hal, hin⟩
  apart := h.apart

theorem place_lt (h : Stored ts rows μ) (hrow : row ∈ rows) : row.place < μ.allocations.size := by
  obtain ⟨al, hal, -⟩ := h.held row hrow
  exact Memory.lt_of_getElem? hal

theorem place_ne (h : Stored ts rows μ) (hi : rows[i]? = some row) (hj : rows[j]? = some row')
    (hne : j ≠ i) : row'.place ≠ row.place := by
  intro he
  have hget : (rows.map Row.place)[j]? = (rows.map Row.place)[i]? := by
    rw [List.getElem?_map, List.getElem?_map, hi, hj, Option.map_some, Option.map_some, he]
  have hlt : j < (rows.map Row.place).length := by
    rw [List.length_map]
    exact (List.getElem?_eq_some_iff.mp hj).1
  exact hne ((List.getElem?_inj hlt h.apart).mp hget)

/-- One row is changed where it is. -/
theorem change (h : Stored ts rows μ) (hi : rows[i]? = some row) (hplace : row'.place = row.place)
    (hal : μ'.allocations[row.place]? = some al) (hin : row'.In ts al)
    (hk : ∀ r ∈ rows, r.place ≠ row.place → μ'.allocations[r.place]? = μ.allocations[r.place]?) :
    Stored ts (rows.set i row') μ' where
  held r hr := by
    obtain ⟨j, hj⟩ := List.mem_iff_getElem?.mp hr
    by_cases hji : j = i
    · subst hji
      rw [List.getElem?_set_self (List.getElem?_eq_some_iff.mp hi).1] at hj
      obtain rfl := Option.some.inj hj
      exact ⟨al, hplace ▸ hal, hin⟩
    · rw [List.getElem?_set_ne (Ne.symm hji)] at hj
      have hmem := List.mem_iff_getElem?.mpr ⟨j, hj⟩
      obtain ⟨al', hal', hin'⟩ := h.held r hmem
      exact ⟨al', (hk r hmem (h.place_ne hi hj hji)).trans hal', hin'⟩
  apart := by
    have hsame : (rows.set i row').map Row.place = rows.map Row.place := by
      obtain ⟨hlt, hget⟩ := List.getElem?_eq_some_iff.mp hi
      refine List.ext_getElem (by simp) fun j hj hj' => ?_
      rw [List.getElem_map, List.getElem_map, List.getElem_set]
      split
      · rename_i he
        subst he
        rw [hplace, hget]
      · rfl
    rw [hsame]
    exact h.apart

/-- A row is added in an allocation that no other one has. -/
theorem append (h : Stored ts rows μ) (hk : Kept rows μ μ')
    (hal : μ'.allocations[row.place]? = some al) (hin : row.In ts al)
    (hnew : ∀ r ∈ rows, r.place ≠ row.place) : Stored ts (rows ++ [row]) μ' where
  held r hr := by
    rcases List.mem_append.mp hr with hr | hr
    · exact (h.lasts hk).held r hr
    · obtain rfl := List.mem_singleton.mp hr
      exact ⟨al, hal, hin⟩
  apart := by
    rw [List.map_append, List.nodup_append]
    refine ⟨h.apart, List.nodup_singleton _, fun a ha b hb => ?_⟩
    obtain ⟨r, hr, rfl⟩ := List.mem_map.mp ha
    rw [List.mem_singleton.mp hb]
    exact hnew r hr

end Stored

/-- Memory holds rows in the place of others, and what lay apart from the rows before is what it was. -/
structure Becomes (ts : TypeTable) (rows rows' : List Row) (μ μ' : Memory) : Prop where
  stored : Stored ts rows' μ'
  spared : ∀ i < μ.allocations.size, (∀ r ∈ rows, r.place ≠ i) →
    μ'.allocations[i]? = μ.allocations[i]?

theorem Becomes.of_kept (h : Stored ts rows μ)
    (hk : ∀ i < μ.allocations.size, μ'.allocations[i]? = μ.allocations[i]?) :
    Becomes ts rows rows μ μ' :=
  ⟨h.lasts fun _ hr => hk _ (h.place_lt hr), fun i hi _ => hk i hi⟩

/-- A row is moved to a fresh allocation, in another number. -/
theorem Becomes.moved {i count : Nat} (h : Stored ts rows μ)
    (hi : rows[i]? = some row) (hal : μ.allocations[row.place]? = some al) (hin : row.In ts al)
    (ho : o * row.width ts < offsetRange) (hn : count * row.width ts < offsetRange) :
    Becomes ts rows (rows.set i { row with live := false } ++ [⟨μ.allocations.size, row.elem,
        resize (row.cells.drop o) count (zero ts row.elem), true⟩])
      μ (μ.movedTo row.place al (o * row.width ts) (count * row.width ts)) := by
  have hplace := h.place_lt (List.mem_of_getElem? hi)
  refine ⟨?_, fun j hj hr => Memory.getElem?_movedTo_of_ne ho hj
    fun he => hr row (List.mem_of_getElem? hi) he.symm⟩
  have hreleased : Stored ts (rows.set i { row with live := false })
      (μ.movedTo row.place al (o * row.width ts) (count * row.width ts)) :=
    h.change hi rfl (Memory.getElem?_movedTo_self hal ho) hin.release
      fun r hr hne => Memory.getElem?_movedTo_of_ne ho (h.place_lt hr) hne
  refine hreleased.append (fun _ _ => rfl) (Memory.getElem?_movedTo_fresh hplace ho)
    (hin.resize hn) fun r hr => ?_
  rcases List.mem_or_eq_of_mem_set hr with hr | rfl
  · exact (h.place_lt hr).ne
  · exact hplace.ne

/-- Elements are written over others of a row. -/
theorem Becomes.put (xs : List RtValue) (bs : List UInt8) (h : Stored ts rows μ) (hi : rows[i]? = some row)
    (hal : μ.allocations[row.place]? = some al) (hin : row.In ts al)
    (ho : o + xs.length ≤ row.cells.length) (hoffset : o * row.width ts < offsetRange)
    (hlen : bs.length = xs.length * row.width ts)
    (hxs : ∀ j x, xs[j]? = some x →
      decode ((bs.drop (j * row.width ts)).take (row.width ts)) (ts.irType row.elem) = x) :
    Becomes ts rows (rows.set i { row with cells := splice row.cells o xs }) μ
      (μ.put bs (Memory.place (row.address ts o))) := by
  have hplace : Memory.place (row.address ts o) = (row.place, o * row.width ts) :=
    Memory.place_inside hoffset
  have hother : ∀ j, j ≠ row.place →
      (μ.put bs (Memory.place (row.address ts o))).allocations[j]? = μ.allocations[j]? :=
    fun j hj => by rw [hplace, Memory.getElem?_put, if_neg hj.symm]
  have hself : (μ.put bs (Memory.place (row.address ts o))).allocations[row.place]? =
      some { al with written := Allocation.overwrite al.written (o * row.width ts) bs } := by
    rw [hplace, Memory.getElem?_put, if_pos rfl, hal, Option.map_some]
  refine ⟨h.change hi rfl hself (hin.splice ho hlen hxs) fun r _ hne => hother _ hne,
    fun j _ hr => hother j fun he => hr row (List.mem_of_getElem? hi) he.symm⟩

theorem Becomes.after {μ₀ : Memory} (h : Becomes ts rows rows' μ μ')
    (hk : ∀ i < μ₀.allocations.size, μ.allocations[i]? = μ₀.allocations[i]?) :
    Becomes ts rows rows' μ₀ μ' where
  stored := h.stored
  spared i hi hr := by
    have hget : μ.allocations[i]? = some μ₀.allocations[i] :=
      (hk i hi).trans (Array.getElem?_eq_getElem hi)
    rw [h.spared i (Memory.lt_of_getElem? hget) hr, hk i hi]

end Rows

end Lowering
