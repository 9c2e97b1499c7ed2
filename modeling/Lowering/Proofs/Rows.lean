import Lowering.Gen.Layout
import Lowering.Proofs.Allocating
import Mathlib.Logic.Relation

/-!
# Rows of elements

What a program has when it has arrays: rows of values, and pointers to places in them.  Requests
are answered from the values alone; memory holds the values of a row one after the other, from the
start of an allocation of its own.

* `Row`, `Cursor`, `Request`: arrays, pointers into them, and what is asked of them;
* `Rows.respond`: what a request is answered with, and the rows behind it;
* `Rows.Legal`: requests with numbers of elements, and offsets, that addresses can express;
* `Rows.get_set`, `Rows.get_realloc`, `Rows.get_copyFrom` and the like: the laws of arrays;
* `Rows.Stored`: rows as memory holds them, and `Rows.Stored.append`, `Rows.Stored.change`: what
  keeps them there.
-/

namespace Lowering

open Exec (RtValue Fault Memory Allocation decode baseAddress offsetRange)

/-- A row of values: the number of its allocation, the type of its elements, their values, and
whether it is in use. -/
structure Row where
  place : Nat
  elem : TypeId
  cells : List RtValue
  live : Bool := true
  deriving Inhabited

/-- A pointer to the element of a row, or to where it would be. -/
structure Cursor where
  row : Nat
  offset : Nat
  deriving DecidableEq

/-- What is asked of arrays. -/
inductive Request
  /-- A fresh row. -/
  | malloc (elem : TypeId) (count : Nat)
  /-- A fresh row with the elements from a pointer on, in place of the row that there was. -/
  | realloc (p : Cursor) (count : Nat)
  /-- The pointer some elements further on. -/
  | add (p : Cursor) (step : Int)
  | get (p : Cursor)
  | set (p : Cursor) (x : RtValue)
  /-- The elements from another pointer on. -/
  | copyFrom (p source : Cursor) (count : Nat)

/-! ### Answers -/

namespace Row

variable (ts : TypeTable) (row : Row)

/-- The bytes of an element. -/
def width : Nat := (ts.irType row.elem).size

/-- The address of an element. -/
def address (offset : Nat) : Nat := baseAddress row.place + offset * row.width ts

/-- Why an element cannot be used. -/
def fault? (offset : Nat) : Option Fault :=
  if !row.live then some (.useAfterFree (row.address ts offset))
  else if row.cells.length ≤ offset then
    some (.outOfBounds (row.address ts offset) (row.width ts))
  else none

variable {ts row} in
theorem fault?_eq_none {offset : Nat} :
    row.fault? ts offset = none ↔ row.live = true ∧ offset < row.cells.length := by
  unfold fault?
  cases row.live <;> simp

end Row

namespace Rows

section

variable (ts : TypeTable) (rows : List Row)

/-- The value of an element whose bytes are zero. -/
def zero (elem : TypeId) : RtValue :=
  decode (List.replicate (ts.irType elem).size 0) (ts.irType elem)

/-- The row of a pointer. -/
def rowOf (p : Cursor) : Row := rows[p.row]?.getD default

/-- The address that a pointer is. -/
def cursorAddress (p : Cursor) : Nat := (rowOf rows p).address ts p.offset

/-- Some values in the place of others. -/
def splice (cells : List RtValue) (offset : Nat) (xs : List RtValue) : List RtValue :=
  cells.take offset ++ xs ++ cells.drop (offset + xs.length)

/-- The values of a row in another number. -/
def resize (cells : List RtValue) (count : Nat) (rest : RtValue) : List RtValue :=
  (List.range count).map fun i => cells[i]?.getD rest

/-- The value that a pointer points to. -/
def get (p : Cursor) : Except Fault RtValue :=
  match (rowOf rows p).fault? ts p.offset with
  | some e => .error e
  | none => .ok ((rowOf rows p).cells[p.offset]?.getD (zero ts (rowOf rows p).elem))

/-- What a request is answered with, and the rows behind it, when the next allocation has a
number. -/
def respond (fresh : Nat) : Request → Except Fault RtValue × List Row
  | .malloc elem count =>
    (.ok (.ptr (baseAddress fresh)), rows ++ [⟨fresh, elem, List.replicate count (zero ts elem), true⟩])
  | .realloc p count =>
    let row := rowOf rows p
    if row.live then
      (.ok (.ptr (baseAddress fresh)), rows.set p.row { row with live := false } ++
        [⟨fresh, row.elem, resize (row.cells.drop p.offset) count (zero ts row.elem), true⟩])
    else (.error (.useAfterFree (row.address ts p.offset)), rows)
  | .add p step =>
    let row := rowOf rows p
    if 0 ≤ p.offset + step ∧ (p.offset + step) * row.width ts < offsetRange then
      (.ok (.ptr (row.address ts (p.offset + step).toNat)), rows)
    else (.error (.outOfBounds (row.address ts p.offset) 0), rows)
  | .get p => (get ts rows p, rows)
  | .set p x =>
    let row := rowOf rows p
    match row.fault? ts p.offset with
    | some e => (.error e, rows)
    | none => (.ok x, rows.set p.row { row with cells := row.cells.set p.offset x })
  | .copyFrom p source count =>
    let row := rowOf rows p
    (.ok (.ptr (row.address ts p.offset)), rows.set p.row { row with
      cells := splice row.cells p.offset (((rowOf rows source).cells.drop source.offset).take count) })

/-- The pointer that a request is answered with, if it is answered with one. -/
def cursor? : Request → Option Cursor
  | .malloc _ _ | .realloc _ _ => some ⟨rows.length, 0⟩
  | .add p step => some ⟨p.row, (p.offset + step).toNat⟩
  | .copyFrom p _ _ => some p
  | .get _ | .set _ _ => none

/-- A pointer that there is: its offset is one that addresses can express. -/
structure Addressable (p : Cursor) : Prop where
  row : p.row < rows.length
  offset : p.offset * (rowOf rows p).width ts < offsetRange

/-- Requests for numbers of elements that addresses can express, at offsets in range; a row without
elements is not accessed. -/
def Legal : Request → Prop
  | .malloc elem count => count * (ts.irType elem).size < offsetRange
  | .realloc p count => Addressable ts rows p ∧ count * (rowOf rows p).width ts < offsetRange ∧
    ((rowOf rows p).live = true → p.offset ≤ (rowOf rows p).cells.length)
  | .add p _ => Addressable ts rows p
  | .get p => Addressable ts rows p ∧ ((rowOf rows p).live = true → (rowOf rows p).cells ≠ [])
  | .set p _ => Addressable ts rows p ∧ ((rowOf rows p).live = true → (rowOf rows p).cells ≠ [])
  | .copyFrom p source count => Addressable ts rows p ∧ Addressable ts rows source ∧
    (rowOf rows source).elem = (rowOf rows p).elem ∧
    (rowOf rows p).live = true ∧ p.offset + count ≤ (rowOf rows p).cells.length ∧
    (rowOf rows source).live = true ∧ source.offset + count ≤ (rowOf rows source).cells.length

end


/-! ### Laws -/

section

variable {ts : TypeTable} {rows rows' : List Row} {row row' : Row} {p q source : Cursor}
  {x y : RtValue} {fresh i o n : Nat} {elem : TypeId} {req : Request}

theorem rowOf_eq (h : rows[p.row]? = some row) : rowOf rows p = row := by
  rw [rowOf, h]
  rfl

theorem getElem?_rowOf (h : p.row < rows.length) : rows[p.row]? = some (rowOf rows p) := by
  rw [rowOf, List.getElem?_eq_getElem h]
  rfl

theorem rowOf_set_self (h : p.row < rows.length) : rowOf (rows.set p.row row) ⟨p.row, o⟩ = row :=
  rowOf_eq (List.getElem?_set_self h)

theorem rowOf_set_of_ne (h : q.row ≠ p.row) : rowOf (rows.set p.row row) q = rowOf rows q := by
  rw [rowOf, List.getElem?_set_ne h.symm, rowOf]

theorem rowOf_append_self : rowOf (rows ++ [row]) ⟨rows.length, o⟩ = row :=
  rowOf_eq List.getElem?_concat_length

theorem rowOf_append_of_lt (h : q.row < rows.length) : rowOf (rows ++ [row]) q = rowOf rows q := by
  rw [rowOf, List.getElem?_append_left h, rowOf]

theorem get_congr (h : rowOf rows' q = rowOf rows q) : get ts rows' q = get ts rows q := by
  rw [get, get, h]

theorem get_of_live (hl : (rowOf rows p).live = true)
    (hx : (rowOf rows p).cells[p.offset]? = some x) : get ts rows p = .ok x := by
  have hlt : p.offset < (rowOf rows p).cells.length := (List.getElem?_eq_some_iff.mp hx).1
  have hnone : (rowOf rows p).fault? ts p.offset = none := Row.fault?_eq_none.mpr ⟨hl, hlt⟩
  rw [get, hnone, hx]
  rfl

theorem get_of_released (hl : (rowOf rows p).live = false) :
    get ts rows p = .error (.useAfterFree ((rowOf rows p).address ts p.offset)) := by
  simp [get, Row.fault?, hl]

theorem get_outside (hl : (rowOf rows p).live = true)
    (ho : (rowOf rows p).cells.length ≤ p.offset) : get ts rows p =
      .error (.outOfBounds ((rowOf rows p).address ts p.offset) ((rowOf rows p).width ts)) := by
  simp [get, Row.fault?, hl, ho]

theorem getElem?_resize {cells : List RtValue} (h : i < n) :
    (resize cells n x)[i]? = some (cells[i]?.getD x) := by
  simp [resize, List.getElem?_range h]

theorem getElem?_splice {cells xs : List RtValue} (h : o + xs.length ≤ cells.length) :
    (splice cells o xs)[i]? = if o ≤ i ∧ i < o + xs.length then xs[i - o]? else cells[i]? := by
  have ho : (cells.take o).length = o := by simp; omega
  unfold splice
  rw [List.append_assoc]
  by_cases hi : i < o
  · rw [List.getElem?_append_left (by omega), List.getElem?_take_of_lt hi, if_neg (by omega)]
  · rw [List.getElem?_append_right (by omega), ho]
    by_cases hx : i < o + xs.length
    · rw [List.getElem?_append_left (by omega), if_pos (by omega)]
    · rw [List.getElem?_append_right (by omega), List.getElem?_drop, if_neg (by omega)]
      congr 1
      omega

theorem splice_singleton {cells : List RtValue} (h : o < cells.length) :
    splice cells o [x] = cells.set o x := by
  rw [splice, List.set_eq_take_append_cons_drop, if_pos h, List.append_assoc]
  rfl

/-- Rows behind some requests. -/
def Later (ts : TypeTable) : List Row → List Row → Prop :=
  Relation.ReflTransGen fun rows rows' => ∃ fresh req, rows' = (respond ts rows fresh req).2

/-- A row behind a request: where it was, and not in use again. -/
structure Lasts (row row' : Row) : Prop where
  place : row'.place = row.place
  elem : row'.elem = row.elem
  live : row.live = false → row'.live = false

theorem lasts_respond (h : rows[i]? = some row) :
    ∃ row', (respond ts rows fresh req).2[i]? = some row' ∧ Lasts row row' := by
  have hself : Lasts row row := ⟨rfl, rfl, id⟩
  -- a row is put in the place of another one only as the row of a pointer
  have hset : ∀ (p : Cursor) (row₁ : Row), Lasts (rowOf rows p) row₁ →
      ∃ row', (rows.set p.row row₁)[i]? = some row' ∧ Lasts row row' := fun p row₁ h₁ => by
    have hlt : i < rows.length := (List.getElem?_eq_some_iff.mp h).1
    by_cases hi : p.row = i
    · subst hi
      exact ⟨row₁, List.getElem?_set_self hlt, rowOf_eq h ▸ h₁⟩
    · exact ⟨row, (List.getElem?_set_ne hi).trans h, hself⟩
  have happend : ∀ (rows₁ : List Row) (fresh : Row),
      (∃ row', rows₁[i]? = some row' ∧ Lasts row row') →
        ∃ row', (rows₁ ++ [fresh])[i]? = some row' ∧ Lasts row row' := fun rows₁ fresh h₁ => by
    obtain ⟨row', hrow, hlasts⟩ := h₁
    have hlt : i < rows₁.length := (List.getElem?_eq_some_iff.mp hrow).1
    exact ⟨row', (List.getElem?_append_left hlt).trans hrow, hlasts⟩
  cases req with
  | malloc elem count => exact happend rows _ ⟨row, h, hself⟩
  | realloc p count =>
    unfold respond
    dsimp only
    split
    · exact happend _ _ (hset p { rowOf rows p with live := false } ⟨rfl, rfl, fun _ => rfl⟩)
    · exact ⟨row, h, hself⟩
  | add p step =>
    unfold respond
    dsimp only
    split <;> exact ⟨row, h, hself⟩
  | get p => exact ⟨row, h, hself⟩
  | set p x =>
    unfold respond
    dsimp only
    split
    · exact ⟨row, h, hself⟩
    · exact hset p _ ⟨rfl, rfl, id⟩
  | copyFrom p source count => exact hset p _ ⟨rfl, rfl, id⟩

theorem Later.lasts (h : Later ts rows rows') (hrow : rows[i]? = some row) :
    ∃ row', rows'[i]? = some row' ∧ Lasts row row' := by
  induction h with
  | refl => exact ⟨row, hrow, rfl, rfl, id⟩
  | tail _ hstep ih =>
    obtain ⟨row₁, h₁, hl₁⟩ := ih
    obtain ⟨fresh, req, rfl⟩ := hstep
    obtain ⟨row', h', hl'⟩ := lasts_respond h₁
    exact ⟨row', h', hl'.place.trans hl₁.place, hl'.elem.trans hl₁.elem, hl'.live ∘ hl₁.live⟩

/-- All elements of a fresh row are zero. -/
theorem get_malloc (h : i < n) :
    get ts (respond ts rows fresh (.malloc elem n)).2 ⟨rows.length, i⟩ = .ok (zero ts elem) := by
  refine get_of_live (congrArg Row.live rowOf_append_self) ?_
  rw [respond, rowOf_append_self]
  exact List.getElem?_replicate_of_lt h

/-- Other rows keep their elements when there is a fresh one. -/
theorem get_malloc_of_lt (h : q.row < rows.length) :
    get ts (respond ts rows fresh (.malloc elem n)).2 q = get ts rows q :=
  get_congr (rowOf_append_of_lt h)

theorem respond_set (hl : (rowOf rows p).live = true) (ho : p.offset < (rowOf rows p).cells.length) :
    respond ts rows fresh (.set p x) = (.ok x, rows.set p.row
      { rowOf rows p with cells := (rowOf rows p).cells.set p.offset x }) := by
  have hnone : (rowOf rows p).fault? ts p.offset = none := Row.fault?_eq_none.mpr ⟨hl, ho⟩
  rw [respond]
  dsimp only
  rw [hnone]

/-- An element that was set is what it was set to. -/
theorem get_set_self (hp : p.row < rows.length) (hl : (rowOf rows p).live = true)
    (ho : p.offset < (rowOf rows p).cells.length) :
    get ts (respond ts rows fresh (.set p x)).2 p = .ok x := by
  rw [respond_set hl ho]
  have hrow : rowOf (rows.set p.row { rowOf rows p with
    cells := (rowOf rows p).cells.set p.offset x }) p = _ := rowOf_set_self hp
  refine get_of_live (by rw [hrow, hl]) ?_
  rw [hrow]
  exact List.getElem?_set_self ho

/-- All other elements are what they were. -/
theorem get_set_of_ne (hp : p.row < rows.length) (hl : (rowOf rows p).live = true)
    (ho : p.offset < (rowOf rows p).cells.length) (hq : q ≠ p) :
    get ts (respond ts rows fresh (.set p x)).2 q = get ts rows q := by
  rw [respond_set hl ho]
  by_cases hrow : q.row = p.row
  · obtain ⟨r, j⟩ := q
    obtain rfl : r = p.row := hrow
    have hj : p.offset ≠ j := fun h => hq (by subst h; rfl)
    have hold : rowOf rows ⟨p.row, j⟩ = rowOf rows p := rfl
    rw [get, rowOf_set_self hp, get, hold]
    simp [Row.fault?, Row.address, Row.width, List.getElem?_set_ne hj]
  · exact get_congr (rowOf_set_of_ne hrow)

theorem respond_realloc (hl : (rowOf rows p).live = true) :
    respond ts rows fresh (.realloc p n) = (.ok (.ptr (baseAddress fresh)),
      rows.set p.row { rowOf rows p with live := false } ++ [⟨fresh, (rowOf rows p).elem,
        resize ((rowOf rows p).cells.drop p.offset) n (zero ts (rowOf rows p).elem), true⟩]) := by
  rw [respond]
  dsimp only
  rw [if_pos hl]

/-- A row in another number has the elements from the pointer on, and zeros behind them. -/
theorem get_realloc (hl : (rowOf rows p).live = true) (hi : i < n) :
    get ts (respond ts rows fresh (.realloc p n)).2 ⟨rows.length, i⟩ =
      .ok ((rowOf rows p).cells[p.offset + i]?.getD (zero ts (rowOf rows p).elem)) := by
  rw [respond_realloc hl]
  have hrow : rowOf (rows.set p.row { rowOf rows p with live := false } ++ [⟨fresh, (rowOf rows p).elem,
      resize ((rowOf rows p).cells.drop p.offset) n (zero ts (rowOf rows p).elem), true⟩])
      ⟨rows.length, i⟩ = _ :=
    (List.length_set : (rows.set p.row { rowOf rows p with live := false }).length = _) ▸
      rowOf_append_self
  refine get_of_live (congrArg Row.live hrow) ?_
  rw [hrow]
  dsimp only
  rw [getElem?_resize hi, List.getElem?_drop]

theorem get_realloc_of_ne (hl : (rowOf rows p).live = true) (hq : q.row < rows.length)
    (hne : q.row ≠ p.row) :
    get ts (respond ts rows fresh (.realloc p n)).2 q = get ts rows q := by
  rw [respond_realloc hl]
  exact get_congr ((rowOf_append_of_lt (by rwa [List.length_set])).trans (rowOf_set_of_ne hne))

/-- The row that there was is not in use behind a request for another number, whatever is asked
then. -/
theorem released_of_later (hp : p.row < rows.length) (hl : (rowOf rows p).live = true)
    (hlater : Later ts (respond ts rows fresh (.realloc p n)).2 rows') :
    (rowOf rows' ⟨p.row, o⟩).live = false ∧
      (rowOf rows' ⟨p.row, o⟩).address ts o = (rowOf rows p).address ts o := by
  rw [respond_realloc hl] at hlater
  have hrow : (rows.set p.row { rowOf rows p with live := false } ++ [⟨fresh, (rowOf rows p).elem,
      resize ((rowOf rows p).cells.drop p.offset) n (zero ts (rowOf rows p).elem), true⟩])[p.row]? =
      some { rowOf rows p with live := false } :=
    (List.getElem?_append_left (by rwa [List.length_set])).trans (List.getElem?_set_self hp)
  obtain ⟨row', h', hlasts⟩ := hlater.lasts hrow
  have hrow' : rowOf rows' ⟨p.row, o⟩ = row' := rowOf_eq h'
  rw [hrow', Row.address, Row.address, Row.width, Row.width, hlasts.place, hlasts.elem]
  exact ⟨hlasts.live rfl, rfl⟩

theorem respond_set_of_released (hl : (rowOf rows p).live = false) :
    respond ts rows fresh (.set p x) =
      (.error (.useAfterFree ((rowOf rows p).address ts p.offset)), rows) := by
  have hsome : (rowOf rows p).fault? ts p.offset =
      some (.useAfterFree ((rowOf rows p).address ts p.offset)) := by
    simp [Row.fault?, hl]
  rw [respond, hsome]

theorem respond_set_outside (hl : (rowOf rows p).live = true)
    (ho : (rowOf rows p).cells.length ≤ p.offset) : respond ts rows fresh (.set p x) =
      (.error (.outOfBounds ((rowOf rows p).address ts p.offset) ((rowOf rows p).width ts)), rows) := by
  have hsome : (rowOf rows p).fault? ts p.offset =
      some (.outOfBounds ((rowOf rows p).address ts p.offset) ((rowOf rows p).width ts)) := by
    simp [Row.fault?, hl, ho]
  rw [respond, hsome]

section

variable (hp : p.row < rows.length) (hl : (rowOf rows p).live = true)
  (ho : p.offset + n ≤ (rowOf rows p).cells.length)
  (hs : source.offset + n ≤ (rowOf rows source).cells.length)
include hp hl ho hs

/-- Elements that were copied are what those of the source were. -/
theorem get_copyFrom (hsl : (rowOf rows source).live = true) (hi : i < n) :
    get ts (respond ts rows fresh (.copyFrom p source n)).2 ⟨p.row, p.offset + i⟩ =
      get ts rows ⟨source.row, source.offset + i⟩ := by
  have hlen : (((rowOf rows source).cells.drop source.offset).take n).length = n := by
    simp
    omega
  obtain ⟨x, hx⟩ : ∃ x, (rowOf rows source).cells[source.offset + i]? = some x :=
    ⟨_, List.getElem?_eq_getElem (by omega)⟩
  rw [get_of_live (p := ⟨source.row, source.offset + i⟩) hsl hx]
  refine get_of_live ?_ ?_ <;> rw [respond, rowOf_set_self hp]
  · exact hl
  · dsimp only
    rw [getElem?_splice (by omega), if_pos (by omega), Nat.add_sub_cancel_left,
      List.getElem?_take_of_lt hi, List.getElem?_drop, hx]

omit hl in
/-- All other elements are what they were. -/
theorem get_copyFrom_of_apart (hq : q.row = p.row → q.offset < p.offset ∨ p.offset + n ≤ q.offset) :
    get ts (respond ts rows fresh (.copyFrom p source n)).2 q = get ts rows q := by
  have hlen : (((rowOf rows source).cells.drop source.offset).take n).length = n := by
    simp
    omega
  rw [respond]
  by_cases hrow : q.row = p.row
  · obtain ⟨r, j⟩ := q
    obtain rfl : r = p.row := hrow
    have hj : j < p.offset ∨ p.offset + n ≤ j := hq rfl
    have hout : ¬ (p.offset ≤ j ∧ j < p.offset + n) := by omega
    have hlength : (splice (rowOf rows p).cells p.offset (((rowOf rows source).cells.drop
        source.offset).take n)).length = (rowOf rows p).cells.length := by
      simp only [splice, List.length_append, List.length_take, List.length_drop]
      omega
    have hold : rowOf rows ⟨p.row, j⟩ = rowOf rows p := rfl
    rw [get, rowOf_set_self hp, get, hold]
    simp only [Row.fault?, Row.address, Row.width, hlength]
    rw [getElem?_splice (by rw [hlen]; exact ho), hlen, if_neg hout]
  · exact get_congr (rowOf_set_of_ne hrow)

end

theorem cursorAddress_append {rows : List Row} (ho : row.place = fresh) :
    cursorAddress ts (rows ++ [row]) ⟨rows.length, 0⟩ = baseAddress fresh := by
  rw [cursorAddress, rowOf_append_self, Row.address, ho, Nat.zero_mul, Nat.add_zero]

/-- A pointer that a request is answered with points into the rows behind it. -/
theorem respond_cursor (hl : Legal ts rows req) (hq : cursor? rows req = some q)
    (hx : (respond ts rows fresh req).1 = .ok x) :
    x = .ptr (cursorAddress ts (respond ts rows fresh req).2 q) := by
  cases req with
  | malloc elem n =>
    cases hq
    obtain rfl := Except.ok.inj hx
    rw [respond, cursorAddress_append rfl]
  | realloc p n =>
    cases hq
    cases hlive : (rowOf rows p).live with
    | false => simp [respond, hlive] at hx
    | true =>
      rw [respond_realloc hlive] at hx ⊢
      obtain rfl := Except.ok.inj hx
      have hlen : (rows.set p.row { rowOf rows p with live := false }).length = rows.length :=
        List.length_set
      rw [← hlen, cursorAddress_append rfl]
  | add p step =>
    cases hq
    unfold respond at hx
    dsimp only at hx
    split at hx
    · rename_i hin
      rw [← Except.ok.inj hx, respond, if_pos hin]
      rfl
    · cases hx
  | get p => cases hq
  | set p y => cases hq
  | copyFrom p source n =>
    cases hq
    obtain rfl := Except.ok.inj hx
    have hrow : q.row < rows.length := hl.1.row
    rw [respond, cursorAddress, rowOf_set_self hrow]
    rfl

/-- What makes rows arrays, at a moment at which the next allocation has a number. -/
structure Lawful (ts : TypeTable) (rows : List Row) (fresh : Nat) : Prop where
  /-- A pointer that a request is answered with points into the rows behind it. -/
  pointer : ∀ req q x, Legal ts rows req → cursor? rows req = some q →
    (respond ts rows fresh req).1 = .ok x → x = .ptr (cursorAddress ts (respond ts rows fresh req).2 q)
  /-- A fresh row is zero in all places, and the others are what they were. -/
  malloc : ∀ elem n,
    (∀ i < n, get ts (respond ts rows fresh (.malloc elem n)).2 ⟨rows.length, i⟩ =
      .ok (zero ts elem)) ∧
    ∀ q : Cursor, q.row < rows.length →
      get ts (respond ts rows fresh (.malloc elem n)).2 q = get ts rows q
  /-- An element is what it was set to, and all others are what they were. -/
  set : ∀ (p : Cursor) x, p.row < rows.length → (rowOf rows p).live = true →
    p.offset < (rowOf rows p).cells.length →
    get ts (respond ts rows fresh (.set p x)).2 p = .ok x ∧
    ∀ q ≠ p, get ts (respond ts rows fresh (.set p x)).2 q = get ts rows q
  /-- A row in another number has the elements that there were, and zeros behind them; whatever is
  asked then, the pointers to the row that there was are released. -/
  realloc : ∀ (p : Cursor) n, p.row < rows.length → (rowOf rows p).live = true →
    (∀ i < n, get ts (respond ts rows fresh (.realloc p n)).2 ⟨rows.length, i⟩ =
      if p.offset + i < (rowOf rows p).cells.length then get ts rows ⟨p.row, p.offset + i⟩
      else .ok (zero ts (rowOf rows p).elem)) ∧
    (∀ q : Cursor, q.row < rows.length → q.row ≠ p.row →
      get ts (respond ts rows fresh (.realloc p n)).2 q = get ts rows q) ∧
    ∀ rows', Later ts (respond ts rows fresh (.realloc p n)).2 rows' → ∀ i x fresh',
      let e := Fault.useAfterFree ((rowOf rows p).address ts i)
      respond ts rows' fresh' (.get ⟨p.row, i⟩) = (.error e, rows') ∧
        respond ts rows' fresh' (.set ⟨p.row, i⟩ x) = (.error e, rows')
  /-- Elements that were copied are what those of the source were before, and all others are what
  they were. -/
  copyFrom : ∀ (p source : Cursor) n, p.row < rows.length → (rowOf rows p).live = true →
    p.offset + n ≤ (rowOf rows p).cells.length → (rowOf rows source).live = true →
    source.offset + n ≤ (rowOf rows source).cells.length →
    (∀ i < n, get ts (respond ts rows fresh (.copyFrom p source n)).2 ⟨p.row, p.offset + i⟩ =
      get ts rows ⟨source.row, source.offset + i⟩) ∧
    ∀ q : Cursor, (q.row = p.row → q.offset < p.offset ∨ p.offset + n ≤ q.offset) →
      get ts (respond ts rows fresh (.copyFrom p source n)).2 q = get ts rows q
  /-- Behind the last element there is nothing to get or to set. -/
  outside : ∀ (p : Cursor) x, (rowOf rows p).live = true →
    (rowOf rows p).cells.length ≤ p.offset →
    let e := Fault.outOfBounds ((rowOf rows p).address ts p.offset) ((rowOf rows p).width ts)
    respond ts rows fresh (.get p) = (.error e, rows) ∧
      respond ts rows fresh (.set p x) = (.error e, rows)

theorem lawful (ts : TypeTable) (rows : List Row) (fresh : Nat) : Lawful ts rows fresh where
  pointer req q x hl hq hx := respond_cursor hl hq hx
  malloc elem n := ⟨fun i hi => get_malloc hi, fun q hq => get_malloc_of_lt hq⟩
  set p x hp hl ho := ⟨get_set_self hp hl ho, fun q hq => get_set_of_ne hp hl ho hq⟩
  realloc p n hp hl := by
    refine ⟨fun i hi => ?_, fun q hq hne => get_realloc_of_ne hl hq hne,
      fun rows' hlater i x fresh' => ?_⟩
    · rw [get_realloc hl hi]
      split
      · rename_i hlt
        have hx := List.getElem?_eq_getElem hlt
        rw [hx, get_of_live (p := ⟨p.row, p.offset + i⟩) hl hx]
        rfl
      · rename_i hge
        rw [List.getElem?_eq_none (not_lt.mp hge)]
        rfl
    · obtain ⟨hdead, haddress⟩ := released_of_later (o := i) hp hl hlater
      dsimp only
      rw [← haddress]
      exact ⟨congrArg (·, rows') (get_of_released hdead), respond_set_of_released hdead⟩
  copyFrom p source n hp hl ho hsl hs :=
    ⟨fun i hi => get_copyFrom hp hl ho hs hsl hi, fun q hq => get_copyFrom_of_apart hp ho hs hq⟩
  outside p x hl ho :=
    ⟨congrArg (·, rows) (get_outside hl ho), respond_set_outside hl ho⟩

end

end Rows

end Lowering
