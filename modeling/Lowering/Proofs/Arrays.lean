import Lowering.Program.Draft
import Lowering.Proofs.Primitive
import Lowering.Proofs.Stored

/-!
# Arrays behind pointers

The functions that are made for the pointer primitives, called again and again with whatever else a
program does in between, answer as rows do.

* `Gen.PointerFunction`: a function of a pointer primitive;
* `Gen.Hands`, `Gen.Asks`: an argument that hands over a value, and a call that makes a request;
* `Gen.answered_malloc`, `Gen.answered_set` and the like: what one call comes to;
* `Gen.Session`: what calls come to in turn, with `Gen.Session.stored`;
* `Gen.arrays_behind_pointers`.
-/

namespace Lowering

open IR (Ty Value FuncId BlockId Module)
open Exec (RtValue Fault Memory Allocation decode encode baseAddress offsetRange)
open Exec.Run (callWithin)

namespace Gen

open Rows (respond rowOf cursorAddress Legal Stored Kept Becomes Lawful)

variable {c : Context} {m : Module} {op : Primitive} {t elem : TypeId} {d : Def}
  {selfType : Option TypeId} {f : FuncId} {rows rows' : List Row} {row : Row} {σ σ' : Exec.State}
  {req : Request} {xs : List RtValue} {x y : RtValue} {w : Setting} {k : Spot} {n o : Nat}
  {μ μ' : Memory} {p : Cursor} {a : Arg} {al : Allocation} {bs : List UInt8}

/-! ### What a call leaves -/

theorem indexOf_start (j : Nat) : Memory.indexOf (baseAddress j) = some j := by
  have h := Memory.indexOf_inside (i := j) (o := 0) Exec.offsetRange_pos
  rwa [Nat.add_zero] at h

theorem place_start (j : Nat) : Memory.place (baseAddress j) = (j, 0) := by
  have h := Memory.place_inside (i := j) (o := 0) Exec.offsetRange_pos
  rwa [Nat.add_zero] at h

theorem kept_opening {ts : TypeTable} {i : Nat} (hi : i < μ.allocations.size) :
    (opening ts d μ).allocations[i]? = μ.allocations[i]? := by
  unfold opening
  split
  · exact Memory.getElem?_allocate_of_lt hi
  · rfl

theorem kept_closing {ts : TypeTable} {i j : Nat} (hi : i ≠ j) :
    (closing ts d j μ).allocations[i]? = μ.allocations[i]? := by
  unfold closing
  split
  · rw [Memory.getElem?_release (indexOf_start j)]
    cases μ.allocations[i]? <;> simp [hi.symm]
  · rfl

theorem becomes_closing {ts : TypeTable} (h : Becomes ts rows rows' μ μ')
    (hp : ∀ r ∈ rows', r.place < μ.allocations.size) :
    Becomes ts rows rows' μ (closing ts d μ.allocations.size μ') where
  stored := h.stored.lasts fun r hr => kept_closing (hp r hr).ne
  spared i hi hr := (kept_closing hi.ne).trans (h.spared i hi hr)

theorem kept_collected {ts : TypeTable} {i j : Nat} (hi : i ≠ j) :
    (collected ts μ t (baseAddress j) x).allocations[i]? = μ.allocations[i]? := by
  unfold collected
  split
  · rw [place_start, Memory.getElem?_put, if_neg hi.symm]
  · rfl

theorem becomes_collected {ts : TypeTable} (h : Becomes ts rows rows' μ μ')
    (hp : ∀ r ∈ rows', r.place < μ.allocations.size) :
    Becomes ts rows rows' μ (collected ts μ' t (baseAddress μ.allocations.size) x) where
  stored := h.stored.lasts fun r hr => kept_collected (hp r hr).ne
  spared i hi hr := (kept_collected hi.ne).trans (h.spared i hi hr)

theorem room_opening {ts : TypeTable} {b : Nat} (h : μ.Room b n) : (opening ts d μ).Room b n := by
  unfold opening
  split
  · exact h.allocate
  · exact h

theorem bytes_opening {ts : TypeTable} {b : Nat} (h : μ.Room b n) :
    (opening ts d μ).bytes b n = μ.bytes b n := by
  unfold opening
  split
  · exact Memory.bytes_allocate h
  · rfl

/-- There is room in the slot of a call for what the call returns. -/
theorem room_slot {ts : TypeTable} (hd : d.type = some t) (hheld : ts.isAddressHeld t = true)
    (hsize : (ts.irType t).size ≤ offsetRange) :
    (opening ts d μ).Room (baseAddress μ.allocations.size) (ts.irType t).size := by
  have hslot : slotType? ts d = some (ts.irType t) := by
    rw [slotType?, hd, Option.filter_some, if_pos hheld]
    rfl
  rw [opening, hslot]
  exact Memory.room_fresh hsize

theorem slotType?_of_points {ts : TypeTable} (h : ts.Points t elem) (hd : d.type = some t) :
    slotType? ts d = none :=
  slotType?_of_register h.isAddressHeld hd

/-! ### Functions and calls -/

/-- A function that was made for a definition whose body is a primitive on pointers of a type. -/
structure PointerFunction (c : Context) (m : Module) (op : Primitive) (t elem : TypeId) (d : Def)
    (selfType : Option TypeId) (f : FuncId) : Prop where
  made : Made c m d selfType f
  body : d.primitive? = some op
  named : Named d selfType
  kind : c.program.types.kind t = .pointer elem

/-- An argument hands over a value for the element at an address: itself, or by the address of its
bytes, which are not partly those of the element. -/
def Hands (ts : TypeTable) (μ : Memory) (elem : TypeId) (p : Nat) (x y : RtValue) : Prop :=
  if ts.isAddressHeld elem then
    ∃ b, y = .ptr b ∧ μ.Room b (ts.irType elem).size ∧
      decode (μ.bytes b (ts.irType elem).size) (ts.irType elem) = x ∧
      (b = p ∨ b + (ts.irType elem).size ≤ p ∨ p + (ts.irType elem).size ≤ b)
  else y = x ∧ RtValue.Of (ts.irType elem) x

theorem cursorAddress_eq (ts : TypeTable) (rows : List Row) (p : Cursor) :
    cursorAddress ts rows p =
      baseAddress (rowOf rows p).place + p.offset * (rowOf rows p).width ts := rfl

/-- A call of a function with arguments makes a request. -/
inductive Asks (c : Context) (m : Module) (rows : List Row) (μ : Memory) (f : FuncId) :
    Request → List RtValue → Prop
  | malloc {t elem : TypeId} {d : Def} {selfType : Option TypeId} {a : Arg} {x : RtValue}
      {xs : List RtValue} {count : Nat}
      (function : PointerFunction c m .pointerMalloc t elem d selfType f) (type : d.type = some t)
      (arg : d.args[0]? = some a) (number : xs[selfType.toList.length]? = some x)
      (counts : Counts c.program.types a.type x count) : Asks c m rows μ f (.malloc elem count) xs
  | realloc {t : TypeId} {d : Def} {a : Arg} {x : RtValue} {xs : List RtValue} {p : Cursor}
      {count : Nat}
      (function : PointerFunction c m .pointerRealloc t (rowOf rows p).elem d (some t) f)
      (type : d.type = some t) (arg : d.args[0]? = some a)
      (pointer : xs[0]? = some (.ptr (cursorAddress c.program.types rows p)))
      (number : xs[1]? = some x) (counts : Counts c.program.types a.type x count) :
      Asks c m rows μ f (.realloc p count) xs
  | add {t : TypeId} {d : Def} {a : Arg} {x : RtValue} {xs : List RtValue} {p : Cursor} {step : Int}
      (function : PointerFunction c m .pointerAdd t (rowOf rows p).elem d (some t) f)
      (type : d.type = some t) (arg : d.args[0]? = some a)
      (pointer : xs[0]? = some (.ptr (cursorAddress c.program.types rows p)))
      (number : xs[1]? = some x) (counts : Counts c.program.types a.type x step) :
      Asks c m rows μ f (.add p step) xs
  | get {t : TypeId} {d : Def} {xs : List RtValue} {p : Cursor}
      (function : PointerFunction c m .pointerGetValue t (rowOf rows p).elem d (some t) f)
      (type : d.type = some (rowOf rows p).elem)
      (pointer : xs[0]? = some (.ptr (cursorAddress c.program.types rows p))) :
      Asks c m rows μ f (.get p) xs
  | set {t : TypeId} {d : Def} {a : Arg} {x y : RtValue} {xs : List RtValue} {p : Cursor}
      (function : PointerFunction c m .pointerSetValue t (rowOf rows p).elem d (some t) f)
      (type : d.type = some (rowOf rows p).elem) (arg : d.args[0]? = some a)
      (same : a.type = (rowOf rows p).elem)
      (pointer : xs[0]? = some (.ptr (cursorAddress c.program.types rows p)))
      (given : xs[1]? = some y)
      (hands : Hands c.program.types μ (rowOf rows p).elem
        (cursorAddress c.program.types rows p) x y) :
      Asks c m rows μ f (.set p x) xs
  | copyFrom {t : TypeId} {d : Def} {s a : Arg} {x : RtValue} {xs : List RtValue}
      {p q : Cursor} {count : Nat}
      (function : PointerFunction c m .pointerCopyFrom t (rowOf rows p).elem d (some t) f)
      (type : d.type = some t) (source : d.args[0]? = some s) (same : s.type = t)
      (arg : d.args[1]? = some a)
      (pointer : xs[0]? = some (.ptr (cursorAddress c.program.types rows p)))
      (other : xs[1]? = some (.ptr (cursorAddress c.program.types rows q)))
      (number : xs[2]? = some x) (counts : Counts c.program.types a.type x count) :
      Asks c m rows μ f (.copyFrom p q count) xs

/-! ### Values that are returned -/

/-- A body that comes to a value is answered with what is returned for it. -/
theorem answers_ok (hw : w.call = Exec.Run.runtimeCall w.module)
    (hk : k.Called w c d selfType t xs σ)
    (hx : Achieves w c k (primitiveBody d op) fun k' v =>
      k'.Holds w v (c.program.types.argType t) x ∧ k'.run.memory = μ)
    (hgiven : Given c.program.types μ t x)
    (hslot : c.program.types.isAddressHeld t = true →
      μ.Room (baseAddress σ.memory.allocations.size) (c.program.types.irType t).size) :
    k.Answers w n c d op t (.ok (returnedValue c.program.types μ t x)) fun σ' =>
      σ'.memory = collected c.program.types μ t (baseAddress σ.memory.allocations.size) x := by
  refine .inr (.assume fun ho => hx.mono fun k₁ v hr₁ ho₁ ⟨hv, hm⟩ k₂ hr₂ ho₂ hfn hrun => ?_)
  have hm₂ : k₂.run.memory = μ := (congrArg Exec.State.memory hrun).trans hm
  have hreturn := hk.returning.along ho (hr₁.trans hr₂ ho) ho₂ hfn
  subst hm₂
  exact concludes_return hw hreturn (hv.along ho₁ hr₂ ho₂) hgiven hslot

/-- A body that comes to a value that is not held by address is answered with it. -/
theorem answers_register (hw : w.call = Exec.Run.runtimeCall w.module)
    (hheld : c.program.types.isAddressHeld t = false) (hk : k.Called w c d selfType t xs σ)
    (hx : Achieves w c k (primitiveBody d op) fun k' v =>
      k'.Holds w v (c.program.types.argType t) x ∧ k'.run.memory = μ) :
    k.Answers w n c d op t (.ok x) fun σ' => σ'.memory = μ := by
  have hanswer := answers_ok (n := n) hw hk hx (fun h => by simp [hheld] at h)
    fun h => by simp [hheld] at h
  simpa only [returnedValue, collected, hheld, if_neg (Bool.false_ne_true)] using hanswer

/-- A body that comes to a pointer is answered with it. -/
theorem answers_pointer {q : Nat} (hw : w.call = Exec.Run.runtimeCall w.module)
    (ht : c.program.types.Points t elem) (hk : k.Called w c d selfType t xs σ)
    (hx : Achieves w c k (primitiveBody d op) fun k' v =>
      k'.Holds w v (c.program.types.argType t) (.ptr q) ∧ k'.run.memory = μ) :
    k.Answers w n c d op t (.ok (.ptr q)) fun σ' => σ'.memory = μ :=
  answers_register hw ht.isAddressHeld hk hx

/-! ### Values that are handed over -/

section

variable {ts : TypeTable} {b : Nat} (h : Hands ts μ elem b x y)
include h

theorem Hands.given : Given ts (opening ts d μ) elem y := fun hheld => by
  rw [Hands, if_pos hheld] at h
  obtain ⟨q, rfl, hroom, -⟩ := h
  exact ⟨q, rfl, room_opening hroom⟩

theorem Hands.stored : (storedBytes ts (opening ts d μ) elem y).length = (ts.irType elem).size ∧
    decode (storedBytes ts (opening ts d μ) elem y) (ts.irType elem) = x := by
  unfold Hands at h
  unfold storedBytes
  split at h
  · rename_i hheld
    obtain ⟨q, rfl, hroom, hx, -⟩ := h
    rw [if_pos hheld]
    refine ⟨Memory.length_bytes, ?_⟩
    rw [← hx, RtValue.ptr?, Option.getD_some, bytes_opening hroom]
  · rename_i hheld
    obtain ⟨rfl, hof⟩ := h
    rw [if_neg hheld]
    exact ⟨Exec.length_encode _ _, hof.decode_encode⟩

/-- A value that was written to an element is returned as it was handed over. -/
theorem Hands.returned (hroom : (opening ts d μ).Room b (ts.irType elem).size) :
    returnedValue ts ((opening ts d μ).put (storedBytes ts (opening ts d μ) elem y)
      (Memory.place b)) elem y = x := by
  obtain ⟨hlen, hdecode⟩ := h.stored (d := d)
  have hput : (opening ts d μ).Room b (storedBytes ts (opening ts d μ) elem y).length := by
    rwa [hlen]
  unfold Hands at h
  unfold returnedValue
  split at h
  · rename_i hheld
    obtain ⟨q, rfl, hq, hx, hapart⟩ := h
    rw [if_pos hheld, RtValue.ptr?, Option.getD_some]
    rcases hapart with rfl | hapart
    · have hself := Memory.bytes_put_self hput
      rw [hlen] at hself
      rw [hself, hdecode]
    · rw [Memory.bytes_put_of_apart hput hq.1 (by rwa [hlen]), bytes_opening hq, hx]
  · rename_i hheld
    rw [if_neg hheld]
    exact h.1

end

/-! ### Calls -/

/-- What a request comes to: its answer, and memory that holds the rows behind it. -/
def Answered (c : Context) (m : Module) (n : Nat) (f : FuncId) (xs : List RtValue)
    (rows : List Row) (σ : Exec.State) (req : Request) : Prop :=
  ∃ σ', Exec.Run.outcome (callWithin m n f xs) σ =
      ((respond c.program.types rows σ.memory.allocations.size req).1, σ') ∧
    Becomes c.program.types rows (respond c.program.types rows σ.memory.allocations.size req).2
      σ.memory σ'.memory

section

variable (hs : Stored c.program.types rows σ.memory) (hfuel : σ.steps + cost (m.function f) ≤ σ.stepLimit)
include hs hfuel

omit hs in
/-- A call that comes to a pointer. -/
theorem answered_pointer (μ : Memory) {q : Nat} (h : PointerFunction c m op t elem d selfType f)
    (hpoints : c.program.types.Points t elem) (htype : d.type = some t)
    (hadds : Adds (primitiveBody d op))
    (hreq : respond c.program.types rows σ.memory.allocations.size req = (.ok (.ptr q), rows'))
    (hbecomes : Becomes c.program.types rows rows' σ.memory μ)
    (hbody : ∀ (w : Setting) (k : Spot), w.module = m → w.call = Exec.Run.runtimeCall w.module →
      k.run.memory = σ.memory → k.Params w c d selfType xs →
      Achieves w c k (primitiveBody d op) fun k' v =>
        k'.Holds w v (c.program.types.argType t) (.ptr q) ∧ k'.run.memory = μ) :
    Answered c m (n + 2) f xs rows σ req := by
  obtain ⟨σ', hσ', hm⟩ := h.made.exists_register h.body htype hpoints.isAddressHeld
    (fun s _ => hadds.from c s) h.named hfuel fun w k hmodule hw hmemory hk =>
      answers_pointer hw hpoints hk (hbody w k hmodule hw hmemory hk.params)
  refine ⟨σ', by rw [hσ', hreq], ?_⟩
  rw [hreq, hm]
  exact hbecomes

omit hs in
/-- A call that comes to a value. -/
theorem answered_value (μ : Memory) {t' : TypeId} {z : RtValue} (h : PointerFunction c m op t elem d selfType f)
    (htype : d.type = some t')
    (hadds : ∀ s : State, s.act.vars = primitiveScope d selfType → AddsFrom c s (primitiveBody d op))
    (hz : returnedValue c.program.types μ t' x = z)
    (hreq : respond c.program.types rows σ.memory.allocations.size req = (.ok z, rows'))
    (hbecomes : Becomes c.program.types rows rows' σ.memory μ)
    (hplaces : ∀ r ∈ rows', r.place < σ.memory.allocations.size)
    (hgiven : Given c.program.types μ t' x)
    (hslot : c.program.types.isAddressHeld t' = true →
      μ.Room (baseAddress σ.memory.allocations.size) (c.program.types.irType t').size)
    (hbody : ∀ (w : Setting) (k : Spot), w.module = m → w.call = Exec.Run.runtimeCall w.module →
      k.run.memory = opening c.program.types d σ.memory → k.Params w c d selfType xs →
      Achieves w c k (primitiveBody d op) fun k' v =>
        k'.Holds w v (c.program.types.argType t') x ∧ k'.run.memory = μ) :
    Answered c m (n + 2) f xs rows σ req := by
  obtain ⟨σ', hσ', hm⟩ := h.made.exists_outcome h.body htype hadds h.named hfuel
    fun w k hmodule hw hk =>
      answers_ok hw hk (hbody w k hmodule hw hk.memory hk.params) hgiven hslot
  refine ⟨_, by rw [hσ', hreq, hz], ?_⟩
  rw [hreq, hm]
  exact becomes_closing (becomes_collected hbecomes hplaces) hplaces

/-- A call that stops. -/
theorem answered_fault (μ : Memory) {e : Fault} {t' : TypeId} (h : PointerFunction c m op t elem d selfType f)
    (htype : d.type = some t')
    (hadds : ∀ s : State, s.act.vars = primitiveScope d selfType → AddsFrom c s (primitiveBody d op))
    (hreq : respond c.program.types rows σ.memory.allocations.size req = (.error e, rows))
    (hkept : ∀ i < σ.memory.allocations.size, μ.allocations[i]? = σ.memory.allocations[i]?)
    (hbody : ∀ (w : Setting) (k : Spot), w.module = m → w.call = Exec.Run.runtimeCall w.module →
      k.Called w c d selfType t' xs σ →
      k.Answers w n c d op t' (.error e) fun σ' => σ'.memory = μ) :
    Answered c m (n + 2) f xs rows σ req := by
  obtain ⟨σ', hσ', hm⟩ := h.made.exists_outcome h.body htype hadds h.named hfuel hbody
  refine ⟨_, by rw [hσ', hreq], ?_⟩
  rw [hreq]
  refine becomes_closing (.of_kept hs fun i hi => ?_) fun r hr => hs.place_lt hr
  rw [hm, hkept i hi]

end

/-! ### Bodies -/

theorem adds_returned : Adds (returned d) := .orFail _ _

theorem adds_pointerMalloc : Adds (primitiveBody d .pointerMalloc) :=
  adds_returned.bind fun _ => adds_elementOf.bind fun _ => adds_argument.bind fun _ =>
    adds_toInt64.bind fun _ => adds_irType.bind fun _ => adds_arrayMalloc.bind fun _ =>
      adds_scaled.bind fun _ => adds_zeroFill.bind fun _ => .pure _

theorem adds_pointerRealloc : Adds (primitiveBody d .pointerRealloc) :=
  adds_receiver.bind fun _ => adds_elementOf.bind fun _ => adds_argument.bind fun _ =>
    adds_toInt64.bind fun _ => adds_scaled.bind fun _ => adds_runtimeFunction.bind fun _ =>
      adds_bitcast.bind fun _ => adds_call.bind fun _ => adds_irType.bind fun _ => adds_bitcast

theorem adds_pointerAdd : Adds (primitiveBody d .pointerAdd) :=
  adds_receiver.bind fun _ => adds_argument.bind fun _ => adds_toInt64.bind fun _ => adds_gep

theorem adds_pointerGetValue : Adds (primitiveBody d .pointerGetValue) :=
  adds_receiver.bind fun _ => adds_elementOf.bind fun _ => adds_heldIn

/-- A value of the type of the elements is stored as it is. -/
theorem addsFrom_pointerSetValue {s : State} (hn : Named d (some t))
    (hpoints : c.program.types.Points t elem) (ha : d.args[0]? = some a) (hsame : a.type = elem)
    (hv : s.act.vars = primitiveScope d (some t)) :
    AddsFrom c s (primitiveBody d .pointerSetValue) := by
  subst hsame
  refine .ask (gives_receiver hn hv rfl) (.ask (gives_elementOf hpoints)
    (.ask (gives_argument hn hv ha) ?_))
  exact (adds_assign_self.bind fun _ => .pure _).from c s

theorem adds_pointerCopyFrom : Adds (primitiveBody d .pointerCopyFrom) :=
  adds_receiver.bind fun _ => adds_elementOf.bind fun _ => adds_argument.bind fun _ =>
    adds_argument.bind fun _ => adds_toInt64.bind fun _ => adds_scaled.bind fun _ =>
      adds_runtimeFunction.bind fun _ => adds_bitcast.bind fun _ => adds_bitcast.bind fun _ =>
        adds_call.bind fun _ => .pure _

/-! ### Fresh rows -/

section

variable (hs : Stored c.program.types rows σ.memory) (hfuel : σ.steps + cost (m.function f) ≤ σ.stepLimit)
include hs hfuel

theorem answered_malloc {count : Nat} (h : PointerFunction c m .pointerMalloc t elem d selfType f)
    (hpoints : c.program.types.Points t elem) (htype : d.type = some t) (ha : d.args[0]? = some a) (hx : xs[selfType.toList.length]? = some x)
    (hc : Counts c.program.types a.type x count)
    (hn : count * (c.program.types.irType elem).size < offsetRange) :
    Answered c m (n + 2) f xs rows σ (.malloc elem count) := by
  set size := (c.program.types.irType elem).size with hsize
  refine answered_pointer hfuel (σ.memory.allocate (size * count)).2 h hpoints htype adds_pointerMalloc rfl
    ⟨?_, fun i hi _ => ?_⟩ fun w k hmodule hw hmemory hk => ?_
  · refine hs.append (fun r hr => Memory.getElem?_allocate_of_lt (hs.place_lt hr))
      Memory.getElem?_allocate_self ?_ fun r hr => (hs.place_lt hr).ne
    rw [mul_comm]
    exact Row.In.fresh hn
  · exact Memory.getElem?_allocate_of_lt hi
  · rw [← hmemory]
    exact achieves_malloc hw hk hpoints htype ha hx hc (Int.natCast_nonneg _) (by exact_mod_cast hn)

theorem answered_realloc {count : Nat}
    (h : PointerFunction c m .pointerRealloc t (rowOf rows p).elem d (some t) f)
    (hpoints : c.program.types.Points t (rowOf rows p).elem) (htype : d.type = some t) (ha : d.args[0]? = some a)
    (hptr : xs[0]? = some (.ptr (cursorAddress c.program.types rows p))) (hx : xs[1]? = some x)
    (hc : Counts c.program.types a.type x count)
    (hlegal : Legal c.program.types rows (.realloc p count)) :
    Answered c m (n + 2) f xs rows σ (.realloc p count) := by
  obtain ⟨⟨hrow, hoffset⟩, hn, hin⟩ := hlegal
  rw [cursorAddress_eq] at hptr
  have hget := Rows.getElem?_rowOf hrow
  obtain ⟨al, hal, hheld⟩ := hs.held _ (List.mem_of_getElem? hget)
  set row := rowOf rows p with hrowdef
  cases hl : row.live with
  | false =>
    have hreq : respond c.program.types rows σ.memory.allocations.size (.realloc p count) =
        (.error (.useAfterFree (row.address c.program.types p.offset)), rows) := by
      rw [respond, ← hrowdef, hl, if_neg (by decide)]
    refine answered_fault hs hfuel (σ.memory.allocate (count * row.width c.program.types)).2 h htype
      (fun s _ => adds_pointerRealloc.from c s) hreq (fun i hi => Memory.getElem?_allocate_of_lt hi)
      fun w k hmodule hw hk => .inl ?_
    have hmemory : k.run.memory = σ.memory := by
      rw [hk.memory, opening, slotType?_of_points hpoints htype]
    rw [← hmemory]
    exact concludes_realloc hw hk.params hpoints rfl ha hptr hx hc hn (hmemory ▸ hal)
      (hheld.live.trans hl) hoffset
  | true =>
    have hj : p.offset * row.width c.program.types ≤ al.size :=
      (Nat.mul_le_mul_right _ (hin hl)).trans (hheld.size ▸ le_max_left _ _)
    have hreq : respond c.program.types rows σ.memory.allocations.size (.realloc p count) =
        (.ok (.ptr (baseAddress σ.memory.allocations.size)),
          rows.set p.row { row with live := false } ++ [⟨σ.memory.allocations.size, row.elem,
            Rows.resize (row.cells.drop p.offset) count (Rows.zero c.program.types row.elem), true⟩]) := by
      rw [respond, ← hrowdef, hl, if_pos rfl]
    refine answered_pointer hfuel _ h hpoints htype adds_pointerRealloc hreq
      (Becomes.moved hs hget hal hheld hoffset hn) fun w k hmodule hw hmemory hk => ?_
    have hx := achieves_realloc hw hk hpoints rfl ha hptr hx hc hn (hmemory ▸ hal)
      (hheld.live.trans hl) hoffset hj
    rw [hmemory] at hx
    exact hx

/-! ### Other elements -/

theorem answered_add {step : Int}
    (h : PointerFunction c m .pointerAdd t (rowOf rows p).elem d (some t) f)
    (hpoints : c.program.types.Points t (rowOf rows p).elem) (htype : d.type = some t) (ha : d.args[0]? = some a)
    (hptr : xs[0]? = some (.ptr (cursorAddress c.program.types rows p))) (hx : xs[1]? = some x)
    (hc : Counts c.program.types a.type x step)
    (hlegal : Legal c.program.types rows (.add p step)) :
    Answered c m (n + 2) f xs rows σ (.add p step) := by
  obtain ⟨hrow, hoffset⟩ := hlegal
  have hw0 : 0 < (rowOf rows p).width c.program.types := hpoints.size
  have h0 : cursorAddress c.program.types rows p ≠ 0 := Exec.baseAddress_add_ne_zero
  by_cases hin : 0 ≤ p.offset + step ∧ (p.offset + step) * (rowOf rows p).width c.program.types < offsetRange
  · have hreq : respond c.program.types rows σ.memory.allocations.size (.add p step) =
        (.ok (.ptr ((rowOf rows p).address c.program.types (p.offset + step).toNat)), rows) := by
      rw [respond, if_pos hin]
    obtain ⟨hstep, hmoved⟩ := (rowOf rows p).moved_inside hoffset hin.1 hin.2
    refine answered_pointer hfuel σ.memory h hpoints htype adds_pointerAdd hreq (.of_kept hs fun _ _ => rfl)
      fun w k hmodule hw hmemory hk => ?_
    have hx := performs_add hk hpoints rfl ha hptr h0 hx hc hstep hmoved
    rw [hmemory] at hx
    exact hx.achieves
  · have hreq : respond c.program.types rows σ.memory.allocations.size (.add p step) =
        (.error (.outOfBounds ((rowOf rows p).address c.program.types p.offset) 0), rows) := by
      rw [respond, if_neg hin]
    refine answered_fault hs hfuel σ.memory h htype (fun s _ => adds_pointerAdd.from c s) hreq
      (fun _ _ => rfl)
      fun w k hmodule hw hk => .inl ?_
    have hmemory : k.run.memory = σ.memory := by
      rw [hk.memory, opening, slotType?_of_points hpoints htype]
    have hx := concludes_add (n := n) hw hk.params hpoints rfl ha hptr h0 hx hc
      ((rowOf rows p).moved_outside hw0 hoffset hin)
    rw [hmemory] at hx
    exact hx

/-! ### Values of elements -/

theorem answered_get
    (h : PointerFunction c m .pointerGetValue t (rowOf rows p).elem d (some t) f)
    (hpoints : c.program.types.Points t (rowOf rows p).elem)
    (htype : d.type = some (rowOf rows p).elem)
    (hptr : xs[0]? = some (.ptr (cursorAddress c.program.types rows p)))
    (hlegal : Legal c.program.types rows (.get p)) :
    Answered c m (n + 2) f xs rows σ (.get p) := by
  obtain ⟨⟨hrow, hoffset⟩, hne⟩ := hlegal
  have hget := Rows.getElem?_rowOf hrow
  obtain ⟨al, hal, hin⟩ := hs.held _ (List.mem_of_getElem? hget)
  have hplace := hs.place_lt (List.mem_of_getElem? hget)
  have hal' : (opening c.program.types d σ.memory).allocations[(rowOf rows p).place]? = some al :=
    (kept_opening hplace).trans hal
  cases hfault : (rowOf rows p).fault? c.program.types p.offset with
  | some e =>
    have hlocate := hin.locate_of_fault hal' hpoints.size hoffset hne hfault
    have hreq : respond c.program.types rows σ.memory.allocations.size (.get p) =
        (.error e, rows) := by
      rw [respond, Rows.get, hfault]
    refine answered_fault hs hfuel (opening c.program.types d σ.memory) h htype
      (fun s _ => adds_pointerGetValue.from c s) hreq (fun i hi => kept_opening hi) fun w k hmodule hw hk => ?_
    rw [← hk.memory] at hlocate ⊢
    cases hheld : c.program.types.isAddressHeld (rowOf rows p).elem with
    | false => exact .inl (concludes_get hk.params hpoints rfl hptr hheld hlocate)
    | true =>
      -- an element that is held by address is read when it is returned
      have hx := (performs_get (c := c) hk.params hpoints rfl hptr
        (fun h => absurd h (by simp [hheld]))).achieves
      refine .inr (.assume fun ho => hx.mono fun k₁ v hr₁ ho₁ hread k₂ hr₂ ho₂ hfn hrun => ?_)
      obtain ⟨hv, hm⟩ := hread
      have hm₂ : k₂.run.memory = k.run.memory := (congrArg Exec.State.memory hrun).trans hm
      have hreturn := hk.returning.along ho (hr₁.trans hr₂ ho) ho₂ hfn
      rw [elementHeld, if_pos hheld] at hv
      rw [← hm₂] at hlocate ⊢
      exact concludes_return_outside hreturn hheld (hv.along ho₁ hr₂ ho₂) hlocate
  | none =>
    obtain ⟨hlive, hlen⟩ := Row.fault?_eq_none.mp hfault
    have hcell := List.getElem?_eq_getElem hlen
    have hroom := hin.room hal' hlive hlen
    have hvalue : returnedValue c.program.types (opening c.program.types d σ.memory)
        (rowOf rows p).elem (elementHeld c.program.types (opening c.program.types d σ.memory)
          (rowOf rows p).elem (cursorAddress c.program.types rows p)) = (rowOf rows p).cells[p.offset] := by
      rw [← hin.decode_bytes hal' hcell]
      unfold returnedValue elementHeld
      split <;> rfl
    have hreq : respond c.program.types rows σ.memory.allocations.size (.get p) =
        (.ok (rowOf rows p).cells[p.offset], rows) := by
      rw [respond, Rows.get_of_live hlive hcell]
    have hwidth : (c.program.types.irType (rowOf rows p).elem).size ≤ offsetRange :=
      (hin.width_lt hlen).le
    refine answered_value hfuel (opening c.program.types d σ.memory) h htype
      (fun s _ => adds_pointerGetValue.from c s) hvalue hreq (.of_kept hs fun i hi => kept_opening hi) (fun r hr => hs.place_lt hr)
      (fun hheld => ⟨_, if_pos hheld, hroom⟩) (fun hheld => room_slot htype hheld hwidth)
      fun w k hmodule hw hmemory hk => ?_
    rw [← hmemory] at hroom ⊢
    exact (performs_get hk hpoints rfl hptr fun _ => hroom).achieves

theorem answered_set
    (h : PointerFunction c m .pointerSetValue t (rowOf rows p).elem d (some t) f)
    (hpoints : c.program.types.Points t (rowOf rows p).elem)
    (htype : d.type = some (rowOf rows p).elem) (ha : d.args[0]? = some a)
    (hsame : a.type = (rowOf rows p).elem)
    (hptr : xs[0]? = some (.ptr (cursorAddress c.program.types rows p))) (hy : xs[1]? = some y)
    (hhands : Hands c.program.types σ.memory (rowOf rows p).elem
      (cursorAddress c.program.types rows p) x y)
    (hlegal : Legal c.program.types rows (.set p x)) :
    Answered c m (n + 2) f xs rows σ (.set p x) := by
  obtain ⟨⟨hrow, hoffset⟩, hne⟩ := hlegal
  have hget := Rows.getElem?_rowOf hrow
  obtain ⟨al, hal, hin⟩ := hs.held _ (List.mem_of_getElem? hget)
  have hplace := hs.place_lt (List.mem_of_getElem? hget)
  have hkept : ∀ i < σ.memory.allocations.size,
      (opening c.program.types d σ.memory).allocations[i]? = σ.memory.allocations[i]? :=
    fun i hi => kept_opening hi
  have hal' := (hkept _ hplace).trans hal
  have hgiven := hhands.given (d := d)
  have hadds : ∀ s : State, s.act.vars = primitiveScope d (some t) →
      AddsFrom c s (primitiveBody d .pointerSetValue) :=
    fun s hv => addsFrom_pointerSetValue h.named hpoints ha hsame hv
  cases hfault : (rowOf rows p).fault? c.program.types p.offset with
  | some e =>
    have hlocate := hin.locate_of_fault hal' hpoints.size hoffset hne hfault
    have hreq : respond c.program.types rows σ.memory.allocations.size (.set p x) =
        (.error e, rows) := by
      rw [respond, hfault]
    refine answered_fault hs hfuel (opening c.program.types d σ.memory) h htype
      hadds hreq hkept fun w k hmodule hw hk => .inl ?_
    rw [← hk.memory] at hlocate hgiven ⊢
    exact concludes_set hw hk.params hpoints rfl ha hsame hptr hy hgiven hlocate
  | none =>
    obtain ⟨hlive, hlen⟩ := Row.fault?_eq_none.mp hfault
    have hroom := hin.room hal' hlive hlen
    obtain ⟨hlength, hdecode⟩ := hhands.stored (d := d)
    have hreq : respond c.program.types rows σ.memory.allocations.size (.set p x) =
        (.ok x, rows.set p.row { rowOf rows p with
          cells := Rows.splice (rowOf rows p).cells p.offset [x] }) := by
      rw [Rows.respond_set hlive hlen, Rows.splice_singleton hlen]
    have hbecomes : Becomes c.program.types rows _ (opening c.program.types d σ.memory) _ :=
      Becomes.put [x] (storedBytes c.program.types (opening c.program.types d σ.memory)
          (rowOf rows p).elem y)
        (hs.lasts fun r hr => hkept _ (hs.place_lt hr)) hget hal' hin hlen hoffset
        (by rw [List.length_singleton, Nat.one_mul]; exact hlength) fun j z hz => by
          obtain ⟨rfl, rfl⟩ : j = 0 ∧ x = z := by
            cases j with
            | zero => exact ⟨rfl, Option.some.inj hz⟩
            | succ j => cases hz
          rw [Nat.zero_mul, List.drop_zero, Row.width, List.take_of_length_le hlength.le, hdecode]
    refine answered_value hfuel _ h htype hadds (hhands.returned hroom) hreq (hbecomes.after hkept) (fun r hr => ?_)
      (fun hheld => ?_) (fun hheld => Memory.room_put.mpr (room_slot htype hheld (hin.width_lt hlen).le))
      fun w k hmodule hw hmemory hk => ?_
    · rcases List.mem_or_eq_of_mem_set hr with hr | rfl
      · exact hs.place_lt hr
      · exact hplace
    · obtain ⟨b, hb, hq⟩ := hgiven hheld
      exact ⟨b, hb, Memory.room_put.mpr hq⟩
    · have hgiven' : Given c.program.types k.run.memory (rowOf rows p).elem y := hmemory ▸ hgiven
      have hx := performs_set hk hpoints rfl ha hsame hptr hy hgiven' (hmemory ▸ hroom)
      rw [hmemory] at hx
      exact hx.achieves

/-! ### Copies -/

theorem answered_copyFrom {q : Cursor} {source : Arg} {count : Nat}
    (h : PointerFunction c m .pointerCopyFrom t (rowOf rows p).elem d (some t) f)
    (hpoints : c.program.types.Points t (rowOf rows p).elem) (htype : d.type = some t)
    (hsource : d.args[0]? = some source) (hsame : source.type = t) (ha : d.args[1]? = some a)
    (hptr : xs[0]? = some (.ptr (cursorAddress c.program.types rows p)))
    (hother : xs[1]? = some (.ptr (cursorAddress c.program.types rows q)))
    (hx : xs[2]? = some x) (hc : Counts c.program.types a.type x count)
    (hlegal : Legal c.program.types rows (.copyFrom p q count)) :
    Answered c m (n + 2) f xs rows σ (.copyFrom p q count) := by
  obtain ⟨⟨hrow, hoffset⟩, ⟨hrow', hoffset'⟩, helem, hlive, hin'', hlive', hlen'⟩ := hlegal
  have hget := Rows.getElem?_rowOf hrow
  have hget' := Rows.getElem?_rowOf hrow'
  obtain ⟨al, hal, hin⟩ := hs.held _ (List.mem_of_getElem? hget)
  obtain ⟨al', hal', hin'⟩ := hs.held _ (List.mem_of_getElem? hget')
  have hwidth : (rowOf rows q).width c.program.types = (rowOf rows p).width c.program.types := by
    rw [Row.width, Row.width, helem]
  obtain ⟨hsize, hend⟩ := hin.part_le hin''
  obtain ⟨hsize', hend'⟩ := hin'.part_le hlen'
  rw [cursorAddress_eq, hwidth] at hother
  rw [hwidth] at hoffset' hsize' hend'
  set width := (rowOf rows p).width c.program.types with hwidthdef
  let cells := ((rowOf rows q).cells.drop q.offset).take count
  let bs := al'.slice (q.offset * width) (count * width)
  have hcells : cells.length = count := by
    simp only [cells, List.length_take, List.length_drop]
    omega
  have hlength : bs.length = count * width := Allocation.length_slice
  have hread : σ.memory.read (baseAddress (rowOf rows q).place + q.offset * width) (count * width) =
      .ok bs := Memory.read_inside hal' (hin'.live.trans hlive') hoffset' hsize'
  have hlocate : σ.memory.locate (cursorAddress c.program.types rows p) bs.length =
      .ok (Memory.place (cursorAddress c.program.types rows p)) := by
    rw [hlength, cursorAddress_eq, Memory.place_inside hoffset]
    exact Memory.locate_inside hal (hin.live.trans hlive) hoffset hsize
  have hdecode : ∀ j x, cells[j]? = some x →
      decode ((bs.drop (j * width)).take width) (c.program.types.irType (rowOf rows p).elem) = x :=
    fun j x hx => by
      have hj : j < count := hcells ▸ (List.getElem?_eq_some_iff.mp hx).1
      have hle : j * width + width ≤ count * width := by
        rw [← Nat.succ_mul]
        exact Nat.mul_le_mul_right _ hj
      rw [List.getElem?_take_of_lt hj, List.getElem?_drop] at hx
      rw [← Allocation.slice_sub hle, ← Nat.add_mul, ← helem]
      have hcell := hin'.cell _ _ hx
      rwa [hwidth] at hcell
  have hreq : respond c.program.types rows σ.memory.allocations.size (.copyFrom p q count) =
      (.ok (.ptr (cursorAddress c.program.types rows p)), rows.set p.row
        { rowOf rows p with cells := Rows.splice (rowOf rows p).cells p.offset cells }) := rfl
  refine answered_pointer hfuel _ h hpoints htype adds_pointerCopyFrom hreq
    (Becomes.put cells bs hs hget hal hin (by rw [hcells]; exact hin'') hoffset
      (hlength.trans (by rw [hcells])) hdecode) fun w k hmodule hw hmemory hk => ?_
  rw [← hmemory] at hread hlocate ⊢
  exact achieves_copyFrom hw hk hpoints rfl hsource hsame ha hptr hother hx hc
    ((Nat.le_add_left _ _).trans_lt hend) hread hlocate

end

/-! ### Programs with arrays -/

/-- A call that makes a request is answered. -/
theorem Asks.answered {f : FuncId} (hc : c.program.types.Closed) (hl : c.program.types.LayoutsEnd)
    (hs : Stored c.program.types rows σ.memory)
    (hfuel : σ.steps + cost (m.function f) ≤ σ.stepLimit) (h : Asks c m rows σ.memory f req xs)
    (hlegal : Legal c.program.types rows req) : Answered c m (n + 2) f xs rows σ req := by
  cases h with
  | malloc function type arg number counts =>
    exact answered_malloc hs hfuel function (TypeTable.points hc hl function.kind) type arg number counts hlegal
  | realloc function type arg pointer number counts =>
    exact answered_realloc hs hfuel function (TypeTable.points hc hl function.kind) type arg pointer number
      counts hlegal
  | add function type arg pointer number counts =>
    exact answered_add hs hfuel function (TypeTable.points hc hl function.kind) type arg pointer number counts
      hlegal
  | get function type pointer =>
    exact answered_get hs hfuel function (TypeTable.points hc hl function.kind) type pointer hlegal
  | set function type arg same pointer given hands =>
    exact answered_set hs hfuel function (TypeTable.points hc hl function.kind) type arg same pointer given
      hands hlegal
  | copyFrom function type source same arg pointer other number counts =>
    exact answered_copyFrom hs hfuel function (TypeTable.points hc hl function.kind) type source same arg
      pointer other number counts hlegal

/-- The rows behind the calls that a program made, with whatever else it did to other memory in
between. -/
inductive Session (c : Context) (m : Module) : List Row → Exec.State → Prop
  | begin (σ : Exec.State) : Session c m [] σ
  | call {rows : List Row} {σ σ' : Exec.State} {f : FuncId} {req : Request} {xs : List RtValue}
      {n : Nat} {r : Except Fault RtValue} (before : Session c m rows σ)
      (asks : Asks c m rows σ.memory f req xs) (legal : Legal c.program.types rows req)
      (fuel : σ.steps + cost (m.function f) ≤ σ.stepLimit)
      (outcome : Exec.Run.outcome (callWithin m (n + 2) f xs) σ = (r, σ')) :
      Session c m (respond c.program.types rows σ.memory.allocations.size req).2 σ'
  | meanwhile {rows : List Row} {σ σ' : Exec.State} (before : Session c m rows σ)
      (kept : Kept rows σ.memory σ'.memory) : Session c m rows σ'

/-- Memory holds the rows, whatever was asked. -/
theorem Session.stored (hc : c.program.types.Closed) (hl : c.program.types.LayoutsEnd)
    (h : Session c m rows σ) : Stored c.program.types rows σ.memory := by
  induction h with
  | begin σ => exact .nil
  | call before asks legal fuel outcome ih =>
    obtain ⟨σ', hσ', hbecomes⟩ := asks.answered hc hl ih fuel legal
    rw [outcome] at hσ'
    obtain ⟨-, rfl⟩ := Prod.mk.inj hσ'
    exact hbecomes.stored
  | meanwhile before kept ih => exact ih.lasts kept

/-- The standard types, and pointers to integers. -/
def pointing : Context where
  program := { types := Draft.new.types.push { kind := .pointer Draft.intType } }
  debugInfo := false
  nil := Draft.nilType
  main := default
  constHead := ⟨0⟩
  symbols := []

/-- The definition of fresh arrays of integers. -/
def newArray : Def where
  name := "new"
  owner := ⟨9⟩
  args := [⟨"count", Draft.intType, false⟩]
  type := some ⟨9⟩
  body := some { id := 0, kind := .primitive .pointerMalloc }

/-- A generation in which nothing was generated. -/
def newArrayStart : State where
  builder := .new "arrays"
  act := {}
  fn := default
  constTail := ⟨0⟩
  last := ⟨nilValue, none⟩

/-- The module of the function of the definition alone. -/
def newArrayModule : Module :=
  (makeFunction (visit 1) "new" newArray none pointing newArrayStart).2.builder.module

/-- A function that was just made, in the module that it was made in. -/
theorem made_self (depth : Nat) {name : String} {s : State} {r : Except Failure FuncId × State}
    (hinternal : d.external = none) (hr : makeFunction (visit depth) name d selfType c s = r)
    (hvalue : r.1.toOption = some f)
    (hname : ∀ p ∈ r.2.runtime, (r.2.builder.module.function p.2).name = p.1)
    (hdeclared : ∀ p ∈ r.2.runtime, (r.2.builder.module.function p.2).isDeclaration = true) :
    Made c r.2.builder.module d selfType f := by
  obtain ⟨x, s'⟩ := r
  cases x with
  | error e => cases hvalue
  | ok g =>
    obtain rfl := Option.some.inj hvalue
    exact ⟨hinternal, depth, name, s, s', hr, .refl _, hname, hdeclared⟩

theorem newArray_made : Made pointing newArrayModule newArray none ⟨0⟩ := by
  refine made_self 1 rfl rfl ?_ ?_ ?_ <;> decide +kernel

end Gen

end Lowering
