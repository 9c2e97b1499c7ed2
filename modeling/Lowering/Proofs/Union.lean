import Lowering.Proofs.Conversion

/-!
# Values in unions

A value of a member that is put into a union is found there again: its type by type tests, and the
value itself by conversion to the member, also after it has gone through other unions.

* `Gen.Carries`, `Gen.Spot.Stands`: what the storage of a union carries, and what an operand of a
  union type stands for;
* `Gen.performs_assignMember`, `Gen.performs_assignUnion`: into a union, and from one to another;
* `Gen.performs_isA`, `Gen.performs_convertMember`: tests, and out of a union;
* `Gen.performs_passOn`: through any number of unions.
-/

namespace Lowering

open IR (Ty Value Build)
open Exec (RtValue Memory encode decode encode_decode_struct encode_pointer)

/-! ### Answers of type tests -/

namespace TypeTable

variable {ts : TypeTable} {u t target : TypeId}

/-- The answer to whether a value of a member belongs to a type, told from the value in a union. For
nil in a union without a tag it is a test for the null pointer, for which only nil is nil. -/
def toldIsA (ts : TypeTable) (u t target : TypeId) : Bool :=
  match ts.shape u with
  | .nilable member =>
    if ts.isNil target then ts.isNil t else !ts.isNil t && ts.implements member target
  | _ => ts.implements t target

/-- A type test tells the type of a value that is in a union with a tag, or that is an object and
not asked whether it is nil. -/
theorem toldIsA_eq_implements (ht : t ∈ ts.members u)
    (h : ts.isNilable u = true → ts.isNil t = false ∧ ts.isNil target = false) :
    ts.toldIsA u t target = ts.implements t target := by
  unfold toldIsA
  rcases ts.shape_of_isUnion (isUnion_of_mem_members ht) with ⟨n, hu⟩ | ⟨m, hu⟩
  · rw [hu]
  · obtain ⟨hn, htarget⟩ := h (isNilable_of_nilable hu)
    obtain rfl := (mem_members_of_nilable hu ht).resolve_left (by simp [hn])
    rw [hu]
    simp [hn, htarget]

theorem implements_of_mem (ht : t ∈ ts.members target) : ts.implements t target = true := by
  have hk : ts.kind target = .union (ts.members target) := by
    unfold members at ht ⊢
    split at ht
    · rename_i ms hk
      rw [hk]
    · cases ht
  have hpos : 0 < ts.size := size_pos_of_isUnion (isUnion_of_mem_members ht)
  obtain ⟨n, hn⟩ := Nat.exists_eq_succ_of_ne_zero (Nat.mul_pos hpos hpos).ne'
  unfold implements implementsWithin
  split
  · rfl
  · rw [hk, hn]
    dsimp only
    have hself : ts.implementsWithin (n + 1) t t = true := by
      rw [implementsWithin, if_pos rfl]
    rw [List.any_eq_true.mpr ⟨t, ht, hself⟩, Bool.true_or]

/-- For nil in a union without a tag a type test answers that it belongs to no union, not even to one
of its own type. -/
theorem toldIsA_nil_union (hu : ts.isNilable u = true) (ht : t ∈ ts.members u)
    (hn : ts.isNil t = true) (htarget : t ∈ ts.members target) :
    ts.toldIsA u t target = false ∧ ts.implements t target = true := by
  refine ⟨?_, implements_of_mem htarget⟩
  have hunion := not_isNil_of_isUnion (isUnion_of_mem_members htarget)
  unfold toldIsA
  rcases ts.shape_of_isUnion (isUnion_of_mem_members ht) with ⟨n, hs⟩ | ⟨m, hs⟩
  · rw [isNilable_of_tagged hs] at hu
    cases hu
  · rw [hs]
    simp [hunion, hn]

end TypeTable

namespace Gen

variable {c : Context} {w : Setting} {k : Spot} {p v : Value} {t t' : Ty} {x : RtValue}
  {a b n : Nat}

/-! ### What unions carry -/

/-- A value of a type, and no null pointer. -/
structure IsValue (ts : TypeTable) (t : TypeId) (x : RtValue) : Prop where
  of : RtValue.Of (ts.irType t) x
  nil : ts.isNil t = true → x = bit false
  object : x ≠ .ptr 0

/-- The pointer that stands for a value in a union without a tag: null for nil. -/
structure IsPointer (ts : TypeTable) (t : TypeId) (x : RtValue) (p : Nat) : Prop where
  small : p < 2 ^ 64
  null : p = 0 ↔ ts.isNil t = true
  object : ts.isNil t = false → x = .ptr p

/-- The storage at an address is that of a union and carries a value of a member. -/
inductive Carries (ts : TypeTable) (m : Memory) (a : Nat) (u t : TypeId) (x : RtValue) : Prop
  | tagged {n : Nat} (shape : ts.shape u = .tagged n) (room : m.Room a (ts.irType u).size)
      (tag : m.bytes a 4 = encode (tagWord t) .i32)
      (payload : m.bytes (a + 4) (ts.irType t).size = encode x (ts.irType t))
  | nilable {member : TypeId} {p : Nat} (shape : ts.shape u = .nilable member)
      (room : m.Room a (ts.irType u).size) (held : m.bytes a 8 = encode (.ptr p) .bytePtr)
      (pointer : IsPointer ts t x p)

theorem Carries.room {ts : TypeTable} {m : Memory} {u t : TypeId} (h : Carries ts m a u t x) :
    m.Room a (ts.irType u).size := by
  cases h with
  | tagged _ hroom _ _ => exact hroom
  | nilable _ hroom _ _ => exact hroom

theorem Carries.of_tagged {ts : TypeTable} {m : Memory} {u t : TypeId} (h : Carries ts m a u t x)
    (hu : ts.shape u = .tagged n) : m.bytes a 4 = encode (tagWord t) .i32 ∧
      m.bytes (a + 4) (ts.irType t).size = encode x (ts.irType t) := by
  cases h with
  | tagged _ _ htag hpayload => exact ⟨htag, hpayload⟩
  | nilable hs _ _ _ => rw [hu] at hs; cases hs

section

variable {ts : TypeTable} {m : Memory} {u u' : TypeId} {bs : List UInt8} {ty : TypeId}

/-- A tagged union after its tag and some more bytes have been written. -/
theorem carries_of_writes (hu : ts.shape u = .tagged n) (hr : m.Room a (ts.irType u).size)
    (hl : 4 + bs.length ≤ (ts.irType u).size)
    (hs : (ts.irType ty).size ≤ bs.length)
    (hx : bs.take (ts.irType ty).size = encode x (ts.irType ty)) :
    let m' := (m.put (encode (tagWord ty) .i32) (Memory.place a)).put bs (Memory.place (a + 4))
    Carries ts m' a u ty x ∧ m.Changes m' a (ts.irType u).size := by
  intro m'
  obtain ⟨p, hp, hpos, -⟩ := ts.irType_of_tagged hu
  have hsize : 4 < (ts.irType u).size := by
    rw [hp]
    exact lt_of_lt_of_le (by omega) (le_size_taggedType p)
  have htag : (encode (tagWord ty) .i32).length = 4 := by simp
  have hr₀ : m.Room a (encode (tagWord ty) .i32).length := by
    rw [htag]
    exact hr.mono hsize.le
  have h₁ := Memory.changes_put hr₀
  have hr₁ : (m.put (encode (tagWord ty) .i32) (Memory.place a)).Room (a + 4) bs.length :=
    (h₁.room _ _).mpr (hr.sub hl hsize)
  have h₂ := Memory.changes_put hr₁
  have hself := Memory.bytes_put_self hr₁
  refine ⟨.tagged hu ?_ ?_ ?_, (h₁.mono (k := 0) (by omega)).trans (h₂.mono hl)⟩
  · exact (h₂.room _ _).mpr ((h₁.room _ _).mpr hr)
  · have h := Memory.bytes_put_self hr₀
    rw [htag] at h
    rw [h₂.apart a 4 hr.1 (.inl le_rfl), h]
  · rw [Memory.bytes_take hs, hself, hx]

/-- A tagged union after the bytes of another one have been copied to it. -/
theorem carries_of_copy {l n' : Nat} (h : Carries ts m b u ty x) (hu : ts.shape u = .tagged n)
    (hu' : ts.shape u' = .tagged n') (hr : m.Room a (ts.irType u').size)
    (hl : 4 + (ts.irType ty).size ≤ l) (hl' : l ≤ (ts.irType u').size) :
    let m' := m.put (m.bytes b l) (Memory.place a)
    Carries ts m' a u' ty x ∧ m.Changes m' a (ts.irType u').size := by
  intro m'
  have hlen : (m.bytes b l).length = l := Memory.length_bytes
  have hr₀ : m.Room a (m.bytes b l).length := by
    rw [hlen]
    exact hr.mono hl'
  have hc := Memory.changes_put hr₀
  have hself := Memory.bytes_put_self hr₀
  rw [hlen] at hself hc
  have hcopy : ∀ i j, i + j ≤ l → m'.bytes (a + i) j = m.bytes (b + i) j := fun i j hij => by
    rw [Memory.bytes_sub hij, hself, ← Memory.bytes_sub hij]
  obtain ⟨htag, hpayload⟩ := h.of_tagged hu
  refine ⟨.tagged hu' ((hc.room _ _).mpr hr) ?_ ?_, hc.mono (k := 0) (by omega)⟩
  · rw [← htag]
    exact hcopy 0 4 (by omega)
  · rw [← hpayload]
    exact hcopy 4 _ hl

end

/-! ### Operands of union types -/

namespace Spot

variable {k₁ : Spot} {ts : TypeTable} {u : TypeId}

/-- An operand is the address of storage for a type. -/
structure Slot (w : Setting) (k : Spot) (ts : TypeTable) (v : Value) (u : TypeId) (a : Nat) :
    Prop where
  address : k.Holds w v (.ptr (ts.irType u)) (.ptr a)
  room : k.run.memory.Room a (ts.irType u).size

/-- A slot is one later on. -/
theorem Slot.along (h : k.Slot w ts v u a) (ho : k.Open w) (hr : k.Runs w k₁) (ho₁ : k₁.Open w)
    (hm : ∀ b l, k₁.run.memory.Room b l ↔ k.run.memory.Room b l) : k₁.Slot w ts v u a :=
  ⟨h.address.along ho hr ho₁, (hm _ _).mpr h.room⟩

/-- The slot of a tagged union has room for any member. -/
theorem Slot.tagged (h : k.Slot w ts v u a) (hu : ts.shape u = .tagged n) :
    ∃ q, ts.irType u = taggedType q ∧ k.Holds w v (.ptr (taggedType q)) (.ptr a) ∧
      k.run.memory.Room a (taggedType q).size ∧ 4 < (taggedType q).size ∧
      ∀ t ∈ ts.members u, ts.isUnion t = false → 4 + (ts.irType t).size ≤ (taggedType q).size := by
  obtain ⟨q, hq, hpos, hfit⟩ := ts.irType_of_tagged hu
  have hsize := le_size_taggedType q
  have haddress := h.address
  have hroom := h.room
  rw [hq] at haddress hroom
  refine ⟨q, hq, haddress, hroom, by omega, fun t ht hs => ?_⟩
  have := hfit t ht hs
  omega

/-- An operand stands for a value of a type that is no union: in a register, or for a hierarchy
at an address. -/
inductive Is (w : Setting) (k : Spot) (ts : TypeTable) (v : Value) (t : TypeId) (x : RtValue) : Prop
  | scalar (shape : ts.shape t = .scalar) (held : k.Holds w v (ts.irType t) x)
  | boxed {base : TypeId} {b : Nat} (shape : ts.shape t = .boxed base) (slot : k.Slot w ts v t b)
      (bytes : k.run.memory.bytes b (ts.irType t).size = encode x (ts.irType t))

/-- An operand of a union type stands for a value of a member. -/
inductive Stands (w : Setting) (k : Spot) (ts : TypeTable) (v : Value) (u t : TypeId)
    (x : RtValue) : Prop
  | tagged {n a : Nat} (shape : ts.shape u = .tagged n)
      (address : k.Holds w v (.ptr (ts.irType u)) (.ptr a))
      (carried : Carries ts k.run.memory a u t x)
  | nilable {member : TypeId} {p : Nat} (shape : ts.shape u = .nilable member)
      (held : k.Holds w v (ts.irType u) (.ptr p)) (pointer : IsPointer ts t x p)

end Spot

/-! ### Into a union -/

section

variable {slot : Value} {u ty : TypeId} {member : TypeId}

/-- What writing a value into the storage of a union comes to. -/
def Assigned (c : Context) (k : Spot) (a : Nat) (u t : TypeId) (x : RtValue) (k' : Spot) : Prop :=
  Carries c.program.types k'.run.memory a u t x ∧
    k.run.memory.Changes k'.run.memory a (c.program.types.irType u).size

theorem performs_storeScalarInUnion (hu : c.program.types.shape u = .tagged n)
    (ht : ty ∈ c.program.types.members u) (hs : c.program.types.isUnion ty = false)
    (hslot : k.Slot w c.program.types slot u a) (hv : k.Holds w v (c.program.types.irType ty) x) :
    Performs w c k (storeScalarInUnion slot u ty v) fun k' _ => Assigned c k a u ty x k' := by
  obtain ⟨q, hq, haddress, hroom, hsize, hfit⟩ := hslot.tagged hu
  have hno : admittingHierarchy? c.program.types (c.program.types.members u) ty = none :=
    if_pos (by simpa using ht)
  unfold storeScalarInUnion
  refine .assume fun ho => .ask (a := c.program.types) rfl ?_
  rw [hno]
  refine (performs_storeTag haddress (hroom.mono hsize.le) (holds_tagOf k ty)).bind
    (fun _ => grow_payload.bind fun _ => grow_storeCoerced) fun k₁ _ hr₁ ho₁ hm₁ => ?_
  refine (performs_payload (haddress.along ho hr₁ ho₁) (by rw [hm₁]; exact Memory.room_put.mpr hroom)
    hsize).bind (fun _ => grow_storeCoerced) fun k₂ room hr₂ ho₂ hp => ?_
  refine (performs_storeCoerced ((hv.along ho hr₁ ho₁).along ho₁ hr₂ ho₂) hp.holds ?_
    (.inl rfl)).mono fun k' _ _ _ hm => ?_
  · rw [hp.memory, hm₁]
    exact Memory.room_put.mpr (hroom.sub (hfit ty ht hs) hsize)
  · unfold Assigned
    rw [hm, hp.memory, hm₁]
    refine carries_of_writes hu hslot.room ?_ (by simp) (by rw [List.take_of_length_le (by simp)])
    rw [Exec.length_encode, hq]
    exact hfit ty ht hs

theorem performs_storeBoxInUnion {base : TypeId} (hu : c.program.types.shape u = .tagged n)
    (ht : ty ∈ c.program.types.members u) (hs : c.program.types.isUnion ty = false)
    (hbox : c.program.types.shape ty = .boxed base)
    (hslot : k.Slot w c.program.types slot u a) (hv : k.Slot w c.program.types v ty b)
    (hx : k.run.memory.bytes b (c.program.types.irType ty).size =
      encode x (c.program.types.irType ty))
    (hap : b + (c.program.types.irType ty).size ≤ a ∨ a + 4 ≤ b) :
    Performs w c k (storeBoxInUnion slot u ty v) fun k' _ => Assigned c k a u ty x k' := by
  obtain ⟨q, hq, haddress, hroom, hsize, hfit⟩ := hslot.tagged hu
  have hbt := c.program.types.irType_of_boxed hbox
  have hfit := hfit ty ht hs
  have hvaddress := hv.address
  have hvroom := hv.room
  have hxx := hx
  rw [hbt] at hvaddress hvroom hx hap hfit
  have htagroom : k.run.memory.Room a (encode (tagWord ty) .i32).length := by
    rw [Exec.length_encode, size_i32]
    exact hroom.mono hsize.le
  have hch := Memory.changes_put htagroom
  unfold storeBoxInUnion
  refine .assume fun ho => .ask (a := c.program.types) rfl ?_
  rw [if_pos (by simpa using ht)]
  refine (performs_storeTag haddress (hroom.mono hsize.le) (holds_tagOf k ty)).bind
    (fun _ => grow_load.bind fun _ => grow_payload.bind fun _ => grow_store)
    fun k₁ _ hr₁ ho₁ hm₁ => ?_
  have hbytes : k₁.run.memory.bytes b boxType.size = encode x boxType := by
    rw [hm₁, hch.apart b _ hvroom.1 (by simpa using hap), hx]
  refine (performs_load (hvaddress.along ho hr₁ ho₁)
    (by rw [hm₁]; exact Memory.room_put.mpr hvroom)).bind
    (fun _ => grow_payload.bind fun _ => grow_store) fun k₂ box hr₂ ho₂ ⟨hb, _⟩ => ?_
  rw [hbytes] at hb
  refine (performs_payload ((haddress.along ho hr₁ ho₁).along ho₁ hr₂ ho₂)
    (by rw [hb.memory, hm₁]; exact Memory.room_put.mpr hroom) hsize).bind (fun _ => grow_store)
    fun k₃ room hr₃ ho₃ hp => ?_
  refine (performs_store (hb.holds.along ho₂ hr₃ ho₃) hp.holds ?_).mono fun k' _ _ _ hm => ?_
  · rw [hp.memory, hb.memory, hm₁]
    exact Memory.room_put.mpr (hroom.sub hfit hsize)
  · unfold Assigned
    have henc : encode (decode (encode x boxType) boxType) boxType = encode x boxType :=
      encode_decode_struct (Exec.length_encode x boxType)
    rw [hm, hp.memory, hb.memory, hm₁, henc, ← hbt]
    refine carries_of_writes hu hslot.room ?_ (by simp) (by rw [List.take_of_length_le (by simp)])
    rw [Exec.length_encode, hq, hbt]
    exact hfit

/-- The pointer that stands for a value begins with the bytes of the value. -/
theorem take_encode_pointer {ts : TypeTable} {s : Ty} {q : Nat} (hu : ts.shape u = .nilable member)
    (ht : ty ∈ ts.members u) (hx : IsValue ts ty x) (hp : IsPointer ts ty x q) :
    (encode (.ptr q) (.ptr s)).take (ts.irType ty).size = encode x (ts.irType ty) := by
  cases hn : ts.isNil ty with
  | true =>
    have hfalse : encode (bit false) .i1 = [0] := by
      show Exec.resize Ty.i1.size _ = _
      rw [size_i1]
      decide
    rw [ts.irType_of_isNil hn, hx.nil hn, hp.null.mpr hn, hfalse, encode, size_ptr, size_i1]
    decide
  | false =>
    obtain ⟨s', hs'⟩ := ts.irType_of_isPointerLike (ts.isPointerLike_of_mem hu ht hn)
    rw [hs', hp.object hn, encode_pointer q s s', List.take_of_length_le (by simp)]

theorem performs_storeNilableInUnion {u' : TypeId} {q : Nat}
    (hu : c.program.types.shape u = .nilable member) (ht : ty ∈ c.program.types.members u)
    (hu' : c.program.types.shape u' = .tagged n) (ht' : ty ∈ c.program.types.members u')
    (hs : c.program.types.isUnion ty = false) (hx : IsValue c.program.types ty x)
    (hnil : c.program.types.isNil ty = true →
      c.nil = ty ∧ 12 ≤ (c.program.types.irType u').size)
    (hslot : k.Slot w c.program.types slot u' a)
    (hv : k.Holds w v (c.program.types.irType u) (.ptr q)) (hp : IsPointer c.program.types ty x q) :
    Performs w c k (storeNilableInUnion slot u member v) fun k' _ => Assigned c k a u' ty x k' := by
  obtain ⟨r, hr, haddress, hroom, hsize, hfit⟩ := hslot.tagged hu'
  obtain ⟨s, hus⟩ := c.program.types.irType_of_nilable hu
  have htake := take_encode_pointer (s := s) hu ht hx hp
  have htag : tagWord ty = if decide (q = 0) then tagWord c.nil else tagWord member := by
    cases hn : c.program.types.isNil ty with
    | true => rw [if_pos (decide_eq_true (hp.null.mpr hn)), (hnil hn).1]
    | false =>
      have hq : q ≠ 0 := fun h => by simp [hp.null.mp h] at hn
      have hty := (c.program.types.mem_members_of_nilable hu ht).resolve_left (by simp [hn])
      rw [if_neg (by simpa using hq), hty]
  have hle := c.program.types.size_irType_of_mem_nilable hu ht
  have hwide : 12 ≤ (taggedType r).size := by
    cases hn : c.program.types.isNil ty with
    | true => exact hr ▸ (hnil hn).2
    | false =>
      obtain ⟨s', hs'⟩ :=
        c.program.types.irType_of_isPointerLike (c.program.types.isPointerLike_of_mem hu ht hn)
      have := hfit ty ht' hs
      rwa [hs', size_ptr] at this
  rw [hus] at hv
  unfold storeNilableInUnion
  refine .assume fun ho => ?_
  refine (performs_isNull hv hp.small).bind (fun _ => grow_nil.bind fun _ => grow_select.bind fun _ =>
    grow_storeTag.bind fun _ => grow_irType.bind fun _ => grow_payload.bind fun _ => grow_store)
    fun k₁ null hr₁ ho₁ hn => ?_
  refine .ask (a := c.nil) rfl ?_
  refine (performs_select hn.holds hn.exact (holds_tagOf k₁ c.nil) (holds_tagOf k₁ member)).bind
    (fun _ => grow_storeTag.bind fun _ => grow_irType.bind fun _ => grow_payload.bind fun _ =>
      grow_store) fun k₂ tag hr₂ ho₂ ⟨htg, hm₂⟩ => ?_
  rw [← htag] at htg
  rw [hn.memory] at hm₂
  have hr₁₂ := hr₁.trans hr₂ ho
  refine (performs_storeTag (haddress.along ho hr₁₂ ho₂) (by rw [hm₂]; exact hroom.mono hsize.le)
    htg).bind (fun _ => grow_irType.bind fun _ => grow_payload.bind fun _ => grow_store)
    fun k₃ _ hr₃ ho₃ hm₃ => ?_
  rw [hm₂] at hm₃
  refine .ask (a := c.program.types.irType u) rfl ?_
  have hr₁₃ := hr₁₂.trans hr₃ ho
  refine (performs_payload (haddress.along ho hr₁₃ ho₃)
    (by rw [hm₃]; exact Memory.room_put.mpr hroom) hsize).bind (fun _ => grow_store)
    fun k₄ room hr₄ ho₄ hpl => ?_
  rw [hus] at hpl
  refine (performs_store ((hv.along ho hr₁₃ ho₃).along ho₃ hr₄ ho₄) hpl.holds ?_).mono
    fun k' _ _ _ hm => ?_
  · rw [hpl.memory, hm₃, size_ptr]
    exact Memory.room_put.mpr (hroom.sub hwide hsize)
  · unfold Assigned
    rw [hm, hpl.memory, hm₃]
    refine carries_of_writes hu' hslot.room ?_ (by simpa using hle) htake
    rw [Exec.length_encode, size_ptr, hr]
    exact hwide

theorem performs_copyUnion {u' : TypeId} {n' : Nat}
    (hu : c.program.types.shape u = .tagged n) (ht : ty ∈ c.program.types.members u)
    (hu' : c.program.types.shape u' = .tagged n') (ht' : ty ∈ c.program.types.members u')
    (hs : c.program.types.isUnion ty = false) (hslot : k.Slot w c.program.types slot u' a)
    (hv : k.Holds w v (.ptr (c.program.types.irType u)) (.ptr b))
    (hc : Carries c.program.types k.run.memory b u ty x) :
    Performs w c k (copyUnion slot u' u v) fun k' _ => Assigned c k a u' ty x k' := by
  obtain ⟨r, hr, haddress, hroom, -, hfit'⟩ := hslot.tagged hu'
  obtain ⟨r₀, hr₀, hvaddress, hvroom, -, hfit⟩ := (Spot.Slot.mk hv hc.room).tagged hu
  have hfit := hfit ty ht hs
  have hfit' := hfit' ty ht' hs
  -- as many bytes as both have hold the tag and the value
  obtain ⟨l, hl, hle, hle', hin⟩ : ∃ l,
      (if (taggedType r₀).size ≤ (taggedType r).size then taggedType r₀ else taggedType r) =
        taggedType l ∧ (taggedType l).size ≤ (taggedType r₀).size ∧
      (taggedType l).size ≤ (taggedType r).size ∧
      4 + (c.program.types.irType ty).size ≤ (taggedType l).size := by
    split
    · exact ⟨r₀, rfl, le_rfl, ‹_›, hfit⟩
    · exact ⟨r, rfl, by omega, le_rfl, hfit'⟩
  unfold copyUnion
  refine .assume fun ho => .ask (a := taggedType r₀) (by rw [← hr₀]; rfl)
    (.ask (a := taggedType r) (by rw [← hr]; rfl) ?_)
  dsimp only
  rw [hl]
  refine (performs_bitcast hvaddress).bind
    (fun _ => grow_load.bind fun _ => grow_bitcast.bind fun _ => grow_store)
    fun k₁ src hr₁ ho₁ hsrc => ?_
  refine (performs_load hsrc.holds (by rw [hsrc.memory]; exact hvroom.mono hle)).bind
    (fun _ => grow_bitcast.bind fun _ => grow_store) fun k₂ bytes hr₂ ho₂ ⟨hb, _⟩ => ?_
  rw [hsrc.memory] at hb
  have hm₂ := hb.memory.trans hsrc.memory
  refine (performs_bitcast ((haddress.along ho hr₁ ho₁).along ho₁ hr₂ ho₂)).bind
    (fun _ => grow_store) fun k₃ dst hr₃ ho₃ hdst => ?_
  have hm₃ := hdst.memory.trans hm₂
  refine (performs_store (hb.holds.along ho₂ hr₃ ho₃) hdst.holds
    (by rw [hm₃]; exact hroom.mono hle')).mono fun k' _ _ _ hm => ?_
  unfold Assigned
  rw [hm, hm₃, taggedType, encode_decode_struct Memory.length_bytes, ← taggedType]
  exact carries_of_copy hc hu hu' hslot.room hin (by rw [hr]; exact hle')

/-- What typing gives: no more types than words, members that are types, and one nil type. -/
structure Context.Typed (c : Context) : Prop where
  size : c.program.types.size ≤ 2 ^ 32
  members : ∀ u, ∀ t ∈ c.program.types.members u, t.index < c.program.types.size
  nil : ∀ t, c.program.types.isNil t = true ↔ t = c.nil

/-- What typing gives is decided from the types in the table. -/
theorem Context.typed_of_lt (hsize : c.program.types.size ≤ 2 ^ 32)
    (hmembers : ∀ i < c.program.types.size, ∀ t ∈ c.program.types.members ⟨i⟩,
      t.index < c.program.types.size)
    (hnil : ∀ i < c.program.types.size, c.program.types.isNil ⟨i⟩ = true ↔ (⟨i⟩ : TypeId) = c.nil)
    (hin : c.nil.index < c.program.types.size) : c.Typed where
  size := hsize
  members u t ht := hmembers u.index (TypeTable.index_lt_of_mem_members ht) t ht
  nil t := by
    constructor
    · intro hn
      exact (hnil t.index (TypeTable.index_lt_of_isNil hn)).mp hn
    · rintro rfl
      exact (hnil c.nil.index hin).mpr rfl

theorem Context.Typed.small (h : c.Typed) (ht : ty ∈ c.program.types.members u) :
    ty.index < 2 ^ 32 := lt_of_lt_of_le (h.members u ty ht) h.size

theorem Context.Typed.small_nil (h : c.Typed) : c.nil.index < 2 ^ 32 := by
  refine lt_of_lt_of_le (c.program.types.index_lt_of_isNil ((h.nil c.nil).mpr rfl)) h.size

theorem performs_copyHeld {ts : TypeTable} (hu : ts.shape u = .tagged n)
    (ht : ty ∈ ts.members u) (hs : ts.isUnion ty = false) (hslot : k.Slot w ts slot u a)
    (hv : k.Holds w v (.ptr (ts.irType u)) (.ptr b)) (hc : Carries ts k.run.memory b u ty x) :
    Performs w c k (copyHeld slot v) fun k' _ =>
      Carries ts k'.run.memory a u ty x ∧ k.run.memory.Changes k'.run.memory a (ts.irType u).size := by
  obtain ⟨r, hr, haddress, hroom, -, hfit⟩ := hslot.tagged hu
  have hvroom : k.run.memory.Room b (ts.irType u).size := hc.room
  have hfit := hfit ty ht hs
  rw [hr] at hv hvroom
  unfold copyHeld
  refine .assume fun ho => (performs_load hv hvroom).bind (fun _ => grow_store)
    fun k₁ held hr₁ ho₁ ⟨hh, _⟩ => ?_
  refine (performs_store hh.holds (haddress.along ho hr₁ ho₁) (by rwa [hh.memory])).mono
    fun k' _ _ _ hm => ?_
  rw [hm, hh.memory, taggedType, encode_decode_struct Memory.length_bytes, ← taggedType]
  exact carries_of_copy hc hu hu hslot.room hfit (by rw [hr])

/-- A value in storage for a pointer. -/
theorem performs_storePointer {ts : TypeTable} {q : Nat} {s : Ty} (hu : ts.shape u = .nilable member)
    (hslot : k.Slot w ts slot u a) (hv : k.Holds w v (.ptr s) (.ptr q))
    (hp : IsPointer ts ty x q) :
    Performs w c k (storeCoerced v slot) fun k' _ =>
      Carries ts k'.run.memory a u ty x ∧ k.run.memory.Changes k'.run.memory a (ts.irType u).size := by
  obtain ⟨s', hus⟩ := ts.irType_of_nilable hu
  have haddress := hslot.address
  have hroom := hslot.room
  have hlen : (encode (.ptr q) (.ptr s')).length = 8 := by rw [Exec.length_encode, size_ptr]
  rw [hus] at haddress hroom
  refine (performs_storeCoerced hv haddress hroom (.inr ⟨s, s', q, rfl, rfl, rfl⟩)).mono
    fun k' _ _ _ hm => ?_
  have hroom' : k.run.memory.Room a (encode (.ptr q) (.ptr s')).length := by
    rwa [Exec.length_encode]
  have hch := Memory.changes_put hroom'
  rw [hm]
  refine ⟨.nilable hu ((hch.room _ _).mpr hslot.room) ?_ hp, ?_⟩
  · have hself := Memory.bytes_put_self hroom'
    rw [hlen] at hself
    rw [hself, Ty.bytePtr, encode_pointer]
  · rw [hus, size_ptr, ← hlen]
    exact hch

/-- A value of a member is a pointer in a union without a tag. -/
theorem IsValue.exists_pointer {ts : TypeTable} (hx : IsValue ts ty x)
    (hu : ts.shape u = .nilable member) (ht : ty ∈ ts.members u) : ∃ q, IsPointer ts ty x q := by
  cases hn : ts.isNil ty with
  | true => exact ⟨0, by norm_num, by simp [hn], fun h => by rw [hn] at h; cases h⟩
  | false =>
    obtain ⟨s, hs⟩ := ts.irType_of_isPointerLike (ts.isPointerLike_of_mem hu ht hn)
    have hof := hx.of
    rw [hs] at hof
    cases hof with
    | @ptr _ q h => exact ⟨q, h, by simpa [hn] using fun h0 => hx.object (by rw [h0]), fun _ => rfl⟩

/-- The pointer in a tagged union. -/
theorem performs_nilableOfUnion {u' : TypeId} {s : Ty} (hc : c.Typed)
    (hu : c.program.types.shape u = .tagged n) (ht : ty ∈ c.program.types.members u)
    (hs : c.program.types.isUnion ty = false) (hx : IsValue c.program.types ty x)
    (hu' : c.program.types.shape u' = .nilable member) (ht' : ty ∈ c.program.types.members u')
    (hwide : c.program.types.isNil ty = true → 12 ≤ (c.program.types.irType u).size)
    (hv : k.Holds w v (.ptr (c.program.types.irType u)) (.ptr a))
    (hcar : Carries c.program.types k.run.memory a u ty x) :
    Performs w c k (nilableOfUnion v (.ptr s)) fun k' r => ∃ q, k'.Holds w r (.ptr s) (.ptr q) ∧
      IsPointer c.program.types ty x q ∧ k'.run.memory = k.run.memory := by
  obtain ⟨r, hr, haddress, hroom, hsize, hfit⟩ := (Spot.Slot.mk hv hcar.room).tagged hu
  have hfit := hfit ty ht hs
  have hwide : 12 ≤ (taggedType r).size := by
    cases hn : c.program.types.isNil ty with
    | true => exact hr ▸ hwide hn
    | false =>
      obtain ⟨s', hs'⟩ :=
        c.program.types.irType_of_isPointerLike (c.program.types.isPointerLike_of_mem hu' ht' hn)
      rwa [hs', size_ptr] at hfit
  obtain ⟨q, hq⟩ := hx.exists_pointer hu' ht'
  obtain ⟨htag, hpayload⟩ := hcar.of_tagged hu
  unfold nilableOfUnion
  refine .assume fun ho => ?_
  refine (performs_loadTag haddress (hroom.mono hsize.le)).bind (fun _ => grow_nil.bind fun _ =>
    grow_icmp.bind fun _ => grow_payload.bind fun _ => grow_load.bind fun _ => grow_select)
    fun k₁ tag hr₁ ho₁ ⟨hg₁, id, hid⟩ => .ask (a := c.nil) rfl ?_
  rw [htag, decode_tagWord] at hg₁
  refine (performs_icmp hg₁.holds (holds_tagOf k₁ c.nil) fun i j hi _ => ?_).bind
    (fun _ => grow_payload.bind fun _ => grow_load.bind fun _ => grow_select)
    fun k₂ isNil hr₂ ho₂ hg₂ => ?_
  · rw [hid] at hi
    cases hi
  have hr₁₂ := hr₁.trans hr₂ ho
  have hm₂ := hg₂.memory.trans hg₁.memory
  refine (performs_payload (haddress.along ho hr₁₂ ho₂) (by rw [hm₂]; exact hroom) hsize).bind
    (fun _ => grow_load.bind fun _ => grow_select) fun k₃ objectPtr hr₃ ho₃ hg₃ => ?_
  have hm₃ := hg₃.memory.trans hm₂
  refine (performs_load hg₃.holds (by rw [hm₃, size_ptr]; exact hroom.sub hwide hsize)).bind
    (fun _ => grow_select) fun k₄ object hr₄ ho₄ ⟨hg₄, _⟩ => ?_
  have hm₄ := hg₄.memory.trans hm₃
  have hcond := (hg₂.holds.along ho₂ hr₃ ho₃).along ho₃ hr₄ ho₄
  have hnull : k₄.Holds w (.null (.ptr s)) (.ptr s) (.ptr 0) := Spot.holds_const (.null (.ptr s))
  refine (performs_select hcond hg₂.exact hnull hg₄.holds).mono fun k' u _ _ ⟨hsel, hm⟩ =>
    ⟨q, ?_, hq, hm.trans hm₄⟩
  convert hsel using 1
  cases hn : c.program.types.isNil ty with
  | true =>
    have hty := (hc.nil ty).mp hn
    rw [if_pos (by simp [IR.IntPredicate.holds, hty]), hq.null.mpr hn]
  | false =>
    have hne : ty ≠ c.nil := fun h => by simp [(hc.nil ty).mpr h] at hn
    have hword : Exec.wrap 32 ty.index ≠ Exec.wrap 32 c.nil.index :=
      fun h => hne ((tagWord_inj (hc.small ht) hc.small_nil).mp h)
    obtain ⟨s', hs'⟩ :=
      c.program.types.irType_of_isPointerLike (c.program.types.isPointerLike_of_mem hu' ht' hn)
    rw [hs', size_ptr, hq.object hn, encode_pointer q s' s] at hpayload
    have hptr : decode (encode (.ptr q) (.ptr s)) (.ptr s) = .ptr q :=
      RtValue.Of.decode_encode (.ptr hq.small)
    rw [if_neg (by simpa [IR.IntPredicate.holds] using hword), hm₃, size_ptr, hpayload, hptr]

/-- Between unions of which one holds nil as a null pointer and the other one with a tag, nil goes
through storage that has room for a pointer. -/
def Passes (ts : TypeTable) (t u u' : TypeId) : Prop :=
  ts.isNil t = true → ts.isNilable u ≠ ts.isNilable u' →
    12 ≤ max (ts.irType u).size (ts.irType u').size

theorem Passes.le {ts : TypeTable} {u' : TypeId} (h : Passes ts ty u u')
    (hu : ts.shape u = .tagged n) (hu' : ts.shape u' = .nilable member)
    (hn : ts.isNil ty = true) : 12 ≤ (ts.irType u).size := by
  obtain ⟨s, hs⟩ := ts.irType_of_nilable hu'
  have hle := h hn (by rw [ts.isNilable_of_tagged hu, ts.isNilable_of_nilable hu']; decide)
  rw [hs, size_ptr] at hle
  omega

theorem Passes.symm {ts : TypeTable} {u' : TypeId} (h : Passes ts ty u u') : Passes ts ty u' u :=
  fun hn hne => max_comm (ts.irType u).size _ ▸ h hn hne.symm

/-- What a union carries as the pointer of a union without a tag. -/
theorem performs_convertNilable {u' : TypeId} (hc : c.Typed) (ht : ty ∈ c.program.types.members u)
    (ht' : ty ∈ c.program.types.members u') (hs : c.program.types.isUnion ty = false)
    (hx : IsValue c.program.types ty x) (hpass : Passes c.program.types ty u u') (hne : u ≠ u')
    (hu' : c.program.types.shape u' = .nilable member)
    (hv : k.Stands w c.program.types v u ty x) :
    Performs w c k (convert v u u') fun k' r => ∃ q,
      k'.Holds w r (c.program.types.irType u') (.ptr q) ∧ IsPointer c.program.types ty x q ∧
        k'.run.memory = k.run.memory := by
  obtain ⟨s', hus'⟩ := c.program.types.irType_of_nilable hu'
  unfold convert
  rw [if_neg hne]
  refine .ask (a := c.program.types) rfl ?_
  dsimp only
  cases hv with
  | tagged hu haddress hcar =>
    rw [hu, hu', hus']
    exact performs_nilableOfUnion hc hu ht hs hx hu' ht' (hpass.le hu hu') haddress hcar
  | @nilable _ q hu hheld hp =>
    obtain ⟨s, hus⟩ := c.program.types.irType_of_nilable hu
    have hn := c.program.types.not_isNil_of_isUnion (c.program.types.isUnion_of_mem_members ht)
    rw [hu, hu', hus']
    dsimp only
    rw [hn]
    exact (performs_coerce (hus ▸ hheld) (.inr ⟨s, s', q, rfl, rfl, rfl⟩)).mono
      fun _ _ _ _ h => ⟨q, h.1, hp, h.2⟩

/-- What a union carries goes to the slot of another one. -/
theorem performs_assignUnion {u' : TypeId} (hc : c.Typed) (ht : ty ∈ c.program.types.members u)
    (ht' : ty ∈ c.program.types.members u') (hs : c.program.types.isUnion ty = false)
    (hx : IsValue c.program.types ty x) (hpass : Passes c.program.types ty u u')
    (hslot : k.Slot w c.program.types slot u' a) (hv : k.Stands w c.program.types v u ty x) :
    Performs w c k (assign slot u' u v) fun k' _ => Assigned c k a u' ty x k' := by
  unfold assign
  split
  · rename_i he
    subst he
    refine .ask (a := c.program.types.isAddressHeld u') rfl ?_
    rw [← c.program.types.shape_isAddressHeld]
    cases hv with
    | tagged hu haddress hcar =>
      rw [hu]
      exact performs_copyHeld hu ht hs hslot haddress hcar
    | nilable hu hheld hp =>
      rw [hu]
      obtain ⟨s, hus⟩ := c.program.types.irType_of_nilable hu
      exact performs_storePointer hu hslot (hus ▸ hheld) hp
  · rename_i hne
    refine .ask (a := c.program.types.shape u') rfl ?_
    rcases c.program.types.shape_of_isUnion (c.program.types.isUnion_of_mem_members ht') with
      ⟨n', hu'⟩ | ⟨member', hu'⟩
    · rw [hu']
      unfold storeInUnion
      refine .ask (a := c.program.types.shape u) rfl ?_
      cases hv with
      | tagged hu haddress hcar =>
        rw [hu]
        exact performs_copyUnion hu ht hu' ht' hs hslot haddress hcar
      | nilable hu hheld hp =>
        rw [hu]
        exact performs_storeNilableInUnion hu ht hu' ht' hs hx
          (fun hn => ⟨((hc.nil ty).mp hn).symm, hpass.symm.le hu' hu hn⟩) hslot hheld hp
    · rw [hu']
      obtain ⟨s', hus'⟩ := c.program.types.irType_of_nilable hu'
      refine .assume fun ho => ?_
      refine (performs_convertNilable hc ht ht' hs hx hpass (Ne.symm hne) hu' hv).bind
        (fun _ => grow_storeCoerced) fun k₁ r hr₁ ho₁ ⟨q, hheld, hp, hm⟩ => ?_
      have hslot₁ := hslot.along ho hr₁ ho₁ (by simp [hm])
      rw [hus'] at hheld
      refine (performs_storePointer hu' hslot₁ hheld hp).mono fun k' _ _ _ h => ?_
      rwa [hm] at h

/-- A value of a member as the pointer of a union without a tag. -/
theorem performs_convertToNilable (ht : ty ∈ c.program.types.members u)
    (hs : c.program.types.isUnion ty = false) (hx : IsValue c.program.types ty x)
    (hu : c.program.types.shape u = .nilable member)
    (hv : k.Holds w v (c.program.types.irType ty) x) :
    Performs w c k (convert v ty u) fun k' r => ∃ q,
      k'.Holds w r (c.program.types.irType u) (.ptr q) ∧ IsPointer c.program.types ty x q ∧
        k'.run.memory = k.run.memory := by
  obtain ⟨s, hus⟩ := c.program.types.irType_of_nilable hu
  obtain ⟨q, hq⟩ := hx.exists_pointer hu ht
  have hne : ty ≠ u := fun h => by
    simp [h, c.program.types.isUnion_of_mem_members ht] at hs
  unfold convert
  rw [if_neg hne]
  refine .ask (a := c.program.types) rfl ?_
  dsimp only
  rw [hu, c.program.types.shape_of_mem_nilable hu ht, hus]
  dsimp only
  cases hn : c.program.types.isNil ty with
  | true =>
    refine .pure ⟨q, ?_, hq, rfl⟩
    rw [hq.null.mpr hn]
    exact Spot.holds_const (.null (.ptr s))
  | false =>
    obtain ⟨s', hs'⟩ :=
      c.program.types.irType_of_isPointerLike (c.program.types.isPointerLike_of_mem hu ht hn)
    rw [hs', hq.object hn] at hv
    exact (performs_coerce hv (.inr ⟨s', s, q, rfl, rfl, rfl⟩)).mono
      fun _ _ _ _ h => ⟨q, h.1, hq, h.2⟩

/-- A value of a member goes to the slot of a union. -/
theorem performs_assignMember (ht : ty ∈ c.program.types.members u)
    (hs : c.program.types.isUnion ty = false) (hx : IsValue c.program.types ty x)
    (hslot : k.Slot w c.program.types slot u a) (hv : k.Is w c.program.types v ty x)
    (hap : ∀ b, k.Slot w c.program.types v ty b →
      b + (c.program.types.irType ty).size ≤ a ∨ a + 4 ≤ b) :
    Performs w c k (assign slot u ty v) fun k' _ => Assigned c k a u ty x k' := by
  have hne : u ≠ ty := fun h => by
    simp [← h, c.program.types.isUnion_of_mem_members ht] at hs
  unfold assign
  rw [if_neg hne]
  refine .ask (a := c.program.types.shape u) rfl ?_
  rcases c.program.types.shape_of_isUnion (c.program.types.isUnion_of_mem_members ht) with
    ⟨n, hu⟩ | ⟨member, hu⟩
  · rw [hu]
    unfold storeInUnion
    refine .ask (a := c.program.types.shape ty) rfl ?_
    cases hv with
    | scalar hscalar hheld =>
      rw [hscalar]
      exact performs_storeScalarInUnion hu ht hs hslot hheld
    | boxed hboxed hvslot hbytes =>
      rw [hboxed]
      exact performs_storeBoxInUnion hu ht hs hboxed hslot hvslot hbytes (hap _ hvslot)
  · rw [hu]
    obtain ⟨s, hus⟩ := c.program.types.irType_of_nilable hu
    cases hv with
    | scalar hscalar hheld =>
      refine .assume fun ho => ?_
      refine (performs_convertToNilable ht hs hx hu hheld).bind (fun _ => grow_storeCoerced)
        fun k₁ r hr₁ ho₁ ⟨q, hq, hp, hm⟩ => ?_
      rw [hus] at hq
      refine (performs_storePointer hu (hslot.along ho hr₁ ho₁ (by simp [hm])) hq hp).mono
        fun k' _ _ _ h => ?_
      rwa [hm] at h
    | boxed hboxed _ _ =>
      rw [c.program.types.shape_of_mem_nilable hu ht] at hboxed
      cases hboxed

/-! ### Operands of union types -/

/-- The value of a variable of a union type. -/
theorem performs_heldValue {ts : TypeTable} {name : String} (hts : c.program.types = ts)
    (hslot : k.Slot w ts slot u a) (hc : Carries ts k.run.memory a u ty x) :
    Performs w c k (heldValue name { ptr := slot, type := u }) fun k' r =>
      k'.Stands w ts r u ty x ∧ k'.run.memory = k.run.memory := by
  unfold heldValue
  refine .ask (a := ts.isAddressHeld u) (by rw [← hts]; rfl) ?_
  rw [← ts.shape_isAddressHeld]
  cases hc with
  | tagged hu hroom htag hpayload =>
    rw [hu]
    exact .pure ⟨.tagged hu hslot.address (.tagged hu hroom htag hpayload), rfl⟩
  | @nilable _ q hu hroom hheld hp =>
    rw [hu]
    obtain ⟨s, hus⟩ := ts.irType_of_nilable hu
    have hptr : decode (encode (.ptr q) .bytePtr) (.ptr s) = .ptr q := by
      rw [Ty.bytePtr, encode_pointer q _ s]
      exact RtValue.Of.decode_encode (.ptr hp.small)
    refine (performs_load hslot.address hslot.room).mono fun k' r _ _ h =>
      ⟨.nilable hu ?_ hp, h.1.memory⟩
    have hh := h.1.holds
    rw [hus] at hh ⊢
    rwa [size_ptr, hheld, hptr] at hh

/-! ### Type tests -/

/-- Whether a tag is one of some types. -/
theorem performs_foldTags {tag found : Value} {i : Int} {o : Bool} (htag : k.Holds w tag .i32 (.int 32 i))
    (hid : ∃ id, tag = .inst id) (ids : List TypeId) (hf : k.Holds w found .i1 (bit o))
    (he : Exact found) :
    Performs w c k (ids.foldlM (fun found id => do
        let same ← Build.icmp .eq tag (tagOf id)
        Build.or found same) found)
      (k.Gets w .i1 (bit (o || ids.any fun id => decide (i = Exec.wrap 32 id.index)))) := by
  induction ids generalizing k found o with
  | nil => exact .pure ⟨by simpa using hf, he, rfl⟩
  | cons id ids ih =>
    obtain ⟨place, rfl⟩ := hid
    have hstep : Performs w c k (do
        let same ← Build.icmp .eq (.inst place) (tagOf id)
        Build.or found same)
        (k.Gets w .i1 (bit (o || decide (i = Exec.wrap 32 id.index)))) := by
      refine .assume fun ho => ?_
      refine (performs_icmp htag (holds_tagOf k id) fun _ _ h => by cases h).bind
        (fun _ => grow_or) fun k₁ same hr₁ ho₁ hg₁ => ?_
      exact (performs_or (hf.along ho hr₁ ho₁) hg₁.holds he hg₁.exact).mono
        fun _ _ _ _ h => h.after hg₁.memory
    rw [List.foldlM_cons]
    refine .assume fun ho => hstep.bind (fun _ => grow_foldTags) fun k₁ found₁ hr₁ ho₁ hg₁ => ?_
    refine (ih (htag.along ho hr₁ ho₁) hg₁.holds hg₁.exact).mono
      fun k' r _ _ h => ?_
    rw [List.any_cons, ← Bool.or_assoc]
    exact h.after hg₁.memory

/-- A tagged union is tested for a type by its tag, unless all of its members give one answer. -/
theorem performs_unionIsA {target : TypeId} (hc : c.Typed)
    (hu : c.program.types.shape u = .tagged n) (ht : ty ∈ c.program.types.members u)
    (hv : k.Holds w v (.ptr (c.program.types.irType u)) (.ptr a))
    (hcar : Carries c.program.types k.run.memory a u ty x) :
    Performs w c k (unionIsA v u target)
      (k.Gets w .i1 (bit (c.program.types.implements ty target))) := by
  obtain ⟨r, hr, haddress, hroom, hsize, -⟩ := (Spot.Slot.mk hv hcar.room).tagged hu
  have htag := (hcar.of_tagged hu).1
  unfold unionIsA
  refine .ask (a := c.program.types) rfl ?_
  dsimp only
  split
  · rename_i hnone
    have hno : c.program.types.implements ty target = false := by
      simpa using List.filter_eq_nil_iff.mp (List.isEmpty_iff.mp hnone) ty ht
    rw [hno]
    exact .pure ⟨Spot.holds_i1 false, exact_i1 false, rfl⟩
  · split
    · rename_i hall
      rw [List.length_filter_eq_length_iff.mp hall ty ht]
      exact .pure ⟨Spot.holds_i1 true, exact_i1 true, rfl⟩
    · refine (performs_loadTag haddress (hroom.mono hsize.le)).bind (fun _ => grow_foldTags)
        fun k₁ tag hr₁ ho₁ ⟨hg₁, hid⟩ => ?_
      rw [htag, decode_tagWord] at hg₁
      have hany : (((c.program.types.members u).filter fun m =>
          c.program.types.implements m target).any fun id =>
            decide (Exec.wrap 32 ty.index = Exec.wrap 32 id.index)) =
          c.program.types.implements ty target := by
        rw [Bool.eq_iff_iff, List.any_eq_true]
        constructor
        · rintro ⟨m, hm, he⟩
          obtain ⟨hmem, himp⟩ := List.mem_filter.mp hm
          rwa [(tagWord_inj (hc.small ht) (hc.small hmem)).mp (of_decide_eq_true he)]
        · exact fun h => ⟨ty, List.mem_filter.mpr ⟨ht, h⟩, decide_eq_true rfl⟩
      have h := performs_foldTags (c := c) hg₁.holds hid ((c.program.types.members u).filter fun m =>
        c.program.types.implements m target) (Spot.holds_i1 false) (exact_i1 false)
      rw [hany, Bool.false_or] at h
      exact h.mono fun _ _ _ _ h => h.after hg₁.memory

/-- A value that was put into a union is tested for a type. -/
theorem performs_isA {target : TypeId} (hc : c.Typed) (ht : ty ∈ c.program.types.members u)
    (hv : k.Stands w c.program.types v u ty x) :
    Performs w c k (isA v u target)
      (k.Gets w .i1 (bit (c.program.types.toldIsA u ty target))) := by
  unfold isA
  refine .ask (a := c.program.types) rfl ?_
  unfold TypeTable.toldIsA
  cases hv with
  | tagged hu haddress hcar =>
    rw [hu]
    exact performs_unionIsA hc hu ht haddress hcar
  | @nilable member q hu hheld hp =>
    rw [hu]
    obtain ⟨s, hus⟩ := c.program.types.irType_of_nilable hu
    have hnull : decide (q = 0) = c.program.types.isNil ty := by
      rw [Bool.eq_iff_iff, decide_eq_true_iff, hp.null]
    rw [hus] at hheld
    dsimp only
    split
    · rw [← hnull]
      exact performs_isNull hheld hp.small
    · split
      · rename_i himp
        rw [himp, Bool.and_true, ← hnull, ← decide_not]
        exact performs_isNotNull hheld hp.small
      · rename_i himp
        rw [Bool.eq_false_iff.mpr himp, Bool.and_false]
        exact .pure ⟨Spot.holds_i1 false, exact_i1 false, rfl⟩

/-! ### Out of a union -/

/-- A value that was put into a union is found there. -/
theorem performs_convertMember (ht : ty ∈ c.program.types.members u)
    (hs : c.program.types.isUnion ty = false) (hx : IsValue c.program.types ty x)
    (hv : k.Stands w c.program.types v u ty x) :
    Performs w c k (convert v u ty) fun k' r =>
      k'.Is w c.program.types r ty x ∧ k'.run.memory = k.run.memory := by
  have hne : u ≠ ty := fun h => by
    simp [← h, c.program.types.isUnion_of_mem_members ht] at hs
  unfold convert
  rw [if_neg hne]
  refine .ask (a := c.program.types) rfl ?_
  dsimp only
  cases hv with
  | @tagged _ a hu haddress hcar =>
    obtain ⟨r, hr, hraddress, hroom, hsize, hfit⟩ := (Spot.Slot.mk haddress hcar.room).tagged hu
    have hfit := hfit ty ht hs
    have hpayload := (hcar.of_tagged hu).2
    rw [hu]
    rcases c.program.types.shape_of_not_isUnion hs with hty | ⟨base, hty⟩
    · rw [hty]
      dsimp only
      cases hn : c.program.types.isNil ty with
      | true =>
        refine .pure ⟨.scalar hty ?_, rfl⟩
        rw [c.program.types.irType_of_isNil hn, hx.nil hn]
        exact Spot.holds_i1 false
      | false =>
        refine (performs_payload hraddress hroom hsize).bind (fun _ => grow_load)
          fun k₁ room _ _ hg₁ => ?_
        refine (performs_load hg₁.holds (by rw [hg₁.memory]; exact hroom.sub hfit hsize)).mono
          fun k' y _ _ ⟨hg, _⟩ => ⟨.scalar hty ?_, hg.memory.trans hg₁.memory⟩
        have hh := hg.holds
        rwa [hg₁.memory, hpayload, hx.of.decode_encode] at hh
    · rw [hty]
      dsimp only
      have hbox := c.program.types.irType_of_boxed hty
      unfold boxOfUnion
      refine .ask (a := c.program.types) rfl ?_
      rw [if_pos (by simpa using ht)]
      refine (performs_payload hraddress hroom hsize).mono fun k' y _ _ hg =>
        ⟨.boxed (b := a + 4) hty ⟨?_, ?_⟩ ?_, hg.memory⟩
      · rw [hbox]
        exact hg.holds
      · rw [hg.memory]
        exact hroom.sub hfit hsize
      · rw [hg.memory]
        exact hpayload
  | @nilable member q hu hheld hp =>
    have hty := c.program.types.shape_of_mem_nilable hu ht
    rw [hu, hty]
    dsimp only
    cases hn : c.program.types.isNil ty with
    | true =>
      refine .pure ⟨.scalar hty ?_, rfl⟩
      rw [c.program.types.irType_of_isNil hn, hx.nil hn]
      exact Spot.holds_i1 false
    | false =>
      obtain ⟨s, hus⟩ := c.program.types.irType_of_nilable hu
      obtain ⟨s', hs'⟩ :=
        c.program.types.irType_of_isPointerLike (c.program.types.isPointerLike_of_mem hu ht hn)
      rw [hus] at hheld
      refine (performs_coerce hheld (.inr ⟨s, s', q, rfl, hs', rfl⟩)).mono
        fun _ _ _ _ h => ⟨.scalar hty ?_, h.2⟩
      rw [hp.object hn]
      exact h.1

end

/-! ### Through unions -/

/-- Pass what a variable of a union type holds on to variables of other union types. -/
def passOn (name : String) (slot : Value) (u : TypeId) :
    List (Value × TypeId) → Gen (Value × TypeId)
  | [] => return (slot, u)
  | (slot', u') :: rest => do
    let held ← heldValue name { ptr := slot, type := u }
    assign slot' u' u held
    passOn name slot' u' rest

section

variable {slot : Value} {u ty : TypeId} {name : String} {rest : List (Value × TypeId)}
  {address : Value → Nat}

/-- The last of a row of unions. -/
def lastUnion (u : TypeId) (rest : List (Value × TypeId)) : TypeId := (rest.map Prod.snd).getLastD u

/-- No storage has changed but that of some slots. -/
structure Spares (ts : TypeTable) (address : Value → Nat) (slots : List (Value × TypeId))
    (m m' : Memory) : Prop where
  room : ∀ b l, m'.Room b l ↔ m.Room b l
  apart : ∀ b l, Exec.offsetRange ≤ b →
    (∀ p ∈ slots, b + l ≤ address p.1 ∨ address p.1 + (ts.irType p.2).size ≤ b) →
    m'.bytes b l = m.bytes b l

theorem Spares.cons {ts : TypeTable} {m m₁ m' : Memory} {p : Value × TypeId}
    (h : m.Changes m₁ (address p.1) (ts.irType p.2).size) (h' : Spares ts address rest m₁ m') :
    Spares ts address (p :: rest) m m' := by
  refine ⟨fun b l => (h'.room b l).trans (h.room b l), fun b l hb hap => ?_⟩
  rw [h'.apart b l hb fun q hq => hap q (List.mem_cons_of_mem _ hq)]
  exact h.apart b l hb (hap p List.mem_cons_self)

/-- A variable of the last of a row of union types carries a value. -/
structure PassedOn (w : Setting) (ts : TypeTable) (address : Value → Nat) (u : TypeId)
    (rest : List (Value × TypeId)) (t : TypeId) (x : RtValue) (k : Spot) (r : Value × TypeId) :
    Prop where
  type : r.2 = lastUnion u rest
  slot : k.Slot w ts r.1 r.2 (address r.1)
  member : t ∈ ts.members r.2
  carries : Carries ts k.run.memory (address r.1) r.2 t x

theorem grow_passOn : Grow (passOn name slot u rest) := by
  induction rest generalizing slot u with
  | nil => exact .pure _
  | cons p rest ih => exact grow_heldValue.bind fun _ => grow_assign.bind fun _ => ih

/-- What a union carries it carries after any number of assignments to variables of other unions. -/
theorem performs_passOn (hc : c.Typed) (hs : c.program.types.isUnion ty = false)
    (hx : IsValue c.program.types ty x)
    (hpass : List.IsChain (Passes c.program.types ty) (u :: rest.map Prod.snd))
    (hslot : k.Slot w c.program.types slot u (address slot)) (ht : ty ∈ c.program.types.members u)
    (hslots : ∀ p ∈ rest, k.Slot w c.program.types p.1 p.2 (address p.1) ∧
      ty ∈ c.program.types.members p.2)
    (hcar : Carries c.program.types k.run.memory (address slot) u ty x) :
    Performs w c k (passOn name slot u rest) fun k' r =>
      PassedOn w c.program.types address u rest ty x k' r ∧
        Spares c.program.types address rest k.run.memory k'.run.memory := by
  induction rest generalizing k slot u with
  | nil => exact .pure ⟨⟨rfl, hslot, ht, hcar⟩, fun _ _ => .rfl, fun _ _ _ _ => rfl⟩
  | cons p rest ih =>
    obtain ⟨hslot', ht'⟩ := hslots p List.mem_cons_self
    rw [List.map_cons, List.isChain_cons_cons] at hpass
    unfold passOn
    refine .assume fun ho => ?_
    refine (performs_heldValue rfl hslot hcar).bind
      (fun _ => grow_assign.bind fun _ => grow_passOn) fun k₁ held hr₁ ho₁ ⟨hheld, hm₁⟩ => ?_
    refine (performs_assignUnion hc ht ht' hs hx hpass.1
      (hslot'.along ho hr₁ ho₁ (by simp [hm₁])) hheld).bind (fun _ => grow_passOn)
      fun k₂ _ hr₂ ho₂ ⟨hcar₂, hch⟩ => ?_
    rw [hm₁] at hch
    have hr₁₂ := hr₁.trans hr₂ ho
    refine (ih hpass.2 (hslot'.along ho hr₁₂ ho₂ hch.room) ht' (fun q hq => ?_) hcar₂).mono
      fun k' r _ _ ⟨h, hspares⟩ => ⟨⟨?_, h.slot, h.member, h.carries⟩, .cons hch hspares⟩
    · obtain ⟨hq₁, hq₂⟩ := hslots q (List.mem_cons_of_mem _ hq)
      exact ⟨hq₁.along ho hr₁₂ ho₂ hch.room, hq₂⟩
    · rw [h.type, lastUnion, lastUnion, List.map_cons, List.getLastD_cons]

/-- Put a value into a variable of a union type and pass it on to others, then use what the last one
holds. -/
def putThrough {α : Type} (name : String) (v : Value) (t : TypeId) (slot : Value) (u : TypeId)
    (rest : List (Value × TypeId)) (use : Value → TypeId → Gen α) : Gen α := do
  assign slot u t v
  let (slot', u') ← passOn name slot u rest
  let held ← heldValue name { ptr := slot', type := u' }
  use held u'

/-- A value that can be put through a row of unions: a value of all of them, for which they have
slots, apart from where the value is held, and between which nil finds room for a pointer. -/
structure Suits (w : Setting) (c : Context) (k : Spot) (address : Value → Nat)
    (slots : List (Value × TypeId)) (v : Value) (t : TypeId) (x : RtValue) : Prop where
  typed : c.Typed
  single : c.program.types.isUnion t = false
  isValue : IsValue c.program.types t x
  held : k.Is w c.program.types v t x
  slot : ∀ p ∈ slots, k.Slot w c.program.types p.1 p.2 (address p.1) ∧
    t ∈ c.program.types.members p.2
  passes : List.IsChain (Passes c.program.types t) (slots.map Prod.snd)
  apart : ∀ b, k.Slot w c.program.types v t b → ∀ p ∈ slots.head?,
    b + (c.program.types.irType t).size ≤ address p.1 ∨ address p.1 + 4 ≤ b

theorem grow_putThrough {α : Type} {use : Value → TypeId → Gen α}
    (h : ∀ held u', Grow (use held u')) : Grow (putThrough name v ty slot u rest use) :=
  grow_assign.bind fun _ => grow_passOn.bind fun _ => grow_heldValue.bind fun _ => h _ _

theorem performs_putThrough {α : Type} {use : Value → TypeId → Gen α} {post : Spot → α → Prop}
    (h : Suits w c k address ((slot, u) :: rest) v ty x) (hg : ∀ held u', Grow (use held u'))
    (huse : ∀ k₁ held, k₁.Stands w c.program.types held (lastUnion u rest) ty x →
      ty ∈ c.program.types.members (lastUnion u rest) →
      Spares c.program.types address ((slot, u) :: rest) k.run.memory k₁.run.memory →
      Performs w c k₁ (use held (lastUnion u rest)) post) :
    Performs w c k (putThrough name v ty slot u rest use) post := by
  obtain ⟨hslot, ht⟩ := h.slot _ List.mem_cons_self
  unfold putThrough
  refine .assume fun ho => ?_
  refine (performs_assignMember ht h.single h.isValue hslot h.held
    fun b hb => h.apart b hb _ rfl).bind
    (fun _ => grow_passOn.bind fun _ => grow_heldValue.bind fun _ => hg _ _)
    fun k₁ _ hr₁ ho₁ ⟨hcar₁, hch₁⟩ => ?_
  refine (performs_passOn h.typed h.single h.isValue h.passes
    (hslot.along ho hr₁ ho₁ hch₁.room) ht (fun q hq => ?_) hcar₁).bind
    (fun _ => grow_heldValue.bind fun _ => hg _ _) fun k₂ r hr₂ ho₂ ⟨hpassed, hspares⟩ => ?_
  · obtain ⟨hq₁, hq₂⟩ := h.slot q (List.mem_cons_of_mem _ hq)
    exact ⟨hq₁.along ho hr₁ ho₁ hch₁.room, hq₂⟩
  · obtain ⟨slot', u'⟩ := r
    have htype : u' = lastUnion u rest := hpassed.type
    subst htype
    refine (performs_heldValue rfl hpassed.slot hpassed.carries).bind (fun _ => hg _ _)
      fun k₃ held _ _ ⟨hheld, hm₃⟩ => huse k₃ held hheld hpassed.member ?_
    rw [hm₃]
    exact .cons hch₁ hspares

/-- A value that was put into a union is found again after any number of assignments between unions,
and no storage has changed but that of their variables. -/
theorem unions_keep_values (h : Suits w c k address ((slot, u) :: rest) v ty x) :
    Performs w c k (putThrough name v ty slot u rest fun held u' => convert held u' ty)
      fun k' r => k'.Is w c.program.types r ty x ∧
        Spares c.program.types address ((slot, u) :: rest) k.run.memory k'.run.memory := by
  refine performs_putThrough h (fun _ _ => grow_convert) fun k₁ held hheld ht hspares => ?_
  refine (performs_convertMember ht h.single h.isValue hheld).mono fun k' r _ _ ⟨hr, hm⟩ =>
    ⟨hr, ?_⟩
  rw [hm]
  exact hspares

/-- A value that was put into a union is tested for a type, also after any number of assignments
between unions. -/
theorem unions_tell_types {target : TypeId} (h : Suits w c k address ((slot, u) :: rest) v ty x) :
    Performs w c k (putThrough name v ty slot u rest fun held u' => isA held u' target)
      fun k' r => k'.Holds w r .i1
        (bit (c.program.types.toldIsA (lastUnion u rest) ty target)) := by
  refine performs_putThrough h (fun _ _ => grow_isA) fun k₁ held hheld ht _ => ?_
  exact (performs_isA h.typed ht hheld).mono fun _ _ _ _ hg => hg.holds

end

/-! ### An object in two unions -/

section

/-- Nil, an integer, a class, and unions of them without a tag and with one. -/
def unionTypes : TypeTable :=
  ⟨#[⟨.program, true⟩, ⟨.nil, true⟩, ⟨.int 32, true⟩, ⟨.heapClass "Foo" none [], true⟩,
    ⟨.union [⟨3⟩, ⟨1⟩], true⟩, ⟨.union [⟨2⟩, ⟨3⟩, ⟨1⟩], true⟩]⟩

def unionContext : Context where
  program := { types := unionTypes }
  debugInfo := false
  nil := ⟨1⟩
  main := ⟨⟨0⟩, ⟨0⟩, ⟨0⟩, none, none⟩
  constHead := ⟨0⟩
  symbols := []

/-- The beginning of a function that takes an object and the addresses of two unions. -/
def unionState : State where
  builder := {
    module := {
      name := "m"
      functions := #[{
        name := "f"
        params := [⟨"object", unionTypes.irType ⟨3⟩⟩, ⟨"x", .ptr (unionTypes.irType ⟨4⟩)⟩,
          ⟨"y", .ptr (unionTypes.irType ⟨5⟩)⟩]
        ret := .void
        linkage := .internal
        blocks := #[{ name := "entry" }] }] }
    position := some (⟨0⟩, ⟨0⟩) }
  act := {}
  fn := unionContext.main
  constTail := ⟨0⟩
  last := ⟨nilValue, none⟩

/-- The addresses of two unions and of an object. -/
def unionArguments : List RtValue :=
  [.ptr (Exec.baseAddress 2), .ptr (Exec.baseAddress 0), .ptr (Exec.baseAddress 1)]

def unionMemory : Memory := ⟨#[{ size := 8 }, { size := 12 }, { size := 1 }]⟩

/-- An object goes from a union without a tag to one with a tag and back. -/
def thereAndBack (use : Value → TypeId → Gen Value) : Gen Value :=
  putThrough "x" (.param 0) ⟨3⟩ (.param 1) ⟨4⟩ [(.param 2, ⟨5⟩), (.param 1, ⟨4⟩)] use

theorem unionContext_typed : unionContext.Typed :=
  Context.typed_of_lt (by decide) (by decide) (by decide) (by decide)

theorem union_suits (w : Setting) :
    Suits w unionContext (.start w unionState unionArguments unionMemory)
      (fun v => if v = .param 1 then Exec.baseAddress 0 else Exec.baseAddress 1)
      [(.param 1, ⟨4⟩), (.param 2, ⟨5⟩), (.param 1, ⟨4⟩)] (.param 0) ⟨3⟩
      (.ptr (Exec.baseAddress 2)) := by
  refine ⟨unionContext_typed, rfl, ⟨.ptr (by decide), fun h => ?_, by decide⟩,
    .scalar rfl ⟨trivial, rfl, rfl⟩, ?_, ?_, fun b hb => ?_⟩
  · cases h
  · have hx : (Spot.start w unionState unionArguments unionMemory).Slot w unionTypes (.param 1) ⟨4⟩
        (Exec.baseAddress 0) := by
      refine ⟨⟨trivial, rfl, rfl⟩, ?_⟩
      rw [show (unionTypes.irType ⟨4⟩).size = 8 by decide +kernel]
      exact ⟨by decide, by decide, { size := 8 }, rfl, rfl, by decide⟩
    have hy : (Spot.start w unionState unionArguments unionMemory).Slot w unionTypes (.param 2) ⟨5⟩
        (Exec.baseAddress 1) := by
      refine ⟨⟨trivial, rfl, rfl⟩, ?_⟩
      rw [show (unionTypes.irType ⟨5⟩).size = 12 by decide +kernel]
      exact ⟨by decide, by decide, { size := 12 }, rfl, rfl, by decide⟩
    intro p hp
    simp only [List.mem_cons, List.not_mem_nil, or_false] at hp
    obtain rfl | rfl | rfl := hp
    · exact ⟨hx, by decide⟩
    · exact ⟨hy, by decide⟩
    · exact ⟨hx, by decide⟩
  · have hpasses : ∀ u u', Passes unionTypes ⟨3⟩ u u' := fun u u' h => by cases h
    exact .cons_cons (hpasses _ _) (.cons_cons (hpasses _ _) (.singleton _))
  · -- the object is no box: its operand has the type of a value, not that of an address of one
    have htype : unionTypes.irType ⟨3⟩ = .ptr (unionTypes.irType ⟨3⟩) := hb.address.type
    exact absurd htype (by decide +kernel)

theorem object_kept : ∃ w k r,
    (Spot.start w unionState unionArguments unionMemory).Open w ∧
      Gives (thereAndBack fun held u => convert held u ⟨3⟩) unionContext unionState r k.gen ∧
      (Spot.start w unionState unionArguments unionMemory).Runs w k ∧
      k.Is w unionTypes r ⟨3⟩ (.ptr (Exec.baseAddress 2)) := by
  have hgives : ∃ r s', Gives (thereAndBack fun held u => convert held u ⟨3⟩) unionContext
      unionState r s' := exists_gives (by decide +kernel)
  have hin : unionState.Has ⟨0⟩ ⟨0⟩ := show 0 < 1 by decide
  obtain ⟨w, k, r, hg, ho, hr, h, -⟩ := exists_run (grow_putThrough fun _ _ => grow_convert) rfl hin
    rfl hgives fun w => unions_keep_values (union_suits w)
  exact ⟨w, k, r, ho, hg, hr, h⟩

end

end Gen

end Lowering
