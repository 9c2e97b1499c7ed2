import Lowering.Proofs.Layout
import Lowering.Proofs.Nesting

/-!
# Layouts that end

The layout of a type is put together from those of the types inside it.  Single pointers in records
and in unions are not looked into, so that records may refer to themselves and to each other; where
the rest ends, each type has one layout, and sizes found without looking into records are exact.

* `Form`: the type of a value, and the record behind it;
* `TypeTable.needs`, `TypeTable.layoutBy`: what a layout is put together from, and how;
* `TypeTable.LaidOut`, `TypeTable.layout_eq`, `TypeTable.layout_unique`;
* `TypeTable.leads`, `TypeTable.laidOut_of_ends`: tables in which all layouts end;
* `TypeTable.layouts_exact`.
-/

namespace Lowering

open IR (Ty)
open Relation (ReflTransGen TransGen)

/-- What is laid out: a value of a type, or the record behind it. -/
inductive Form
  | value (id : TypeId)
  | record (id : TypeId)
  deriving DecidableEq, Repr

/-- The type whose value or record it is. -/
def Form.type : Form → TypeId
  | .value id | .record id => id

/-- The fields of a class or a record; other types have none. -/
def TypeKind.recordFields : TypeKind → List Field
  | .heapClass _ _ fields | .record _ fields => fields
  | _ => []

namespace TypeTable

variable (ts : TypeTable)

/-- Some types without the single pointers. -/
def expanded (ids : List TypeId) : List TypeId := ids.filter fun t => !ts.isSinglePointer t

/-- The forms whose layouts a layout is put together from. -/
def needs : Form → List Form
  | .value a =>
    match ts.kind a with
    | .heapClass .. | .record .. => [.record a]
    | .pointer elem => [.value elem]
    | .union members =>
      match ts.nilableMember a with
      | some member => [.value member]
      | none => (ts.expanded members).map .value
    | _ => []
  | .record a =>
    match ts.kind a with
    | .heapClass _ _ fields | .record _ fields => (ts.expanded (fields.map Field.type)).map .value
    | .hierarchy base => [.record base]
    | _ => []

/-- The layout of a form, given the layouts that it is put together from. -/
def layoutBy (lay : Form → Ty) : Form → Ty
  | .value a =>
    match ts.kind a with
    | .program | .nil | .bool => .i1
    | .char => .i8
    | .int bits => .int bits
    | .float double => if double then .double else .float
    | .symbol | .metaclass _ => .i32
    | .string => .ptr stringRecord
    | .heapClass .. | .record .. => .ptr (lay (.record a))
    | .pointer elem => .ptr (lay (.value elem))
    | .union members =>
      match ts.nilableMember a with
      | some member => lay (.value member)
      | none => taggedType (ts.payloadBy (fun t => lay (.value t)) members)
    | .hierarchy _ => boxType
  | .record a =>
    match ts.kind a with
    | .heapClass _ _ fields | .record _ fields =>
      .struct (fields.map fun f => ts.fieldTypeBy (fun t => lay (.value t)) f.type)
    | .string => stringRecord
    | .hierarchy base => lay (.record base)
    | _ => .struct []

/-- The layout of a form, as it is computed. -/
def layout : Form → Ty
  | .value a => ts.irType a
  | .record a => ts.recordType a

/-- The layout of a form is finite: what it is put together from ends. -/
def LaidOut : Form → Prop := Acc fun q p => q ∈ ts.needs p

variable {ts} {a b : TypeId} {p q : Form} {lay lay' : Form → Ty}

theorem mem_expanded {ids : List TypeId} :
    a ∈ ts.expanded ids ↔ a ∈ ids ∧ ts.isSinglePointer a = false := by
  simp [expanded, List.mem_filter]

/-- What a finite layout is put together from is finite, at every depth. -/
theorem LaidOut.of_reached (h : ts.LaidOut p) (hq : ReflTransGen (fun p q => q ∈ ts.needs p) p q) :
    ts.LaidOut q := by
  induction hq with
  | refl => exact h
  | tail _ hq ih => exact ih.inv hq

/-! ### One layout for each form -/

/-- A layout is put together from those that it needs, and from no others. -/
theorem layoutBy_congr (h : ∀ q ∈ ts.needs p, lay q = lay' q) :
    ts.layoutBy lay p = ts.layoutBy lay' p := by
  have hfields : ∀ fields : List Field,
      (∀ q ∈ (ts.expanded (fields.map Field.type)).map Form.value, lay q = lay' q) →
      fields.map (fun f => ts.fieldTypeBy (fun t => lay (.value t)) f.type) =
        fields.map fun f => ts.fieldTypeBy (fun t => lay' (.value t)) f.type :=
    fun fields h => List.map_congr_left fun f hf => fieldTypeBy_congr fun hs =>
      h _ (List.mem_map_of_mem (mem_expanded.mpr ⟨List.mem_map_of_mem hf, hs⟩))
  unfold layoutBy
  unfold needs at h
  cases p with
  | value a =>
    cases hk : ts.kind a <;> simp only [hk] at h ⊢
    case heapClass | record | pointer => rw [h _ List.mem_cons_self]
    case union members =>
      cases hm : ts.nilableMember a with
      | some member =>
        rw [hm] at h
        exact h _ List.mem_cons_self
      | none =>
        rw [hm] at h
        exact congrArg taggedType (payloadBy_congr fun m hmem hs =>
          h _ (List.mem_map_of_mem (mem_expanded.mpr ⟨hmem, hs⟩)))
  | record a =>
    cases hk : ts.kind a <;> simp only [hk] at h ⊢
    case heapClass | record => rw [hfields _ h]
    case hierarchy base => exact h _ List.mem_cons_self

/-- Layouts that are put together alike are the same where they end. -/
theorem layout_unique (hlay : ∀ p, ts.LaidOut p → lay p = ts.layoutBy lay p)
    (hlay' : ∀ p, ts.LaidOut p → lay' p = ts.layoutBy lay' p) (h : ts.LaidOut p) :
    lay p = lay' p := by
  induction h with
  | intro p hacc ih =>
    rw [hlay p (Acc.intro p hacc), hlay' p (Acc.intro p hacc)]
    exact layoutBy_congr ih

/-! ### The layout that is computed -/

theorem transGen_of_inlays (h : ts.Inlays a b) :
    TransGen (fun p q => q ∈ ts.needs p) (.value a) (.value b) := by
  unfold Inlays at h
  cases hk : ts.kind a <;> simp only [hk] at h
  case heapClass | record =>
    obtain ⟨f, hf, rfl, hs⟩ := h
    -- the value of a class needs the record behind it, and that needs the fields
    have hrecord : Form.record a ∈ ts.needs (.value a) := by simp [needs, hk]
    refine .head hrecord (.single ?_)
    simp only [needs, hk]
    exact List.mem_map_of_mem
      (mem_expanded.mpr ⟨List.mem_map_of_mem hf, Bool.eq_false_iff.mpr hs⟩)
  case pointer =>
    subst h
    exact .single (by simp [needs, hk])
  case union =>
    refine .single ?_
    simp only [needs, hk]
    cases hm : ts.nilableMember a with
    | some member =>
      rw [hm] at h
      exact List.mem_singleton.mpr (congrArg Form.value h.symm)
    | none =>
      rw [hm] at h
      exact List.mem_map_of_mem (mem_expanded.mpr ⟨h.1, Bool.eq_false_iff.mpr h.2⟩)

theorem index_lt_of_inlays (h : ts.Inlays a b) : a.index < ts.size :=
  of_decide_eq_true (contains_of_mem_referenced h.mem_referenced)

theorem LaidOut.acc_inlays (h : ts.LaidOut (.value a)) : Acc (fun b a => ts.Inlays a b) a :=
  Subrelation.accessible (fun hb => Relation.transGen_swap.mpr (transGen_of_inlays hb))
    (InvImage.accessible Form.value h.transGen)

/-- The bound on references is not reached by a finite layout. -/
theorem LaidOut.irTypeWithin_eq (h : ts.LaidOut (.value a)) (hb : ts.Inlays a b) :
    ts.irTypeWithin ts.size b = ts.irType b :=
  within_size_eq (fun _ _ => index_lt_of_inlays) irTypeWithin_step h.acc_inlays hb

theorem LaidOut.acc_base (h : ts.LaidOut (.record a)) :
    Acc (fun b a => ts.kind a = .hierarchy b) a :=
  Subrelation.accessible (fun hb => by simp [needs, hb, InvImage])
    (InvImage.accessible Form.record h)

/-- The record of a hierarchy is that of its base. -/
theorem LaidOut.recordType_eq (h : ts.LaidOut (.record a)) (hk : ts.kind a = .hierarchy b) :
    ts.recordType a = ts.recordType b := by
  have hstep : ts.recordTypeWithin (ts.size + 1) a = ts.recordTypeWithin ts.size b := by
    rw [recordTypeWithin, hk]
  rw [recordType, hstep]
  exact within_size_eq (r := fun a b => ts.kind a = .hierarchy b)
    (fun _ _ hk => index_lt_of_kind (by simp [hk])) recordTypeWithin_of_base h.acc_base hk

theorem inlays_of_field {f : Field} (hf : f ∈ (ts.kind a).recordFields)
    (hs : ts.isSinglePointer f.type = false) : ts.Inlays a f.type := by
  unfold Inlays
  cases hk : ts.kind a <;> simp only [hk, TypeKind.recordFields, List.not_mem_nil] at hf ⊢ <;>
    exact ⟨f, hf, rfl, Bool.eq_false_iff.mp hs⟩

/-- A finite layout is put together from those that it needs. -/
theorem layout_eq (h : ts.LaidOut p) : ts.layout p = ts.layoutBy ts.layout p := by
  cases p with
  | value a =>
    -- one step of the recursion uses up one reference of the bound, which those inside do not miss
    have hsettled : ∀ b, ts.Inlays a b → ts.irTypeWithin ts.size b = ts.irType b :=
      fun b hb => h.irTypeWithin_eq hb
    have hfields : (ts.kind a).recordFields.map
          (fun f => ts.fieldTypeBy (ts.irTypeWithin ts.size) f.type) =
        (ts.kind a).recordFields.map fun f => ts.fieldType f.type :=
      List.map_congr_left fun f hf => fieldTypeBy_congr fun hs =>
        hsettled _ (inlays_of_field hf hs)
    rw [layout, irType, irTypeWithin, layoutBy]
    cases hk : ts.kind a <;> dsimp only
    case heapClass | record =>
      rw [hk, TypeKind.recordFields] at hfields
      rw [layout, recordType, recordTypeWithin, hk, hfields]
    case pointer elem => rw [hsettled elem (by simp [Inlays, hk]), layout]
    case union members =>
      cases hm : ts.nilableMember a with
      | some member => exact hsettled member (by simp [Inlays, hk, hm])
      | none => exact congrArg taggedType (payloadBy_congr fun m hmem hs =>
          hsettled m (by simp [Inlays, hk, hm, hmem, hs]))
  | record a =>
    rw [layoutBy]
    cases hk : ts.kind a with
    | hierarchy base => exact h.recordType_eq hk
    | _ => simp only [layout, recordType, recordTypeWithin, hk, fieldType]

/-! ### Sizes found without looking into records -/

theorem irType_of_isSinglePointer (h : ts.isSinglePointer a = true) :
    ∃ s, ts.irType a = .ptr s := by
  rcases Bool.or_eq_true_iff.mp h with hp | hn
  · exact irType_of_isPointerLike hp
  · obtain ⟨m, hm⟩ := Option.isSome_iff_exists.mp hn
    refine irType_of_nilable (m := m) ?_
    have hu := isUnion_of_mem_members (mem_members_of_nilableMember hm)
    unfold shape
    unfold isUnion at hu
    cases hk : ts.kind a <;> simp_all

theorem storageSize_eq (a : TypeId) : ts.storageSize a = (ts.irType a).size := by
  unfold storageSize
  cases hs : ts.isSinglePointer a with
  | true =>
    obtain ⟨s, h⟩ := irType_of_isSinglePointer hs
    rw [h, size_ptr]
    rfl
  | false => rfl

theorem fieldType_exact (a : TypeId) : (ts.fieldType a).size = (ts.irType a).size ∧
    (ts.fieldType a).align = (ts.irType a).align := by
  unfold fieldType fieldTypeBy
  cases hs : ts.isSinglePointer a with
  | true =>
    obtain ⟨s, h⟩ := irType_of_isSinglePointer hs
    rw [h, if_pos rfl, Ty.bytePtr, size_ptr, size_ptr, align_ptr, align_ptr]
    exact ⟨rfl, rfl⟩
  | false => exact ⟨rfl, rfl⟩

/-- A member of a union fits in what the union reserves for its members. -/
theorem size_le_payloadSize (h : b ∈ ts.members a) : (ts.irType b).size ≤ ts.payloadSize a := by
  rw [← storageSize_eq]
  exact le_foldl_max (.inr (List.mem_map_of_mem (f := ts.storageSize) h))

theorem irType_of_union (h : ts.LaidOut (.value a)) (hu : ts.isUnion a = true)
    (hn : ts.isNilable a = false) : ts.irType a = taggedType (ts.payloadSize a) := by
  have hnone : ts.nilableMember a = none :=
    Option.isNone_iff_eq_none.mp (Option.isSome_eq_false_iff.mp hn)
  have hlayout : ts.irType a = ts.layoutBy ts.layout (.value a) := layout_eq h
  unfold isUnion at hu
  rw [hlayout, layoutBy, payloadSize, members]
  cases hk : ts.kind a <;> simp_all [layout]

/-! ### Tables in which layouts end -/

variable (ts) in
/-- The types that the description of a type refers to, record fields that hold a single pointer
apart. -/
def leads (a : TypeId) : List TypeId :=
  match ts.kind a with
  | .heapClass _ parent fields => ts.expanded (fields.map Field.type) ++ parent.toList
  | .record _ fields => ts.expanded (fields.map Field.type)
  | kind => kind.referenced

/-- A reference leads on, or it is a record field that holds a single pointer. -/
theorem mem_referenced_iff : b ∈ ts.referenced a ↔
    b ∈ ts.leads a ∨ ts.isSinglePointer b = true ∧ ∃ f ∈ (ts.kind a).recordFields, f.type = b := by
  unfold referenced leads
  cases hk : ts.kind a <;> cases hs : ts.isSinglePointer b <;>
    simp [TypeKind.referenced, TypeKind.recordFields, mem_expanded, hs, or_comm]

theorem leads_of_needs (h : q ∈ ts.needs p) : q.type ∈ ts.leads p.type ∨
    ∃ a, p = .value a ∧ q = .record a := by
  unfold needs at h
  unfold leads
  cases p with
  | value a =>
    cases hk : ts.kind a <;>
      simp only [hk, List.not_mem_nil, List.mem_singleton, Form.type] at h ⊢
    case heapClass | record => exact .inr ⟨a, rfl, h⟩
    case pointer elem =>
      subst h
      exact .inl (List.mem_singleton_self elem)
    case union members =>
      refine .inl ?_
      cases hm : ts.nilableMember a with
      | some member =>
        have hmem := mem_members_of_nilableMember hm
        rw [TypeTable.members, hk] at hmem
        rw [hm, List.mem_singleton] at h
        exact h ▸ hmem
      | none =>
        rw [hm] at h
        obtain ⟨m, hmem, rfl⟩ := List.mem_map.mp h
        exact (mem_expanded.mp hmem).1
  | record a =>
    refine .inl ?_
    cases hk : ts.kind a <;>
      simp only [hk, List.not_mem_nil, List.mem_singleton, Form.type] at h ⊢
    case heapClass =>
      obtain ⟨m, hm, rfl⟩ := List.mem_map.mp h
      exact List.mem_append_left _ hm
    case record =>
      obtain ⟨m, hm, rfl⟩ := List.mem_map.mp h
      exact hm
    case hierarchy base =>
      subst h
      exact List.mem_singleton_self base

theorem contains_of_mem_leads (h : b ∈ ts.leads a) : ts.contains a = true :=
  contains_of_mem_referenced (mem_referenced_iff.mpr (.inl h))

/-- When every cycle of references goes through a record field that holds a single pointer, all
layouts are finite. -/
theorem laidOut_of_ends (h : ∀ a, ¬ TransGen (fun a b => b ∈ ts.leads a) a a) (p : Form) :
    ts.LaidOut p := by
  let rank (a : TypeId) : Nat := (ts.inner (fun a b => b ∈ ts.leads a) a).ncard
  have hrank : ∀ {a b}, b ∈ ts.leads a → rank b < rank a := fun {a b} hb =>
    ncard_inner_lt (of_decide_eq_true (contains_of_mem_leads hb)) hb (h a)
  -- a value comes after its own record, and both come after what leads on
  let measure : Form → Nat
    | .value a => 2 * rank a + 1
    | .record a => 2 * rank a
  have hlt : ∀ {p q}, q ∈ ts.needs p → measure q < measure p := fun {p q} hq => by
    rcases leads_of_needs hq with hlead | ⟨a, rfl, rfl⟩
    · have := hrank hlead
      cases p <;> cases q <;> simp only [measure, Form.type] at this ⊢ <;> omega
    · exact Nat.lt_succ_self _
  exact Subrelation.accessible hlt (InvImage.accessible measure (Nat.lt_wfRel.wf.apply _))

/-- The layout of a type is the only one that is put together from those of the types inside it, and
it takes nothing else, wherever that ends.  Then the size found without looking into records is that
of the layout, a field takes as many bytes at the same alignment as a value of its type, and members
fit in the payload of each tagged union inside, at every depth.  All layouts end in a table in which
every cycle of references goes through a record field that holds a single pointer. -/
theorem layouts_exact (ts : TypeTable) :
    (∀ p, ts.LaidOut p → ts.layout p = ts.layoutBy ts.layout p ∧
      (∀ lay, (∀ q ∈ ts.needs p, lay q = ts.layout q) → ts.layoutBy lay p = ts.layout p) ∧
      ∀ lay, (∀ q, ts.LaidOut q → lay q = ts.layoutBy lay q) → lay p = ts.layout p) ∧
    (∀ a, ts.LaidOut (.value a) → ts.storageSize a = (ts.irType a).size ∧
      (ts.fieldType a).size = (ts.irType a).size ∧
      (ts.fieldType a).align = (ts.irType a).align) ∧
    (∀ p u, ts.LaidOut p → ReflTransGen (fun p q => q ∈ ts.needs p) p (.value u) →
      ts.isUnion u = true → ts.isNilable u = false →
        ts.irType u = taggedType (ts.payloadSize u) ∧
        ∀ m ∈ ts.members u, (ts.irType m).size ≤ ts.payloadSize u) ∧
    ((∀ a, ¬ TransGen (fun a b => b ∈ ts.leads a) a a) → ∀ p, ts.LaidOut p) := by
  refine ⟨fun p h => ⟨layout_eq h, fun lay hlay => ?_, fun lay hlay => ?_⟩,
    fun a _ => ⟨storageSize_eq a, fieldType_exact a⟩, fun p u h hu hunion hn => ?_, laidOut_of_ends⟩
  · exact (layoutBy_congr hlay).trans (layout_eq h).symm
  · exact layout_unique hlay (fun q hq => layout_eq hq) h
  · exact ⟨irType_of_union (h.of_reached hu) hunion hn, fun m hm => size_le_payloadSize hm⟩

/-- Nodes that hold a number, a truth value or nothing, and the node after them if there is one. -/
def linked : TypeTable := ⟨#[⟨.program, true⟩, ⟨.nil, true⟩, ⟨.bool, true⟩, ⟨.int 32, true⟩,
  ⟨.float true, true⟩, ⟨.union [⟨2⟩, ⟨4⟩], true⟩, ⟨.union [⟨5⟩, ⟨1⟩], true⟩,
  ⟨.heapClass "Node" none [⟨"value", ⟨6⟩⟩, ⟨"next", ⟨8⟩⟩], true⟩, ⟨.union [⟨7⟩, ⟨1⟩], true⟩,
  ⟨.hierarchy ⟨7⟩, true⟩]⟩

theorem linked_exact :
    (∀ a, ¬ TransGen (fun a b => b ∈ linked.leads a) a a) ∧ linked.LaidOut (.value ⟨8⟩) ∧
      (⟨7⟩ : TypeId) ∈ linked.referenced ⟨8⟩ ∧ (⟨8⟩ : TypeId) ∈ linked.referenced ⟨7⟩ ∧
      linked.storageSize ⟨8⟩ = (linked.irType ⟨8⟩).size ∧
      linked.layout (.record ⟨9⟩) = .struct [taggedType 12, .bytePtr] ∧
      linked.irType ⟨6⟩ = taggedType (linked.payloadSize ⟨6⟩) ∧
      (linked.irType ⟨5⟩).size ≤ linked.payloadSize ⟨6⟩ := by
  obtain ⟨-, hsizes, hroom, hends⟩ := layouts_exact linked
  have hleads : ∀ a ∈ linked.ids, ∀ b ∈ linked.leads a, b.index < a.index := by decide
  have hacyclic := ends_of_lt (r := fun a b => b ∈ linked.leads a) fun a b hb =>
    hleads a (mem_ids.mpr (contains_of_mem_leads hb)) b hb
  obtain ⟨htagged, hfits⟩ := hroom (.record ⟨7⟩) ⟨6⟩ (hends hacyclic _) (.single (by decide))
    (by decide) (by decide)
  exact ⟨hacyclic, hends hacyclic _, by decide, by decide, (hsizes _ (hends hacyclic _)).1,
    by decide, htagged, hfits _ (by decide)⟩

end TypeTable

end Lowering
