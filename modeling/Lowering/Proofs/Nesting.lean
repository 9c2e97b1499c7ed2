import Lowering.Gen.Layout
import Mathlib.Data.Set.Card
import Mathlib.Logic.Relation

/-!
# Types inside types

A question about a type leads to questions about the types inside it.  When no type is inside
itself, the questions end after at most as many steps as there are types, and the bounds that the
definitions have do not decide anything.

* `TypeTable.Inlays`: types that the layout of a type is made of, and `TypeTable.LayoutsEnd`;
* `TypeTable.Refers`: types that the description of a type leads to, and `TypeTable.ReferencesEnd`;
* `TypeTable.Opens`: what a union or a hierarchy is made of;
* `TypeTable.Closed`: a table that has the types inside its types;
* `TypeTable.inner`: the types that a relation leads to, fewer with each step;
* `TypeKind.spell`, `TypeTable.nameWithin_succ`: a name, from the names inside it;
* `TypeTable.layouts_settled`, `TypeTable.references_settled`.
-/

namespace Lowering

open IR (Ty)

/-- The name of a type of a kind, given the names of the types inside it. -/
def TypeKind.spell (name : TypeId → String) : TypeKind → String
  | .program => "<Program>"
  | .nil => "Nil"
  | .bool => "Bool"
  | .char => "Char"
  | .int bits => "Int" ++ toString bits
  | .float double => if double then "Float64" else "Float32"
  | .symbol => "Symbol"
  | .string => "String"
  | .heapClass given _ _ | .record given _ => given
  | .pointer elem => "Pointer(" ++ name elem ++ ")"
  | .union members => "(" ++ " | ".intercalate (members.map name) ++ ")"
  | .hierarchy base => name base ++ "+"
  | .metaclass instanceType => name instanceType ++ ":Class"

namespace TypeTable

variable (ts : TypeTable)

/-- The layout of one type is made of that of another. -/
def Inlays (a b : TypeId) : Prop :=
  match ts.kind a with
  | .heapClass _ _ fields | .record _ fields => ∃ f ∈ fields, f.type = b ∧ ¬ ts.isSinglePointer b
  | .pointer elem => elem = b
  | .union members =>
    match ts.nilableMember a with
    | some member => member = b
    | none => b ∈ members ∧ ¬ ts.isSinglePointer b
  | _ => False

/-- The description of one type leads to that of another, apart from fields and parents. -/
def Refers (a b : TypeId) : Prop :=
  match ts.kind a with
  | .pointer elem => elem = b
  | .union members => b ∈ members
  | .hierarchy base => base = b
  | .metaclass made => made = b
  | _ => False

/-- A union opens into its members, and a hierarchy into its base. -/
def Opens (a b : TypeId) : Prop :=
  match ts.kind a with
  | .union members => b ∈ members
  | .hierarchy base => base = b
  | _ => False

/-- No layout is made of itself: all layouts are finite. -/
def LayoutsEnd : Prop := ∀ a, ¬ Relation.TransGen ts.Inlays a a

/-- No description leads to itself. -/
def ReferencesEnd : Prop := ∀ a, ¬ Relation.TransGen ts.Refers a a

/-- The table has the types inside its types. -/
def Closed : Prop := ∀ a, ∀ b ∈ ts.referenced a, ts.contains b = true

variable {ts} {a b : TypeId}

theorem mem_ids {t : TypeId} : t ∈ ts.ids ↔ ts.contains t = true := by
  simp only [ids, List.mem_map, List.mem_range, contains, decide_eq_true_eq]
  exact ⟨fun ⟨i, hi, h⟩ => h ▸ hi, fun h => ⟨t.index, h, rfl⟩⟩

theorem mem_members_of_nilableMember (h : ts.nilableMember a = some b) : b ∈ ts.members a := by
  unfold nilableMember at h
  split at h
  · rename_i x y hm
    have h := (Option.filter_eq_some_iff.mp h).1
    rw [hm]
    grind
  · cases h

theorem Inlays.mem_referenced (h : ts.Inlays a b) : b ∈ ts.referenced a := by
  unfold Inlays at h
  unfold referenced TypeKind.referenced
  cases hk : ts.kind a with
  | heapClass _ _ fields | record _ fields =>
    rw [hk] at h
    obtain ⟨f, hf, rfl, -⟩ := h
    simp [List.mem_map_of_mem hf]
  | pointer elem =>
    rw [hk] at h
    exact List.mem_singleton.mpr h.symm
  | union members =>
    simp only [hk] at h
    split at h
    · rename_i member hm
      have hmem := mem_members_of_nilableMember hm
      rw [TypeTable.members, hk] at hmem
      exact h ▸ hmem
    · exact h.1
  | _ => simp [hk] at h

theorem Refers.mem_referenced (h : ts.Refers a b) : b ∈ ts.referenced a := by
  unfold Refers at h
  unfold referenced TypeKind.referenced
  cases hk : ts.kind a with
  | pointer k | hierarchy k | metaclass k =>
    rw [hk] at h
    exact List.mem_singleton.mpr h.symm
  | union members =>
    rw [hk] at h
    exact h
  | _ => simp [hk] at h

theorem Opens.refers (h : ts.Opens a b) : ts.Refers a b := by
  unfold Opens at h
  unfold Refers
  cases hk : ts.kind a <;> simp_all

theorem contains_of_mem_referenced (h : b ∈ ts.referenced a) : ts.contains a = true := by
  by_contra hlt
  have hsize : ts.infos.size ≤ a.index := not_lt.mp fun h => hlt (decide_eq_true h)
  simp [referenced, kind, info, Array.getElem?_eq_none hsize, TypeKind.referenced] at h

/-- Each type has only earlier types inside. -/
def Ordered (ts : TypeTable) : Prop := ∀ a ∈ ts.ids, ∀ b ∈ ts.referenced a, b.index < a.index

instance (ts : TypeTable) : Decidable ts.Ordered := by unfold Ordered; infer_instance

theorem Ordered.closed (h : ts.Ordered) : ts.Closed := fun a b hb => by
  have ha := contains_of_mem_referenced hb
  exact decide_eq_true ((h a (mem_ids.mpr ha) b hb).trans (of_decide_eq_true ha))

/-- What only leads to earlier types leads from none to itself. -/
theorem ends_of_lt {r : TypeId → TypeId → Prop} (hr : ∀ a b, r a b → b.index < a.index)
    (a : TypeId) : ¬ Relation.TransGen r a a := by
  have hall : ∀ {a b}, Relation.TransGen r a b → b.index < a.index := fun ht => by
    induction ht with
    | single h => exact hr _ _ h
    | tail _ h ih => exact (hr _ _ h).trans ih
  exact fun ha => lt_irrefl _ (hall ha)

theorem Ordered.layoutsEnd (h : ts.Ordered) : ts.LayoutsEnd :=
  ends_of_lt fun _ _ hb =>
    h _ (mem_ids.mpr (contains_of_mem_referenced hb.mem_referenced)) _ hb.mem_referenced

/-! ### Ranks -/

/-- A relation between the types of a table that leads from no type to itself goes down a rank that
is below the size of the table. -/
theorem exists_rank {r : TypeId → TypeId → Prop} (hc : ts.Closed)
    (hr : ∀ a b, r a b → b ∈ ts.referenced a) (hend : ∀ a, ¬ Relation.TransGen r a a) :
    ∃ rank : TypeId → Nat, (∀ a b, r a b → rank b < rank a) ∧ ∀ a, rank a ≤ ts.size - 1 := by
  refine ⟨fun a => {i : Fin ts.size | Relation.TransGen r a ⟨i⟩}.ncard, fun a b h => ?_,
    fun a => ?_⟩
  · have hlt : b.index < ts.size := of_decide_eq_true (hc a b (hr a b h))
    refine Set.ncard_lt_ncard (Set.ssubset_iff_exists.mpr ⟨fun i hi => .head h hi, ?_⟩)
      (Set.toFinite _)
    exact ⟨⟨b.index, hlt⟩, .single h, hend b⟩
  · -- a type is not among those that it leads to
    by_cases hempty : ∀ b, ¬ r a b
    · have hnone : {i : Fin ts.size | Relation.TransGen r a ⟨i⟩} = ∅ :=
        Set.eq_empty_of_forall_notMem fun i hi =>
          let ⟨b, hb, _⟩ := Relation.TransGen.head'_iff.mp hi
          hempty b hb
      exact (congrArg Set.ncard hnone).trans_le (Set.ncard_empty _ ▸ Nat.zero_le _)
    · obtain ⟨b, hb⟩ := not_forall_not.mp hempty
      have hlt : a.index < ts.size := of_decide_eq_true (contains_of_mem_referenced (hr a b hb))
      have hsub : {i : Fin ts.size | Relation.TransGen r a ⟨i⟩} ⊂ Set.univ :=
        Set.ssubset_univ_iff.mpr fun h =>
          hend a (Set.eq_univ_iff_forall.mp h ⟨a.index, hlt⟩)
      have hcard := Set.ncard_lt_ncard hsub (Set.toFinite _)
      rw [Set.ncard_univ, Nat.card_eq_fintype_card, Fintype.card_fin] at hcard
      exact Nat.le_sub_one_of_lt hcard

/-- Answers about a type do not depend on a bound above its rank, when they only depend on the
answers about the types that it leads to. -/
theorem within_eq {α : Type} {r : TypeId → TypeId → Prop} {rank : TypeId → Nat}
    (hr : ∀ a b, r a b → rank b < rank a) {answer : Nat → TypeId → α}
    (hstep : ∀ n m a, (∀ b, r a b → answer n b = answer m b) → answer (n + 1) a = answer (m + 1) a)
    {n m : Nat} (hn : rank a < n) (hm : rank a < m) : answer n a = answer m a := by
  induction n generalizing m a with
  | zero => exact absurd hn (Nat.not_lt_zero _)
  | succ n ih =>
    obtain ⟨m, rfl⟩ := Nat.exists_eq_add_of_lt hm
    exact hstep n (rank a + m) a fun b h => ih ((hr a b h).trans_le (Nat.le_of_lt_succ hn))
      ((hr a b h).trans_le (Nat.le_add_right _ _))

/-- The types that a relation leads to from a type and on from which it leads. -/
def inner (ts : TypeTable) (r : TypeId → TypeId → Prop) (a : TypeId) : Set (Fin ts.size) :=
  {i | Relation.ReflTransGen r a ⟨i⟩ ∧ ∃ c, r ⟨i⟩ c}

theorem ncard_inner_le (r : TypeId → TypeId → Prop) (a : TypeId) :
    (ts.inner r a).ncard ≤ ts.size := by
  have hcard := Set.ncard_le_ncard (Set.subset_univ (ts.inner r a)) (Set.toFinite _)
  rwa [Set.ncard_univ, Nat.card_eq_fintype_card, Fintype.card_fin] at hcard

/-- A type that leads on and not to itself leads to fewer types than there are with itself. -/
theorem ncard_inner_lt {r : TypeId → TypeId → Prop} (hin : a.index < ts.size) (h : r a b)
    (hend : ¬ Relation.TransGen r a a) : (ts.inner r b).ncard < (ts.inner r a).ncard :=
  Set.ncard_lt_ncard (Set.ssubset_iff_exists.mpr ⟨fun _ hi => ⟨.head h hi.1, hi.2⟩, ⟨a.index, hin⟩,
    ⟨.refl, b, h⟩, fun hi => hend (.head' h hi.1)⟩) (Set.toFinite _)

/-- A relation that ends below a type does not lead from it to itself. -/
theorem not_transGen_of_acc {r : TypeId → TypeId → Prop} (h : Acc (fun b a => r a b) a) :
    ¬ Relation.TransGen r a a := by
  have hacc := h.transGen
  clear h
  induction hacc with
  | intro a _ ih => exact fun ha => ih a (Relation.transGen_swap.mpr ha) ha

/-- Where a relation ends, answers that only depend on those about the types it leads to do not
depend on a bound above the number of types that lead on. -/
theorem within_eq_of_acc {α : Type} {r : TypeId → TypeId → Prop}
    (hin : ∀ a b, r a b → a.index < ts.size) {answer : Nat → TypeId → α}
    (hstep : ∀ n m a, (∀ b, r a b → answer n b = answer m b) → answer (n + 1) a = answer (m + 1) a)
    (h : Acc (fun b a => r a b) a) {n m : Nat} (hn : (ts.inner r a).ncard < n)
    (hm : (ts.inner r a).ncard < m) : answer n a = answer m a := by
  induction h generalizing n m with
  | intro a hacc ih =>
    obtain ⟨n, rfl⟩ := Nat.exists_eq_add_of_lt hn
    obtain ⟨m, rfl⟩ := Nat.exists_eq_add_of_lt hm
    refine hstep _ _ a fun b hb => ?_
    have hlt := ncard_inner_lt (hin a b hb) hb (not_transGen_of_acc (Acc.intro a hacc))
    exact ih b hb (by omega) (by omega)

/-- After one step that a relation leads on, the size of the table bounds the rest. -/
theorem within_size_eq {α : Type} {r : TypeId → TypeId → Prop}
    (hin : ∀ a b, r a b → a.index < ts.size) {answer : Nat → TypeId → α}
    (hstep : ∀ n m a, (∀ b, r a b → answer n b = answer m b) → answer (n + 1) a = answer (m + 1) a)
    (h : Acc (fun b a => r a b) a) (hab : r a b) :
    answer ts.size b = answer (ts.size + 1) b :=
  within_eq_of_acc hin hstep (h.inv hab)
    ((ncard_inner_lt (hin a b hab) hab (not_transGen_of_acc h)).trans_le (ncard_inner_le r a))
    (Nat.lt_succ_of_le (ncard_inner_le r b))

/-! ### Answers about a type -/

theorem fieldTypeBy_congr {f g : TypeId → Ty} (h : ts.isSinglePointer a = false → f a = g a) :
    ts.fieldTypeBy f a = ts.fieldTypeBy g a := by
  unfold fieldTypeBy
  cases hs : ts.isSinglePointer a with
  | true => rfl
  | false => exact h hs

theorem payloadBy_congr {f g : TypeId → Ty} {members : List TypeId}
    (h : ∀ m ∈ members, ts.isSinglePointer m = false → f m = g m) :
    ts.payloadBy f members = ts.payloadBy g members := by
  unfold payloadBy
  refine congrArg (List.foldl max 1) (List.map_congr_left fun m hm => ?_)
  cases hs : ts.isSinglePointer m with
  | true => rfl
  | false => rw [h m hm hs]

theorem irTypeWithin_step (n m : Nat) (a : TypeId)
    (h : ∀ b, ts.Inlays a b → ts.irTypeWithin n b = ts.irTypeWithin m b) :
    ts.irTypeWithin (n + 1) a = ts.irTypeWithin (m + 1) a := by
  unfold irTypeWithin
  unfold Inlays at h
  cases hk : ts.kind a with
  | heapClass _ _ fields | record _ fields =>
    rw [hk] at h
    exact congrArg (fun l => Ty.ptr (.struct l)) (List.map_congr_left fun f hf =>
      fieldTypeBy_congr fun hs => h _ ⟨f, hf, rfl, Bool.eq_false_iff.mp hs⟩)
  | pointer elem =>
    rw [hk] at h
    exact congrArg Ty.ptr (h elem rfl)
  | union members =>
    simp only [hk] at h
    cases hm : ts.nilableMember a with
    | some member =>
      rw [hm] at h
      exact h member rfl
    | none =>
      rw [hm] at h
      exact congrArg taggedType (payloadBy_congr fun k hk hs => h k ⟨hk, Bool.eq_false_iff.mp hs⟩)
  | _ => rfl

theorem nameWithin_succ (n : Nat) (a : TypeId) :
    ts.nameWithin (n + 1) a = (ts.kind a).spell (ts.nameWithin n) := by
  rw [nameWithin]
  cases ts.kind a <;> rfl

theorem spell_congr {f g : TypeId → String} (h : ∀ b, ts.Refers a b → f b = g b) :
    (ts.kind a).spell f = (ts.kind a).spell g := by
  unfold Refers at h
  cases hk : ts.kind a with
  | pointer b | hierarchy b | metaclass b =>
    rw [hk] at h
    simp only [TypeKind.spell, h b rfl]
  | union members =>
    rw [hk] at h
    simp only [TypeKind.spell, List.map_congr_left h]
  | _ => rfl

theorem nameWithin_step (n m : Nat) (a : TypeId)
    (h : ∀ b, ts.Refers a b → ts.nameWithin n b = ts.nameWithin m b) :
    ts.nameWithin (n + 1) a = ts.nameWithin (m + 1) a := by
  rw [nameWithin_succ, nameWithin_succ]
  exact spell_congr h

/-- The record behind a type is its own or that of the base of a hierarchy. -/
theorem recordTypeWithin_of_base (n m : Nat) (a : TypeId)
    (h : ∀ b, ts.kind a = .hierarchy b → ts.recordTypeWithin n b = ts.recordTypeWithin m b) :
    ts.recordTypeWithin (n + 1) a = ts.recordTypeWithin (m + 1) a := by
  unfold recordTypeWithin
  cases hk : ts.kind a with
  | hierarchy b => exact h b hk
  | _ => rfl

theorem recordTypeWithin_step (n m : Nat) (a : TypeId)
    (h : ∀ b, ts.Refers a b → ts.recordTypeWithin n b = ts.recordTypeWithin m b) :
    ts.recordTypeWithin (n + 1) a = ts.recordTypeWithin (m + 1) a :=
  recordTypeWithin_of_base n m a fun b hk => h b (by simp [Refers, hk])

theorem fieldIndexWithin_step (name : String) (n m : Nat) (a : TypeId)
    (h : ∀ b, ts.Refers a b → ts.fieldIndexWithin name n b = ts.fieldIndexWithin name m b) :
    ts.fieldIndexWithin name (n + 1) a = ts.fieldIndexWithin name (m + 1) a := by
  unfold fieldIndexWithin
  unfold Refers at h
  cases hk : ts.kind a with
  | hierarchy b =>
    rw [hk] at h
    exact h b rfl
  | _ => rfl

theorem runtimeIdsWithin_step (n m : Nat) (a : TypeId)
    (h : ∀ b, ts.Opens a b → ts.runtimeIdsWithin n b = ts.runtimeIdsWithin m b) :
    ts.runtimeIdsWithin (n + 1) a = ts.runtimeIdsWithin (m + 1) a := by
  unfold runtimeIdsWithin
  unfold Opens at h
  cases hk : ts.kind a with
  | union members =>
    rw [hk] at h
    exact congrArg List.flatten (List.map_congr_left h)
  | _ => rfl

/-- Whether one type includes another is asked of types inside the one or the other. -/
theorem implementsWithin_eq {rank : TypeId → Nat} (hr : ∀ a b, ts.Opens a b → rank b < rank a)
    {n m : Nat} (hn : rank a + rank b < n) (hm : rank a + rank b < m) :
    ts.implementsWithin n a b = ts.implementsWithin m a b := by
  induction n generalizing m a b with
  | zero => exact absurd hn (Nat.not_lt_zero _)
  | succ n ih =>
    obtain ⟨m, rfl⟩ := Nat.exists_eq_add_of_lt hm
    have inLeft : ∀ k, ts.Opens a k → ts.implementsWithin n k b =
        ts.implementsWithin (rank a + rank b + m) k b := fun k h => by
      have := hr a k h
      exact ih (by omega) (by omega)
    have inRight : ∀ k, ts.Opens b k → ts.implementsWithin n a k =
        ts.implementsWithin (rank a + rank b + m) a k := fun k h => by
      have := hr b k h
      exact ih (by omega) (by omega)
    have hkind : ts.includedByKind (ts.implementsWithin n) a b =
        ts.includedByKind (ts.implementsWithin (rank a + rank b + m)) a b := by
      unfold includedByKind
      unfold Opens at inLeft
      cases hk : ts.kind a with
      | hierarchy base =>
        rw [hk] at inLeft
        exact inLeft base rfl
      | union members =>
        rw [hk] at inLeft
        have hall := congrArg (List.all · id) (List.map_congr_left inLeft)
        simp only [List.all_map, Function.id_comp] at hall
        exact congrArg (!members.isEmpty && ·) hall
      | _ => rfl
    unfold implementsWithin
    rw [hkind]
    unfold Opens at inRight
    split
    · rfl
    · cases hk : ts.kind b with
      | hierarchy base =>
        rw [hk] at inRight
        exact inRight base rfl
      | union members =>
        rw [hk] at inRight
        have hany := congrArg (List.any · id) (List.map_congr_left inRight)
        simp only [List.any_map, Function.id_comp] at hany
        exact congrArg (· || _) hany
      | _ => rfl

/-! ### Bounds that decide nothing -/

/-- With finite layouts, no layout depends on how deeply it is looked for. -/
theorem layouts_settled (hc : ts.Closed) (h : ts.LayoutsEnd) {n : Nat} (hn : ts.size < n)
    (a : TypeId) : ts.irTypeWithin n a = ts.irType a := by
  obtain ⟨rank, hr, hle⟩ := exists_rank hc (fun a b h => Inlays.mem_referenced h) h
  have hrank : rank a < ts.size + 1 := (hle a).trans_lt (Nat.lt_succ_of_le (Nat.sub_le _ _))
  exact within_eq hr irTypeWithin_step (hrank.trans_le hn) hrank

/-- A pointer refers to what it points to as it is laid out. -/
theorem irType_of_pointer {elem : TypeId} (hc : ts.Closed) (h : ts.LayoutsEnd)
    (hk : ts.kind a = .pointer elem) : ts.irType a = .ptr (ts.irType elem) := by
  rw [← layouts_settled hc h (Nat.lt_succ_of_lt (Nat.lt_succ_self ts.size)) a, irTypeWithin, hk]
  rfl

/-- When descriptions end, no answer about them depends on how deeply it is looked for. -/
theorem references_settled (hc : ts.Closed) (h : ts.ReferencesEnd) {n : Nat} (hn : ts.size < n)
    (a : TypeId) : ts.nameWithin n a = ts.name a ∧ ts.recordTypeWithin n a = ts.recordType a ∧
      (∀ field, ts.fieldIndexWithin field n a = ts.fieldIndex a field) ∧
      ts.runtimeIdsWithin n a = ts.runtimeIds a ∧
      ∀ b k, ts.size * ts.size < k → ts.implementsWithin k a b = ts.implements a b := by
  obtain ⟨rank, hr, hle⟩ := exists_rank hc (fun a b h => Refers.mem_referenced h) h
  have hopens : ∀ a b, ts.Opens a b → rank b < rank a := fun a b h => hr a b h.refers
  have hrank : rank a < ts.size + 1 := (hle a).trans_lt (Nat.lt_succ_of_le (Nat.sub_le _ _))
  have hn := hrank.trans_le hn
  refine ⟨within_eq hr nameWithin_step hn hrank, within_eq hr recordTypeWithin_step hn hrank,
    fun field => within_eq hr (fieldIndexWithin_step field) hn hrank,
    within_eq hopens runtimeIdsWithin_step hn hrank, fun b k hk => ?_⟩
  have hsum : rank a + rank b < ts.size * ts.size + 1 :=
    calc rank a + rank b ≤ (ts.size - 1) + (ts.size - 1) := Nat.add_le_add (hle a) (hle b)
      _ < ts.size * ts.size + 1 := by
        rcases ts.size with _ | k
        · exact Nat.zero_lt_one
        · rw [Nat.add_sub_cancel, Nat.succ_mul_succ]
          omega
  exact implementsWithin_eq hopens (hsum.trans_le hk) hsum

end TypeTable

end Lowering
