import Mathlib.Data.Fintype.Pigeonhole
import Lowering.Proofs.Nesting

/-!
# Inclusion of types

A type includes another one when it has all its values.  The question is answered by looking into
unions and hierarchies on both sides; the answer is the one that the runtime ids of the types give.

* `TypeTable.Regular`: tables in which all questions of inclusion end;
* `TypeTable.Descends`: a class and what it is reached from by following parents,
  `TypeTable.isSubclassOf_iff`, `TypeTable.subclasses_exact`;
* `TypeTable.IsLeaf`: types that runtime ids stand for, `TypeTable.Regular.implements_leaf_iff`;
* `TypeTable.Regular.implements_iff`: inclusion as one of runtime ids;
* `TypeTable.implements_includes`.
-/

namespace Lowering.TypeTable

open Relation (ReflTransGen TransGen)

variable {ts : TypeTable} {a b r : TypeId}

/-! ### Descent -/

/-- A type is another one, or a class that descends from it. -/
def Descends (ts : TypeTable) : TypeId → TypeId → Prop :=
  ReflTransGen fun a b => ts.parent a = some b

/-- The type that is so many parents above a type. -/
def above (ts : TypeTable) : Nat → TypeId → Option TypeId
  | 0, a => some a
  | n + 1, a => (ts.parent a).bind (ts.above n)

theorem above_add (m n : Nat) (a : TypeId) :
    ts.above (m + n) a = (ts.above m a).bind (ts.above n) := by
  induction m generalizing a with
  | zero => rw [Nat.zero_add]; rfl
  | succ m ih =>
    rw [Nat.add_right_comm, above, above, Option.bind_assoc]
    exact congrArg _ (funext ih)

theorem descends_iff : ts.Descends a b ↔ ∃ n, ts.above n a = some b := by
  constructor
  · intro h
    induction h using ReflTransGen.head_induction_on with
    | refl => exact ⟨0, rfl⟩
    | head hp _ ih =>
      obtain ⟨n, hn⟩ := ih
      exact ⟨n + 1, by rw [above, hp]; exact hn⟩
  · rintro ⟨n, hn⟩
    induction n generalizing a with
    | zero => exact Option.some.inj hn ▸ .refl
    | succ n ih =>
      obtain ⟨p, hp, hn⟩ := Option.bind_eq_some_iff.mp hn
      exact .head hp (ih hn)

theorem isSubclassWithin_iff (n : Nat) (a : TypeId) :
    ts.isSubclassWithin b n a = true ↔ ∃ m < n, ts.above m a = some b := by
  induction n generalizing a with
  | zero => simp [isSubclassWithin]
  | succ n ih =>
    rw [isSubclassWithin, Bool.or_eq_true, beq_iff_eq, Option.any_eq_true]
    constructor
    · rintro (rfl | ⟨p, hp, h⟩)
      · exact ⟨0, n.succ_pos, rfl⟩
      · obtain ⟨m, hm, hup⟩ := (ih p).mp h
        exact ⟨m + 1, Nat.succ_lt_succ hm, by rw [above, hp]; exact hup⟩
    · rintro ⟨_ | m, hm, hup⟩
      · exact .inl (Option.some.inj hup)
      · obtain ⟨p, hp, hup⟩ := Option.bind_eq_some_iff.mp hup
        exact .inr ⟨p, hp, (ih p).mpr ⟨m, Nat.lt_of_succ_lt_succ hm, hup⟩⟩

theorem index_lt_of_parent {p : TypeId} (h : ts.parent a = some p) : a.index < ts.size := by
  refine of_decide_eq_true (contains_of_mem_referenced (b := p) ?_)
  unfold parent at h
  unfold referenced TypeKind.referenced
  split at h
  · rename_i hk
    simp [hk, h]
  · cases h

/-- What is above a type at all is so within as many parents as there are types: a longer way passes
some type twice. -/
theorem exists_above_le {n : Nat} (h : ts.above n a = some b) :
    ∃ m ≤ ts.size, ts.above m a = some b := by
  induction n using Nat.strong_induction_on with
  | h n ih =>
    by_cases hle : n ≤ ts.size
    · exact ⟨n, hle, h⟩
    -- all types on the way but the last one have a parent, and so they are in the table
    have hinside : ∀ i : Fin (ts.size + 1), ∃ k : Fin ts.size, ts.above i a = some ⟨k⟩ := by
      intro i
      obtain ⟨j, rfl⟩ := Nat.exists_eq_add_of_lt (i.isLt.trans_le (not_le.mp hle))
      rw [Nat.add_assoc, above_add] at h
      obtain ⟨c, hc, hup⟩ := Option.bind_eq_some_iff.mp h
      obtain ⟨p, hp, -⟩ := Option.bind_eq_some_iff.mp hup
      exact ⟨⟨c.index, index_lt_of_parent hp⟩, hc⟩
    choose k hk using hinside
    obtain ⟨i, j, hne, hij⟩ := Fintype.exists_ne_map_eq_of_card_lt k (by simp)
    wlog hlt : i < j generalizing i j
    · exact this j i hne.symm hij.symm (lt_of_le_of_ne (not_lt.mp hlt) hne.symm)
    obtain ⟨d, rfl⟩ := Nat.exists_eq_add_of_lt (j.isLt.trans_le (not_le.mp hle))
    refine ih (i + (d + 1)) (by omega) ?_
    rw [above_add, hk i, hij, ← hk j, ← above_add, ← Nat.add_assoc]
    exact h

theorem isSubclassOf_iff : ts.isSubclassOf a b = true ↔ ts.Descends a b := by
  rw [isSubclassOf, isSubclassWithin_iff, descends_iff]
  constructor
  · exact fun ⟨m, _, h⟩ => ⟨m, h⟩
  · rintro ⟨n, h⟩
    obtain ⟨m, hm, h⟩ := exists_above_le h
    exact ⟨m, Nat.lt_succ_of_le hm, h⟩

/-- Nothing is found among more parents than there are types that was not found before. -/
theorem isSubclassWithin_settled {n : Nat} (hn : ts.size < n) (a b : TypeId) :
    ts.isSubclassWithin b n a = ts.isSubclassOf a b := by
  rw [Bool.eq_iff_iff, isSubclassOf_iff, isSubclassWithin_iff, descends_iff]
  constructor
  · exact fun ⟨m, _, h⟩ => ⟨m, h⟩
  · rintro ⟨m, h⟩
    obtain ⟨m, hm, h⟩ := exists_above_le h
    exact ⟨m, hm.trans_lt hn, h⟩

theorem mem_concreteSubtypes :
    a ∈ ts.concreteSubtypes b ↔ (ts.kind a).isClass = true ∧ ts.Descends a b := by
  simp only [concreteSubtypes, List.mem_filter, Bool.and_eq_true, isSubclassOf_iff, mem_ids,
    and_iff_right_iff_imp]
  rintro ⟨hclass, -⟩
  by_contra hout
  have hnone : ts.infos[a.index]? = none := Array.getElem?_eq_none (not_lt.mp fun hlt =>
    hout (decide_eq_true hlt))
  simp [kind, info, hnone, TypeKind.isClass] at hclass

theorem pairwise_ids : ts.ids.Pairwise fun a b => a.index < b.index :=
  List.pairwise_map.mpr List.pairwise_lt_range

/-- The search along the parents finds just what is above a type, whatever the parents are: they may
go round in a circle, or not be classes, and more steps than there are types change no answer. The
subclasses of a type are the classes that it is above of, each once and in the order of their
ids. -/
theorem subclasses_exact (ts : TypeTable) :
    (∀ a b, (ts.isSubclassOf a b = true ↔ ts.Descends a b) ∧
      ∀ n, ts.size < n → ts.isSubclassWithin b n a = ts.isSubclassOf a b) ∧
    ∀ b, (ts.concreteSubtypes b).Pairwise (fun a a' => a.index < a'.index) ∧
      ∀ a, a ∈ ts.concreteSubtypes b ↔ (ts.kind a).isClass = true ∧ ts.Descends a b :=
  ⟨fun a b => ⟨isSubclassOf_iff, fun _ hn => isSubclassWithin_settled hn a b⟩,
    fun _ => ⟨pairwise_ids.filter _, fun _ => mem_concreteSubtypes⟩⟩

/-! ### Regular tables -/

/-- Parents and bases are classes, unions have members, and no union is inside itself, neither as a
member nor through other unions. -/
structure Regular (ts : TypeTable) : Prop where
  parents : ∀ a p, ts.parent a = some p → (ts.kind p).isClass
  bases : ∀ a base, ts.kind a = .hierarchy base → (ts.kind base).isClass
  filled : ∀ a, ts.kind a ≠ .union []
  apart : ∀ a, ¬ TransGen (fun u m => m ∈ ts.members u) a a

theorem opens_iff : ts.Opens a b ↔ b ∈ ts.members a ∨ ts.kind a = .hierarchy b := by
  unfold Opens members
  cases ts.kind a <;> simp

theorem isClass_iff : (ts.kind a).isClass = true ↔
    ∃ name p ivars, ts.kind a = .heapClass name p ivars := by
  cases ts.kind a <;> simp [TypeKind.isClass]

/-- A type that is neither a union nor a hierarchy: a runtime id can stand for it. -/
def IsLeaf (ts : TypeTable) (a : TypeId) : Prop := ∀ b, ¬ ts.Opens a b

theorem isLeaf_of_isClass (h : (ts.kind a).isClass = true) : ts.IsLeaf a := by
  obtain ⟨name, p, ivars, hk⟩ := isClass_iff.mp h
  intro b hb
  simp [Opens, hk] at hb

theorem index_lt_of_opens (h : ts.Opens a b) : a.index < ts.size :=
  of_decide_eq_true (contains_of_mem_referenced h.refers.mem_referenced)

namespace Regular

variable (h : ts.Regular)
include h

/-- A hierarchy opens into a class, which does not open. -/
theorem opensEnd (a : TypeId) : ¬ TransGen ts.Opens a a := by
  suffices hstep : ∀ {a b}, TransGen ts.Opens a b → (∃ c, ts.Opens b c) →
      TransGen (fun u m => m ∈ ts.members u) a b by
    intro ha
    obtain ⟨c, hc, -⟩ := TransGen.head'_iff.mp ha
    exact h.apart a (hstep ha ⟨c, hc⟩)
  have hmember : ∀ {a b}, ts.Opens a b → (∃ c, ts.Opens b c) → b ∈ ts.members a :=
    fun hab ⟨c, hc⟩ => (opens_iff.mp hab).resolve_right fun hk =>
      isLeaf_of_isClass (h.bases _ _ hk) c hc
  intro a b hab
  induction hab with
  | single hab => exact fun hc => .single (hmember hab hc)
  | tail _ hbc ih => exact fun hc => .tail (ih ⟨_, hbc⟩) (hmember hbc hc)

/-- Opening types goes down a rank, and of two types the ranks are together at most as great as the
number of pairs of types. -/
theorem exists_rank : ∃ rank : TypeId → Nat, (∀ a b, ts.Opens a b → rank b < rank a) ∧
    (∀ a, rank a ≤ ts.size) ∧ ∀ a b, a ≠ b → rank a + rank b ≤ ts.size * ts.size := by
  -- the rank counts the types inside that open
  let inside (a : TypeId) : Set (Fin ts.size) := ts.inner ts.Opens a
  have hle : ∀ a, (inside a).ncard ≤ ts.size := ncard_inner_le ts.Opens
  refine ⟨fun a => (inside a).ncard,
    fun a b hab => ncard_inner_lt (index_lt_of_opens hab) hab (h.opensEnd a), hle,
    fun a b hne => ?_⟩
  · rcases Nat.lt_or_ge 1 ts.size with hlt | hge
    · calc (inside a).ncard + (inside b).ncard ≤ ts.size + ts.size := Nat.add_le_add (hle a) (hle b)
        _ = 2 * ts.size := (Nat.two_mul _).symm
        _ ≤ ts.size * ts.size := Nat.mul_le_mul_right _ hlt
    -- of at most one type, only that one opens
    have hself : ∀ x, (inside x).ncard ≠ 0 → x.index = 0 := by
      intro x hx
      obtain ⟨i, hi, -⟩ := Set.nonempty_of_ncard_ne_zero hx
      rcases ReflTransGen.cases_head hi with rfl | ⟨y, hxy, -⟩
      · show i.val = 0
        omega
      · have := index_lt_of_opens hxy
        omega
    have hxa := hself a
    have hxb := hself b
    have hla := hle a
    have hlb := hle b
    show (inside a).ncard + (inside b).ncard ≤ ts.size * ts.size
    generalize (inside a).ncard = x at *
    generalize (inside b).ncard = y at *
    have hindex : a.index ≠ b.index := fun he => hne (by cases a; cases b; exact congrArg _ he)
    obtain h0 | h1 : ts.size = 0 ∨ ts.size = 1 := by omega
    · rw [h0] at hla hlb
      omega
    · rw [h1] at hla hlb ⊢
      omega

end Regular

/-! ### The question of inclusion -/

theorem implementsWithin_self {n : Nat} (hn : 0 < n) : ts.implementsWithin n a a = true := by
  obtain ⟨n, rfl⟩ := Nat.exists_eq_add_of_lt hn
  rw [implementsWithin, if_pos rfl]

theorem implements_self : ts.implements a a = true := implementsWithin_self (Nat.succ_pos _)

namespace Regular

variable (h : ts.Regular)
include h

/-- No answer depends on the bound on nested questions. -/
theorem implementsWithin_settled {n : Nat} (hn : ts.size * ts.size < n) (a b : TypeId) :
    ts.implementsWithin n a b = ts.implements a b := by
  obtain ⟨rank, hr, -, hpair⟩ := h.exists_rank
  by_cases he : a = b
  · subst he
    rw [implements_self, implementsWithin_self (Nat.zero_lt_of_lt hn)]
  · exact implementsWithin_eq hr ((hpair a b he).trans_lt hn) (Nat.lt_succ_of_le (hpair a b he))

theorem includedByKind_iff {ask : TypeId → TypeId → Bool} :
    ts.includedByKind ask a b = true ↔ (ts.kind a).isClass = true ∧ ts.Descends a b ∨
      ¬ ts.IsLeaf a ∧ ∀ c, ts.Opens a c → ask c b = true := by
  unfold includedByKind IsLeaf Opens
  cases hk : ts.kind a with
  | heapClass name p ivars => simp [TypeKind.isClass, isSubclassOf_iff]
  | union members =>
    obtain ⟨m, rest, rfl⟩ := List.exists_cons_of_ne_nil fun he => h.filled a (he ▸ hk)
    simp only [TypeKind.isClass, List.isEmpty_cons, Bool.not_false, Bool.true_and, List.all_eq_true,
      Bool.false_eq_true, false_and, false_or, not_forall, not_not]
    exact ⟨fun hall => ⟨⟨m, List.mem_cons_self⟩, hall⟩, And.right⟩
  | _ => simp [TypeKind.isClass]

/-- One type includes another that it is, or that something inside it includes; or else, when it is
no hierarchy, one that is a class below it or has only types that it includes inside. -/
theorem implements_step : ts.implements a b = true ↔
    a = b ∨ (∃ c, ts.Opens b c ∧ ts.implements a c = true) ∨
      ts.isHierarchy b = false ∧ ts.includedByKind ts.implements a b = true := by
  have hunfold := h.implementsWithin_settled (Nat.lt_add_of_pos_right Nat.two_pos) a b
  rw [← hunfold, implementsWithin,
    show ts.implementsWithin (ts.size * ts.size + 1) = ts.implements from rfl]
  unfold Opens isHierarchy
  by_cases he : a = b
  · simp [he]
  · cases hk : ts.kind b <;> simp [he]

theorem implements_of_opens {c : TypeId} (hc : ts.Opens b c) (hi : ts.implements a c = true) :
    ts.implements a b = true :=
  h.implements_step.mpr (.inr (.inl ⟨c, hc, hi⟩))

/-- A hierarchy has the values of its base and of all classes below. -/
theorem implements_hierarchy_iff {base : TypeId} (hk : ts.kind b = .hierarchy base) :
    ts.implements a b = true ↔ ts.implements a base = true := by
  have hopens : ∀ c, ts.Opens b c ↔ base = c := fun c => by simp [Opens, hk]
  refine ⟨fun hi => ?_, h.implements_of_opens ((hopens base).mpr rfl)⟩
  rcases h.implements_step.mp hi with rfl | ⟨c, hc, hi⟩ | ⟨hno, -⟩
  · refine h.implements_step.mpr (.inr (.inr ⟨?_, h.includedByKind_iff.mpr (.inr ⟨?_, ?_⟩)⟩))
    · obtain ⟨name, p, ivars, hbase⟩ := isClass_iff.mp (h.bases _ _ hk)
      simp [isHierarchy, hbase]
    · exact fun hleaf => hleaf base ((hopens base).mpr rfl)
    · exact fun c hc => (hopens c).mp hc ▸ implements_self
  · exact (hopens c).mp hc ▸ hi
  · simp [isHierarchy, hk] at hno

/-- A type that opens is included when all that is inside is. -/
theorem implements_iff_opens (hleaf : ¬ ts.IsLeaf a) :
    ts.implements a b = true ↔ ∀ c, ts.Opens a c → ts.implements c b = true := by
  obtain ⟨rank, hr, -⟩ := h.exists_rank
  induction hn : rank b using Nat.strong_induction_on generalizing b with
  | h n ih =>
    subst hn
    constructor
    · intro hi c hc
      rcases h.implements_step.mp hi with rfl | ⟨d, hd, hi⟩ | ⟨-, hkind⟩
      · exact h.implements_of_opens hc implements_self
      · exact h.implements_of_opens hd ((ih _ (hr b d hd) rfl).mp hi c hc)
      · rcases h.includedByKind_iff.mp hkind with ⟨hclass, -⟩ | ⟨-, hall⟩
        · exact absurd (isLeaf_of_isClass hclass) hleaf
        · exact hall c hc
    · intro hall
      cases hb : ts.isHierarchy b with
      | false =>
        have hkind := h.includedByKind_iff.mpr (.inr ⟨hleaf, hall⟩)
        exact h.implements_step.mpr (.inr (.inr ⟨hb, hkind⟩))
      | true =>
        obtain ⟨base, hk⟩ : ∃ base, ts.kind b = .hierarchy base := by
          unfold isHierarchy at hb
          split at hb
          · exact ⟨_, ‹_›⟩
          · cases hb
        have hopens : ts.Opens b base := opens_iff.mpr (.inr hk)
        exact h.implements_of_opens hopens ((ih _ (hr b base hopens) rfl).mpr fun c hc =>
          (h.implements_hierarchy_iff hk).mp (hall c hc))

end Regular

/-! ### Types that runtime ids stand for -/

theorem mem_runtimeIds_hierarchy {base : TypeId} (hk : ts.kind a = .hierarchy base) :
    r ∈ ts.runtimeIds a ↔ (ts.kind r).isClass = true ∧ ts.Descends r base := by
  unfold runtimeIds runtimeIdsWithin
  rw [hk]
  exact mem_concreteSubtypes

namespace Regular

variable (h : ts.Regular)
include h

theorem isClass_of_descends (hd : ts.Descends a b) (hne : a ≠ b) :
    (ts.kind a).isClass = true ∧ (ts.kind b).isClass = true := by
  constructor
  · obtain rfl | ⟨p, hp, -⟩ := ReflTransGen.cases_head hd
    · exact absurd rfl hne
    · unfold parent at hp
      split at hp
      · rename_i hk
        rw [hk]
        rfl
      · cases hp
  · obtain rfl | ⟨p, -, hp⟩ := ReflTransGen.cases_tail hd
    · exact absurd rfl hne
    · exact h.parents p b hp

/-- A type that does not open is included in what it is, and in what has something inside that it is
or descends from. -/
theorem implements_leaf_iff (hr : ts.IsLeaf r) :
    ts.implements r b = true ↔ ∃ d, ReflTransGen ts.Opens b d ∧ ts.Descends r d := by
  obtain ⟨rank, hrank, -⟩ := h.exists_rank
  induction hn : rank b using Nat.strong_induction_on generalizing b with
  | h n ih =>
    subst hn
    constructor
    · intro hi
      rcases h.implements_step.mp hi with rfl | ⟨c, hc, hi⟩ | ⟨-, hkind⟩
      · exact ⟨r, .refl, .refl⟩
      · obtain ⟨d, hd, hdesc⟩ := (ih _ (hrank b c hc) rfl).mp hi
        exact ⟨d, .head hc hd, hdesc⟩
      · rcases h.includedByKind_iff.mp hkind with ⟨-, hdesc⟩ | ⟨hopens, -⟩
        · exact ⟨b, .refl, hdesc⟩
        · exact absurd hr hopens
    · rintro ⟨d, hd, hdesc⟩
      rcases ReflTransGen.cases_head hd with rfl | ⟨c, hc, hd⟩
      · by_cases hne : r = b
        · exact hne ▸ implements_self
        · obtain ⟨hrc, hbc⟩ := h.isClass_of_descends hdesc hne
          obtain ⟨name, p, ivars, hk⟩ := isClass_iff.mp hbc
          exact h.implements_step.mpr (.inr (.inr ⟨by simp [isHierarchy, hk],
            h.includedByKind_iff.mpr (.inl ⟨hrc, hdesc⟩)⟩))
      · exact h.implements_of_opens hc ((ih _ (hrank b c hc) rfl).mpr ⟨d, hd, hdesc⟩)

theorem runtimeIds_leaf (hr : ts.IsLeaf r) : ts.runtimeIds r = [r] := by
  unfold runtimeIds runtimeIdsWithin
  cases hk : ts.kind r with
  | union members =>
    obtain ⟨m, hm⟩ := List.exists_mem_of_ne_nil members fun he => h.filled r (he ▸ hk)
    exact absurd (opens_iff.mpr (.inl (by rwa [TypeTable.members, hk]))) (hr m)
  | hierarchy base => exact absurd (opens_iff.mpr (.inr hk)) (hr base)
  | _ => rfl

theorem mem_runtimeIds_union {ms : List TypeId} (hk : ts.kind a = .union ms) :
    r ∈ ts.runtimeIds a ↔ ∃ m ∈ ms, r ∈ ts.runtimeIds m := by
  obtain ⟨rank, hrank, hle, -⟩ := h.exists_rank
  have hsettled : ∀ b, ts.runtimeIdsWithin (ts.size + 2) b = ts.runtimeIds b ∧
      ts.runtimeIdsWithin (ts.size + 1) b = ts.runtimeIds b := fun b =>
    ⟨within_eq hrank runtimeIdsWithin_step ((hle b).trans_lt (by omega))
      (Nat.lt_succ_of_le (hle b)), rfl⟩
  rw [← (hsettled a).1, runtimeIdsWithin, hk]
  simp only [List.mem_flatMap, hsettled]

theorem isLeaf_of_mem_runtimeIds (hr : r ∈ ts.runtimeIds a) : ts.IsLeaf r := by
  obtain ⟨rank, hrank, -⟩ := h.exists_rank
  induction hn : rank a using Nat.strong_induction_on generalizing a with
  | h n ih =>
    subst hn
    cases hk : ts.kind a with
    | union ms =>
      obtain ⟨m, hm, hr⟩ := (h.mem_runtimeIds_union hk).mp hr
      exact ih _ (hrank a m (opens_iff.mpr (.inl (by rwa [members, hk])))) hr rfl
    | hierarchy base => exact isLeaf_of_isClass ((mem_runtimeIds_hierarchy hk).mp hr).1
    | _ =>
      have hleaf : ts.IsLeaf a := fun b hb => by simp [Opens, hk] at hb
      rw [h.runtimeIds_leaf hleaf, List.mem_singleton] at hr
      exact hr ▸ hleaf

/-- What is inside a type and does not open is a runtime id of it. -/
theorem mem_runtimeIds_of_opens (hd : ReflTransGen ts.Opens a r) (hr : ts.IsLeaf r) :
    r ∈ ts.runtimeIds a := by
  induction hd using ReflTransGen.head_induction_on with
  | refl => exact h.runtimeIds_leaf hr ▸ List.mem_singleton_self r
  | @head a b hab hbr ih =>
    rcases opens_iff.mp hab with hm | hk
    · obtain ⟨ms, hk, hm⟩ : ∃ ms, ts.kind a = .union ms ∧ b ∈ ms := by
        unfold members at hm
        split at hm
        · exact ⟨_, ‹_›, hm⟩
        · cases hm
      exact (h.mem_runtimeIds_union hk).mpr ⟨b, hm, ih⟩
    · have hclass := h.bases a b hk
      obtain rfl | ⟨c, hbc, -⟩ := ReflTransGen.cases_head hbr
      · exact (mem_runtimeIds_hierarchy hk).mpr ⟨hclass, .refl⟩
      · exact absurd hbc (isLeaf_of_isClass hclass c)

/-! ### Inclusion by runtime ids -/

/-- A type is included when all its runtime ids are. -/
theorem implements_iff (a b : TypeId) :
    ts.implements a b = true ↔ ∀ r ∈ ts.runtimeIds a, ts.implements r b = true := by
  obtain ⟨rank, hrank, -⟩ := h.exists_rank
  induction hn : rank a using Nat.strong_induction_on generalizing a with
  | h n ih =>
    subst hn
    cases hk : ts.kind a with
    | union ms =>
      have hopens : ∀ m, ts.Opens a m ↔ m ∈ ms := fun m => by simp [Opens, hk]
      have hleaf : ¬ ts.IsLeaf a := by
        obtain ⟨m, hm⟩ := List.exists_mem_of_ne_nil ms fun he => h.filled a (he ▸ hk)
        exact fun hleaf => hleaf m ((hopens m).mpr hm)
      calc ts.implements a b = true
        _ ↔ ∀ m ∈ ms, ts.implements m b = true := by
          simp only [h.implements_iff_opens hleaf, hopens]
        _ ↔ ∀ m ∈ ms, ∀ r ∈ ts.runtimeIds m, ts.implements r b = true :=
          forall₂_congr fun m hm => ih _ (hrank a m ((hopens m).mpr hm)) m rfl
        _ ↔ ∀ r ∈ ts.runtimeIds a, ts.implements r b = true := by
          simp only [h.mem_runtimeIds_union hk, forall_exists_index, and_imp]
          exact ⟨fun hall r m hm hr => hall m hm r hr, fun hall m hm r hr => hall r m hm hr⟩
    | hierarchy base =>
      have hopens : ∀ c, ts.Opens a c ↔ base = c := fun c => by simp [Opens, hk]
      have hleaf : ¬ ts.IsLeaf a := fun hleaf => hleaf base ((hopens base).mpr rfl)
      have hclass := h.bases a base hk
      simp only [h.implements_iff_opens hleaf, hopens, forall_eq', mem_runtimeIds_hierarchy hk]
      refine ⟨fun hi r ⟨hr, hdesc⟩ => ?_, fun hall => hall base ⟨hclass, .refl⟩⟩
      obtain ⟨d, hd, hbase⟩ := (h.implements_leaf_iff (isLeaf_of_isClass hclass)).mp hi
      exact (h.implements_leaf_iff (isLeaf_of_isClass hr)).mpr ⟨d, hd, hdesc.trans hbase⟩
    | _ =>
      have hleaf : ts.IsLeaf a := fun b hb => by simp [Opens, hk] at hb
      simp [h.runtimeIds_leaf hleaf]

theorem implements_trans {c : TypeId} (hab : ts.implements a b = true)
    (hbc : ts.implements b c = true) : ts.implements a c = true := by
  refine (h.implements_iff a c).mpr fun r hr => ?_
  have hleaf := h.isLeaf_of_mem_runtimeIds hr
  obtain ⟨d, hd, hdesc⟩ := (h.implements_leaf_iff hleaf).mp ((h.implements_iff a b).mp hab r hr)
  have hdleaf : ts.IsLeaf d := by
    by_cases hne : r = d
    · exact hne ▸ hleaf
    · exact isLeaf_of_isClass (h.isClass_of_descends hdesc hne).2
  -- what a runtime id is or descends from inside `b` is a runtime id of `b`
  obtain ⟨e, he, hdesc'⟩ := (h.implements_leaf_iff hdleaf).mp
    ((h.implements_iff b c).mp hbc d (h.mem_runtimeIds_of_opens hd hdleaf))
  exact (h.implements_leaf_iff hleaf).mpr ⟨e, he, hdesc.trans hdesc'⟩

/-- A class is included in what it is or descends from, and in what has such a class inside. -/
theorem implements_class_iff (hr : (ts.kind r).isClass = true) :
    ts.implements r b = true ↔ ts.Descends r b ∨
      ∃ d, (ts.kind d).isClass = true ∧ TransGen ts.Opens b d ∧ ts.Descends r d := by
  rw [h.implements_leaf_iff (isLeaf_of_isClass hr)]
  constructor
  · rintro ⟨d, hd, hdesc⟩
    rcases Relation.reflTransGen_iff_eq_or_transGen.mp hd with rfl | hd
    · exact .inl hdesc
    · refine .inr ⟨d, ?_, hd, hdesc⟩
      by_cases hne : r = d
      · exact hne ▸ hr
      · exact (h.isClass_of_descends hdesc hne).2
  · rintro (hdesc | ⟨d, -, hd, hdesc⟩)
    · exact ⟨b, .refl, hdesc⟩
    · exact ⟨d, hd.to_reflTransGen, hdesc⟩

end Regular

/-- The check of one type of a table in which the members of a union come before it. -/
def inOrder (ts : TypeTable) (a : TypeId) : Bool :=
  match ts.kind a with
  | .heapClass _ parent _ => parent.all fun p => (ts.kind p).isClass
  | .hierarchy base => (ts.kind base).isClass
  | .union members => !members.isEmpty && members.all fun m => decide (m.index < a.index)
  | _ => true

theorem Regular.of_inOrder (h : ∀ a ∈ ts.ids, ts.inOrder a = true) : ts.Regular := by
  have hall : ∀ a, ts.inOrder a = true := by
    intro a
    by_cases ha : ts.contains a = true
    · exact h a (mem_ids.mpr ha)
    · have hnone : ts.infos[a.index]? = none :=
        Array.getElem?_eq_none (not_lt.mp fun hlt => ha (decide_eq_true hlt))
      simp [inOrder, kind, info, hnone]
  refine ⟨fun a p hp => ?_, fun a base hk => ?_, fun a hk => ?_, ends_of_lt fun a m hm => ?_⟩
  all_goals
    have ha := hall a
    unfold inOrder at ha
  · unfold parent at hp
    cases hk : ts.kind a <;> simp_all
  · simpa [hk] using ha
  · simp [hk] at ha
  · unfold members at hm
    cases hk : ts.kind a <;> simp_all

/-- Inclusion is a preorder on types, and the inclusion of their runtime ids. A class is included in
what it is or descends from, and in what has a class inside that it is or descends from: the base of
a hierarchy, or a member of a union, at any depth. -/
theorem implements_includes (h : ts.Regular) :
    (∀ a, ts.implements a a = true) ∧
      (∀ a b c, ts.implements a b = true → ts.implements b c = true →
        ts.implements a c = true) ∧
      (∀ a b, ts.implements a b = true ↔ ∀ r ∈ ts.runtimeIds a, ts.implements r b = true) ∧
      ∀ r b, (ts.kind r).isClass = true → (ts.implements r b = true ↔ ts.Descends r b ∨
        ∃ d, (ts.kind d).isClass = true ∧ TransGen ts.Opens b d ∧ ts.Descends r d) :=
  ⟨fun _ => implements_self, fun _ _ _ => h.implements_trans, h.implements_iff,
    fun _ _ => h.implements_class_iff⟩

/-- Classes that are parents of each other, a hierarchy over one of them, and unions inside a union
with a pointer back to it. -/
def interwoven : TypeTable where
  infos := #[
    { kind := .heapClass "Even" (some ⟨1⟩) [] },
    { kind := .heapClass "Odd" (some ⟨0⟩) [] },
    { kind := .heapClass "Two" (some ⟨0⟩) [] },
    { kind := .pointer ⟨6⟩ },
    { kind := .hierarchy ⟨1⟩ },
    { kind := .union [⟨4⟩, ⟨3⟩] },
    { kind := .union [⟨2⟩, ⟨5⟩] }]

theorem interwoven_includes : interwoven.Regular ∧ interwoven.implements ⟨6⟩ ⟨5⟩ = true ∧
    (interwoven.Descends ⟨2⟩ ⟨4⟩ ∨ ∃ d, (interwoven.kind d).isClass = true ∧
      TransGen interwoven.Opens ⟨4⟩ d ∧ interwoven.Descends ⟨2⟩ d) := by
  have h : interwoven.Regular := .of_inOrder (by decide)
  obtain ⟨-, -, hids, hclass⟩ := implements_includes h
  exact ⟨h, (hids ⟨6⟩ ⟨5⟩).mpr (by decide), (hclass ⟨2⟩ ⟨4⟩ rfl).mp (by decide)⟩

end Lowering.TypeTable
