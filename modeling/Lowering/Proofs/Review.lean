import Lowering.Proofs.Dependence
import Lowering.Proofs.Nesting

/-!
# Types of a valid program

The types that a program without flaws names belong to its table.

* `Node.ClosedBelow`, `Program.closedBelow_nodes`: the nodes of a program include those below them;
* `Program.IsValid.contains_owner`, `Program.IsValid.contains_argType`: the types of a definition;
* `Program.Means.contains`: the types that definitions take the receivers of calls as.
-/

namespace Lowering

/-- The types of the parameters. -/
def Def.argTypes (d : Def) : List TypeId := d.args.map Arg.type

namespace Node

/-- All nodes below those of a list belong to the list. -/
def ClosedBelow (nodes : List Node) : Prop := ∀ n ∈ nodes, n.preorder ⊆ nodes

namespace ClosedBelow

variable {xs ys : List Node}

theorem nil : ClosedBelow [] := fun _ h => absurd h List.not_mem_nil

theorem append (hx : ClosedBelow xs) (hy : ClosedBelow ys) : ClosedBelow (xs ++ ys) := by
  intro n hn
  rcases List.mem_append.mp hn with hn | hn
  · exact List.Subset.trans (hx n hn) (List.subset_append_left xs ys)
  · exact List.Subset.trans (hy n hn) (List.subset_append_right xs ys)

theorem flatMap {α : Type} {f : α → List Node} {l : List α} (h : ∀ a ∈ l, ClosedBelow (f a)) :
    ClosedBelow (l.flatMap f) := by
  intro n hn m hm
  obtain ⟨a, ha, hn⟩ := List.mem_flatMap.mp hn
  exact List.mem_flatMap.mpr ⟨a, ha, h a ha n hn hm⟩

theorem root {n : Node} (h : ClosedBelow (preorderKind n.kind)) : ClosedBelow n.preorder := by
  intro m hm
  rw [preorder_eq n] at hm ⊢
  rcases List.mem_cons.mp hm with rfl | hm
  · rw [preorder_eq]
    exact List.Subset.refl _
  · exact List.Subset.trans (h m hm) (List.subset_cons_self _ _)

end ClosedBelow

mutual

theorem closedBelow_preorder : ∀ n : Node, ClosedBelow n.preorder
  | ⟨_, kind, _, _⟩ => .root (closedBelow_kind kind)

theorem closedBelow_kind : ∀ k : NodeKind Node, ClosedBelow (preorderKind k)
  | .assign target value => (closedBelow_preorder target).append (closedBelow_preorder value)
  | .multiAssign targets values => (closedBelow_list targets).append (closedBelow_list values)
  | .expressions nodes => closedBelow_list nodes
  | .branch cond whenTrue whenFalse =>
    ((closedBelow_preorder cond).append (closedBelow_option whenTrue)).append
      (closedBelow_option whenFalse)
  | .loop cond body _ => (closedBelow_preorder cond).append (closedBelow_option body)
  | .return value | .break value => closedBelow_option value
  | .yield values => closedBelow_list values
  | .call c => closedBelow_call c
  | .isA value _ => closedBelow_preorder value
  | .simpleOr left right => (closedBelow_preorder left).append (closedBelow_preorder right)
  | .pointerOf target => closedBelow_preorder target
  | .nop | .nilLiteral | .boolLiteral _ | .intLiteral _ | .floatLiteral _ | .charLiteral _
  | .stringLiteral _ | .symbolLiteral _ | .typeLiteral | .var _ | .instanceVar _ | .global _
  | .const _ | .nilPointer | .argc | .argv | .primitive _ => .nil

theorem closedBelow_call : ∀ c : Call Node, ClosedBelow (preorderCall c)
  | ⟨receiver, _, args, _, block, _⟩ =>
    ((closedBelow_option receiver).append (closedBelow_list args)).append (closedBelow_block block)

theorem closedBelow_block : ∀ b : Option (Block Node), ClosedBelow (preorderBlock b)
  | some ⟨_, body⟩ => closedBelow_option body
  | none => .nil

theorem closedBelow_list : ∀ nodes : List Node, ClosedBelow (preorderList nodes)
  | [] => .nil
  | n :: ns => (closedBelow_preorder n).append (closedBelow_list ns)

theorem closedBelow_option : ∀ n : Option Node, ClosedBelow (preorderOption n)
  | some n => closedBelow_preorder n
  | none => .nil

end

end Node

namespace Program

open Node (ClosedBelow)

variable {p : Program}

theorem closedBelow_nodes (p : Program) : ClosedBelow p.nodes :=
  ((Node.closedBelow_option p.root).append
    (.flatMap fun d _ => Node.closedBelow_option d.body)).append
      (.flatMap fun k _ => Node.closedBelow_preorder k.value)

/-- The receiver of a call of a program is among its nodes. -/
theorem receiver_mem {n r : Node} {c : Call Node} (hn : n ∈ p.nodes) (hc : n.kind = .call c)
    (hr : c.receiver = some r) : r ∈ p.nodes := by
  refine p.closedBelow_nodes n hn ?_
  rw [Node.preorder_eq, hc, Node.preorderKind, Node.preorderCall, hr, Node.preorderOption]
  simp [Node.mem_preorder]

/-! ### What a review has seen -/

theorem IsValid.not_flaw (h : p.IsValid) (f : Flaw) : Remark.flaw f ∉ p.review := fun hf =>
  absurd (List.findSome?_eq_none_iff.mp h _ hf) (by simp [Remark.flaw?])

/-- A type that a review without flaws looked up belongs to the table. -/
theorem IsValid.contains (h : p.IsValid) (subject : String) (l : Option Location) {t : TypeId}
    (ht : p.reviewType subject l t ⊆ p.review) : p.types.contains t = true := by
  by_contra hc
  exact h.not_flaw (.unknownType subject t l) (ht (by simp [reviewType, hc]))

theorem reviewDef_subset {d : Def} (hd : d ∈ p.defs) : p.reviewDef d ⊆ p.review := fun r hr => by
  simp only [review, List.mem_append, List.mem_flatMap]
  exact .inl (.inl (.inr ⟨d, hd, hr⟩))

theorem IsValid.contains_global (h : p.IsValid) {g : GlobalDef} (hg : g ∈ p.globals) :
    p.types.contains g.type = true := by
  refine h.contains ("global " ++ g.name) none fun r hr => ?_
  simp only [review, List.mem_append, List.mem_flatMap]
  exact .inl (.inr ⟨g, hg, hr⟩)

theorem reviewNode_subset {n : Node} (hn : n ∈ p.nodes) : p.reviewNode n ⊆ p.review :=
  fun r hr => by
    simp only [review, List.mem_append, List.mem_flatMap]
    exact .inr ⟨n, hn, hr⟩

/-- The table of a valid program has the types inside its types. -/
theorem IsValid.closed (h : p.IsValid) : p.types.Closed := by
  intro a b hb
  refine h.contains ("type " ++ a.text) none fun r hr => ?_
  simp only [review, List.mem_append, List.mem_flatMap]
  refine .inl (.inl (.inl ⟨a, TypeTable.mem_ids.mpr (TypeTable.contains_of_mem_referenced hb), ?_⟩))
  simp only [reviewInfo, List.mem_append, List.mem_flatMap]
  exact .inl ⟨b, hb, hr⟩

theorem IsValid.contains_owner (h : p.IsValid) {d : Def} (hd : d ∈ p.defs) :
    p.types.contains d.owner = true := by
  refine h.contains ("def " ++ d.name) d.location fun r hr => reviewDef_subset hd ?_
  simp only [reviewDef, List.mem_append]
  exact .inl (.inl (.inl hr))

theorem IsValid.contains_argType (h : p.IsValid) {d : Def} (hd : d ∈ p.defs) {t : TypeId}
    (ht : t ∈ d.argTypes) : p.types.contains t = true := by
  obtain ⟨a, ha, rfl⟩ := List.mem_map.mp ht
  refine h.contains ("argument " ++ a.name ++ " of " ++ d.name) d.location
    fun r hr => reviewDef_subset hd ?_
  simp only [reviewDef, List.mem_append, List.mem_flatMap]
  exact .inl (.inl (.inr ⟨a, ha, hr⟩))

theorem IsValid.contains_resultType (h : p.IsValid) {d : Def} (hd : d ∈ p.defs) {t : TypeId}
    (ht : d.type = some t) : p.types.contains t = true := by
  refine h.contains ("def " ++ d.name) d.location fun r hr => reviewDef_subset hd ?_
  simp only [reviewDef, List.mem_append, List.mem_flatMap, Option.mem_toList]
  exact .inl (.inr ⟨t, ht, hr⟩)

theorem IsValid.contains_type (h : p.IsValid) {n : Node} (hn : n ∈ p.nodes) {t : TypeId}
    (ht : n.type = some t) : p.types.contains t = true := by
  refine h.contains ("node " ++ n.text) n.location fun r hr => reviewNode_subset hn ?_
  simp only [reviewNode, List.mem_append, List.mem_flatMap, Option.mem_toList]
  exact .inl ⟨t, ht, hr⟩

theorem IsValid.contains_scope (h : p.IsValid) {n : Node} (hn : n ∈ p.nodes) {c : Call Node}
    (hc : n.kind = .call c) {t : TypeId} (ht : c.scope = some t) : p.types.contains t = true := by
  refine h.contains ("call " ++ c.name) n.location fun r hr => reviewNode_subset hn ?_
  simp only [reviewNode, hc, reviewCall, List.mem_append, List.mem_flatMap, Option.mem_toList]
  exact .inr (.inl (.inr ⟨t, ht, hr⟩))

theorem IsValid.contains_blockArg (h : p.IsValid) {n : Node} (hn : n ∈ p.nodes) {c : Call Node}
    (hc : n.kind = .call c) {b : Block Node} (hb : c.block = some b) {a : BlockArg}
    (ha : a ∈ b.args) : p.types.contains a.type = true := by
  refine h.contains ("block argument " ++ a.name) n.location fun r hr => reviewNode_subset hn ?_
  simp only [reviewNode, hc, reviewCall, hb, List.mem_append, List.mem_flatMap]
  exact .inr (.inr ⟨a, ha, hr⟩)

theorem IsValid.contains_tested (h : p.IsValid) {n value : Node} (hn : n ∈ p.nodes) {t : TypeId}
    (hk : n.kind = .isA value t) : p.types.contains t = true := by
  refine h.contains "is_a target" n.location fun r hr => reviewNode_subset hn ?_
  simp only [reviewNode, hk, List.mem_append]
  exact .inr hr

/-- A call of a valid program has targets in its table of definitions. -/
theorem IsValid.target_lt (h : p.IsValid) {n : Node} (hn : n ∈ p.nodes) {c : Call Node}
    (hc : n.kind = .call c) {id : DefId} (hid : id ∈ c.targets) : id.index < p.defs.length := by
  by_contra hlt
  refine h.not_flaw (.unknownTarget c.name id n.location) (reviewNode_subset hn ?_)
  simp only [reviewNode, hc, reviewCall, List.mem_append, List.mem_flatMap]
  exact .inr (.inl (.inl ⟨id, hid, by simp [hlt]⟩))

/-- A reference of a valid program is to a constant in its table. -/
theorem IsValid.const_lt (h : p.IsValid) {n : Node} (hn : n ∈ p.nodes) {id : ConstId}
    (hk : n.kind = .const id) : id.index < p.consts.length := by
  by_contra hlt
  refine h.not_flaw (.unknownConstant id n.location) (reviewNode_subset hn ?_)
  simp [reviewNode, hk, hlt]

theorem contains_nil {t : TypeId} (h : p.types.nil? = some t) : p.types.contains t = true :=
  TypeTable.mem_ids.mp (List.mem_of_find?_eq_some h)

/-! ### Symbols -/

theorem mem_insertSorted {s t : String} {l : List String} :
    t ∈ insertSorted s l ↔ t = s ∨ t ∈ l := by
  induction l with
  | nil => simp [insertSorted]
  | cons x xs ih => grind [insertSorted]

/-- The symbols of a program are those that are declared and those of its literals. -/
theorem mem_symbolSet {s : String} : s ∈ p.symbolSet ↔
    s ∈ p.symbols ∨ ∃ n ∈ p.nodes, n.kind = .symbolLiteral s := by
  have hfold : ∀ l : List String, s ∈ l.foldr insertSorted [] ↔ s ∈ l := fun l => by
    induction l with
    | nil => rfl
    | cons x xs ih => rw [List.foldr_cons, mem_insertSorted, ih, List.mem_cons]
  have hliteral : ∀ n : Node, symbolOf? n.kind = some s ↔ n.kind = .symbolLiteral s := fun n => by
    cases n.kind <;> simp [symbolOf?]
  rw [symbolSet, hfold, List.mem_append, List.mem_filterMap]
  simp only [hliteral]

/-! ### Receivers -/

theorem IsValid.contains_receiverType (h : p.IsValid) {n : Node} (hn : n ∈ p.nodes)
    {c : Call Node} (hc : n.kind = .call c) {t : TypeId} (ht : p.receiverType? c = some t) :
    p.types.contains t = true := by
  unfold receiverType? at ht
  split at ht
  · rename_i r hr
    rcases Option.or_eq_some_iff.mp ht with ht | ⟨-, ht⟩
    · exact h.contains_type (receiver_mem hn hc hr) ht
    · exact contains_nil ht
  · exact h.contains_scope hn hc ht

/-- A type that a definition takes the receiver of a call as is passed, and belongs to the table. -/
theorem Means.passedAsSelf {d : Def} {t : TypeId} (hm : p.Means d (some t)) :
    p.types.passedAsSelf t = true := by
  obtain ⟨n, -, id, hd, hm⟩ := hm
  obtain ⟨c, d', -, -, -, -, hs⟩ := mem_meant.mp hm
  exact (Option.filter_eq_some_iff.mp hs).2

theorem Means.mem_defs {d : Def} {t : Option TypeId} (hm : p.Means d t) : d ∈ p.defs := by
  obtain ⟨-, -, id, hd, -⟩ := hm
  exact List.mem_of_getElem? hd

/-- The type that a definition takes the receiver of a call as belongs to the table. -/
theorem IsValid.contains_selfType (h : p.IsValid) {n : Node} (hn : n ∈ p.nodes) {c : Call Node}
    (hc : n.kind = .call c) {d : Def} (hd : d ∈ p.defs) {t : TypeId}
    (ht : p.selfTypeOf c d = some t) : p.types.contains t = true := by
  have howner := h.contains_owner hd
  have ht := (Option.filter_eq_some_iff.mp ht).1
  split at ht
  · cases ht
  · exact Option.some.inj ht ▸ howner
  · exact Option.some.inj ht ▸ howner
  · exact Option.some.inj ht ▸ howner
  · obtain rfl := Option.some.inj ht
    split
    · cases hr : p.receiverType? c with
      | none => exact howner
      | some t => exact h.contains_receiverType hn hc hr
    · exact howner

theorem Means.contains (h : p.IsValid) {d : Def} {t : TypeId} (hm : p.Means d (some t)) :
    p.types.contains t = true := by
  have hd := hm.mem_defs
  obtain ⟨n, hn, id, hid, hm⟩ := hm
  obtain ⟨c, d', hc, -, -, hd', hs⟩ := mem_meant.mp hm
  obtain rfl : d = d' := Option.some.inj (hid.symm.trans hd')
  exact h.contains_selfType hn hc hd hs

end Program

end Lowering
