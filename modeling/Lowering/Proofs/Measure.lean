import Lowering.Generation
import Lowering.Proofs.Growth
import Lowering.Proofs.Review
import Lowering.Proofs.RoundTrip
import Mathlib.Data.Set.Card

/-!
# What generation still has to do

Code is generated at most once for each symbol and for each constant, a call with a block is
generated from the body of the definition, and a `yield` from the block that waits.  A number falls
at each of these steps, and at each step to an expression below.

* `Program.Inlines`, `Program.InliningEnds`: calls with a block, from definition to definition;
* `Program.weight`: of an expression, by its height and by the definitions that it leads to;
* `Program.weight_children`, `Program.weight_inlined`, `Program.weight_lt_base`;
* `Gen.load`: of a state, with `Gen.load_le`, `Gen.load_begun`, `Gen.load_popped`.
-/

namespace Lowering

namespace Node

/-! ### Heights -/

theorem height_le_heightList {n : Node} {ns : List Node} (h : n ∈ ns) :
    n.height ≤ heightList ns := by
  induction ns with
  | nil => exact absurd h List.not_mem_nil
  | cons m ns ih =>
    rw [heightList]
    rcases List.mem_cons.mp h with rfl | h
    · exact le_max_left _ _
    · exact (ih h).trans (le_max_right _ _)

theorem height_le_heightOption {n : Node} {o : Option Node} (h : n ∈ o) :
    n.height ≤ heightOption o := by
  rw [Option.mem_def.mp h, heightOption]

theorem heightList_append (xs ys : List Node) :
    heightList (xs ++ ys) = max (heightList xs) (heightList ys) := by
  induction xs with
  | nil => simp [heightList]
  | cons n xs ih => rw [List.cons_append, heightList, heightList, ih, max_assoc]

theorem heightOption_eq (o : Option Node) : heightOption o = heightList o.toList := by
  cases o <;> simp [heightOption, heightList]

theorem heightKind_eq (kind : NodeKind Node) : heightKind kind = heightList kind.children := by
  cases kind with
  | call c =>
    obtain ⟨receiver, name, args, targets, block, scope⟩ := c
    have hblock : heightBlock block = heightList (block.bind Block.body).toList := by
      match block with
      | none => rfl
      | some ⟨_, body⟩ => exact heightOption_eq body
    simp [heightKind, heightCall, NodeKind.children, heightList_append, heightOption_eq, hblock]
  | _ => simp [heightKind, NodeKind.children, heightList, heightList_append, heightOption_eq]

theorem height_lt_of_mem_children {n m : Node} (h : m ∈ n.children) : m.height < n.height := by
  obtain ⟨id, kind, type, location⟩ := n
  rw [height, Nat.lt_succ_iff, heightKind_eq]
  exact height_le_heightList h

/-- The definitions that a call with a block can resolve to. -/
def inlined (n : Node) : List DefId :=
  match n.kind with
  | .call c => if c.block.isSome then c.targets else []
  | _ => []

theorem mem_inlined {n : Node} {i : DefId} {k : Call Node} {b : Block Node} (hk : n.kind = .call k)
    (hb : k.block = some b) (hi : i ∈ k.targets) : i ∈ n.inlined := by
  rw [inlined, hk]
  simpa [hb] using hi

end Node

namespace Program

variable (p : Program)

/-! ### Calls with a block -/

/-- The body of a definition has a call with a block that can resolve to another definition. -/
def Inlines (i j : DefId) : Prop :=
  ∃ d, p.def? i = some d ∧ ∃ n ∈ Node.preorderOption d.body, j ∈ n.inlined

/-- No definition reaches itself through calls with a block. -/
def InliningEnds : Prop := ∀ i, ¬ Relation.TransGen p.Inlines i i

/-- Calls with a block lead from code to a definition. -/
def Nests (code : List Node) (j : DefId) : Prop :=
  ∃ n ∈ code, ∃ i ∈ n.inlined, Relation.ReflTransGen p.Inlines i j

/-- The number of definitions to which calls with a block lead from code. -/
noncomputable def rank (code : List Node) : Nat :=
  {i : Fin p.defs.length | p.Nests code ⟨i⟩}.ncard

/-- Each call with a block in the body of a definition resolves to earlier definitions. -/
def InlinesEarlier : Prop :=
  ∀ i < p.defs.length, ∀ d ∈ p.def? ⟨i⟩, ∀ n ∈ Node.preorderOption d.body, ∀ j ∈ n.inlined,
    j.index < i

instance : Decidable p.InlinesEarlier := by unfold InlinesEarlier; infer_instance

variable {p}

theorem InlinesEarlier.ends (h : p.InlinesEarlier) : p.InliningEnds := by
  have hstep : ∀ {i j}, p.Inlines i j → j.index < i.index := fun ⟨d, hd, n, hn, hj⟩ =>
    h _ (List.getElem?_eq_some_iff.mp hd).1 d hd n hn _ hj
  have hall : ∀ {i j}, Relation.TransGen p.Inlines i j → j.index < i.index := fun ht => by
    induction ht with
    | single h => exact hstep h
    | tail _ h ih => exact (hstep h).trans ih
  exact fun i hi => lt_irrefl _ (hall hi)

theorem rank_mono {xs ys : List Node} (h : xs ⊆ ys) : p.rank xs ≤ p.rank ys :=
  Set.ncard_le_ncard (fun _ ⟨n, hn, hi⟩ => ⟨n, h hn, hi⟩) (Set.toFinite _)

theorem rank_le (code : List Node) : p.rank code ≤ p.defs.length := by
  refine (Set.ncard_le_ncard (Set.subset_univ _) (Set.toFinite _)).trans_eq ?_
  rw [Set.ncard_univ, Nat.card_eq_fintype_card, Fintype.card_fin]

/-- Fewer definitions are led to from the body of one than from where it is inlined. -/
theorem rank_body_lt (hend : p.InliningEnds) {code : List Node} {n : Node} {i : DefId} {d : Def}
    (hn : n ∈ code) (hi : i ∈ n.inlined) (hd : p.def? i = some d) :
    p.rank (Node.preorderOption d.body) < p.rank code := by
  refine Set.ncard_lt_ncard (Set.ssubset_iff_exists.mpr ⟨?_, ?_⟩) (Set.toFinite _)
  · rintro j ⟨m, hm, k, hk, hj⟩
    exact ⟨n, hn, i, hi, .head ⟨d, hd, m, hm, hk⟩ hj⟩
  · have hlt : i.index < p.defs.length := (List.getElem?_eq_some_iff.mp hd).1
    refine ⟨⟨i.index, hlt⟩, ⟨n, hn, i, hi, .refl⟩, ?_⟩
    rintro ⟨m, hm, k, hk, hj⟩
    exact hend i (.head' ⟨d, hd, m, hm, hk⟩ hj)

/-! ### Weights -/

variable (p)

/-- One more than the height that any expression of the program has. -/
def radix : Nat := p.height + 2

/-- How much there is to generate for an expression, apart from functions and constants. -/
noncomputable def weight (n : Node) : Nat := (n.height + 1) * p.radix ^ p.rank n.preorder

/-- How much there is to generate for an optional expression. -/
noncomputable def weightOption (o : Option Node) : Nat := o.elim 0 p.weight

/-- More than the weight of any expression of the program. -/
def base : Nat := p.radix ^ (p.defs.length + 1)

variable {p}

theorem radix_pow_pos (k : Nat) : 0 < p.radix ^ k := Nat.pow_pos (Nat.succ_pos _)

theorem weight_pos (n : Node) : 0 < p.weight n := Nat.mul_pos (Nat.succ_pos _) (radix_pow_pos _)

theorem weight_children {n m : Node} (h : m ∈ n.children) : p.weight m < p.weight n := by
  have hsub : m.preorder ⊆ n.preorder := by
    rw [Node.preorder_eq n]
    exact List.Subset.trans (Node.preorder_subset_of_mem_children h) (List.subset_cons_self _ _)
  calc p.weight m ≤ (m.height + 1) * p.radix ^ p.rank n.preorder :=
        Nat.mul_le_mul_left _ (Nat.pow_le_pow_right (Nat.succ_pos _) (rank_mono hsub))
    _ < p.weight n := Nat.mul_lt_mul_of_pos_right
        (Nat.succ_lt_succ (Node.height_lt_of_mem_children h)) (radix_pow_pos _)

theorem height_body {n : Node} (h : n ∈ p.bodies) : n.height ≤ p.height := by
  rw [height]
  rcases mem_bodies.mp h with h | ⟨d, hd, h⟩ | ⟨k, hk, rfl⟩
  · exact (Node.height_le_heightOption h).trans (le_max_left _ _)
  · refine (Node.height_le_heightList ?_).trans ((le_max_left _ _).trans (le_max_right _ _))
    exact List.mem_filterMap.mpr ⟨d, hd, h⟩
  · refine (Node.height_le_heightList ?_).trans ((le_max_right _ _).trans (le_max_right _ _))
    exact List.mem_map_of_mem hk

theorem weight_lt_base {n : Node} (h : n ∈ p.bodies) : p.weight n < p.base := by
  have hheight : n.height + 1 < p.radix := Nat.lt_succ_of_le (Nat.succ_le_succ (height_body h))
  calc p.weight n < p.radix * p.radix ^ p.rank n.preorder :=
        Nat.mul_lt_mul_of_pos_right hheight (radix_pow_pos _)
    _ = p.radix ^ (p.rank n.preorder + 1) := (Nat.pow_succ').symm
    _ ≤ p.base := Nat.pow_le_pow_right (Nat.succ_pos _) (Nat.succ_le_succ (rank_le _))

/-- The body of a definition and a block weigh less than a call that gives it the block. -/
theorem weight_inlined (hend : p.InliningEnds) {n : Node} {k : Call Node} {b : Block Node}
    {i : DefId} {d : Def} (hk : n.kind = .call k) (hb : k.block = some b) (hi : i ∈ k.targets)
    (hd : p.def? i = some d) : p.weightOption b.body + p.weightOption d.body < p.weight n := by
  have hblock : p.weightOption b.body ≤ n.height * p.radix ^ p.rank n.preorder := by
    cases hbody : b.body with
    | none => exact Nat.zero_le _
    | some m =>
      have hm : m ∈ n.children := by simp [Node.children, hk, NodeKind.children, hb, hbody]
      have hsub : m.preorder ⊆ n.preorder := by
        rw [Node.preorder_eq n]
        exact List.Subset.trans (Node.preorder_subset_of_mem_children hm) (List.subset_cons_self _ _)
      exact Nat.mul_le_mul (Node.height_lt_of_mem_children hm)
        (Nat.pow_le_pow_right (Nat.succ_pos _) (rank_mono hsub))
  have hbody : p.weightOption d.body < p.radix ^ p.rank n.preorder := by
    cases hm : d.body with
    | none => exact radix_pow_pos _
    | some m =>
      have hbodies : m ∈ p.bodies :=
        mem_bodies.mpr (.inr (.inl ⟨d, List.mem_of_getElem? hd, hm⟩))
      have hrank := rank_body_lt hend (Node.mem_preorder n) (Node.mem_inlined hk hb hi) hd
      rw [hm, Node.preorderOption] at hrank
      calc p.weight m < p.radix * p.radix ^ p.rank m.preorder :=
            Nat.mul_lt_mul_of_pos_right (Nat.lt_succ_of_le (Nat.succ_le_succ (height_body hbodies)))
              (radix_pow_pos _)
        _ = p.radix ^ (p.rank m.preorder + 1) := (Nat.pow_succ').symm
        _ ≤ p.radix ^ p.rank n.preorder := Nat.pow_le_pow_right (Nat.succ_pos _) hrank
  calc p.weightOption b.body + p.weightOption d.body
      < n.height * p.radix ^ p.rank n.preorder + p.radix ^ p.rank n.preorder :=
        Nat.add_lt_add_of_le_of_lt hblock hbody
    _ = p.weight n := (Nat.succ_mul _ _).symm

/-! ### Functions and constants -/

variable (p)

/-- The symbols that functions can have, for each definition without a receiver and with one of each
type. -/
def functionNames : List String :=
  p.defs.flatMap fun d => (none :: p.types.ids.map some).map (d.mangledName p.types)

/-- How many of the symbols no function has yet. -/
def untaken (m : IR.Module) : Nat :=
  (p.functionNames.filter fun name => (m.findFunction name).isNone).length

/-- How many of the constants have no global yet. -/
def unhoisted (consts : List (ConstId × IR.GlobalId)) : Nat :=
  ((List.range p.consts.length).filter fun i => (consts.lookup ⟨i⟩).isNone).length

variable {p}

theorem mem_functionNames {d : Def} (hd : d ∈ p.defs) {t : Option TypeId}
    (ht : ∀ t' ∈ t, p.types.contains t' = true) :
    d.mangledName p.types t ∈ p.functionNames := by
  refine List.mem_flatMap.mpr ⟨d, hd, List.mem_map_of_mem ?_⟩
  cases t with
  | none => exact List.mem_cons_self
  | some t =>
    exact List.mem_cons_of_mem _ (List.mem_map_of_mem (TypeTable.mem_ids.mpr (ht t rfl)))

theorem length_functionNames : p.functionNames.length = p.defs.length * (p.types.size + 1) := by
  simp [functionNames, List.length_flatMap, TypeTable.ids, Nat.add_comm]

end Program

theorem IR.Module.Grows.findFunction {m m' : IR.Module} (h : m.Grows m') {name : String}
    (hn : m'.findFunction name = none) : m.findFunction name = none := by
  cases hf : m.findFunction name with
  | none => rfl
  | some f =>
    obtain ⟨hlt, hname⟩ := IR.Module.of_findFunction hf
    refine absurd ?_ (IR.Module.name_ne_of_findFunction hn (hlt.trans_le h.functions))
    exact (h.function f hlt).name.trans hname

namespace Gen

variable {p : Program} {s s' : State}

/-! ### The load of a state -/

variable (p)

/-- How much there is to generate in a state besides the expression at hand: functions, constants
and the blocks that wait. -/
noncomputable def load (s : State) : Nat :=
  (p.untaken s.builder.module + p.unhoisted s.consts) * p.base +
    (s.blocks.map fun fr => p.weightOption fr.block.body).sum

variable {p}

theorem untaken_le {m m' : IR.Module} (h : m.Grows m') : p.untaken m' ≤ p.untaken m := by
  rw [Program.untaken, Program.untaken, ← List.countP_eq_length_filter,
    ← List.countP_eq_length_filter]
  refine List.countP_mono_left fun name _ hn => ?_
  rw [Option.isNone_iff_eq_none] at hn ⊢
  exact h.findFunction hn

theorem unhoisted_le {ks ks' : List (ConstId × IR.GlobalId)} (h : ks ⊆ ks') :
    p.unhoisted ks' ≤ p.unhoisted ks := by
  rw [Program.unhoisted, Program.unhoisted, ← List.countP_eq_length_filter,
    ← List.countP_eq_length_filter]
  refine List.countP_mono_left fun i _ hn => ?_
  rw [Option.isNone_iff_eq_none, List.lookup_eq_none_iff] at hn ⊢
  exact fun q hq => hn q (h hq)

/-- A list filtered by less is shorter when it loses a member. -/
theorem length_filter_lt {α : Type} {l : List α} {f g : α → Bool} (h : ∀ a, f a → g a) {a : α}
    (ha : a ∈ l) (hf : f a = false) (hg : g a = true) :
    (l.filter f).length < (l.filter g).length := by
  have hfg : l.filter f = (l.filter g).filter f := by
    rw [List.filter_filter]
    refine List.filter_congr fun b _ => ?_
    cases hb : f b with
    | false => rfl
    | true => rw [h b hb, Bool.and_self]
  rw [hfg]
  exact List.length_filter_lt_length_iff_exists.mpr
    ⟨a, List.mem_filter.mpr ⟨ha, hg⟩, by simp [hf]⟩

/-- A new function takes a symbol. -/
theorem untaken_lt {m m' : IR.Module} (h : m.Grows m') {name : String}
    (hn : name ∈ p.functionNames) (hold : m.findFunction name = none)
    (hnew : m'.findFunction name ≠ none) : p.untaken m' < p.untaken m := by
  refine length_filter_lt (fun name hn => ?_) hn (Option.isNone_eq_false_iff.mpr
    (Option.isSome_iff_ne_none.mpr hnew)) (Option.isNone_iff_eq_none.mpr hold)
  rw [Option.isNone_iff_eq_none] at hn ⊢
  exact h.findFunction hn

/-- A new constant is not hoisted again. -/
theorem unhoisted_lt {ks : List (ConstId × IR.GlobalId)} {id : ConstId} {g : IR.GlobalId}
    (hid : id.index < p.consts.length) (hold : ks.lookup id = none) :
    p.unhoisted ((id, g) :: ks) < p.unhoisted ks := by
  refine length_filter_lt (fun i hi => ?_) (List.mem_range.mpr hid) ?_ ?_
  · rw [Option.isNone_iff_eq_none, List.lookup_eq_none_iff] at hi ⊢
    exact fun q hq => hi q (List.mem_cons_of_mem _ hq)
  · simp
  · exact Option.isNone_iff_eq_none.mpr hold

theorem load_le (hm : s.builder.module.Grows s'.builder.module) (hc : s.consts ⊆ s'.consts)
    (hb : s'.blocks = s.blocks) : load p s' ≤ load p s := by
  rw [load, load, hb]
  exact Nat.add_le_add_right
    (Nat.mul_le_mul_right _ (Nat.add_le_add (untaken_le hm) (unhoisted_le hc))) _

/-- A block that is generated does not wait meanwhile. -/
theorem load_popped {fr : BlockFrame} {rest : List BlockFrame} (hb : s.blocks = fr :: rest) :
    load p { s with blocks := rest } + p.weightOption fr.block.body = load p s := by
  simp only [load, hb, List.map_cons, List.sum_cons]
  omega

/-- What is begun for a new function or constant leaves less than what there was. -/
theorem load_begun (hb : s'.blocks = [])
    (h : p.untaken s'.builder.module + p.unhoisted s'.consts <
      p.untaken s.builder.module + p.unhoisted s.consts) : load p s' + p.base ≤ load p s := by
  rw [load, load, hb]
  calc (p.untaken s'.builder.module + p.unhoisted s'.consts) * p.base + 0 + p.base
      = (p.untaken s'.builder.module + p.unhoisted s'.consts + 1) * p.base := by ring
    _ ≤ (p.untaken s.builder.module + p.unhoisted s.consts) * p.base :=
        Nat.mul_le_mul_right _ h
    _ ≤ _ := Nat.le_add_right _ _

theorem load_lt_nestingBound (hb : s.blocks = []) : load p s + p.base < p.nestingBound := by
  have hnames : p.untaken s.builder.module ≤ p.defs.length * (p.types.size + 1) :=
    (List.length_filter_le _ _).trans_eq Program.length_functionNames
  have hconsts : p.unhoisted s.consts ≤ p.consts.length :=
    (List.length_filter_le _ _).trans_eq List.length_range
  have hbase : 0 < p.base := Program.radix_pow_pos _
  calc load p s + p.base
      = (p.untaken s.builder.module + p.unhoisted s.consts + 1) * p.base := by
        rw [load, hb]
        simp only [List.map_nil, List.sum_nil]
        ring
    _ < (p.defs.length * (p.types.size + 1) + p.consts.length + 2) * p.base :=
        Nat.mul_lt_mul_of_pos_right (by omega) hbase
    _ ≤ p.nestingBound := Nat.mul_le_mul_left _
        (Nat.pow_le_pow_right (Nat.succ_pos _) (Nat.le_succ _))

end Gen

end Lowering
