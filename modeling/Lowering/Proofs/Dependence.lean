import Lowering.Gen.Call
import Mathlib.Logic.Relation
import Mathlib.Tactic

/-!
# Dependence

What the code of a program refers to.  Code belongs to the root, to a definition or to a constant,
and refers to the definitions that its calls can resolve to and to the constants it names.

* `Entity`, `Program.code`, `Program.Refers`;
* `Program.Depends`: references followed any number of times, at least once;
* `Program.asked`, `Program.Asks`: the symbols of the functions that calls ask for;
* `Program.meant`, `Program.Means`: the definitions and receiver types that calls mean;
* `Program.Owns`: code that an entity may contain, its own or inlined.
-/

namespace Lowering

/-- What code belongs to. -/
inductive Entity
  | root
  | definition (d : Def)
  | constant (id : ConstId)

namespace Program

variable (p : Program)

/-- What a node refers to, the nodes below it apart. -/
def references (n : Node) : List Entity :=
  match n.kind with
  | .call c => (c.targets.filterMap p.def?).map .definition
  | .const id => [.constant id]
  | _ => []

/-- The nodes of an entity. -/
def code : Entity → List Node
  | .root => Node.preorderOption p.root
  | .definition d => Node.preorderOption d.body
  | .constant id => (p.const? id).elim [] fun d => d.value.preorder

/-- The code of one entity refers to another one. -/
def Refers (a b : Entity) : Prop := ∃ n ∈ p.code a, b ∈ p.references n

/-- One entity refers to another one, perhaps through others. -/
def Depends : Entity → Entity → Prop := Relation.TransGen p.Refers

/-! ### Symbols -/

/-- The receiver type of a call. -/
def receiverType? (c : Call Node) : Option TypeId :=
  match c.receiver with
  | some r => r.type.or p.types.nil?
  | none => c.scope

/-- The symbol that a call asks for when it means a definition. -/
def symbolOf (c : Call Node) (d : Def) : String :=
  let receiver := if c.targets.length = 1 then p.receiverType? c else some d.owner
  d.mangledName p.types (Gen.selfType? p.types d receiver)

/-- The symbols that a node asks for, with the definitions that it means. A call with a block is
inlined and asks for none. -/
def asked (n : Node) : List (DefId × String) :=
  match n.kind with
  | .call c =>
    if c.block.isSome then []
    else c.targets.filterMap fun id => (p.def? id).map fun d => (id, p.symbolOf c d)
  | _ => []

/-- Code of the program asks for a symbol and means a definition. -/
def Asks (d : Def) (symbol : String) : Prop :=
  ∃ n ∈ p.nodes, ∃ id, p.def? id = some d ∧ (id, symbol) ∈ p.asked n

/-- The type that a definition takes the receiver of a call as, unless it takes none. -/
def selfTypeOf (c : Call Node) (d : Def) : Option TypeId :=
  Gen.selfType? p.types d (if c.targets.length = 1 then p.receiverType? c else some d.owner)

/-- The definitions that a node calls, with the types that they take its receiver as. A call with a
block is inlined and calls none. -/
def meant (n : Node) : List (DefId × Option TypeId) :=
  match n.kind with
  | .call c =>
    if c.block.isSome then []
    else c.targets.filterMap fun id => (p.def? id).map fun d => (id, p.selfTypeOf c d)
  | _ => []

/-- Code of the program calls a definition, which takes the receiver as a type. -/
def Means (d : Def) (t : Option TypeId) : Prop :=
  ∃ n ∈ p.nodes, ∃ id, p.def? id = some d ∧ (id, t) ∈ p.meant n

/-- An entity may call a definition, which it asks for by a symbol. -/
structure Calls (a : Entity) (d : Def) (symbol : String) : Prop where
  depends : p.Depends a (.definition d)
  asks : p.Asks d symbol

/-! ### Code -/

/-- The entity belongs to the program. -/
def Contains : Entity → Prop
  | .definition d => d ∈ p.defs
  | _ => True

/-- An entity may contain code: it depends on all that the code refers to. -/
def Owns (a : Entity) (nodes : List Node) : Prop :=
  ∀ n ∈ nodes, n ∈ p.nodes ∧ ∀ b ∈ p.references n, p.Depends a b

variable {p}

theorem mem_meant {n : Node} {id : DefId} {t : Option TypeId} : (id, t) ∈ p.meant n ↔
    ∃ c d, n.kind = .call c ∧ c.block = none ∧ id ∈ c.targets ∧ p.def? id = some d ∧
      p.selfTypeOf c d = t := by
  unfold meant
  split
  · rename_i c hn
    cases hb : c.block <;> simp [hn, hb]
  · rename_i hn
    exact ⟨fun h => absurd h List.not_mem_nil, fun ⟨c, _, hc, _⟩ => absurd hc (hn c)⟩

/-- A call asks for the symbol of the definition that it means. -/
theorem Means.asks {d : Def} {t : Option TypeId} (h : p.Means d t) :
    p.Asks d (d.mangledName p.types t) := by
  obtain ⟨n, hn, id, hd, hm⟩ := h
  obtain ⟨c, d', hk, hb, hid, hd', rfl⟩ := mem_meant.mp hm
  obtain rfl : d = d' := Option.some.inj (hd.symm.trans hd')
  refine ⟨n, hn, id, hd, ?_⟩
  simp only [asked, hk, hb, Option.isSome_none, Bool.false_eq_true, if_false]
  exact List.mem_filterMap.mpr ⟨id, hid, by rw [hd]; rfl⟩

theorem mem_nodes_of_code {a : Entity} (h : p.Contains a) {n : Node} (hn : n ∈ p.code a) :
    n ∈ p.nodes := by
  simp only [nodes, List.mem_append, List.mem_flatMap]
  cases a with
  | root => exact .inl (.inl hn)
  | definition d => exact .inl (.inr ⟨d, h, hn⟩)
  | constant id =>
    cases hk : p.const? id with
    | none => simp [code, hk] at hn
    | some k =>
      refine .inr ⟨k, List.mem_of_getElem? hk, ?_⟩
      simpa [code, hk] using hn

theorem contains_of_mem_references {b : Entity} {n : Node} (h : b ∈ p.references n) :
    p.Contains b := by
  unfold references at h
  split at h
  · obtain ⟨d, hd, rfl⟩ := List.mem_map.mp h
    obtain ⟨id, -, hid⟩ := List.mem_filterMap.mp hd
    exact List.mem_of_getElem? hid
  · rw [List.mem_singleton.mp h]
    trivial
  · exact absurd h List.not_mem_nil

theorem Depends.contains {a b : Entity} (h : p.Depends a b) : p.Contains b := by
  induction h with
  | single h => exact contains_of_mem_references h.choose_spec.2
  | tail _ h => exact contains_of_mem_references h.choose_spec.2

theorem owns_code {a : Entity} (h : p.Contains a) : p.Owns a (p.code a) :=
  fun n hn => ⟨mem_nodes_of_code h hn, fun _ hb => .single ⟨n, hn, hb⟩⟩

/-- Code that an entity depends on may be inlined into it. -/
theorem Depends.owns {a b : Entity} (h : p.Depends a b) : p.Owns a (p.code b) :=
  fun n hn => ⟨mem_nodes_of_code h.contains hn, fun _ hb => h.tail ⟨n, hn, hb⟩⟩

namespace Owns

variable {a : Entity} {xs ys : List Node}

theorem mono (h : p.Owns a ys) (hs : xs ⊆ ys) : p.Owns a xs := fun n hn => h n (hs hn)

theorem append : p.Owns a (xs ++ ys) ↔ p.Owns a xs ∧ p.Owns a ys := by
  simp only [Owns, List.mem_append, or_imp, forall_and]
  exact and_and_and_comm

theorem nil : p.Owns a [] := fun _ h => absurd h (by simp)

end Owns

end Program

namespace Node

/-- The node and all below its kind. -/
theorem preorder_eq (n : Node) : n.preorder = n :: preorderKind n.kind := by
  cases n; rw [preorder]

theorem mem_preorder (n : Node) : n ∈ n.preorder := by rw [preorder_eq]; exact List.mem_cons_self

end Node

end Lowering
