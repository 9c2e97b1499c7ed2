import Lowering.Proofs.Encoding

/-!
# Programs written and read back

What is written for a program is read back as the program, unless one of its nodes refers to a
constant: the number of the constant is then a second field `id` beside the number of the node.

* `Node.plain`, `Node.keep`: nodes none of which refers to a constant;
* `Node.ofFields?_kindFields`: one kind of expression, given that what is below it is read back;
* `Node.readWithin_toJson`: a node, by induction on the depth to which it is read;
* `Program.FloatsSurvive`, `Program.load_write`: a whole program.
-/

namespace Lowering

/-! ### Nodes without constants -/

/-- The value of a floating-point literal. -/
def NodeKind.float? {α : Type} : NodeKind α → Option Binary64
  | .floatLiteral x => some x
  | _ => none

/-- A reference to a constant. -/
def NodeKind.isConst {α : Type} : NodeKind α → Bool
  | .const _ => true
  | _ => false

namespace Node

variable {α β : Type}

/-- None of the nodes refers to a constant. -/
def plain (l : List Node) : Bool := l.all fun n => !n.kind.isConst

/-- A value that is lost when one of the nodes refers to a constant. -/
def keep (l : List Node) (a : α) : Option α := if plain l then some a else none

@[simp] theorem keep_nil (a : α) : keep [] a = some a := rfl

@[simp] theorem keep_bind_some (l : List Node) (a : α) (f : α → β) :
    ((keep l a).bind fun x => some (f x)) = keep l (f a) := by
  unfold keep
  split <;> rfl

@[simp] theorem map_keep (l : List Node) (a : α) (f : α → β) :
    (keep l a).map f = keep l (f a) := by
  unfold keep
  split <;> rfl

@[simp] theorem keep_bind_keep (l l' : List Node) (a : α) (f : α → β) :
    ((keep l a).bind fun x => keep l' (f x)) = keep (l ++ l') (f a) := by
  have happ : plain (l ++ l') = (plain l && plain l') := List.all_append
  rw [keep, keep, happ]
  cases plain l <;> rfl

/-! ### What a kind of expression writes -/

theorem listJson_eq (ns : List Node) : listJson ns = ns.map toJson := by
  induction ns with
  | nil => rfl
  | cons n ns ih => rw [listJson, ih, List.map_cons]

theorem optionJson_eq (o : Option Node) : optionJson o = .ofOption toJson o := by
  cases o <;> rfl

theorem preorderList_eq (ns : List Node) : preorderList ns = ns.flatMap preorder := by
  induction ns with
  | nil => rfl
  | cons n ns ih => rw [preorderList, ih, List.flatMap_cons]

theorem kindFields_names (k : NodeKind Node) : ∀ f ∈ kindFields k,
    f.1 ∉ ["node", "type", "location"] ∧ (f.1 = "id" → k.isConst = true) := by
  cases k with
  | call c =>
    obtain ⟨receiver, name, args, targets, block, scope⟩ := c
    simp [kindFields, callFields, NodeKind.isConst]
  | _ => simp [kindFields, NodeKind.isConst]

section

variable {read : Json → Option Node}

theorem list?_keep {γ : Type} {reader : Json → Option γ} {write : γ → Json} {nodes : γ → List Node}
    {l : List γ} (h : ∀ a ∈ l, reader (write a) = keep (nodes a) a) :
    Json.list? reader (.array (l.map write)) = keep (l.flatMap nodes) l := by
  show (l.map write).mapM reader = _
  induction l with
  | nil => rfl
  | cons a l ih =>
    obtain ⟨ha, hl⟩ := List.forall_mem_cons.mp h
    rw [List.map_cons, List.mapM_cons, ha, ih hl]
    simp

theorem list?_listJson {l : List Node} (h : ∀ n ∈ l, read (toJson n) = keep n.preorder n) :
    Json.list? read (.array (listJson l)) = keep (preorderList l) l := by
  rw [listJson_eq, preorderList_eq, list?_keep h]

theorem toJson_ne_null (n : Node) : toJson n ≠ .null := by
  cases n
  simp [toJson]

theorem optional_optionJson {o : Option Node} (h : ∀ n ∈ o, read (toJson n) = keep n.preorder n) :
    Json.optional read (some (optionJson o)) = keep (preorderOption o) o := by
  cases o with
  | none => rfl
  | some n =>
    rw [optionJson, Json.optional_of_ne_null (toJson_ne_null n), h n rfl]
    simp [preorderOption]

theorem block?_toJson {args : List BlockArg} {body : Option Node}
    (hbody : ∀ n ∈ body, read (toJson n) = keep n.preorder n) (hargs : ∀ a ∈ args, a.type.Fits) :
    NodeKind.block? read (.object [("args", .array (args.map BlockArg.toJson)),
      ("body", optionJson body)]) = keep (preorderOption body) ⟨args, body⟩ := by
  have hb := optional_optionJson hbody
  have ha : Json.list? BlockArg.ofJson? (.array (args.map BlockArg.toJson)) = some args :=
    Json.list?_map fun a h => BlockArg.ofJson?_toJson (hargs a h)
  simp [NodeKind.block?, Json.record?, Json.slots?, Json.slot?, Json.default, ha, hb]

theorem optional_blockJson {block : Option (Block Node)}
    (hbody : ∀ n ∈ block.bind Block.body, read (toJson n) = keep n.preorder n)
    (hargs : ∀ b ∈ block, ∀ a ∈ b.args, a.type.Fits) :
    Json.optional (NodeKind.block? read) (some (blockJson block)) =
      keep (preorderBlock block) block := by
  match block with
  | none => rfl
  | some ⟨args, body⟩ =>
    have hbody' : ∀ n ∈ body, read n.toJson = keep n.preorder n := hbody
    rw [blockJson, Json.optional_of_ne_null (by simp),
      block?_toJson hbody' (hargs ⟨args, body⟩ rfl), map_keep, preorderBlock]

theorem call?_callFields {c : Call Node}
    (hread : ∀ n ∈ (NodeKind.call c).children, read (toJson n) = keep n.preorder n)
    (hfits : (NodeKind.call c).Fits) :
    NodeKind.call? read (callFields c) = keep (preorderCall c) c := by
  obtain ⟨receiver, name, args, targets, block, scope⟩ := c
  obtain ⟨htargets, hscope, hblock⟩ := hfits
  simp only [NodeKind.children, List.mem_append, Option.mem_toList, or_imp, forall_and] at hread
  have hr := optional_optionJson hread.1.1
  have ha := list?_listJson hread.1.2
  have hb := optional_blockJson hread.2 hblock
  have ht : Json.list? DefId.ofJson? (.array (targets.map fun t => .nat t.index)) =
      some targets :=
    Json.list?_map (w := fun t : DefId => .nat t.index) fun t h => by
      rw [DefId.ofJson?, Json.natOf?_nat (htargets t h)]
      rfl
  have hs : Json.optional TypeId.ofJson? (some (Json.ofOption TypeId.toJson scope)) = some scope :=
    Json.optional_ofOption nofun fun t h => TypeId.ofJson?_toJson (hscope t h)
  simp [NodeKind.call?, callFields, preorderCall, Json.slots?, Json.slot?, Json.required,
    Json.default, Json.string?, hr, ha, hb, ht, hs]

theorem ofFields?_kindFields {kind : NodeKind Node}
    (hread : ∀ c ∈ kind.children, read (toJson c) = keep c.preorder c) (hfits : kind.Fits) :
    NodeKind.ofFields? read kind.name (kindFields kind) = keep (preorderKind kind) kind := by
  cases kind with
  | call c =>
    have hc := call?_callFields hread hfits
    simp [NodeKind.ofFields?, NodeKind.name, kindFields, preorderKind, hc]
  | primitive op =>
    have hop := Primitive.ofJson?_toJson op
    simp [NodeKind.ofFields?, NodeKind.name, kindFields, preorderKind, Json.slot?, Json.required,
      hop]
  | intLiteral value =>
    have hv := Json.int64?_int hfits.1 hfits.2
    simp [NodeKind.ofFields?, NodeKind.name, kindFields, preorderKind, Json.slot?, Json.required,
      hv]
  | charLiteral value =>
    have hv : Json.natOf? 8 (.nat value.toNat) = some value.toNat := Json.natOf?_nat value.toNat_lt
    simp [NodeKind.ofFields?, NodeKind.name, kindFields, preorderKind, Json.slot?, Json.required,
      hv]
  | floatLiteral value =>
    simp [NodeKind.ofFields?, NodeKind.name, kindFields, preorderKind, Json.slot?, Json.required,
      Json.float?]
  | const id =>
    have hid : Json.natOf? 32 (.nat id.index) = some id.index := Json.natOf?_nat hfits
    simp [NodeKind.ofFields?, NodeKind.name, kindFields, preorderKind, Json.slot?, Json.required,
      hid]
  | isA value target =>
    have hv := hread value (by simp [NodeKind.children])
    have ht := TypeId.ofJson?_toJson hfits
    simp [NodeKind.ofFields?, NodeKind.name, kindFields, preorderKind, Json.slot?, Json.required,
      hv, ht]
  | assign a b | simpleOr a b =>
    have ha := hread a (by simp [NodeKind.children])
    have hb := hread b (by simp [NodeKind.children])
    simp [NodeKind.ofFields?, NodeKind.name, kindFields, preorderKind, Json.slot?, Json.required,
      ha, hb]
  | multiAssign targets values =>
    have ht := list?_listJson (l := targets) fun n hn => hread n (by simp [NodeKind.children, hn])
    have hv := list?_listJson (l := values) fun n hn => hread n (by simp [NodeKind.children, hn])
    simp [NodeKind.ofFields?, NodeKind.name, kindFields, preorderKind, Json.slot?, Json.required,
      ht, hv]
  | expressions nodes | yield nodes =>
    have hn := list?_listJson (l := nodes) fun n hn => hread n (by simp [NodeKind.children, hn])
    simp [NodeKind.ofFields?, NodeKind.name, kindFields, preorderKind, Json.slot?, Json.required,
      Json.default, hn]
  | branch cond whenTrue whenFalse =>
    have hc := hread cond (by simp [NodeKind.children])
    have ht := optional_optionJson (o := whenTrue) fun n hn =>
      hread n (by simp [NodeKind.children, Option.mem_def.mp hn])
    have hf := optional_optionJson (o := whenFalse) fun n hn =>
      hread n (by simp [NodeKind.children, Option.mem_def.mp hn])
    simp [NodeKind.ofFields?, NodeKind.name, kindFields, preorderKind, Json.slot?, Json.required,
      hc, ht, hf]
  | loop cond body runOnce =>
    have hc := hread cond (by simp [NodeKind.children])
    have hb := optional_optionJson (o := body) fun n hn =>
      hread n (by simp [NodeKind.children, Option.mem_def.mp hn])
    simp [NodeKind.ofFields?, NodeKind.name, kindFields, preorderKind, Json.slot?, Json.required,
      Json.default, Json.bool?, hc, hb]
  | «return» value | «break» value =>
    have hv := optional_optionJson (o := value) fun n hn =>
      hread n (by simp [NodeKind.children, Option.mem_def.mp hn])
    simp [NodeKind.ofFields?, NodeKind.name, kindFields, preorderKind, Json.slot?, hv]
  | pointerOf a =>
    have ha := hread a (by simp [NodeKind.children])
    simp [NodeKind.ofFields?, NodeKind.name, kindFields, preorderKind, Json.slot?, Json.required,
      ha]
  | _ =>
    simp [NodeKind.ofFields?, NodeKind.name, kindFields, preorderKind, Json.slot?, Json.required,
      Json.bool?, Json.string?]

end

/-! ### Nodes -/

theorem name_mem (k : NodeKind Node) : NodeKind.words.contains k.name = true := by
  cases k <;> simp [NodeKind.name, NodeKind.words]

/-- The fields of a node before those that come after its kind. -/
def headFields (id : Nat) (kind : NodeKind Node) : List (String × Json) :=
  ("id", .nat id) :: ("node", .string kind.name) :: kindFields kind

section

variable {id : Nat} {kind : NodeKind Node} {type : Option TypeId} {location : Option Location}

/-- A reference to a constant is written with two fields of one name. -/
theorem slot?_id_const (h : kind.isConst = true) (rest : List (String × Json)) :
    Json.slot? (headFields id kind ++ rest) "id" = none := by
  match kind, h with
  | .const c, _ =>
    simp [headFields, kindFields, Json.slot?]

theorem headFields_names {name : String} (h : name ∈ ["type", "location"]) :
    ∀ f ∈ headFields id kind, f.1 ≠ name := by
  have hne : "id" ≠ name ∧ "node" ≠ name := by
    simp only [List.mem_cons, List.not_mem_nil, or_false] at h
    rcases h with rfl | rfl <;> simp
  refine List.forall_mem_cons.mpr ⟨hne.1, List.forall_mem_cons.mpr ⟨hne.2, ?_⟩⟩
  rintro f hf rfl
  exact (kindFields_names kind f hf).1 (List.mem_cons_of_mem _ h)

theorem slots?_node (h : kind.isConst = false) (t l : Json) :
    Json.slots? (headFields id kind ++ [("type", t), ("location", l)]) ["id", "type", "location"] =
      some [some (.nat id), some t, some l] := by
  have hid : Json.slot? (headFields id kind ++ [("type", t), ("location", l)]) "id" =
      some (some (.nat id)) := by
    refine Json.slot?_cons_self fun f hf hname => ?_
    rcases List.mem_cons.mp hf with hf | hf
    · simp [hf] at hname
    · rcases List.mem_append.mp hf with hf | hf
      · rw [(kindFields_names kind f hf).2 hname] at h
        cases h
      · simp only [List.mem_cons, List.not_mem_nil, or_false] at hf
        rcases hf with rfl | rfl <;> simp at hname
  have ht : Json.slot? (headFields id kind ++ [("type", t), ("location", l)]) "type" =
      some (some t) := by
    rw [Json.slot?_append (headFields_names (by simp))]
    exact Json.slot?_cons_self (by simp)
  have hl : Json.slot? (headFields id kind ++ [("type", t), ("location", l)]) "location" =
      some (some l) := by
    rw [Json.slot?_append (headFields_names (by simp)),
      Json.slot?_cons_of_ne (by simp)]
    exact Json.slot?_cons_self nofun
  simp [Json.slots?, hid, ht, hl]

theorem others_node (h : kind.isConst = false) (t l : Json) :
    Json.others (headFields id kind ++ [("type", t), ("location", l)]) ["id", "type", "location"] =
      ("node", .string kind.name) :: kindFields kind := by
  have hkind : Json.others (("node", .string kind.name) :: kindFields kind)
      ["id", "type", "location"] = ("node", .string kind.name) :: kindFields kind := by
    refine Json.others_eq_self (List.forall_mem_cons.mpr ⟨by simp, fun f hf hmem => ?_⟩)
    have hnames := kindFields_names kind f hf
    simp only [List.mem_cons, List.not_mem_nil, or_false] at hmem hnames
    rcases hmem with hname | hname | hname
    · rw [hnames.2 hname] at h
      cases h
    · exact hnames.1 (.inr (.inl hname))
    · exact hnames.1 (.inr (.inr hname))
  rw [Json.others_append, headFields, ← List.singleton_append, Json.others_append, hkind]
  simp [Json.others]

theorem tagged?_node : Json.tagged? "node" NodeKind.words
    (("node", .string kind.name) :: kindFields kind) = some (kind.name, kindFields kind) :=
  Json.tagged?_cons (name_mem kind) fun f hf hname =>
    (kindFields_names kind f hf).1 (by simp [hname])

end

/-! ### What is written below a node -/

section

variable {kind : NodeKind Node} {c : Node}

/-- Where a node below another one is written. -/
theorem exists_field_of_mem_children (hc : c ∈ kind.children) :
    ∃ f ∈ kindFields kind, toJson c = f.2 ∨ toJson c ∈ f.2.parts := by
  have hlist : ∀ {l : List Node}, c ∈ l → toJson c ∈ (Json.array (listJson l)).parts :=
    fun h => (listJson_eq _).symm ▸ List.mem_map_of_mem h
  have hoption : ∀ {o : Option Node}, c ∈ o → toJson c = optionJson o := fun h => by
    rw [Option.mem_def.mp h]
    rfl
  have hblock : ∀ {b : Option (Block Node)}, c ∈ b.bind Block.body →
      toJson c ∈ (blockJson b).parts := fun {b} h => by
    match b, h with
    | some ⟨args, body⟩, h =>
      rw [hoption (o := body) h]
      simp [blockJson, Json.parts]
  cases kind with
  | call call =>
    obtain ⟨receiver, name, args, targets, block, scope⟩ := call
    simp only [NodeKind.children, List.mem_append, Option.mem_toList] at hc
    simp only [kindFields, callFields, List.mem_cons, List.not_mem_nil, or_false, exists_eq_or_imp,
      exists_eq_left]
    rcases hc with (hc | hc) | hc
    · exact .inl (.inl (hoption hc))
    · exact .inr (.inr (.inl (.inr (hlist hc))))
    · exact .inr (.inr (.inr (.inr (.inl (.inr (hblock hc))))))
  | assign a b | simpleOr a b =>
    rcases List.mem_pair.mp hc with rfl | rfl <;> simp [kindFields]
  | multiAssign targets values =>
    rcases List.mem_append.mp hc with hc | hc <;> simp [kindFields, hlist hc]
  | expressions nodes | yield nodes => simp [kindFields, hlist (l := nodes) hc]
  | branch cond whenTrue whenFalse =>
    simp only [NodeKind.children, List.cons_append, List.mem_cons, List.mem_append,
      Option.mem_toList] at hc
    rcases hc with rfl | hc | hc
    · simp [kindFields]
    · simp [kindFields, hoption hc]
    · simp [kindFields, hoption hc]
  | loop cond body runOnce =>
    simp only [NodeKind.children, List.mem_cons, Option.mem_toList] at hc
    rcases hc with rfl | hc
    · simp [kindFields]
    · simp [kindFields, hoption hc]
  | «return» value | «break» value =>
    simp [kindFields, hoption (Option.mem_toList.mp hc)]
  | isA value target => simp [kindFields, List.mem_singleton.mp hc]
  | pointerOf target => simp [kindFields, List.mem_singleton.mp hc]
  | _ => cases hc

theorem survives_of_mem_children (h : Json.FieldsSurvive (kindFields kind))
    (hc : c ∈ kind.children) : (toJson c).Survives := by
  obtain ⟨f, hf, hj⟩ := exists_field_of_mem_children hc
  have hs := Json.fieldsSurvive_iff.mp h f hf
  rcases hj with hj | hj
  · exact hj ▸ hs
  · exact hs.of_mem_parts hj

theorem depth_le_of_mem_children (hc : c ∈ kind.children) :
    (toJson c).depth ≤ Json.fieldsDepth (kindFields kind) := by
  obtain ⟨f, hf, hj⟩ := exists_field_of_mem_children hc
  refine le_trans ?_ (Json.depth_le_fieldsDepth hf)
  rcases hj with hj | hj
  · exact le_of_eq (congrArg _ hj)
  · exact (Json.depth_lt_of_mem_parts hj).le

theorem preorderKind_eq (kind : NodeKind Node) :
    preorderKind kind = kind.children.flatMap preorder := by
  have hoption : ∀ o : Option Node, preorderOption o = o.toList.flatMap preorder := fun o => by
    cases o <;> simp [preorderOption]
  cases kind with
  | call call =>
    obtain ⟨receiver, name, args, targets, block, scope⟩ := call
    have hblock : preorderBlock block = (block.bind Block.body).toList.flatMap preorder := by
      match block with
      | none => rfl
      | some ⟨args, body⟩ => exact hoption body
    simp [preorderKind, preorderCall, NodeKind.children, preorderList_eq, hoption, hblock]
  | _ => simp [preorderKind, NodeKind.children, preorderList_eq, hoption]

theorem preorder_subset_of_mem_children (hc : c ∈ kind.children) :
    c.preorder ⊆ preorderKind kind := fun _ hm =>
  preorderKind_eq kind ▸ List.mem_flatMap.mpr ⟨c, hc, hm⟩

end

/-- A node as a document, field by field. -/
theorem toJson_eq (nd : Node) : toJson nd = .object (headFields nd.id nd.kind ++
    [("type", .ofOption TypeId.toJson nd.type),
      ("location", .ofOption Location.toJson nd.location)]) := by
  cases nd
  rw [toJson]
  rfl

theorem fieldsDepth_lt (nd : Node) : Json.fieldsDepth (kindFields nd.kind) < (toJson nd).depth := by
  rw [toJson_eq]
  exact Nat.lt_succ_of_le (Json.fieldsDepth_le fun f hf => Json.depth_le_fieldsDepth
    (List.mem_append_left _ (List.mem_cons_of_mem _ (List.mem_cons_of_mem _ hf))))

/-- What follows for a node from the nodes directly below it holds of every node. -/
theorem children_induction {P : Node → Prop} (step : ∀ nd : Node, (∀ c ∈ nd.children, P c) → P nd)
    (nd : Node) : P nd := by
  induction hn : (toJson nd).depth using Nat.strong_induction_on generalizing nd with
  | _ n ih =>
    refine step nd fun c hc => ih _ ?_ c rfl
    exact hn ▸ (depth_le_of_mem_children hc).trans_lt (fieldsDepth_lt nd)

/-- A node is read back, if none of its nodes refers to a constant. -/
theorem readWithin_toJson {n : Nat} {nd : Node} (hs : (toJson nd).Survives)
    (hd : (toJson nd).depth ≤ n) (hf : ∀ m ∈ nd.preorder, m.Fits) :
    readWithin n (toJson nd) = keep nd.preorder nd := by
  induction n generalizing nd with
  | zero => exact absurd (fieldsDepth_lt nd) (by omega)
  | succ n ih =>
    have hdepth : Json.fieldsDepth (kindFields nd.kind) ≤ n := by
      have := fieldsDepth_lt nd
      omega
    rw [toJson_eq] at hs
    have hkind : Json.FieldsSurvive (kindFields nd.kind) := Json.fieldsSurvive_iff.mpr fun f h =>
      Json.fieldsSurvive_iff.mp hs f
        (List.mem_append_left _ (List.mem_cons_of_mem _ (List.mem_cons_of_mem _ h)))
    have hread : ∀ c ∈ nd.kind.children, readWithin n (toJson c) = keep c.preorder c := fun c hc =>
      ih (survives_of_mem_children hkind hc) ((depth_le_of_mem_children hc).trans hdepth)
        fun m hm => hf m (preorder_eq nd ▸
          List.mem_cons_of_mem _ (preorder_subset_of_mem_children hc hm))
    have hpreorder : keep nd.preorder nd =
        if nd.kind.isConst then none else keep (preorderKind nd.kind) nd := by
      rw [preorder_eq, keep, plain, List.all_cons]
      cases nd.kind.isConst <;> rfl
    rw [hpreorder, toJson_eq, readWithin]
    cases hconst : nd.kind.isConst with
    | false =>
      have hnode := hf nd (mem_preorder nd)
      have hreadable := Json.FieldsSurvive.allFieldsReadable
        (show Json.FieldsSurvive (("node", .string nd.kind.name) :: kindFields nd.kind) from
          ⟨trivial, hkind⟩)
      have ht : Json.optional TypeId.ofJson? (some (Json.ofOption TypeId.toJson nd.type)) =
          some nd.type :=
        Json.optional_ofOption nofun fun t h => TypeId.ofJson?_toJson (hnode.type t h)
      have hl : Json.optional Location.ofJson? (some (Json.ofOption Location.toJson nd.location)) =
          some nd.location :=
        Json.optional_ofOption nofun fun l h => Location.ofJson?_toJson (hnode.location l h)
      obtain ⟨id, kind, type, location⟩ := nd
      simp [Json.object?, slots?_node hconst, others_node hconst, hreadable, tagged?_node,
        ofFields?_kindFields hread hnode.kind, Json.default, Json.natOf?_nat hnode.id, ht, hl]
    | true => simp [Json.object?, Json.slots?, slot?_id_const hconst]

/-- What a kind of expression writes survives with the nodes below it. -/
theorem survives_kindFields {kind : NodeKind Node} (hfits : kind.Fits)
    (hfloat : ∀ x ∈ kind.float?, (Json.Number.float x).Survives)
    (hc : ∀ c ∈ kind.children, (toJson c).Survives) : Json.FieldsSurvive (kindFields kind) := by
  have hlist : ∀ {l : List Node}, (∀ c ∈ l, (toJson c).Survives) →
      (Json.array (listJson l)).Survives := fun h => listJson_eq _ ▸ Json.survives_map h
  have hoption : ∀ {o : Option Node}, (∀ c ∈ o, (toJson c).Survives) → (optionJson o).Survives :=
    fun h => optionJson_eq _ ▸ Json.survives_ofOption h
  cases kind with
  | call call =>
    obtain ⟨receiver, name, args, targets, block, scope⟩ := call
    obtain ⟨htargets, hscope, hblock⟩ := hfits
    simp only [NodeKind.children, List.mem_append, Option.mem_toList, or_imp, forall_and] at hc
    have ht : (Json.array (targets.map fun t => .nat t.index)).Survives :=
      Json.survives_map fun t ht => Json.survives_nat ((htargets t ht).trans (by decide))
    have hs : (Json.ofOption TypeId.toJson scope).Survives :=
      Json.survives_ofOption fun t ht => (hscope t ht).survives
    have hb : (blockJson block).Survives := by
      match block with
      | none => trivial
      | some ⟨args, body⟩ =>
        have hargs : (Json.array (args.map BlockArg.toJson)).Survives :=
          Json.survives_map fun a ha => BlockArg.survives_toJson (hblock _ rfl a ha)
        simpa [blockJson] using ⟨hargs, hoption (o := body) hc.2⟩
    simpa [kindFields, callFields] using
      ⟨hoption (o := receiver) hc.1.1, hlist (l := args) hc.1.2, ht, hb, hs⟩
  | assign a b | simpleOr a b =>
    simpa [kindFields] using ⟨hc a (by simp [NodeKind.children]), hc b (by simp [NodeKind.children])⟩
  | multiAssign targets values =>
    exact ⟨hlist fun c h => hc c (List.mem_append_left _ h),
      hlist fun c h => hc c (List.mem_append_right _ h), trivial⟩
  | expressions nodes | yield nodes => exact ⟨hlist hc, trivial⟩
  | branch cond whenTrue whenFalse =>
    simp only [NodeKind.children, List.cons_append, List.mem_cons, List.mem_append,
      Option.mem_toList, or_imp, forall_and] at hc
    exact ⟨hc.1 cond rfl, hoption hc.2.1, hoption hc.2.2, trivial⟩
  | loop cond body runOnce =>
    simp only [NodeKind.children, List.mem_cons, Option.mem_toList, forall_eq_or_imp] at hc
    exact ⟨hc.1, hoption hc.2, trivial, trivial⟩
  | «return» value | «break» value =>
    exact ⟨hoption fun c h => hc c (Option.mem_toList.mpr h), trivial⟩
  | isA value target => exact ⟨hc value List.mem_cons_self, hfits.survives, trivial⟩
  | pointerOf target => exact ⟨hc target List.mem_cons_self, trivial⟩
  | intLiteral value =>
    have hlt : twoTo 63 < twoTo 64 := by decide
    exact ⟨Json.survives_integer hfits.1 (by have := hfits.2; omega), trivial⟩
  | floatLiteral x => exact ⟨hfloat x rfl, trivial⟩
  | charLiteral value =>
    have hlt : 2 ^ 8 < twoTo 64 := by decide
    exact ⟨Json.survives_nat (value.toNat_lt.trans hlt), trivial⟩
  | const id => exact ⟨Json.survives_nat (hfits.trans (by decide)), trivial⟩
  | primitive op => exact ⟨Primitive.survives_toJson op, trivial⟩
  | _ => simp [kindFields]

/-- Every node survives whose numbers fit, apart from those floating-point numbers that do not. -/
theorem survives_toJson (nd : Node) (hf : ∀ m ∈ nd.preorder, m.Fits)
    (hfloat : ∀ m ∈ nd.preorder, ∀ x ∈ m.kind.float?, (Json.Number.float x).Survives) :
    (toJson nd).Survives := by
  induction nd using children_induction with
  | step nd ih =>
    have hnode := hf nd (mem_preorder nd)
    have hbelow : ∀ c ∈ nd.children, ∀ m ∈ c.preorder, m ∈ nd.preorder := fun c hc m hm =>
      preorder_eq nd ▸ List.mem_cons_of_mem _ (preorder_subset_of_mem_children hc hm)
    have hkind := survives_kindFields hnode.kind (hfloat nd (mem_preorder nd)) fun c hc =>
      ih c hc (fun m hm => hf m (hbelow c hc m hm)) fun m hm => hfloat m (hbelow c hc m hm)
    have ht : (Json.ofOption TypeId.toJson nd.type).Survives :=
      Json.survives_ofOption fun t h => (hnode.type t h).survives
    have hl : (Json.ofOption Location.toJson nd.location).Survives :=
      Json.survives_ofOption fun l h => (hnode.location l h).survives
    rw [toJson_eq, Json.survives_object, Json.fieldsSurvive_iff]
    refine List.forall_mem_append.mpr ⟨?_, ?_⟩
    · exact Json.fieldsSurvive_iff.mp ⟨Json.survives_nat hnode.id, trivial, hkind⟩
    · exact Json.fieldsSurvive_iff.mp ⟨ht, hl, trivial⟩

end Node

/-! ### Programs -/

theorem Node.ofJson?_toJson {nd : Node} (hs : nd.toJson.Survives)
    (hd : nd.toJson.depth ≤ Json.depthLimit) (hf : ∀ m ∈ nd.preorder, m.Fits) :
    ofJson? nd.toJson = keep nd.preorder nd :=
  readWithin_toJson hs (hd.trans (Nat.le_succ _)) hf

theorem Arg.ofJson?_toJson {a : Arg} (h : a.type.Fits) : ofJson? a.toJson = some a := by
  simp [ofJson?, toJson, Json.record?, Json.slots?, Json.slot?, Json.required, Json.default,
    Json.string?, Json.bool?, TypeId.ofJson?_toJson h]

theorem External.ofJson?_toJson (e : External) : ofJson? e.toJson = some e := by
  simp [ofJson?, toJson, Json.record?, Json.slots?, Json.slot?, Json.required, Json.default,
    Json.string?, Json.bool?]

theorem GlobalDef.ofJson?_toJson {g : GlobalDef} (h : g.type.Fits) : ofJson? g.toJson = some g := by
  rw [ofJson?, show g.toJson = Field.toJson ⟨g.name, g.type⟩ from rfl, Field.ofJson?_toJson h]
  rfl

theorem Def.survives_toJson {d : Def} (h : d.Fits) (hb : (Node.optionJson d.body).Survives) :
    d.toJson.Survives := by
  have hargs : (Json.array (d.args.map Arg.toJson)).Survives :=
    Json.survives_map fun a ha => by simpa [Arg.toJson] using (h.args a ha).survives
  have ht : (Json.ofOption TypeId.toJson d.type).Survives :=
    Json.survives_ofOption fun t ht => (h.type t ht).survives
  have he : (Json.ofOption External.toJson d.external).Survives :=
    Json.survives_ofOption fun e _ => by simp [External.toJson]
  have hl : (Json.ofOption Location.toJson d.location).Survives :=
    Json.survives_ofOption fun l hl => (h.location l hl).survives
  simpa [toJson] using ⟨h.owner.survives, hargs, ht, hb, he, hl⟩

theorem Def.ofJson?_toJson {d : Def} (h : d.Fits)
    (hb : ∀ n ∈ d.body, Node.ofJson? n.toJson = Node.keep n.preorder n) :
    ofJson? d.toJson = Node.keep (Node.preorderOption d.body) d := by
  have hargs : Json.list? Arg.ofJson? (.array (d.args.map Arg.toJson)) = some d.args :=
    Json.list?_map fun a ha => Arg.ofJson?_toJson (h.args a ha)
  have ht : Json.optional TypeId.ofJson? (some (Json.ofOption TypeId.toJson d.type)) =
      some d.type :=
    Json.optional_ofOption nofun fun t ht => TypeId.ofJson?_toJson (h.type t ht)
  have he : Json.optional External.ofJson? (some (Json.ofOption External.toJson d.external)) =
      some d.external :=
    Json.optional_ofOption nofun fun e _ => External.ofJson?_toJson e
  have hl : Json.optional Location.ofJson? (some (Json.ofOption Location.toJson d.location)) =
      some d.location :=
    Json.optional_ofOption nofun fun l hl => Location.ofJson?_toJson (h.location l hl)
  obtain ⟨name, owner, args, type, body, external, location⟩ := d
  simp [ofJson?, toJson, Json.record?, Json.slots?, Json.slot?, Json.required, Json.default,
    Json.string?, TypeId.ofJson?_toJson h.owner, hargs, ht, Node.optional_optionJson hb, he, hl]

theorem ConstDef.ofJson?_toJson {c : ConstDef}
    (hv : Node.ofJson? c.value.toJson = Node.keep c.value.preorder c.value) :
    ofJson? c.toJson = Node.keep c.value.preorder c := by
  simp [ofJson?, toJson, Json.record?, Json.slots?, Json.slot?, Json.required, Json.string?, hv]

namespace Program

variable {p : Program}

/-- The expressions that a program consists of: its root, the bodies and the constants' values. -/
def bodies (p : Program) : List Node :=
  p.root.toList ++ p.defs.filterMap Def.body ++ p.consts.map ConstDef.value

theorem mem_bodies {nd : Node} : nd ∈ p.bodies ↔
    nd ∈ p.root ∨ (∃ d ∈ p.defs, nd ∈ d.body) ∨ ∃ c ∈ p.consts, c.value = nd := by
  simp [bodies]

theorem nodes_eq (p : Program) : p.nodes = p.bodies.flatMap Node.preorder := by
  have hoption : ∀ o : Option Node, Node.preorderOption o = o.toList.flatMap Node.preorder :=
    fun o => by cases o <;> simp [Node.preorderOption]
  have hdefs : p.defs.flatMap (fun d => Node.preorderOption d.body) =
      (p.defs.filterMap Def.body).flatMap Node.preorder := by
    induction p.defs with
    | nil => rfl
    | cons d ds ih =>
      rw [List.flatMap_cons, ih, List.filterMap_cons, hoption]
      cases d.body <;> simp
  rw [nodes, bodies, hoption, hdefs, List.flatMap_append, List.flatMap_append, List.flatMap_map]

theorem preorder_subset_nodes {nd : Node} (h : nd ∈ p.bodies) : nd.preorder ⊆ p.nodes :=
  fun _ hm => nodes_eq p ▸ List.mem_flatMap.mpr ⟨nd, h, hm⟩

/-- No expression is nested more deeply than the whole program. -/
theorem depth_body_lt {nd : Node} (h : nd ∈ p.bodies) : nd.toJson.depth < p.toJson.depth := by
  have hpart : ∀ {j}, j ∈ p.toJson.parts → j.depth < p.toJson.depth := Json.depth_lt_of_mem_parts
  rcases mem_bodies.mp h with h | ⟨d, hd, h⟩ | ⟨c, hc, rfl⟩
  · refine hpart ?_
    rw [toJson, Option.mem_def.mp h]
    simp [Json.parts, Node.optionJson]
  · have hbody : nd.toJson ∈ d.toJson.parts := by
      rw [Def.toJson, Option.mem_def.mp h]
      simp [Json.parts, Node.optionJson]
    have hdefs : d.toJson ∈ (Json.array (p.defs.map Def.toJson)).parts := List.mem_map_of_mem hd
    calc nd.toJson.depth < d.toJson.depth := Json.depth_lt_of_mem_parts hbody
      _ < (Json.array (p.defs.map Def.toJson)).depth := Json.depth_lt_of_mem_parts hdefs
      _ < p.toJson.depth := hpart (by simp [toJson, Json.parts])
  · have hvalue : c.value.toJson ∈ c.toJson.parts := by simp [ConstDef.toJson, Json.parts]
    have hconsts : c.toJson ∈ (Json.array (p.consts.map ConstDef.toJson)).parts :=
      List.mem_map_of_mem hc
    calc c.value.toJson.depth < c.toJson.depth := Json.depth_lt_of_mem_parts hvalue
      _ < (Json.array (p.consts.map ConstDef.toJson)).depth := Json.depth_lt_of_mem_parts hconsts
      _ < p.toJson.depth := hpart (by simp [toJson, Json.parts])

/-- The floating-point literals of a program survive. -/
def FloatsSurvive (p : Program) : Prop :=
  ∀ n ∈ p.nodes, ∀ x ∈ n.kind.float?, (Json.Number.float x).Survives

instance (p : Program) : Decidable p.FloatsSurvive :=
  inferInstanceAs (Decidable (∀ n ∈ p.nodes, ∀ x ∈ n.kind.float?, _))

theorem survives_body {nd : Node} (hf : p.Fits) (hfloat : p.FloatsSurvive) (h : nd ∈ p.bodies) :
    nd.toJson.Survives :=
  nd.survives_toJson (fun m hm => hf.nodes m (preorder_subset_nodes h hm)) fun m hm =>
    hfloat m (preorder_subset_nodes h hm)

theorem survives_toJson (hf : p.Fits) (hfloat : p.FloatsSurvive) : p.toJson.Survives := by
  have hbody : ∀ {nd}, nd ∈ p.bodies → nd.toJson.Survives := survives_body hf hfloat
  have hoption : ∀ {o : Option Node}, (∀ n ∈ o, n ∈ p.bodies) → (Node.optionJson o).Survives :=
    fun h => Node.optionJson_eq _ ▸ Json.survives_ofOption fun n hn => hbody (h n hn)
  have htypes : (TypeTable.toJson p.types).Survives :=
    Json.survives_map fun i hi => TypeInfo.survives_toJson (hf.types i hi)
  have hdefs : (Json.array (p.defs.map Def.toJson)).Survives :=
    Json.survives_map fun d hd => Def.survives_toJson (hf.defs d hd)
      (hoption fun n hn => mem_bodies.mpr (.inr (.inl ⟨d, hd, hn⟩)))
  have hconsts : (Json.array (p.consts.map ConstDef.toJson)).Survives :=
    Json.survives_map fun c hc => by
      simpa [ConstDef.toJson] using hbody (mem_bodies.mpr (.inr (.inr ⟨c, hc, rfl⟩)))
  have hglobals : (Json.array (p.globals.map GlobalDef.toJson)).Survives :=
    Json.survives_map fun g hg => by simpa [GlobalDef.toJson] using (hf.globals g hg).survives
  have hsymbols : (Json.array (p.symbols.map .string)).Survives :=
    Json.survives_map fun s _ => Json.survives_string s
  have hroot : (Node.optionJson p.root).Survives :=
    hoption fun n hn => mem_bodies.mpr (.inl hn)
  have hfile : (Json.ofOption .string p.filename).Survives :=
    Json.survives_ofOption fun s _ => Json.survives_string s
  simpa [toJson] using ⟨htypes, hdefs, hconsts, hglobals, hsymbols, hroot, hfile⟩

theorem ofJson?_toJson (hf : p.Fits) (hfloat : p.FloatsSurvive)
    (hdepth : p.toJson.depth ≤ Json.depthLimit) :
    ofJson? p.toJson = if Node.plain p.nodes then some p else none := by
  have hbody : ∀ {nd}, nd ∈ p.bodies → Node.ofJson? nd.toJson = Node.keep nd.preorder nd :=
    fun h => Node.ofJson?_toJson (survives_body hf hfloat h) ((depth_body_lt h).le.trans hdepth)
      fun m hm => hf.nodes m (preorder_subset_nodes h hm)
  have htypes : TypeTable.ofJson? p.types.toJson = some p.types := by
    have h := Json.list?_map (r := TypeInfo.ofJson?) (w := TypeInfo.toJson)
      (l := p.types.infos.toList) fun i hi =>
        TypeInfo.ofJson?_toJson (hf.types i hi)
    rw [TypeTable.ofJson?, TypeTable.toJson, h]
    rfl
  have hdefs : Json.list? Def.ofJson? (.array (p.defs.map Def.toJson)) =
      Node.keep (p.defs.flatMap fun d => Node.preorderOption d.body) p.defs :=
    Node.list?_keep fun d hd => Def.ofJson?_toJson (hf.defs d hd) fun n hn =>
      hbody (mem_bodies.mpr (.inr (.inl ⟨d, hd, hn⟩)))
  have hconsts : Json.list? ConstDef.ofJson? (.array (p.consts.map ConstDef.toJson)) =
      Node.keep (p.consts.flatMap fun c => c.value.preorder) p.consts :=
    Node.list?_keep fun c hc => ConstDef.ofJson?_toJson
      (hbody (mem_bodies.mpr (.inr (.inr ⟨c, hc, rfl⟩))))
  have hglobals : Json.list? GlobalDef.ofJson? (.array (p.globals.map GlobalDef.toJson)) =
      some p.globals :=
    Json.list?_map fun g hg => GlobalDef.ofJson?_toJson (hf.globals g hg)
  have hsymbols : Json.list? Json.string? (.array (p.symbols.map .string)) = some p.symbols :=
    Json.list?_map fun s _ => rfl
  have hroot : Json.optional Node.ofJson? (some (Node.optionJson p.root)) =
      Node.keep (Node.preorderOption p.root) p.root :=
    Node.optional_optionJson fun n hn => hbody (mem_bodies.mpr (.inl hn))
  have hfile : Json.optional Json.string? (some (Json.ofOption .string p.filename)) =
      some p.filename :=
    Json.optional_ofOption nofun fun s _ => rfl
  have hplain : ∀ {q : Program}, Node.keep (p.defs.flatMap (fun d => Node.preorderOption d.body) ++
      (p.consts.flatMap (fun c => c.value.preorder) ++ Node.preorderOption p.root)) q =
        if Node.plain p.nodes then some q else none := fun {q} => by
    simp only [Node.keep, Node.plain, nodes, List.all_append, Bool.and_assoc, Bool.and_comm,
      Bool.and_left_comm]
  obtain ⟨types, defs, consts, globals, symbols, root, filename⟩ := p
  rw [← hplain]
  simp [ofJson?, toJson, Json.record?, Json.slots?, Json.slot?, Json.required, Json.default, htypes,
    hdefs, hconsts, hglobals, hsymbols, hroot, hfile]

/-- A program that was written is read back as it was, with no complaint about its references, if
none of its nodes refers to a constant; else it is refused as no program at all. -/
theorem load_write (hvalid : p.IsValid) (hf : p.Fits) (hfloat : p.FloatsSurvive)
    (hdepth : p.toJson.depth < 128) :
    ((∀ n ∈ p.nodes, n.kind.isConst = false) → (load p.write).2 = .ok p) ∧
      ((∃ n ∈ p.nodes, n.kind.isConst = true) →
        (load p.write).2 = .error (.input "parse program:")) := by
  have hparse : Json.parse? p.write = some p.toJson :=
    Json.parse?_pretty (survives_toJson hf hfloat) (Nat.le_of_lt_succ hdepth)
  have hread := ofJson?_toJson hf hfloat (Nat.le_of_lt_succ hdepth)
  refine ⟨fun h => ?_, fun ⟨n, hn, hconst⟩ => ?_⟩
  · have hplain : Node.plain p.nodes = true :=
      List.all_eq_true.mpr fun n hn => by rw [h n hn]; rfl
    rw [hplain, if_pos rfl] at hread
    simp only [load, decode, hparse, Option.bind_some, hread, validate_eq_ok_iff.mpr hvalid]
    rfl
  · have hplain : Node.plain p.nodes = false :=
      List.all_eq_false.mpr ⟨n, hn, by rw [hconst]; exact Bool.false_ne_true⟩
    rw [hplain] at hread
    simp only [load, decode, hparse, Option.bind_some, hread, Bool.false_eq_true, if_false]

/-- A program whose root passes a block to a definition that yields to it. -/
def sample : Program where
  types := ⟨#[{ kind := .nil }, { kind := .int 32 }, { kind := .program },
    { kind := .heapClass "Cell" none [⟨"@value", ⟨1⟩⟩] }, { kind := .union [⟨0⟩, ⟨3⟩] }]⟩
  defs := [{
    name := "twice", owner := ⟨2⟩, args := [{ name := "n", type := ⟨1⟩ }], type := some ⟨0⟩
    body := some ⟨5, .expressions [⟨6, .yield [⟨7, .var "n", some ⟨1⟩, none⟩], some ⟨0⟩, none⟩,
      ⟨8, .yield [⟨9, .var "n", some ⟨1⟩, none⟩], some ⟨0⟩, none⟩], some ⟨0⟩, none⟩ }]
  symbols := ["\"quoted\"\n"]
  root := some ⟨0, .call ⟨none, "twice", [⟨1, .intLiteral (-3), some ⟨1⟩, none⟩], [⟨0⟩],
    some ⟨[⟨"x", ⟨1⟩⟩], some ⟨2, .var "x", some ⟨1⟩, none⟩⟩, some ⟨2⟩⟩, some ⟨0⟩,
      some ⟨"sample", 1, 2⟩⟩

theorem load_write_sample : (load sample.write).2 = .ok sample :=
  (load_write (p := sample) (by decide) (by decide) (by decide) (by decide)).1 (by decide)

end Program

end Lowering
