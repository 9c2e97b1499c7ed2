import Lowering.Proofs.Calling
import Lowering.Proofs.Order

/-!
# Generation ends

An expression is generated in a number of nested steps that the program bounds.  So a greater depth
of nesting than the bound changes nothing, and what a review of the program found is there when
generation looks it up.

* `Gen.sure_visitWith`: every kind of expression;
* `Gen.follows_visit`: two depths that are not below what there is to do.
-/

namespace Lowering.Gen

open IR (Value BlockId Build)

variable {α β : Type} {c : Context} {e : Entity} {g : Ledger} {s s' : State} {μ : Nat} {n : Node}

theorem Due.child_mem_nodes {m : Node} (h : Due c e μ s n) (hm : m ∈ n.children) :
    m ∈ c.program.nodes :=
  (h.child hm).owns m (Node.mem_preorder m) |>.1

/-! ### Literals -/

/-- The symbol of a literal is in the table of symbols. -/
theorem restores_symbolLiteral {value : String} (hr : Reviewed c) (hn : n ∈ c.program.nodes)
    (hk : n.kind = .symbolLiteral value) : Restores c (symbolValue value) := by
  have hmem : value ∈ c.symbols := by
    rw [hr.symbols]
    exact Program.mem_symbolSet.mpr (.inr ⟨n, hn, hk⟩)
  have hsome : (c.symbols.findIdx? (· == value)).isSome := by
    rw [List.findIdx?_isSome, List.any_eq_true]
    exact ⟨value, hmem, beq_self_eq_true value⟩
  obtain ⟨i, hi⟩ := Option.isSome_iff_exists.mp hsome
  refine .asked (fun _ => rfl) (.bind ?_ fun _ => .pure _)
  rw [hi]
  exact .pure i

/-! ### Expressions -/

section

variable {visit visit' : Visitor} (hf : Follows c μ visit visit') (hv : Visits c visit)
include hf

theorem sure_detached (h : Within c e μ s n) :
    Sure c e g s (detached visit n) (detached visit' n) :=
  (hf e g s n h).last fun _ => Restores.wide <| restores_typeOf.bind fun _ =>
    restores_isAddressHeld.bind fun held => by
      split
      · exact restores_irType.bind fun _ => restores_alloca.bind fun _ =>
          restores_assign.bind fun _ => .pure _
      · exact .pure _

theorem sure_assignment {target value : Node} (hv : Within c e μ s value)
    (ht : c.Knows (target.type.getD c.nil)) :
    Sure c e g s (assignment visit n target value) (assignment visit' n target value) := by
  refine (hf e g s value hv).last fun v => restores_typeOf.wide.bind fun _ => ?_
  refine restores_isTerminated.wide.bind fun done => ?_
  split
  · exact .pure v
  · refine (restores_assignTarget ht).bind fun _ => Restores.wide ?_
    exact restores_assign.bind fun _ => restores_typeOf.bind fun _ => restores_convert

include hv

theorem sure_detachedAll {nodes : List Node} (h : ∀ m ∈ nodes, Within c e μ s m) :
    Sure c e g s (nodes.mapM (detached visit)) (nodes.mapM (detached visit')) := by
  induction nodes generalizing g s with
  | nil => exact .pure []
  | cons n rest ih =>
    rw [List.mapM_cons, List.mapM_cons]
    have hn := h n List.mem_cons_self
    refine (sure_detached hf hn).bind (walks_detached (X := ∅) hv hn.owns) fun _ _ _ l₁ _ => ?_
    exact (ih fun m hm => (h m (List.mem_cons_of_mem _ hm)).along l₁).last fun _ => .pure _

theorem sure_multiAssignment {targets values : List Node} (h : ∀ m ∈ values, Within c e μ s m)
    (ht : ∀ m ∈ targets, c.Knows (m.type.getD c.nil)) :
    Sure c e g s (multiAssignment visit targets values)
      (multiAssignment visit' targets values) := by
  unfold multiAssignment
  split
  · exact .fail trivial
  · exact (sure_detachedAll hf hv h).last fun vs =>
      (restores_storeAll _ fun p hp => ht p.1 (List.of_mem_zip hp).1).bind fun _ => .pure _

/-- Every kind of expression comes to the same with two visitors that do so below. -/
theorem sure_visitWith (hr : Reviewed c) (hback : Restoring c visit) (h : Due c e μ s n) :
    Sure c e g s (visitWith visit n) (visitWith visit' n) := by
  have below : ∀ {m}, m ∈ n.kind.children → Within c e μ s m := fun hm => h.child hm
  have known : ∀ {m}, m ∈ n.kind.children → c.Knows (m.type.getD c.nil) := fun hm =>
    hr.knows_typeOf (h.child_mem_nodes hm)
  unfold visitWith
  cases hk : n.kind with
  | nop | nilLiteral => exact .pure _
  | boolLiteral value => exact .pure _
  | intLiteral value => exact .leaf (restores_types.bind fun _ => .pure _)
  | floatLiteral value => exact .leaf (restores_types.bind fun _ => .pure _)
  | charLiteral value => exact .pure _
  | stringLiteral value => exact .leaf restores_stringValue
  | symbolLiteral value => exact .leaf (restores_symbolLiteral hr h.mem_nodes hk)
  | typeLiteral => exact .leaf (restores_types.bind fun _ => .pure _)
  | var name => exact .leaf (restores_typeOf.bind fun _ => restores_readVariable)
  | assign target value =>
    exact sure_assignment hf (below (by simp [hk, NodeKind.children]))
      (known (by simp [hk, NodeKind.children]))
  | multiAssign targets values =>
    exact sure_multiAssignment hf hv (fun m hm => below (by simp [hk, NodeKind.children, hm]))
      fun m hm => known (by simp [hk, NodeKind.children, hm])
  | instanceVar name => exact .leaf (restores_typeOf.bind fun _ => restores_readField)
  | global name => exact .leaf (restores_typeOf.bind fun _ => restores_readGlobal)
  | const id =>
    refine sure_constant hf hr (hr.valid.const_lt h.mem_nodes hk) ?_ h.load_lt.le
    refine (h.owns n (Node.mem_preorder n)).2 _ ?_
    rw [Program.references, hk]
    exact List.mem_singleton_self _
  | expressions nodes =>
    exact sure_sequence hv hf fun m hm => below (by simp [hk, NodeKind.children, hm])
  | branch cond whenTrue whenFalse =>
    exact sure_branch hv hf (below (by simp [hk, NodeKind.children]))
      (fun m hm => below (by simp [hk, NodeKind.children, Option.mem_def.mp hm]))
      fun m hm => below (by simp [hk, NodeKind.children, Option.mem_def.mp hm])
  | loop cond body runOnce =>
    exact sure_loop hv hf (below (by simp [hk, NodeKind.children]))
      fun m hm => below (by simp [hk, NodeKind.children, Option.mem_def.mp hm])
  | «return» value =>
    exact sure_leave hf fun m hm => below (by simp [hk, NodeKind.children, Option.mem_def.mp hm])
  | «break» value =>
    exact sure_exit hf fun m hm => below (by simp [hk, NodeKind.children, Option.mem_def.mp hm])
  | yield values =>
    exact sure_yield hf hv (fun m hm => below (by simp [hk, NodeKind.children, hm])) h.load_lt
  | call call => exact sure_call hf hv hr hback h hk
  | isA value target => exact sure_membership hf (below (by simp [hk, NodeKind.children]))
  | simpleOr left right =>
    exact sure_either hv hf (below (by simp [hk, NodeKind.children]))
      (below (by simp [hk, NodeKind.children]))
  | pointerOf target =>
    exact .ask rfl (.step (restores_pointerTo (known (by simp [hk, NodeKind.children]))))
  | nilPointer => exact .leaf (restores_typeOf.bind fun _ => restores_irType.bind fun _ => .pure _)
  | argc => exact .leaf restores_argumentCount
  | argv => exact .leaf restores_argumentVector
  | primitive op => exact .leaf restores_primitive

end

/-! ### Positions in the source and failures -/

theorem restores_setLocation {l : Option Location} : Restores c (emit (Build.setLocation l)) :=
  Still.restores fun _ => ⟨rfl, rfl, .refl _⟩

theorem restores_record {v : Value} : Restores c (record n v) :=
  restores_modify (g := fun s => { s with last := { value := v, type := n.type } })
    (fun _ => .of_eq rfl rfl rfl rfl rfl rfl) fun _ => ⟨rfl, rfl, rfl, rfl⟩

theorem Met.thrown {f : Failure} (ht : Tidy c s) (hf : f.cause.Ordinary) :
    Met c s (throw f : Gen α) (throw f) :=
  ⟨rfl, ht, fun _ he => by cases he; exact hf⟩

section

variable {x y : Gen α}

/-- A step after which the position in the source is set back. -/
theorem sure_setBack {l : Option Location} (h : Sure c e g s x y) :
    Sure c e g s (do let r ← attempt x; emit (Build.setLocation l); resume r)
      (do let r ← attempt y; emit (Build.setLocation l); resume r) := fun hr =>
  (h hr).attempt fun _ _ hends =>
    (Met.step hends.tidy restores_setLocation.wide).bind fun _ _ _ ht =>
      .resume ⟨ht, hends.cause⟩

theorem sure_atLocation (h : ∀ g s', Leg c e ∅ g s g s' → Sure c e g s' x y) :
    Sure c e g s (atLocation n x) (atLocation n y) := by
  unfold atLocation
  refine .ask rfl (.assume fun hr => ?_)
  have hs : Sure c e g s x y := h g s (.refl hr.inv)
  split
  · refine .ask rfl ?_
    split
    · refine Sure.bind (.leaf restores_setLocation) (emits_setLocation.walks (X := ∅))
        fun _ g₁ s₁ l₁ ⟨p₁, _⟩ => ?_
      obtain rfl := p₁.ledger
      exact sure_setBack (h _ s₁ l₁)
    · exact sure_setBack hs
  · exact hs

theorem sure_located (h : ∀ g s', Leg c e ∅ g s g s' → Sure c e g s' x y) :
    Sure c e g s (located n x) (located n y) := fun hr =>
  (sure_atLocation h hr).attempt fun r t hends => by
    cases r with
    | ok a => exact .pure hends.tidy a
    | error f => exact .thrown hends.tidy (hends.cause f rfl)

end

/-! ### Depths -/

/-- An expression comes to the same for two visitors that do so below. -/
theorem sure_visitOnce (hr : Reviewed c) {visit visit' : Visitor} (hf : Follows c μ visit visit')
    (hv : Visits c visit) (hback : Restoring c visit) (h : Due c e μ s n) :
    Sure c e g s (visitOnce visit n) (visitOnce visit' n) := by
  refine Sure.bind (.leaf (restores_note (begins_nothing (a := 'v') (by simp) (by decide))))
    (emits_note.walks (X := ∅)) fun _ g₁ s₁ l₁ _ => ?_
  exact (sure_located fun g₂ s₂ l₂ =>
    sure_visitWith hf hv hr hback ((h.along l₁).along l₂)).last
      fun v => Restores.wide (restores_record.bind fun _ => .pure v)

/-- Expressions come to the same at any two depths that are not below what there is to do. -/
theorem follows_visit (hr : Reviewed c) {depth depth' : Nat} (hd : μ ≤ depth) (hd' : μ ≤ depth') :
    Follows c μ (visit depth) (visit depth') := by
  induction μ generalizing depth depth' with
  | zero => exact fun e g s n h => absurd h.less (Nat.not_lt_zero _)
  | succ μ ih =>
    obtain ⟨depth, rfl⟩ := Nat.exists_eq_add_of_le' hd
    obtain ⟨depth', rfl⟩ := Nat.exists_eq_add_of_le' hd'
    have hf : Follows c μ (visit (depth + μ)) (visit (depth' + μ)) :=
      ih (Nat.le_add_left μ depth) (Nat.le_add_left μ depth')
    exact fun e g s n h => sure_visitOnce hr hf (visits_visit _) (restoring_visit _)
      ⟨h.owns, Nat.le_of_lt_succ h.less⟩

/-! ### A whole generation -/

/-- All steps of a generation, in which expressions are nested at most so deep. -/
def wholeWithin (p : Program) (depth : Nat) : Gen Unit := do
  prepareSymbols
  let value ← match p.root with
    | some root => visit depth root
    | none => pure nilValue
  finish value

/-- How a generation ends in which expressions are nested at most so deep. -/
def runWithin? (p : Program) (o : Options) (depth : Nat) : Option (Except Failure Unit × State) :=
  (start? p o).map fun (c, s) => wholeWithin p depth c s

theorem runWithin?_nestingBound (p : Program) (o : Options) :
    runWithin? p o p.nestingBound = run? p o := rfl

theorem quiet_emit {T : TypeId → Prop} {b : Build α} (h : Still b) :
    Quiet T Cause.Ordinary s (outcome (emit b) c s) := (h.restores.wide s).2

theorem quiet_finish {T : TypeId → Prop} {v : Value} :
    Quiet T Cause.Ordinary s (outcome (finish v) c s) := by
  have hconnect : ∀ s : State, Quiet T Cause.Ordinary s (outcome (do
      positionAt (← get).constTail
      Build.br c.main.entryBlock
      positionAt c.main.allocaBlock
      Build.br c.constHead
      let m := (← get).builder.module
      note .debug <| "entry function done: " ++ toString m.functions.size ++ " function(s), " ++
        toString m.globals.size ++ " global(s)") c s) := fun s =>
    (Restores.wide (restores_get.bind fun _ => restores_positionAt.bind fun _ =>
      still_br.restores.bind fun _ => restores_positionAt.bind fun _ => still_br.restores.bind
        fun _ => restores_get.bind fun _ =>
          restores_note (begins_nothing (a := 'e') (by simp) (by decide))) s).2
  refine Quiet.bind (restores_read.wide s).2 fun c' s₁ h => ?_
  obtain rfl : c = c' := Except.ok.inj (congrArg Prod.fst h)
  refine Quiet.bind (.of_eq rfl rfl rfl (List.Subset.refl _)) fun _ s₂ _ => ?_
  refine Quiet.bind (restores_isTerminated.wide s₂).2 fun done s₃ _ => ?_
  split
  · split
    · refine Quiet.bind (restores_get.wide s₃).2 fun _ s₄ _ => ?_
      refine Quiet.bind (restores_convertExactly.wide s₄).2 fun _ s₅ _ => ?_
      exact Quiet.bind (quiet_emit still_ret) fun _ s₆ _ => hconnect s₆
    · exact Quiet.bind (quiet_emit still_ret) fun _ s₄ _ => hconnect s₄
  · exact hconnect s₃

section

variable {p : Program} {o : Options} {nil : TypeId} {name n₀ n₁ n₂ : String}

theorem reviewed_start (hv : p.IsValid) (hi : p.InliningEnds) (hn : p.types.nil? = some nil) :
    Reviewed (startContext p o nil) where
  valid := hv
  nil := hn
  symbols := rfl
  inlining := hi
  result t ht := by
    obtain ⟨n, hroot, ht⟩ := Option.bind_eq_some_iff.mp (Option.filter_eq_some_iff.mp ht).1
    exact hv.contains_type (owns_root hroot n (Node.mem_preorder n)).1 ht

variable (name n₀ n₁ n₂) in
theorem ready_start (hr : Reviewed (startContext p o nil)) :
    Ready (startContext p o nil) .root .start
      (startState p o nil name (entryFunction p n₀ n₁ n₂)) where
  inv := inv_start hr.nil
  tidy :=
    { once := List.nodup_nil
      named := fun r h => absurd h List.not_mem_nil
      hoisted := rfl
      keys := List.nodup_nil
      constants := fun q h => absurd h List.not_mem_nil
      types := fun q h => absurd h List.not_mem_nil }
  listed :=
    { scope := fun t h => TypeTable.mem_ids.mp (List.mem_of_find?_eq_some h)
      callers := fun fr h => absurd h List.not_mem_nil
      blocks := fun fr h => absurd h List.not_mem_nil
      targets := fun t h => absurd h List.not_mem_nil
      result := hr.result
      definition := fun d h => by cases h }

variable (name n₀ n₁ n₂) in
/-- A whole generation comes to the same at any two depths that are not below the bound. -/
theorem met_whole (hr : Reviewed (startContext p o nil)) {depth depth' : Nat}
    (hd : p.nestingBound ≤ depth) (hd' : p.nestingBound ≤ depth') :
    Met (startContext p o nil) (startState p o nil name (entryFunction p n₀ n₁ n₂))
      (wholeWithin p depth) (wholeWithin p depth') := by
  refine Sure.bind (fun hr => .quiet hr.tidy (restored_prepareSymbols rfl).2)
    (emits_prepareSymbols.walks (X := ∅))
    (fun _ g₁ s₁ l₁ _ hready => ?_) (ready_start name n₀ n₁ n₂ hr)
  cases hroot : p.root with
  | none => exact .quiet hready.tidy quiet_finish
  | some root =>
    have hbody : root ∈ p.bodies := Program.mem_bodies.mpr (.inl hroot)
    have hload : load p s₁ + p.base ≤ p.nestingBound := (load_lt_nestingBound l₁.stay.blocks).le
    exact (follows_visit hr hd hd' _ _ _ _ (within_body (owns_root hroot) hbody hload) hready).bind
      fun _ _ _ ht => .quiet ht quiet_finish

end

/-- The records that functions are begun name each at most once. -/
theorem Tidy.functions (h : Tidy c s) : ∃ names : List String, names.Nodup ∧
    names ⊆ s.builder.module.names ∧ s.log.about "generating " = names.map functionRecord := by
  have hrange : s.log.about "generating " ∈ Set.range (List.map functionRecord) := by
    rw [Set.range_list_map]
    intro r hr
    obtain ⟨name, -, rfl⟩ := h.named r hr
    exact Set.mem_range_self name
  obtain ⟨names, hnames⟩ := hrange
  refine ⟨names, .of_map functionRecord (hnames ▸ h.once), fun name hm => ?_, hnames.symm⟩
  obtain ⟨name', hm', he⟩ := h.named (functionRecord name) (hnames ▸ List.mem_map_of_mem hm)
  have htext : "generating " ++ name = "generating " ++ name' := congrArg Log.Record.message he
  obtain rfl : name = name' := by simpa using htext
  exact hm'

/-- How a generation ends that has a type of nil. -/
theorem ends_run? {p : Program} {o : Options} (hv : p.IsValid) (hi : p.InliningEnds)
    {r : Except Failure Unit} (h : run? p o = some (r, s)) :
    ∃ nil, Ends (startContext p o nil) (r, s) := by
  obtain ⟨⟨c, s₀⟩, hstart, hrun⟩ := Option.map_eq_some_iff.mp h
  obtain ⟨nil, name, n₀, n₁, n₂, hnil, rfl, rfl⟩ := start?_eq hstart
  have hends := (met_whole name n₀ n₁ n₂
    (reviewed_start (o := o) hv hi hnil) (le_refl p.nestingBound) (le_refl _)).ends
  exact ⟨nil, hrun ▸ hends⟩

theorem distinct_run? {p : Program} {o : Options} (h : run? p o = some (.ok (), s)) :
    Distinct s.builder.module := by
  obtain ⟨nil, g, s', hc, hm, -⟩ := completed_run? h
  exact hm ▸ hc.steady.distinct

/-- A program with two functions that call each other, one of which needs a constant whose
initializer calls the other, and with a symbol and calls with a block in the body of a definition
that is itself called with a block. -/
def entangled : Program :=
  let build : Drafting Node := do
    let callTo (name : String) (id : DefId) (args : List Node) : Drafting Node :=
      Draft.node (.call ⟨none, name, args, [id], none, none⟩) (some Draft.intType)
    let withBlock (name : String) (id : DefId) (body : Node) : Drafting Node :=
      Draft.node (.call ⟨none, name, [], [id], some ⟨[], some body⟩, none⟩) (some Draft.intType)
    let n ← Draft.var "n" Draft.intType
    let ping ← Draft.declare "ping" Draft.programType [⟨"n", Draft.intType, false⟩]
      (some Draft.intType)
    let pong ← Draft.function "pong" [⟨"n", Draft.intType, false⟩] (some Draft.intType)
      (← callTo "ping" ping [n])
    let limit ← Draft.constant "LIMIT" (← callTo "pong" pong [← Draft.int 3])
    Draft.defineBody ping (← Draft.sequence [← callTo "pong" pong [n], ← Draft.constRef limit])
    let once ← Draft.function "once" [] (some Draft.intType)
      (← Draft.node (.yield []) (some Draft.intType))
    let given ← Draft.node (.yield []) (some Draft.intType)
    let twice ← Draft.function "twice" [] (some Draft.intType)
      (← Draft.sequence [← Draft.symbol "again", ← withBlock "once" once given,
        ← withBlock "once" once given])
    withBlock "twice" twice (← callTo "ping" ping [← Draft.int 5])
  let (root, draft) := build.run Draft.new
  draft.program root

end Lowering.Gen
