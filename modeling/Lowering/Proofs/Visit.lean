import Lowering.Gen.Visit
import Lowering.Proofs.Dispatch
import Lowering.Proofs.Hoist

/-!
# Expressions

Every expression, however deep, is generated well: each kind when the expressions inside are, and
so all of them by induction on the depth of nesting.

* `Gen.walks_visitWith`: the value of each kind of expression;
* `Gen.visits_visit`.
-/

namespace Lowering.Gen

open IR (Ty Value FuncId BlockId GlobalId Build Module Inst Terminator)

variable {α : Type} {c : Context} {e : Entity} {g g₁ g' : Ledger} {s s₁ s' : State}
  {X : Set (FuncId × BlockId)} {visit : Visitor}

/-! ### Positions and records -/

theorem emits_setLocation {a : Option Entity} {l : Option Location} :
    Emits c a s (emit (Build.setLocation l)) fun _ _ => True :=
  .build (show _ = ((), { s.builder with location := l }) from rfl) (fun _ => .inr (.note
    ⟨rfl, rfl, rfl, rfl, rfl, rfl, rfl, rfl, rfl, rfl, fun _ h => .inl h, rfl, rfl⟩)) fun _ =>
      trivial

theorem emits_record {a : Option Entity} {n : Node} {v : Value} :
    Emits c a s (record n v) fun _ _ => True :=
  .note (.of_tables rfl rfl rfl rfl rfl rfl rfl rfl (fun _ h => .inl h) rfl rfl) trivial

/-- What holds of a step, and is kept by straight code before and after it, holds of the step at the
position of an expression. -/
theorem Walks.atLocation {n : Node} {x : Gen Value}
    {P : Ledger → State → Ledger → State → Value → Prop}
    (hx : ∀ {g s}, Walks c e X g s x (P g s))
    (hbefore : ∀ {g s g₁ s₁ g' s' v}, Plainly c e g s g₁ s₁ → Inv c e g s → P g₁ s₁ g' s' v →
      P g s g' s' v)
    (hafter : ∀ {g s g₁ s₁ g' s' v}, Inv c e g s → P g s g₁ s₁ v → Plainly c e g₁ s₁ g' s' →
      P g s g' s' v) :
    Walks c e X g s (Gen.atLocation n x) (P g s) := by
  unfold Gen.atLocation
  refine .ask rfl ?_
  split
  · refine .ask rfl ?_
    have hrest : ∀ {l g₁ s₁}, Walks c e X g₁ s₁ (do
        let r ← attempt x
        emit (Build.setLocation l)
        resume r) (P g₁ s₁) := by
      intro l g₁ s₁ hi v s' hg
      obtain ⟨s₂, h₂, h₃⟩ := gives_attempt hg
      obtain ⟨g₂, l₂, hp⟩ := hx hi v s₂ h₂
      obtain ⟨g₃, l₃, ⟨h₃, -⟩⟩ := emits_setLocation.walks (X := X) l₂.inv () s' h₃
      exact ⟨g₃, l₂.trans l₃, hafter hi hp h₃⟩
    split
    · exact .assume fun hi => emits_setLocation.walks.bind fun _ g₁ s₁ _ ⟨h₁, _⟩ =>
        hrest.mono fun _ _ _ _ hp => hbefore h₁ hi hp
    · exact hrest
  · exact hx

theorem walks_atLocation {n : Node} {x : Gen Value}
    (hx : ∀ {g s}, Walks c e X g s x (Visited c e g s)) :
    Walks c e X g s (atLocation n x) (Visited c e g s) :=
  .atLocation hx (fun h₁ _ h => (Visited.of_plainly (v := nilValue) h₁ trivial).trans h)
    fun _ h h₂ => h.trans (.of_plainly h₂ (h₂.keeps.usable h.usable))

theorem gives_located {n : Node} {x : Gen α} {a : α} (h : Gives (located n x) c s a s') :
    Gives (atLocation n x) c s a s' := by
  obtain ⟨r, s₁, h₁, h⟩ := gives_bind.mp h
  cases r with
  | error f =>
    exact absurd (show (Except.error (f.orAt n.location), s₁) = (.ok a, s') from h) (by simp)
  | ok b =>
    obtain ⟨rfl, rfl⟩ := gives_pure.mp h
    exact gives_attempted h₁

/-! ### Literals -/

theorem usable_intLiteral {a : Option Entity} {ts : TypeTable} {t : Option TypeId} {i : Int} :
    Usable c a s (intLiteral ts t i) := by
  unfold intLiteral
  split <;> exact trivial

theorem usable_typeLiteral {a : Option Entity} {ts : TypeTable} {t : Option TypeId} :
    Usable c a s (typeLiteral ts t) := by
  unfold typeLiteral
  split
  · split <;> exact trivial
  · exact trivial

/-! ### Assignments -/

section

variable (hv : Visits c visit)
include hv

omit hv in
/-- What follows the value of an assignment. -/
theorem walks_assignAfter {n target value : Node} {v : Value} (hu : Usable c (some e) s v) :
    Walks c e X g s (do
      let source ← typeOf value
      if ← isTerminated then return v
      else
        let (ptr, t) ← assignTarget target
        assign ptr t source v
        convert v source (← typeOf n)) (Visited c e g s) := by
  refine .ask rfl (.ask rfl ?_)
  split
  · exact .pure fun hi => ⟨.refl hi, rfl, hu⟩
  · refine .assume fun hi => Emits.visited ?_
    refine (emits_assignTarget hi.vars).bind fun r s₁ k₁ hp => ?_
    refine (emits_assign hp (k₁.usable hu)).bind fun _ s₂ k₂ _ => .ask rfl ?_
    exact emits_convert (k₂.usable (k₁.usable hu))

theorem walks_assignment {n target value : Node} (ho : c.program.Owns e value.preorder) :
    Walks c e X g s (assignment visit n target value) (Visited c e g s) := by
  unfold assignment
  refine (hv e X g s value ho).bind fun v g₁ s₁ _ h₁ => ?_
  exact (walks_assignAfter h₁.usable).mono fun _ _ _ _ h => h₁.trans h

omit hv in
/-- What follows a value that is to be out of reach of later stores. -/
theorem walks_detachedAfter {n : Node} {v : Value} (hu : Usable c (some e) s v) :
    Walks c e X g s (do
      let t ← typeOf n
      if ← isAddressHeld t then
        let copy ← alloca (← irType t)
        assign copy t t v
        return (copy, t)
      else return (v, t)) fun g' s' r => Visited c e g s g' s' r.1 := by
  refine .ask rfl (.ask rfl ?_)
  split
  · refine .ask rfl (emits_alloca.walks.bind fun slot g₂ s₂ _ ⟨h₂, hs⟩ => ?_)
    refine (emits_assign hs (h₂.keeps.usable hu)).walks.bind fun _ g₃ s₃ _ ⟨h₃, _⟩ =>
      .pure fun _ => ?_
    exact (Visited.of_plainly h₂ hs).trans (.of_plainly h₃ (h₃.keeps.usable hs))
  · exact .pure fun hi => ⟨.refl hi, rfl, hu⟩

theorem walks_detached {n : Node} (ho : c.program.Owns e n.preorder) :
    Walks c e X g s (detached visit n) fun g' s' r => Visited c e g s g' s' r.1 :=
  (hv e X g s n ho).bind fun _ _ _ _ h₁ =>
    (walks_detachedAfter h₁.usable).mono fun _ _ _ _ h => h₁.trans h

theorem walks_detachedAll {nodes : List Node} (ho : c.program.Owns e (Node.preorderList nodes)) :
    Walks c e X g s (nodes.mapM (detached visit)) fun g' s' rs =>
      Passed c e g s g' s' (rs.map Prod.fst) := by
  induction nodes generalizing g s with
  | nil => exact .pure .nil
  | cons n rest ih =>
    rw [Node.preorderList, Program.Owns.append] at ho
    rw [List.mapM_cons]
    refine (walks_detached hv ho.1).bind fun r g₁ s₁ _ h₁ => ?_
    exact (ih ho.2).bind fun rs g₂ s₂ _ h₂ => .pure fun _ => h₁.passed.append h₂

omit hv in
theorem emits_storeAll {values : List (Node × Value × TypeId)} (hs : Scoped c (some e) s)
    (hu : ∀ p ∈ values, Usable c (some e) s p.2.1) :
    Emits c (some e) s (storeAll values) fun _ _ => True := by
  induction values generalizing s with
  | nil => exact .pure trivial
  | cons p rest ih =>
    obtain ⟨target, value, source⟩ := p
    refine .ask rfl ?_
    split
    · exact .pure trivial
    · refine (emits_assignTarget hs).bind fun r s₁ k₁ hp => ?_
      have hval := k₁.usable (hu _ List.mem_cons_self)
      refine (emits_assign hp hval).bind fun _ s₂ k₂ _ => ?_
      have k := k₁.trans k₂
      exact ih (k.vars hs) fun q hq => k.usable (hu q (List.mem_cons_of_mem _ hq))

omit hv in
/-- What follows the values that several targets are given. -/
theorem walks_storesAfter {targets : List Node} {values : List (Value × TypeId)}
    (hu : ∀ v ∈ values.map Prod.fst, Usable c (some e) s v) :
    Walks c e X g s (do
      storeAll (targets.zip values)
      return nilValue) (Visited c e g s) := by
  refine .assume fun hi => (emits_storeAll hi.vars fun p hp => ?_).walks.bind
    fun _ g₁ s₁ _ ⟨h₁, _⟩ => .pure fun _ => .of_plainly h₁ trivial
  exact hu _ (List.mem_map_of_mem (List.of_mem_zip hp).2)

theorem walks_multiAssignment {targets values : List Node}
    (ho : c.program.Owns e (Node.preorderList values)) :
    Walks c e X g s (multiAssignment visit targets values) (Visited c e g s) := by
  unfold multiAssignment
  split
  · exact .fail
  · refine (walks_detachedAll hv ho).bind fun rs g₁ s₁ _ h₁ => ?_
    exact (walks_storesAfter h₁.usable).mono fun _ _ _ _ h =>
      ⟨h₁.leg.trans h.leg, h.waiting.trans h₁.waiting, h.usable⟩

/-! ### Expressions -/

theorem walks_visitWith {n : Node} (ho : c.program.Owns e n.preorder) :
    Walks c e X g s (visitWith visit n) (Visited c e g s) := by
  have hkind : c.program.Owns e (Node.preorderKind n.kind) := ho.mono (by
    rw [Node.preorder_eq]
    exact List.subset_cons_self _ _)
  have hvalue : ∀ {v : Value}, (∀ s, Usable c (some e) s v) →
      Walks c e X g s (pure v) (Visited c e g s) := fun h =>
    .pure fun hi => ⟨.refl hi, rfl, h s⟩
  have hscoped : ∀ {x : Gen Value}, (Scoped c (some e) s → Emits c (some e) s x
      (Usable c (some e))) → Walks c e X g s x (Visited c e g s) := fun h =>
    .assume fun hi => (h hi.vars).visited
  unfold visitWith
  cases hk : n.kind with
  | nop => exact hvalue fun _ => trivial
  | nilLiteral => exact hvalue fun _ => trivial
  | boolLiteral value => exact hvalue fun _ => trivial
  | intLiteral value => exact .ask rfl (hvalue fun _ => usable_intLiteral)
  | floatLiteral value => exact .ask rfl (hvalue fun _ => trivial)
  | charLiteral value => exact hvalue fun _ => trivial
  | stringLiteral value => exact emits_stringValue.visited
  | symbolLiteral value => exact emits_symbolValue.visited
  | typeLiteral => exact .ask rfl (hvalue fun _ => usable_typeLiteral)
  | var name => exact .ask rfl (hscoped emits_readVariable)
  | assign target value =>
    rw [hk, Node.preorderKind, Program.Owns.append] at hkind
    exact walks_assignment hv hkind.2
  | multiAssign targets values =>
    rw [hk, Node.preorderKind, Program.Owns.append] at hkind
    exact walks_multiAssignment hv hkind.2
  | instanceVar name => exact .ask rfl (hscoped emits_readField)
  | global name => exact .ask rfl emits_readGlobal.visited
  | const id =>
    refine walks_constant hv ((ho n (Node.mem_preorder n)).2 _ ?_)
    rw [Program.references, hk]
    exact List.mem_singleton_self _
  | expressions nodes =>
    rw [hk, Node.preorderKind] at hkind
    exact walks_sequence hv hkind trivial
  | branch cond whenTrue whenFalse =>
    rw [hk] at hkind
    exact (walks_branch hv hkind).mono fun _ _ _ _ h => h.1
  | loop cond body runOnce =>
    rw [hk] at hkind
    exact (walks_loop hv hkind).mono fun _ _ _ _ h => h.1
  | «return» value =>
    rw [hk, Node.preorderKind] at hkind
    exact (walks_leave hv hkind).mono fun _ _ _ _ h => h.1
  | «break» value =>
    rw [hk, Node.preorderKind] at hkind
    exact (walks_exit hv hkind).mono fun _ _ _ _ h => h.1
  | yield values =>
    rw [hk, Node.preorderKind] at hkind
    exact walks_yield hv hkind
  | call call => exact walks_call hv ho hk
  | isA value target =>
    rw [hk, Node.preorderKind] at hkind
    exact walks_membership hv hkind
  | simpleOr left right =>
    rw [hk, Node.preorderKind, Program.Owns.append] at hkind
    exact walks_either hv hkind.1 hkind.2
  | pointerOf target => exact .ask rfl (hscoped emits_pointerTo)
  | nilPointer => exact .ask rfl (.ask rfl (hvalue fun _ => trivial))
  | argc => exact emits_argumentCount.visited
  | argv => exact emits_argumentVector.visited
  | primitive op => exact hscoped emits_primitive

end

/-- Every expression is generated well. -/
theorem visits_visit (depth : Nat) : Visits c (Gen.visit depth) := by
  induction depth with
  | zero => exact fun _ _ _ _ _ _ => .fail
  | succ depth ih =>
    intro e X g s n ho
    refine emits_note.walks.bind fun _ g₁ s₁ _ ⟨h₁, _⟩ => ?_
    have hlocated : Walks c e X g₁ s₁ (located n (visitWith (Gen.visit depth) n))
        (Visited c e g₁ s₁) := fun hi v s' hg =>
      walks_atLocation (walks_visitWith ih ho) hi v s' (gives_located hg)
    refine hlocated.bind fun v g₂ s₂ _ h₂ => ?_
    refine emits_record.walks.bind fun _ g₃ s₃ _ ⟨h₃, _⟩ => .pure fun _ => ?_
    have h₁ : Visited c e g s g₁ s₁ nilValue := .of_plainly h₁ trivial
    exact h₁.trans (h₂.trans (.of_plainly h₃ (h₃.keeps.usable h₂.usable)))

end Lowering.Gen
