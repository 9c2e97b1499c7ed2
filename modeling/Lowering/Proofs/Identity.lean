import Lowering.Proofs.Agreement
import Lowering.Proofs.Initial
import Lowering.Proofs.Lifetime
import Lowering.Proofs.Primitive

/-!
# What the globals of a module are for

Texts, symbols, globals, constants and the arguments of the program are put into globals of the
module when they are first named, under names that may collide with each other.  At the end each of
them has one that is for nothing else, and whatever names it was made of that one.

* `Gen.Purpose`, `Gen.State.placeOf`: what a global is for;
* `Gen.Reached.lasts`: what is interned lasts to the end of a generation;
* `Gen.Refers`: the expressions that name a text, a global, a constant or the arguments;
* `Gen.globals_identified`.
-/

namespace Lowering.Gen

open IR (Ty Value GlobalId Build Constant Module)
open Exec (baseAddress)

variable {α β : Type} {c : Context} {s s₁ s₂ s' t : State} {p : Program} {o : Options}
  {g : GlobalId} {n : Node} {v : Value}

/-! ### What globals are for -/

/-- What a global of a module can be for. -/
inductive Purpose
  | text (content : String)
  | symbols
  | global (name : String)
  | argumentCount
  | argumentVector
  | constant (id : ConstId)
  deriving DecidableEq, Repr

/-- The globals that something was made for, with what that is. -/
def State.owned (s : State) : List (Purpose × GlobalId) :=
  s.strings.map (fun (content, g) => (.text content, g)) ++
    s.symbolTable.toList.map (fun g => (.symbols, g)) ++
    s.globals.map (fun (name, g) => (.global name, g)) ++
    (s.entryArgs.toList.flatMap fun (a, b) => [(.argumentCount, a), (.argumentVector, b)]) ++
    s.consts.map fun (id, g) => (.constant id, g)

/-- The global that is for something, when there is one. -/
def State.placeOf (s : State) : Purpose → Option GlobalId
  | .text content => s.strings.lookup content
  | .symbols => s.symbolTable
  | .global name => s.globals.lookup name
  | .argumentCount => s.entryArgs.map Prod.fst
  | .argumentVector => s.entryArgs.map Prod.snd
  | .constant id => s.consts.lookup id

theorem map_snd_owned (s : State) : s.owned.map Prod.snd = s.ownedGlobals := by
  have hargs : (s.entryArgs.toList.flatMap fun (a, b) =>
      [(Purpose.argumentCount, a), (.argumentVector, b)]).map Prod.snd =
        s.entryArgs.toList.flatMap fun (a, b) => [a, b] := by
    cases s.entryArgs <;> rfl
  have hsymbols : (Prod.snd ∘ fun g : GlobalId => (Purpose.symbols, g)) = id := rfl
  simp only [State.owned, State.ownedGlobals, State.tableGlobals, List.map_append, List.map_map,
    hargs, hsymbols, List.map_id]
  rfl

theorem mem_owned {a : Purpose} (h : s.placeOf a = some g) : (a, g) ∈ s.owned := by
  simp only [State.owned, List.mem_append]
  cases a with
  | text content =>
    exact .inl (.inl (.inl (.inl (List.mem_map.mpr ⟨_, mem_of_lookup h, rfl⟩))))
  | symbols =>
    exact .inl (.inl (.inl (.inr (List.mem_map.mpr ⟨g, Option.mem_toList.mpr h, rfl⟩))))
  | global name => exact .inl (.inl (.inr (List.mem_map.mpr ⟨_, mem_of_lookup h, rfl⟩)))
  | argumentCount =>
    obtain ⟨pair, hp, rfl⟩ := Option.map_eq_some_iff.mp h
    exact .inl (.inr (List.mem_flatMap.mpr ⟨pair, Option.mem_toList.mpr hp, by simp⟩))
  | argumentVector =>
    obtain ⟨pair, hp, rfl⟩ := Option.map_eq_some_iff.mp h
    exact .inl (.inr (List.mem_flatMap.mpr ⟨pair, Option.mem_toList.mpr hp, by simp⟩))
  | constant id => exact .inr (List.mem_map.mpr ⟨_, mem_of_lookup h, rfl⟩)

namespace Interned

/-- A global is for one thing. -/
theorem placeOf_inj {a b : Purpose} (h : Interned s) (ha : s.placeOf a = some g)
    (hb : s.placeOf b = some g) : a = b := by
  have hnodup : (s.owned.map Prod.snd).Nodup := by
    rw [map_snd_owned]
    exact h.apart
  exact congrArg Prod.fst (List.inj_on_of_nodup_map hnodup (mem_owned ha) (mem_owned hb) rfl)

theorem placeOf_inside {a : Purpose} (h : Interned s) (ha : s.placeOf a = some g) :
    g.index < s.builder.module.globals.size := by
  refine h.inside g ?_
  rw [← map_snd_owned]
  exact List.mem_map_of_mem (f := Prod.snd) (mem_owned ha)

theorem isText {text : String} (h : Interned s) (ht : s.placeOf (.text text) = some g) :
    IsText (s.builder.module.global g) text :=
  h.content _ (mem_of_lookup ht)

end Interned

theorem Interns.placeOf {a : Purpose} (h : Interns s s') (ha : s.placeOf a = some g) :
    s'.placeOf a = some g := by
  cases a with
  | text content => exact h.strings _ _ ha
  | symbols => exact h.symbolTable _ ha
  | global name => exact h.globals _ _ ha
  | argumentCount =>
    obtain ⟨pair, hp, rfl⟩ := Option.map_eq_some_iff.mp ha
    exact congrArg (Option.map Prod.fst) (h.entryArgs _ hp)
  | argumentVector =>
    obtain ⟨pair, hp, rfl⟩ := Option.map_eq_some_iff.mp ha
    exact congrArg (Option.map Prod.snd) (h.entryArgs _ hp)
  | constant id => exact h.consts _ _ ha

/-- What a text, the table of the symbols or the like is put into is never changed. -/
theorem Interns.global_of_placeOf {a : Purpose} (h : Interns s s') (hs : Interned s)
    (ha : s.placeOf a = some g) (hconst : ∀ id, a ≠ .constant id) :
    s'.builder.module.global g = s.builder.module.global g :=
  h.kept g (hs.placeOf_inside ha) fun id hid =>
    hconst id ((h.interned hs).placeOf_inj (h.placeOf ha) hid)

/-! ### From each expression to the end -/

theorem interns_bind {x : Gen α} {f : α → Gen β} (hx : Interns s (outcome x c s).2)
    (hf : ∀ a t, Interns t (outcome (f a) c t).2) : Interns s (outcome (x >>= f) c s).2 := by
  rw [outcome_bind]
  generalize outcome x c s = r at hx
  obtain ⟨e | a, t⟩ := r
  · exact hx
  · exact hx.trans (hf a t)

theorem Restores.interns {x : Gen α} {T : TypeId → Prop} {F : Cause → Prop}
    (h : Restores c x T F) (s : State) : Interns s (outcome x c s).2 := (h s).1.interns

theorem interns_finish (v : Value) (s : State) : Interns s (outcome (finish v) c s).2 := by
  have hconnect : ∀ s : State, Interns s (outcome (do
      positionAt (← get).constTail
      Build.br c.main.entryBlock
      positionAt c.main.allocaBlock
      Build.br c.constHead
      let m := (← get).builder.module
      note .debug <| "entry function done: " ++ toString m.functions.size ++ " function(s), " ++
        toString m.globals.size ++ " global(s)") c s).2 :=
    (restores_get.bind fun _ => restores_positionAt.bind fun _ => still_br.restores.bind
      fun _ => restores_positionAt.bind fun _ => still_br.restores.bind fun _ => restores_get.bind
        fun _ => restores_note (begins_nothing (a := 'e') (by simp) (by decide))).interns
  have hread : outcome (read : Gen Context) c s = (.ok c, s) := rfl
  rw [finish, outcome_after hread]
  refine interns_bind (x := modify _) (.of_eq rfl) fun _ s₁ => ?_
  refine interns_bind (restores_isTerminated.interns s₁) fun done s₂ => ?_
  split
  · split
    · refine interns_bind (restores_get.interns s₂) fun _ s₃ => ?_
      refine interns_bind (restores_convertExactly.interns s₃) fun _ s₄ => ?_
      exact interns_bind (still_ret.restores.interns s₄) fun _ s₅ => hconnect s₅
    · exact interns_bind (still_ret.restores.interns s₂) fun _ s₃ => hconnect s₃
  · exact hconnect s₂

/-- What is interned after an expression of a generation is interned at the end. -/
theorem Reached.lasts {depth : Nat} {r : Except Failure Unit} {sf : State}
    (h : Reached p o c depth n s) (hrun : run? p o = some (r, sf)) :
    Interns (outcome (visit depth n) c s).2 sf := by
  induction h with
  | @root n s s' start symbols root =>
    obtain ⟨⟨c', s₀⟩, hstart, hwhole⟩ := Option.map_eq_some_iff.mp hrun
    obtain ⟨rfl, rfl⟩ := Prod.mk.inj (Option.some.inj (start.symm.trans hstart))
    have hout : outcome (whole p) c s = (r, sf) := hwhole
    have hsymbols : outcome prepareSymbols c s = (.ok (), s') := symbols
    rw [whole, outcome_after hsymbols, root] at hout
    have hlast : Interns (outcome (visit p.nestingBound n) c s').2
        (outcome (visit p.nestingBound n >>= finish) c s').2 := by
      rw [outcome_bind]
      generalize outcome (visit p.nestingBound n) c s' = r'
      obtain ⟨e | a, t⟩ := r'
      · exact .refl t
      · exact interns_finish a t
    rw [show outcome (visit p.nestingBound n >>= finish) c s' = (r, sf) from hout] at hlast
    exact hlast
  | @inner depth n m s t outer consults ih =>
    exact (consults.interns (restoring_visit depth) outer.inFunction).trans ih

/-! ### References -/

/-- The last steps of what is made for an expression, in the block where it was begun. -/
def EndsWith (x : Gen α) (c : Context) (s : State) (a : α) (s' : State) : Prop :=
  ∃ t, Gives x c t a s' ∧ t.builder.position = s.builder.position

/-- The type of a global of the program that is used at a type. -/
def Context.globalType (c : Context) (name : String) (used : TypeId) : TypeId :=
  (c.program.global? name).elim used GlobalDef.type

/-- An expression that names a text, a global, a constant or the arguments of the program is made
of the global that is for it, and the initializer of a constant is put into the same. -/
def Refers (place : Purpose → Option GlobalId) (c : Context) (visit : Visitor) (n : Node)
    (s : State) (v : Value) (s' : State) : Prop :=
  let used := n.type.getD c.nil
  match n.kind with
  | .stringLiteral text => ∃ g, place (.text text) = some g ∧ v = .const (stringAt g)
  | .global name =>
    let source := c.globalType name used
    ∃ g, place (.global name) = some g ∧
      EndsWith (do convert (← heldIn (.global g) source name) source used) c s v s'
  | .const id => ∃ d g, c.program.const? id = some d ∧ place (.constant id) = some g ∧
      (s.consts.lookup id = some g ∨
        ∃ t t', Gives (hoist visit g d (d.value.type.getD c.nil)) c t () t') ∧
      EndsWith (heldIn (.global g) (d.value.type.getD c.nil) d.name) c s v s'
  | .pointerOf target => ∀ name, target.kind = .global name →
      ∃ g, place (.global name) = some g ∧
        EndsWith (do coerce (.global g) (← irType used)) c s v s'
  | .assign target value => ∀ name, target.kind = .global name →
      let source := value.type.getD c.nil
      ∃ w t, Gives (visit value) c s w t ∧ (t.builder.isTerminated = true ∨
        ∃ g, place (.global name) = some g ∧ EndsWith (do
          assign (.global g) (c.globalType name (target.type.getD c.nil)) source w
          convert w source used) c t v s')
  | .multiAssign targets values => ∃ ws t, Gives (values.mapM (detached visit)) c s ws t ∧
      ∀ before target w source after name,
        targets.zip ws = before ++ (target, w, source) :: after → target.kind = .global name →
          ∃ t₁, Gives (storeAll before) c t () t₁ ∧ (t₁.builder.isTerminated = true ∨
            ∃ g, place (.global name) = some g ∧ EndsWith (do
              assign (.global g) (c.globalType name (target.type.getD c.nil)) source w
              storeAll after) c t₁ () s')
  | .argc => ∃ g, place .argumentCount = some g ∧
      EndsWith (emit (Build.load (.global g) (some "argc"))) c s v s'
  | .argv => ∃ g, place .argumentVector = some g ∧
      EndsWith (emit (Build.load (.global g) (some "argv"))) c s v s'
  | _ => True

/-- More may be known of the globals. -/
theorem Refers.mono {place place' : Purpose → Option GlobalId} {visit : Visitor}
    (hp : ∀ a g, place a = some g → place' a = some g) (h : Refers place c visit n s v s') :
    Refers place' c visit n s v s' := by
  unfold Refers at h ⊢
  dsimp only at h ⊢
  split
  · simp only [*] at h
    obtain ⟨g, hg, h⟩ := h
    exact ⟨g, hp _ g hg, h⟩
  · simp only [*] at h
    obtain ⟨g, hg, h⟩ := h
    exact ⟨g, hp _ g hg, h⟩
  · simp only [*] at h
    obtain ⟨d, g, hd, hg, h⟩ := h
    exact ⟨d, g, hd, hp _ g hg, h⟩
  · simp only [*] at h
    intro name hname
    obtain ⟨g, hg, h⟩ := h name hname
    exact ⟨g, hp _ g hg, h⟩
  · simp only [*] at h
    intro name hname
    obtain ⟨w, t, hw, h⟩ := h name hname
    exact ⟨w, t, hw, h.imp_right fun ⟨g, hg, h⟩ => ⟨g, hp _ g hg, h⟩⟩
  · simp only [*] at h
    obtain ⟨ws, t, hws, h⟩ := h
    refine ⟨ws, t, hws, fun before target w source after name hzip hname => ?_⟩
    obtain ⟨t₁, ht, h⟩ := h before target w source after name hzip hname
    exact ⟨t₁, ht, h.imp_right fun ⟨g, hg, h⟩ => ⟨g, hp _ g hg, h⟩⟩
  · simp only [*] at h
    obtain ⟨g, hg, h⟩ := h
    exact ⟨g, hp _ g hg, h⟩
  · simp only [*] at h
    obtain ⟨g, hg, h⟩ := h
    exact ⟨g, hp _ g hg, h⟩
  · trivial

theorem placeOf_stringGlobal {text : String} (h : Gives (stringGlobal text) c s g s') :
    s'.placeOf (.text text) = some g := by
  have hout : outcome (stringGlobal text) c s = (.ok g, s') := h
  rw [outcome_stringGlobal] at hout
  cases hl : s.strings.lookup text with
  | some g' =>
    rw [hl] at hout
    obtain ⟨hg, rfl⟩ := Prod.mk.inj hout
    exact hl.trans (congrArg some (Except.ok.inj hg))
  | none =>
    rw [hl] at hout
    obtain ⟨hg, rfl⟩ := Prod.mk.inj hout
    exact List.lookup_cons_self.trans (congrArg some (Except.ok.inj hg))

theorem placeOf_globalSlot {name : String} {ty : TypeId} (h : Gives (globalSlot name ty) c s g s') :
    s'.placeOf (.global name) = some g ∧ s'.builder.position = s.builder.position := by
  have hout : outcome (globalSlot name ty) c s = (.ok g, s') := h
  rw [outcome_globalSlot] at hout
  cases hl : s.globals.lookup name with
  | some g' =>
    rw [hl] at hout
    obtain ⟨hg, rfl⟩ := Prod.mk.inj hout
    exact ⟨hl.trans (congrArg some (Except.ok.inj hg)), rfl⟩
  | none =>
    rw [hl] at hout
    obtain ⟨hg, rfl⟩ := Prod.mk.inj hout
    exact ⟨List.lookup_cons_self.trans (congrArg some (Except.ok.inj hg)), rfl⟩

theorem placeOf_entryArguments {gs : GlobalId × GlobalId} (hs : s.InFunction)
    (h : Gives entryArguments c s gs s') : s'.placeOf .argumentCount = some gs.1 ∧
      s'.placeOf .argumentVector = some gs.2 ∧ s'.builder.position = s.builder.position := by
  have hout : outcome entryArguments c s = (.ok gs, s') := h
  cases hl : s.entryArgs with
  | some pair =>
    have hget : outcome (get : Gen State) c s = (.ok s, s) := rfl
    rw [entryArguments, outcome_after hget, hl] at hout
    obtain ⟨hg, rfl⟩ := Prod.mk.inj hout
    obtain rfl := Except.ok.inj hg
    exact ⟨congrArg (Option.map Prod.fst) hl, congrArg (Option.map Prod.snd) hl, rfl⟩
  | none =>
    obtain ⟨b, hb⟩ := hs
    rw [outcome_entryArguments hl] at hout
    obtain ⟨hg, rfl⟩ := Prod.mk.inj hout
    obtain rfl := Except.ok.inj hg
    rw [hb]
    exact ⟨rfl, rfl, rfl⟩

/-- After what is made elsewhere, instructions are placed where they were. -/
theorem position_aside {x : Gen α} {a : α} {q : IR.FuncId × IR.BlockId} (h : Gives (aside x) c s a s')
    (hs : s.builder.position = some q) : s'.builder.position = some q := by
  have hstate := congrArg Prod.snd ((outcome_aside (c := c) x s).symm.trans h)
  rw [hs] at hstate
  rw [← show _ = s' from hstate]
  rfl

theorem placeOf_constantGlobal {depth : Nat} {id : ConstId} {d : ConstDef} {ty : TypeId}
    (hs : s.InFunction) (h : Gives (constantGlobal (visit depth) id d ty) c s g s') :
    s'.placeOf (.constant id) = some g ∧ s'.builder.position = s.builder.position ∧
      (s.consts.lookup id = some g ∨ ∃ t t', Gives (hoist (visit depth) g d ty) c t () t') := by
  have hout : outcome (constantGlobal (visit depth) id d ty) c s = (.ok g, s') := h
  cases hl : s.consts.lookup id with
  | some g' =>
    have hget : outcome (get : Gen State) c s = (.ok s, s) := rfl
    rw [constantGlobal, outcome_after hget, hl] at hout
    obtain ⟨hg, rfl⟩ := Prod.mk.inj hout
    obtain rfl := Except.ok.inj hg
    exact ⟨hl, rfl, .inl rfl⟩
  | none =>
    rw [outcome_constantGlobal hl] at hout
    obtain ⟨⟨⟩, t, hhoist, hret⟩ := gives_bind.mp hout
    obtain ⟨rfl, rfl⟩ := gives_pure.mp hret
    have hin : (s.withConst id d.name (c.program.types.irType ty)).InFunction := hs
    have hinterns := ((agree_hoist (c := c) (restoring_visit depth).alike d ty hin
      List.lookup_cons_self).restored () trivial).interns
    rw [show outcome (hoist (visit depth) s.builder.module.nextGlobal d ty) c _ = (.ok (), s')
      from hhoist] at hinterns
    refine ⟨hinterns.consts id _ List.lookup_cons_self, ?_, .inr ⟨_, _, hhoist⟩⟩
    obtain ⟨⟨⟩, s₁, hnote, haside⟩ := gives_bind.mp hhoist
    obtain ⟨b, hb⟩ := hs
    have hs₁ : s₁.builder.position = some (s.fn.func, b) := by
      rw [gives_modify hnote]
      exact hb
    exact (position_aside haside hs₁).trans hb.symm

/-- Values stored one after the other. -/
theorem gives_storeAll_append {before after : List (Node × Value × TypeId)}
    (h : Gives (storeAll (before ++ after)) c s () s') :
    ∃ t, Gives (storeAll before) c s () t ∧ Gives (storeAll after) c t () s' := by
  induction before generalizing s with
  | nil => exact ⟨s, rfl, h⟩
  | cons p before ih =>
    obtain ⟨target, w, source⟩ := p
    have hdone : Gives isTerminated c s s.builder.isTerminated s := rfl
    replace h := gives_after hdone h
    cases hterm : s.builder.isTerminated with
    | true =>
      rw [hterm] at h hdone
      obtain ⟨-, hs'⟩ := gives_pure.mp h
      have hstop : ∀ values, Gives (storeAll values) c s () s := fun values => by
        cases values with
        | nil => rfl
        | cons q values => exact gives_bind.mpr ⟨true, s, hdone, rfl⟩
      rw [hs']
      exact ⟨s, hstop _, hstop _⟩
    | false =>
      rw [hterm] at h hdone
      obtain ⟨⟨ptr, ty⟩, s₁, h₁, h⟩ := gives_bind.mp h
      obtain ⟨⟨⟩, s₂, h₂, h⟩ := gives_bind.mp h
      obtain ⟨t, ht, h⟩ := ih h
      exact ⟨t, gives_bind.mpr ⟨false, s, hdone, gives_bind.mpr
        ⟨_, s₁, h₁, gives_bind.mpr ⟨_, s₂, h₂, ht⟩⟩⟩, h⟩

/-- What is stored in a global of the program is stored in the one that is for it. -/
theorem refers_assignTarget {target : Node} {name : String} {ptr : Value} {ty : TypeId}
    (hname : target.kind = .global name) (h : Gives (assignTarget target) c s (ptr, ty) s') :
    ∃ g, s'.placeOf (.global name) = some g ∧ ptr = .global g ∧
      ty = c.globalType name (target.type.getD c.nil) ∧
        s'.builder.position = s.builder.position := by
  unfold assignTarget at h
  rw [hname] at h
  have hused : Gives (typeOf target) c s (target.type.getD c.nil) s := rfl
  have htype : Gives (globalType name (target.type.getD c.nil)) c s
      (c.globalType name (target.type.getD c.nil)) s := rfl
  replace h := gives_after hused h
  replace h := gives_after htype h
  obtain ⟨g, s₁, h₂, h⟩ := gives_bind.mp h
  obtain ⟨he, rfl⟩ := gives_pure.mp h
  obtain ⟨rfl, rfl⟩ := Prod.mk.inj he
  obtain ⟨hplace, hposition⟩ := placeOf_globalSlot h₂
  exact ⟨g, hplace, rfl, rfl, hposition⟩

theorem refers_assignment {depth : Nat} {target value : Node} {name : String}
    (hname : target.kind = .global name)
    (h : Gives (assignment (visit depth) n target value) c s v s') :
    ∃ w t, Gives (visit depth value) c s w t ∧ (t.builder.isTerminated = true ∨
      ∃ g, s'.placeOf (.global name) = some g ∧ EndsWith (do
        assign (.global g) (c.globalType name (target.type.getD c.nil)) (value.type.getD c.nil) w
        convert w (value.type.getD c.nil) (n.type.getD c.nil)) c t v s') := by
  obtain ⟨w, t, hw, h⟩ := gives_bind.mp h
  have hsource : Gives (typeOf value) c t (value.type.getD c.nil) t := rfl
  have hdone : Gives isTerminated c t t.builder.isTerminated t := rfl
  replace h := gives_after hsource h
  replace h := gives_after hdone h
  refine ⟨w, t, hw, ?_⟩
  cases hterm : t.builder.isTerminated with
  | true => exact .inl rfl
  | false =>
    rw [hterm] at h
    obtain ⟨⟨ptr, ty⟩, t₁, htarget, h⟩ := gives_bind.mp h
    obtain ⟨g, hplace, rfl, rfl, hposition⟩ := refers_assignTarget hname htarget
    have hkept : Interns t₁ s' := ((restores_assign (c := c)).bind fun _ =>
      restores_typeOf.bind fun _ => restores_convert).gives h |>.1.interns
    exact .inr ⟨g, hkept.placeOf hplace, t₁, h, hposition⟩

theorem refers_multiAssignment {depth : Nat} {targets values : List Node}
    (h : Gives (multiAssignment (visit depth) targets values) c s v s') :
    ∃ ws t, Gives (values.mapM (detached (visit depth))) c s ws t ∧
      ∀ before target w source after name,
        targets.zip ws = before ++ (target, w, source) :: after → target.kind = .global name →
          ∃ t₁, Gives (storeAll before) c t () t₁ ∧ (t₁.builder.isTerminated = true ∨
            ∃ g, s'.placeOf (.global name) = some g ∧ EndsWith (do
              assign (.global g) (c.globalType name (target.type.getD c.nil)) source w
              storeAll after) c t₁ () s') := by
  unfold multiAssignment at h
  split at h
  · exact absurd h not_gives_fail
  · obtain ⟨ws, t, hws, h⟩ := gives_bind.mp h
    obtain ⟨⟨⟩, t', hstore, h⟩ := gives_bind.mp h
    obtain ⟨rfl, rfl⟩ := gives_pure.mp h
    refine ⟨ws, t, hws, fun before target w source after name hzip hname => ?_⟩
    rw [hzip] at hstore
    obtain ⟨t₁, hbefore, hrest⟩ := gives_storeAll_append hstore
    refine ⟨t₁, hbefore, ?_⟩
    have hdone : Gives isTerminated c t₁ t₁.builder.isTerminated t₁ := rfl
    replace hrest := gives_after hdone hrest
    cases hterm : t₁.builder.isTerminated with
    | true => exact .inl rfl
    | false =>
      rw [hterm] at hrest
      obtain ⟨⟨ptr, ty⟩, t₂, htarget, hrest⟩ := gives_bind.mp hrest
      obtain ⟨g, hplace, rfl, rfl, hposition⟩ := refers_assignTarget hname htarget
      have hkept : Interns t₂ s' := ((restores_assign (c := c)).wide.bind fun _ =>
        restores_storeAll (T := fun _ => True) after fun _ _ => trivial).gives hrest |>.1.interns
      exact .inr ⟨g, hkept.placeOf hplace, t₂, hrest, hposition⟩

theorem refers_visitWith {depth : Nat} (hs : s.InFunction)
    (h : Gives (visitWith (visit depth) n) c s v s') :
    Refers s'.placeOf c (visit depth) n s v s' := by
  unfold visitWith at h
  unfold Refers
  cases hkind : n.kind with
  | stringLiteral text =>
    simp only [hkind] at h ⊢
    obtain ⟨g, t, ht, h⟩ := gives_bind.mp h
    obtain ⟨rfl, rfl⟩ := gives_pure.mp h
    exact ⟨g, placeOf_stringGlobal ht, rfl⟩
  | global name =>
    simp only [hkind] at h ⊢
    have hused : Gives (typeOf n) c s (n.type.getD c.nil) s := rfl
    have htype : Gives (globalType name (n.type.getD c.nil)) c s
      (c.globalType name (n.type.getD c.nil)) s := rfl
    replace h := gives_after hused h
    replace h := gives_after htype h
    obtain ⟨g, t, ht, h⟩ := gives_bind.mp h
    obtain ⟨hplace, hposition⟩ := placeOf_globalSlot ht
    have hkept : Interns t s' :=
      ((restores_heldIn (c := c)).bind fun _ => restores_convert).gives h |>.1.interns
    exact ⟨g, hkept.placeOf hplace, t, h, hposition⟩
  | const id =>
    simp only [hkind] at h ⊢
    unfold constant at h
    have hread : Gives (read : Gen Context) c s c s := rfl
    replace h := gives_after hread h
    cases hconst : c.program.const? id with
    | none =>
      rw [hconst] at h
      obtain ⟨d, t, hd, -⟩ := gives_bind.mp h
      exact absurd hd not_gives_fail
    | some d =>
      rw [hconst] at h
      have hd : Gives (orFail (.unknownConstant id) (some d)) c s d s := rfl
      have htype : Gives (typeOf d.value) c s (d.value.type.getD c.nil) s := rfl
      replace h := gives_after hd h
      replace h := gives_after htype h
      obtain ⟨g, t, hg, hrest⟩ := gives_bind.mp h
      obtain ⟨hplace, hposition, hmade⟩ := placeOf_constantGlobal hs hg
      have hkept : Interns t s' := ((restores_heldIn (c := c)).gives hrest).1.interns
      exact ⟨d, g, rfl, hkept.placeOf hplace, hmade, t, hrest, hposition⟩
  | pointerOf target =>
    simp only [hkind] at h ⊢
    intro name hname
    have hused : Gives (typeOf n) c s (n.type.getD c.nil) s := rfl
    replace h := gives_after hused h
    obtain ⟨ptr, t, ht, h⟩ := gives_bind.mp h
    unfold addressOf at ht
    simp only [hname] at ht
    have htarget : Gives (typeOf target) c s (target.type.getD c.nil) s := rfl
    have htype : Gives (globalType name (target.type.getD c.nil)) c s
      (c.globalType name (target.type.getD c.nil)) s := rfl
    replace ht := gives_after htarget ht
    replace ht := gives_after htype ht
    obtain ⟨g, t₁, hg, ht⟩ := gives_bind.mp ht
    obtain ⟨rfl, rfl⟩ := gives_pure.mp ht
    obtain ⟨hplace, hposition⟩ := placeOf_globalSlot hg
    have hkept : Interns t s' :=
      ((restores_irType (c := c)).bind fun _ => restores_coerce).gives h |>.1.interns
    exact ⟨g, hkept.placeOf hplace, t, h, hposition⟩
  | assign target value =>
    simp only [hkind] at h ⊢
    exact fun name hname => refers_assignment hname h
  | multiAssign targets values =>
    simp only [hkind] at h ⊢
    exact refers_multiAssignment h
  | argc =>
    simp only [hkind] at h ⊢
    obtain ⟨⟨argc, argv⟩, t, ht, h⟩ := gives_bind.mp h
    obtain ⟨hplace, -, hposition⟩ := placeOf_entryArguments hs ht
    have hkept : Interns t s' := (still_load.restores.gives h).1.interns
    exact ⟨argc, hkept.placeOf hplace, t, h, hposition⟩
  | argv =>
    simp only [hkind] at h ⊢
    obtain ⟨⟨argc, argv⟩, t, ht, h⟩ := gives_bind.mp h
    obtain ⟨-, hplace, hposition⟩ := placeOf_entryArguments hs ht
    have hkept : Interns t s' := (still_load.restores.gives h).1.interns
    exact ⟨argv, hkept.placeOf hplace, t, h, hposition⟩
  | _ => trivial

/-! ### Whole generations -/

theorem interned_start (h : start? p o = some (c, s)) : Interned s := by
  obtain ⟨nil, name, n₀, n₁, n₂, -, -, rfl⟩ := start?_eq h
  exact ⟨.nil, .nil, .nil, .nil, .nil, fun _ h => absurd h List.not_mem_nil,
    fun _ h => absurd h List.not_mem_nil⟩

/-- What is interned when the symbols have their table is interned at the end. -/
theorem interns_after_symbols {r : Except Failure Unit} {sf : State}
    (hstart : start? p o = some (c, s)) (hsymbols : Gives prepareSymbols c s () s')
    (hrun : run? p o = some (r, sf)) : Interns s' sf := by
  cases hroot : p.root with
  | some n =>
    have hreached := Reached.root hstart hsymbols hroot
    exact hreached.interns.trans (hreached.lasts hrun)
  | none =>
    obtain ⟨⟨c', s₀⟩, hstart', hwhole⟩ := Option.map_eq_some_iff.mp hrun
    obtain ⟨rfl, rfl⟩ := Prod.mk.inj (Option.some.inj (hstart.symm.trans hstart'))
    have hout : outcome (whole p) c s = (r, sf) := hwhole
    have hprepared : outcome prepareSymbols c s = (.ok (), s') := hsymbols
    rw [whole, outcome_after hprepared, hroot] at hout
    have hlast := interns_finish (c := c) nilValue s'
    rw [show outcome (finish nilValue) c s' = (r, sf) from hout] at hlast
    exact hlast

/-- What each of the globals of a module is for. -/
structure Identified (p : Program) (o : Options) (m : Module)
    (place : Purpose → Option GlobalId) : Prop where
  names : (m.globals.toList.map IR.Global.name).Nodup
  inside : ∀ a g, place a = some g → g.index < m.globals.size
  apart : ∀ a b g, place a = some g → place b = some g → a = b
  refers : ∀ c depth n s v s', Reached p o c (depth + 1) n s →
    Gives (visit (depth + 1) n) c s v s' →
      ∃ t t', SamePlacing s t ∧ Refers place c (visit depth) n t v t' ∧ SamePlacing t' s'
  symbols : p.symbolSet ≠ [] → ∃ g gs, place .symbols = some g ∧
    List.Forall₂ (fun text g => place (.text text) = some g) p.symbolSet gs ∧
      (m.global g).init = some (.array (.ptr stringRecord) (gs.map stringAt))
  texts : ∀ text g, place (.text text) = some g → IsText (m.global g) text ∧
    ∃ address, (∀ args limit, ∀ k ∈ Exec.moments m args limit,
        Exec.constantValue k.state.globals (stringAt g) = .ptr address) ∧
      ((Utf8.bytes text).length < 2 ^ 31 →
        (Exec.State.initial m).memory.readString address = .ok text) ∧
      ∀ text' g', place (.text text') = some g' → ∀ args limit, ∀ k ∈ Exec.moments m args limit,
        (Exec.constantValue k.state.globals (stringAt g') = .ptr address ↔ text' = text)

/-- The address of a text. -/
theorem constantValue_initial {m : Module} (hg : g.index < m.globals.size) :
    Exec.constantValue (Exec.State.initial m).globals (stringAt g) = .ptr (baseAddress g.index) := by
  show Exec.RtValue.ptr ((Exec.State.initial m).globals[g.index]?.getD 0) = _
  rw [Exec.State.address_initial m hg]
  rfl

/-- The address of a text while a program runs. -/
theorem constantValue_stringAt {m : Module} (hg : g.index < m.globals.size) {args : List String}
    {limit : Nat} {k : Exec.Moment} (hk : k ∈ Exec.moments m args limit) :
    Exec.constantValue k.state.globals (stringAt g) = .ptr (baseAddress g.index) := by
  rw [Exec.globals_moments hk]
  exact constantValue_initial hg

theorem baseAddress_injective : Function.Injective baseAddress := fun i j h => by
  have h := Nat.eq_of_mul_eq_mul_right Exec.offsetRange_pos h
  omega

theorem identified_of_run (h : run? p o = some (.ok (), s)) :
    Identified p o s.builder.module s.placeOf := by
  obtain ⟨⟨c₀, s₀⟩, hstart, -⟩ := Option.map_eq_some_iff.mp h
  obtain ⟨s₁, hs₁⟩ := exists_gives_prepareSymbols c₀ s₀
  have hbefore : Interns s₀ s₁ := (restored_symbols hstart hs₁).interns
  have hafter := interns_after_symbols hstart hs₁ h
  have hinterned : Interned s := hafter.interned (hbefore.interned (interned_start hstart))
  refine ⟨hinterned.names, fun a g => hinterned.placeOf_inside, fun a b g =>
    hinterned.placeOf_inj, ?_, fun hne => ?_, fun text g ht => ?_⟩
  · intro c depth n t v t' hreached hgives
    obtain ⟨t₁, t₂, h₁, hvisit, h₂⟩ := gives_visit_succ hgives
    have hin : t₁.InFunction := by
      obtain ⟨b, hb⟩ := hreached.inFunction
      exact ⟨b, by rw [h₁.position, h₁.fn]; exact hb⟩
    have hlasts := hreached.lasts h
    rw [show outcome (visit (depth + 1) n) c t = (.ok v, t') from hgives] at hlasts
    exact ⟨t₁, t₂, h₁, (refers_visitWith hin hvisit).mono fun _ _ hp =>
      ((Interns.of_eq h₂.registry).trans hlasts).placeOf hp, h₂⟩
  · obtain ⟨nil, name, n₀, n₁, n₂, -, rfl, -⟩ := start?_eq hstart
    obtain ⟨gs, s₂, -, -, hall, -, hgives⟩ :=
      gives_prepareSymbols (c := startContext p o nil) hne s₀
    obtain ⟨-, rfl⟩ := hs₁.unique hgives
    let table := s₂.builder.module.nextGlobal
    have htable : s.placeOf .symbols = some table := hafter.symbolTable table rfl
    have hkept : s.builder.module.global table = s₂.tabled gs :=
      (hafter.global_of_placeOf (a := .symbols) (hbefore.interned (interned_start hstart)) rfl
        fun _ => by simp).trans (IR.Module.global_addGlobal_next _ _)
    refine ⟨table, gs, htable, hall.imp fun text g ht => hafter.strings text g ht, ?_⟩
    rw [hkept]
    rfl
  · have hin := hinterned.placeOf_inside ht
    refine ⟨hinterned.isText ht, baseAddress g.index, fun args limit k hk =>
      constantValue_stringAt hin hk, fun hlen => Exec.readString_initial hin (hinterned.isText ht)
        hlen, fun text' g' ht' args limit k hk => ?_⟩
    rw [constantValue_stringAt (hinterned.placeOf_inside ht') hk]
    refine ⟨fun he => ?_, fun he => ?_⟩
    · have hindex : g'.index = g.index := baseAddress_injective (Exec.RtValue.ptr.inj he)
      have hsame : g' = g := by cases g'; cases g; cases hindex; rfl
      exact Purpose.text.inj (hinterned.placeOf_inj ht' (hsame ▸ ht))
    · obtain rfl := Option.some.inj ((he ▸ ht').symm.trans ht)
      rfl

theorem run_of_generate {m : Module} (h : (p.generate o).result = .ok m) :
    ∃ s, run? p o = some (.ok (), s) ∧ m = s.builder.module := by
  unfold Program.generate at h
  split at h
  · cases h
  · split at h
    · cases h
    · rw [Generation.result_failed] at h
      cases h
    · rename_i s hrun
      refine ⟨s, hrun, ?_⟩
      unfold Generation.verified at h
      split at h
      · split at h
        · rw [Generation.result_failed] at h
          cases h
        · exact (Except.ok.inj h).symm
      · exact (Except.ok.inj h).symm

/-- In a module that a program leads to, all globals have different names, and it is settled what
each of them is for: different texts, globals and constants of the program have different ones, every
expression that names one of them is made of the same, and so is the table of the symbols.  While
the program runs two texts have the same address only if they are equal, and in the memory that a run
begins with a text of less than 2³¹ bytes is read back from its address.  The search for a name that
is free ends, in every module: with the name itself, or with the first number that makes it free. -/
theorem globals_identified {m : Module} (h : (p.generate o).result = .ok m) :
    (∃ place, Identified p o m place) ∧ ∀ (m' : Module) (base : String),
      m'.hasGlobal (m'.uniqueGlobalName base) = false ∧
        (m'.hasGlobal base = false ∧ m'.uniqueGlobalName base = base ∨
          m'.hasGlobal base = true ∧ ∃ n, 1 ≤ n ∧ n ≤ m'.globals.size + 1 ∧
            m'.uniqueGlobalName base = IR.Module.numbered base n ∧
              ∀ k, 1 ≤ k → k < n → m'.hasGlobal (IR.Module.numbered base k) = true) := by
  obtain ⟨s, hrun, rfl⟩ := run_of_generate h
  exact ⟨⟨s.placeOf, identified_of_run hrun⟩, IR.Module.uniqueGlobalName_spec⟩

/-- A program whose texts, globals and constants are called like what is made for them. -/
def namesakes : Program :=
  let build : Drafting Node := do
    Draft.global "str" Draft.intType
    Draft.global "argc" Draft.intType
    let constant ← Draft.constant "str.1" (← Draft.string "str")
    let str ← Draft.node (.global "str") (some Draft.intType)
    let argc ← Draft.node (.global "argc") (some Draft.intType)
    Draft.sequence [← Draft.string "str.1", ← Draft.symbol "str", ← Draft.constRef constant,
      ← Draft.assign str (← Draft.argc), ← Draft.assign argc str, ← Draft.string "str"]
  let (root, draft) := build.run Draft.new
  draft.program root

theorem namesakes_identified : ∃ m, (namesakes.generate {}).result = .ok m ∧
    m.globals.toList.map IR.Global.name =
      ["str", "symbol_table", "str.1", "str.1.1", "argc", "argv", "str.2", "argc.1"] ∧
    ∃ place, Identified namesakes {} m place := by
  have hnames : (namesakes.generate {}).result.toOption.map
      (fun m => m.globals.toList.map IR.Global.name) =
        some ["str", "symbol_table", "str.1", "str.1.1", "argc", "argv", "str.2", "argc.1"] := by
    decide +kernel
  obtain ⟨m, hm, hlist⟩ := Option.map_eq_some_iff.mp hnames
  have hok : (namesakes.generate {}).result = .ok m := by
    generalize (namesakes.generate {}).result = r at hm
    cases r with
    | error d => cases hm
    | ok m' => exact congrArg Except.ok (Option.some.inj hm)
  exact ⟨m, hok, hlist, (globals_identified hok).1⟩

end Lowering.Gen
