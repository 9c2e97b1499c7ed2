import Lowering.Gen.Visit
import Lowering.Program.Draft
import Lowering.Proofs.Restoring

/-!
# Conversions that are refused

A conversion between two types of registers is refused when they differ in representation, unless
both are pointers or it is one to nil.  No other conversion is: whether a type that is held by
address has a member in common with the other type is not asked.

* `Gen.Total`: steps that never fail, with their rules;
* `TypeTable.Refuses`: the pairs of types that are refused;
* `Gen.conversions_refused`: for these alone views and stores fail, and nothing is placed then.
-/

namespace Lowering

open IR (Ty Value Build)

namespace Gen

variable {α β : Type} {c : Context} {v p : Value} {t : Ty} {source target member : TypeId}

/-! ### Steps that never fail -/

/-- A step of generation that never fails. -/
def Total (c : Context) {α : Type} (x : Gen α) : Prop := ∀ s, ∃ a s', Gives x c s a s'

namespace Total

variable {f : α → Gen β} {y y' : Gen α} {n : Node}

theorem pure (a : α) : Total c (pure a : Gen α) := fun s => ⟨a, s, rfl⟩

theorem emit (b : Build α) : Total c (Gen.emit b) := fun _ => ⟨_, _, rfl⟩

theorem bind (hy : Total c y) (hf : ∀ a, Total c (f a)) : Total c (y >>= f) := by
  intro s
  obtain ⟨a, s₁, h₁⟩ := hy s
  obtain ⟨b, s₂, h₂⟩ := hf a s₁
  exact ⟨b, s₂, gives_bind.mpr ⟨a, s₁, h₁, h₂⟩⟩

theorem ask {a : α} (hy : ∀ s, Gives y c s a s) (hf : Total c (f a)) : Total c (y >>= f) := by
  intro s
  obtain ⟨b, s', h⟩ := hf s
  exact ⟨b, s', gives_bind.mpr ⟨a, s, hy s, h⟩⟩

theorem ite {q : Prop} [Decidable q] (hy : Total c y) (hy' : Total c y') :
    Total c (if q then y else y') := by
  split
  · exact hy
  · exact hy'

theorem atLocation (hy : Total c y) : Total c (Gen.atLocation n y) := by
  have hback : ∀ l, Total c (attempt y >>= fun r => Gen.emit (Build.setLocation l) >>= fun _ =>
      resume r) := fun l s => by
    obtain ⟨a, s₁, h⟩ := hy s
    exact ⟨a, _, gives_bind.mpr ⟨.ok a, s₁, gives_attempt_of h, gives_bind.mpr ⟨(), _, rfl, rfl⟩⟩⟩
  unfold Gen.atLocation
  refine .ask (a := c) (fun _ => rfl) ?_
  split
  · refine bind (fun s => ⟨s, s, rfl⟩) fun s => ?_
    dsimp only
    split
    · exact (emit _).bind fun _ => hback _
    · exact hback _
  · exact hy

theorem located (hy : Total c y) : Total c (Gen.located n y) := fun s => by
  obtain ⟨a, s₁, h⟩ := hy.atLocation s
  exact ⟨a, s₁, gives_bind.mpr ⟨.ok a, s₁, gives_attempt_of h, rfl⟩⟩

/-- A step that never fails does not fail in a state. -/
theorem not_failed (hy : Total c y) (s : State) (f : Failure) : (outcome y c s).1 ≠ .error f := by
  obtain ⟨a, s', h⟩ := hy s
  rw [show outcome y c s = (.ok a, s') from h]
  nofun

end Total

/-! ### Parts of conversions -/

theorem total_alloca {title : Option String} : Total c (alloca t title) := fun _ => ⟨_, _, rfl⟩

theorem total_loadTag : Total c (loadTag p) := (Total.emit _).bind fun _ => .emit _

theorem total_storeTag {tag : Value} : Total c (storeTag p tag) :=
  (Total.emit _).bind fun _ => .emit _

theorem total_payload : Total c (payload p t) := (Total.emit _).bind fun _ => .emit _

theorem total_isNull : Total c (isNull v) := (Total.emit _).bind fun _ => .emit _

theorem total_isNotNull : Total c (isNotNull v) := (Total.emit _).bind fun _ => .emit _

theorem total_coerce : Total c (coerce v t) :=
  (Total.emit _).bind fun _ => .ite (.pure v) (.ite (.emit _) (.ite (.emit _) (.pure v)))

theorem total_storeCoerced : Total c (storeCoerced v p) := by
  refine (Total.emit _).bind fun type => ?_
  cases type.pointee? with
  | some t => exact total_coerce.bind fun _ => .emit _
  | none => exact (Total.pure v).bind fun _ => .emit _

theorem total_fillBox : Total c (fillBox p source v) :=
  total_storeTag.bind fun _ => (Total.emit _).bind fun _ => (Total.emit _).bind fun _ => .emit _

theorem total_boxed : Total c (boxed source v) :=
  total_alloca.bind fun _ => total_fillBox.bind fun _ => .pure _

theorem total_storeScalarInUnion : Total c (storeScalarInUnion p target source v) := by
  refine .ask (fun _ => rfl) ?_
  cases admittingHierarchy? _ _ source with
  | some h => exact total_storeTag.bind fun _ => total_payload.bind fun _ => total_fillBox
  | none => exact total_storeTag.bind fun _ => total_payload.bind fun _ => total_storeCoerced

theorem total_storeBoxInUnion : Total c (storeBoxInUnion p target source v) := by
  refine .ask (fun _ => rfl) (.ite ?_ ?_)
  · exact total_storeTag.bind fun _ => (Total.emit _).bind fun _ => total_payload.bind fun _ =>
      .emit _
  · exact total_loadTag.bind fun _ => (Total.emit _).bind fun _ => (Total.emit _).bind fun _ =>
      total_storeTag.bind fun _ => total_payload.bind fun _ => .emit _

theorem total_storeNilableInUnion : Total c (storeNilableInUnion p source member v) :=
  total_isNull.bind fun _ => .ask (fun _ => rfl) <| (Total.emit _).bind fun _ =>
    total_storeTag.bind fun _ => .ask (fun _ => rfl) <| total_payload.bind fun _ => .emit _

theorem total_copyUnion : Total c (copyUnion p target source v) :=
  .ask (fun _ => rfl) <| .ask (fun _ => rfl) <| (Total.emit _).bind fun _ =>
    (Total.emit _).bind fun _ => (Total.emit _).bind fun _ => .emit _

theorem total_storeInUnion : Total c (storeInUnion p target source v) := by
  refine .ask (fun _ => rfl) ?_
  cases c.program.types.shape source with
  | tagged n => exact total_copyUnion
  | nilable member => exact total_storeNilableInUnion
  | boxed base => exact total_storeBoxInUnion
  | scalar => exact total_storeScalarInUnion

theorem total_inUnion : Total c (inUnion v source target) :=
  .ask (fun _ => rfl) <| total_alloca.bind fun _ => total_storeInUnion.bind fun _ => .pure _

theorem total_boxOfUnion : Total c (boxOfUnion v source target) :=
  .ask (fun _ => rfl) <| .ite total_payload <| total_alloca.bind fun _ =>
    total_loadTag.bind fun _ => total_payload.bind fun _ => (Total.emit _).bind fun _ =>
      total_storeTag.bind fun _ => (Total.emit _).bind fun _ => (Total.emit _).bind fun _ => .pure _

theorem total_nilableOfUnion : Total c (nilableOfUnion v t) :=
  total_loadTag.bind fun _ => .ask (fun _ => rfl) <| (Total.emit _).bind fun _ =>
    total_payload.bind fun _ => (Total.emit _).bind fun _ => .emit _

theorem total_objectOfBox : Total c (objectOfBox v t) :=
  (Total.emit _).bind fun _ => (Total.emit _).bind fun _ => .emit _

theorem total_scalarOfUnion : Total c (scalarOfUnion v t) := total_payload.bind fun _ => .emit _

theorem total_copyHeld : Total c (copyHeld p v) := (Total.emit _).bind fun _ => .emit _

end Gen

/-! ### Pairs of types -/

/-- Two types of registers of different representations, not both of them pointers, of which the
second one is not nil. -/
def TypeTable.Refuses (ts : TypeTable) (source target : TypeId) : Prop :=
  (source ≠ target ∧ ts.isNil target = false) ∧
    (ts.shape source = .scalar ∧ ts.shape target = .scalar) ∧
    ts.irType source ≠ ts.irType target ∧
    ¬ ((ts.irType source).isPtr = true ∧ (ts.irType target).isPtr = true)

instance (ts : TypeTable) (source target : TypeId) : Decidable (ts.Refuses source target) :=
  inferInstanceAs (Decidable ((_ ∧ _) ∧ (_ ∧ _) ∧ _ ∧ _))

namespace Gen

variable {c : Context} {v p : Value} {source target : TypeId} {s : State}

/-- The failure of a conversion that is refused. -/
def refusal (ts : TypeTable) (source target : TypeId) : Failure :=
  { cause := .noConversion (ts.name source) (ts.name target) }

theorem outcome_convert_refused (h : c.program.types.Refuses source target) :
    outcome (convert v source target) c s =
      (.error (refusal c.program.types source target), s) := by
  obtain ⟨⟨hne, hnil⟩, ⟨hsource, htarget⟩, htype, hptr⟩ := h
  have hread : outcome types c s = (.ok c.program.types, s) := rfl
  have hscalar : outcome (scalarOfScalar v source target) c s =
      (.error (refusal c.program.types source target), s) := by
    have hgiven : outcome (irType source) c s = (.ok (c.program.types.irType source), s) := rfl
    have hwant : outcome (irType target) c s = (.ok (c.program.types.irType target), s) := rfl
    rw [scalarOfScalar, outcome_after hgiven, outcome_after hwant, if_neg htype,
      if_neg (by simpa using hptr)]
    rfl
  rw [convert, if_neg hne, outcome_after hread, hsource, htarget]
  dsimp only
  rw [hnil, if_neg Bool.false_ne_true]
  exact hscalar

theorem total_convert (h : ¬ c.program.types.Refuses source target) :
    Total c (convert v source target) := by
  unfold convert
  split
  · exact .pure v
  rename_i hne
  refine .ask (fun _ => rfl) ?_
  dsimp only
  cases htarget : c.program.types.shape target with
  | tagged n =>
    cases c.program.types.shape source with
    | tagged m => exact .ite (.emit _) total_inUnion
    | nilable member | boxed base | scalar => exact total_inUnion
  | nilable member =>
    cases c.program.types.shape source with
    | tagged m => exact total_nilableOfUnion
    | boxed base => exact total_objectOfBox
    | nilable member | scalar => exact .ite (.pure _) total_coerce
  | boxed base =>
    cases c.program.types.shape source with
    | tagged m => exact total_boxOfUnion
    | boxed base => exact .pure v
    | nilable member | scalar => exact total_boxed
  | scalar =>
    cases hsource : c.program.types.shape source with
    | tagged m => exact .ite (.pure _) total_scalarOfUnion
    | boxed base => exact total_objectOfBox
    | nilable member => exact .ite (.pure _) total_coerce
    | scalar =>
      -- the only case in which a conversion can be refused
      dsimp only
      split
      · exact .pure _
      · rename_i hnil
        refine .ask (fun _ => rfl) (.ask (fun _ => rfl) ?_)
        split
        · exact .pure v
        · rename_i htype
          rw [if_pos]
          · exact .emit _
          · by_contra hptr
            exact h ⟨⟨hne, by simpa using hnil⟩, ⟨hsource, htarget⟩, htype, by simpa using hptr⟩

theorem outcome_assign_refused (h : c.program.types.Refuses source target) :
    outcome (assign p target source v) c s =
      (.error (refusal c.program.types source target), s) := by
  have hshape : outcome (shape target) c s = (.ok (c.program.types.shape target), s) := rfl
  rw [assign, if_neg fun he => h.1.1 he.symm, outcome_after hshape, h.2.1.2]
  dsimp only
  rw [outcome_bind, outcome_convert_refused h]
  rfl

theorem total_assign (h : ¬ c.program.types.Refuses source target) :
    Total c (assign p target source v) := by
  unfold assign
  split
  · exact .ask (fun _ => rfl) (.ite total_copyHeld total_storeCoerced)
  refine .ask (fun _ => rfl) ?_
  cases c.program.types.shape target with
  | tagged n => exact total_storeInUnion
  | boxed base =>
    exact .ask (fun _ => rfl) <|
      .ite total_fillBox ((total_convert h).bind fun _ => total_copyHeld)
  | nilable member | scalar => exact (total_convert h).bind fun _ => total_storeCoerced

/-- The view of a value as another type and its store into a slot of that type are refused for the
same pairs of types: those of registers that differ in representation. Nothing is placed then. For
all other pairs there is a view and a store. -/
theorem conversions_refused (c : Context) (v p : Value) (source target : TypeId) (s : State) :
    ((∃ f, (outcome (convert v source target) c s).1 = .error f) ↔
      c.program.types.Refuses source target) ∧
    ((∃ f, (outcome (assign p target source v) c s).1 = .error f) ↔
      c.program.types.Refuses source target) ∧
    (c.program.types.Refuses source target →
      outcome (convert v source target) c s =
        (.error (refusal c.program.types source target), s) ∧
      outcome (assign p target source v) c s =
        (.error (refusal c.program.types source target), s)) := by
  refine ⟨⟨?_, fun h => ?_⟩, ⟨?_, fun h => ?_⟩, fun h =>
    ⟨outcome_convert_refused h, outcome_assign_refused h⟩⟩
  · rintro ⟨f, hf⟩
    exact by_contra fun h => (total_convert h).not_failed s f hf
  · exact ⟨_, congrArg Prod.fst (outcome_convert_refused h)⟩
  · rintro ⟨f, hf⟩
    exact by_contra fun h => (total_assign h).not_failed s f hf
  · exact ⟨_, congrArg Prod.fst (outcome_assign_refused h)⟩

/-- An integer is not seen as a floating-point number, but a union of integers and truth values
is, although no member is one. -/
example : Draft.new.types.Refuses Draft.intType Draft.floatType ∧
    ¬ (Draft.new.types.push { kind := .union [Draft.intType, Draft.boolType] }).Refuses
      Draft.new.types.nextId Draft.floatType := by
  decide

end Gen

end Lowering
