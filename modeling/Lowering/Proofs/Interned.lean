import Lowering.Gen.Hoist
import Lowering.Gen.Interning
import Lowering.Proofs.Placing

/-!
# Interned texts, constants and globals

The texts, the constants and the globals of a program each have a global of the module behind them,
which is made when it is first needed and found in a table from then on.  All of these globals get
their names from one supply, whatever the program calls its own.

* `IR.Module.uniqueGlobalName_spec`: a name that is free is found, and it is the first one;
* `Gen.Interned`: the globals have different names, and the entries of the tables are apart;
* `Gen.Interns`: what a step keeps of the tables and of the globals;
* `Gen.interns_stringGlobal`, `Gen.interns_globalSlot`, `Gen.interns_entryArguments` and those for
  the other steps that make globals.
-/

namespace Lowering.IR.Module

variable {m : Module} {base : String}

/-! ### Free names -/

/-- The name that a number makes of a name that is taken. -/
def numbered (base : String) (n : Nat) : String := base ++ "." ++ toString n

theorem numbered_injective (base : String) : Function.Injective (numbered base) := by
  intro n k h
  have hchars : Nat.toDigits 10 n = Nat.toDigits 10 k := by
    have h : (numbered base n).toList = (numbered base k).toList := congrArg String.toList h
    simpa [numbered] using h
  calc n = Nat.ofDigitChars 10 (Nat.toDigits 10 n) 0 :=
        (Nat.ofDigitChars_toDigits (by decide) le_rfl).symm
    _ = Nat.ofDigitChars 10 (Nat.toDigits 10 k) 0 := by rw [hchars]
    _ = k := Nat.ofDigitChars_toDigits (by decide) le_rfl

theorem hasGlobal_eq_true {name : String} :
    m.hasGlobal name = true ↔ name ∈ m.globals.toList.map Global.name := by
  simp only [hasGlobal, Array.any_eq_true', beq_iff_eq, List.mem_map, Array.mem_toList_iff]

/-- There are more numbers than globals, so one of them makes a name that is free. -/
theorem exists_numbered_free (m : Module) (base : String) :
    ∃ n ≤ m.globals.size, m.hasGlobal (numbered base (n + 1)) = false := by
  by_contra hnone
  have htaken : (List.range (m.globals.size + 1)).map (fun n => numbered base (n + 1)) ⊆
      m.globals.toList.map Global.name := by
    intro name hname
    obtain ⟨n, hn, rfl⟩ := List.mem_map.mp hname
    refine hasGlobal_eq_true.mp (Bool.eq_true_of_not_eq_false fun hfree => hnone ⟨n, ?_, hfree⟩)
    exact Nat.le_of_lt_succ (List.mem_range.mp hn)
  have hnodup : ((List.range (m.globals.size + 1)).map fun n => numbered base (n + 1)).Nodup :=
    List.nodup_range.map fun n k h => Nat.succ_injective (numbered_injective base h)
  have hle := (hnodup.subperm htaken).length_le
  simp only [List.length_map, List.length_range, Array.length_toList] at hle
  omega

/-- The search for a name that is free ends: at the name itself if that is free, else at the first
number that makes it free, and there is one that is at most one more than the number of globals. -/
theorem uniqueGlobalName_spec (m : Module) (base : String) :
    m.hasGlobal (m.uniqueGlobalName base) = false ∧
      (m.hasGlobal base = false ∧ m.uniqueGlobalName base = base ∨
        m.hasGlobal base = true ∧ ∃ n, 1 ≤ n ∧ n ≤ m.globals.size + 1 ∧
          m.uniqueGlobalName base = numbered base n ∧
            ∀ k, 1 ≤ k → k < n → m.hasGlobal (numbered base k) = true) := by
  cases hbase : m.hasGlobal base with
  | false =>
    have hname : m.uniqueGlobalName base = base := by simp [uniqueGlobalName, hbase]
    exact ⟨by rw [hname]; exact hbase, .inl ⟨rfl, hname⟩⟩
  | true =>
    have hname : m.uniqueGlobalName base =
        (((List.range (m.globals.size + 1)).map fun n => numbered base (n + 1)).find?
          fun s => !m.hasGlobal s).getD base := by
      rw [uniqueGlobalName, if_pos hbase]
      rfl
    -- the search finds the first of the numbers that make the name free
    obtain ⟨n, hn, hfree, hleast⟩ : ∃ n ≤ m.globals.size,
        m.hasGlobal (numbered base (n + 1)) = false ∧
          ∀ k < n, m.hasGlobal (numbered base (k + 1)) = true := by
      classical
      have hex := exists_numbered_free m base
      refine ⟨Nat.find hex, (Nat.find_spec hex).1, (Nat.find_spec hex).2, fun k hk => ?_⟩
      have hnot := Nat.find_min hex hk
      have hle : k ≤ m.globals.size := hk.le.trans (Nat.find_spec hex).1
      exact Bool.eq_true_of_not_eq_false fun hf => hnot ⟨hle, hf⟩
    have hfind : m.uniqueGlobalName base = numbered base (n + 1) := by
      have hsome : ((List.range (m.globals.size + 1)).map fun n => numbered base (n + 1)).find?
          (fun s => !m.hasGlobal s) = some (numbered base (n + 1)) := by
        rw [List.find?_eq_some_iff_getElem]
        refine ⟨by simp [hfree], n, by simp; omega, by simp, fun k hk => ?_⟩
        simp [hleast k hk]
      rw [hname, hsome]
      rfl
    refine ⟨hfind ▸ hfree, .inr ⟨rfl, n + 1, Nat.le_add_left 1 n, by omega, hfind, ?_⟩⟩
    intro k hk hlt
    obtain ⟨k, rfl⟩ := Nat.exists_eq_add_of_le' hk
    exact hleast k (by omega)

theorem uniqueGlobalName_free (m : Module) (base : String) :
    m.uniqueGlobalName base ∉ m.globals.toList.map Global.name := fun h =>
  Bool.false_ne_true ((m.uniqueGlobalName_spec base).1.symm.trans (hasGlobal_eq_true.mpr h))

/-! ### Globals of a module -/

@[simp] theorem global_addGlobal_next (m : Module) (g : Global) :
    (m.addGlobal g).global m.nextGlobal = g := by
  simp [global, addGlobal, nextGlobal]

theorem global_addGlobal {g : GlobalId} (h : g.index < m.globals.size) (new : Global) :
    (m.addGlobal new).global g = m.global g := by
  simp [global, addGlobal, Array.getElem?_push_lt, h]

theorem global_modifyGlobal_ne {g id : GlobalId} (h : g ≠ id) (change : Global → Global) :
    (m.modifyGlobal id change).global g = m.global g := by
  have hne : id.index ≠ g.index := fun he => h (by cases g; cases id; cases he; rfl)
  simp [global, modifyGlobal, Array.getElem?_modify, hne]

theorem globalNames_modifyGlobal {id : GlobalId} {change : Global → Global}
    (h : ∀ g, (change g).name = g.name) :
    (m.modifyGlobal id change).globals.toList.map Global.name =
      m.globals.toList.map Global.name := by
  apply List.ext_getElem?
  intro i
  simp only [modifyGlobal, List.getElem?_map, Array.getElem?_toList, Array.getElem?_modify]
  split
  · cases m.globals[i]? <;> simp [h]
  · rfl

end Lowering.IR.Module

namespace Lowering.Gen

open IR (Ty Value FuncId BlockId GlobalId Build Constant)

variable {α β : Type} {c : Context} {s s₁ s₂ s' : State}

/-! ### Tables -/

/-- The module, and the tables that say what there is in it. -/
def State.registry (s : State) : IR.Module × List (String × FuncId) × List (String × GlobalId) ×
    Option GlobalId × List (ConstId × GlobalId) × List (String × GlobalId) ×
      Option (GlobalId × GlobalId) :=
  (s.builder.module, s.runtime, s.strings, s.symbolTable, s.consts, s.globals, s.entryArgs)

/-- The globals that something was made for. -/
def State.ownedGlobals (s : State) : List GlobalId := s.tableGlobals ++ s.consts.map Prod.snd

/-- A global that holds a text: its length, its bytes and a zero. -/
def IsText (g : IR.Global) (text : String) : Prop :=
  g.init = some (.bytes (stringBytes text)) ∧ g.type = (Constant.bytes (stringBytes text)).type

/-- Everything that a global was made for has one of its own, and all globals have different
names. -/
structure Interned (s : State) : Prop where
  names : (s.builder.module.globals.toList.map IR.Global.name).Nodup
  texts : (s.strings.map Prod.fst).Nodup
  consts : (s.consts.map Prod.fst).Nodup
  globals : (s.globals.map Prod.fst).Nodup
  apart : s.ownedGlobals.Nodup
  inside : ∀ g ∈ s.ownedGlobals, g.index < s.builder.module.globals.size
  content : ∀ p ∈ s.strings, IsText (s.builder.module.global p.2) p.1

theorem registry_eq (h : s'.registry = s.registry) :
    s'.builder.module = s.builder.module ∧ s'.runtime = s.runtime ∧ s'.strings = s.strings ∧
      s'.symbolTable = s.symbolTable ∧ s'.consts = s.consts ∧ s'.globals = s.globals ∧
      s'.entryArgs = s.entryArgs := by
  simpa only [State.registry, Prod.mk.injEq] using h

/-- Of what is built, only the globals matter. -/
theorem Interned.built {r : IR.Builder} {foreign : List (String × FuncId)} (h : Interned s)
    (hm : r.module.globals = s.builder.module.globals) :
    Interned { s with builder := r, runtime := foreign } where
  names := by
    show (r.module.globals.toList.map IR.Global.name).Nodup
    rw [hm]
    exact h.names
  texts := h.texts
  consts := h.consts
  globals := h.globals
  apart := h.apart
  inside := by
    show ∀ g ∈ s.ownedGlobals, g.index < r.module.globals.size
    rw [hm]
    exact h.inside
  content p hp := by
    show IsText (r.module.global p.2) p.1
    rw [IR.Module.global, hm]
    exact h.content p hp

/-- Only the module and the tables matter. -/
theorem Interned.congr (h : Interned s) (he : s'.registry = s.registry) : Interned s' := by
  obtain ⟨hm, -, hs, ht, hc, hg, ha⟩ := registry_eq he
  have howned : s'.ownedGlobals = s.ownedGlobals := by
    simp only [State.ownedGlobals, State.tableGlobals, hs, ht, hc, hg, ha]
  exact ⟨hm ▸ h.names, hs ▸ h.texts, hc ▸ h.consts, hg ▸ h.globals, howned ▸ h.apart,
    howned.symm ▸ hm.symm ▸ h.inside, hs.symm ▸ hm.symm ▸ h.content⟩

/-- The state with one more global. -/
def State.withGlobal (s : State) (new : IR.Global) : State :=
  s.withModule (s.builder.module.addGlobal new)

/-- The global with zero bits that a name leads to. -/
def State.zeroed (s : State) (name : String) (t : Ty) : IR.Global :=
  { name := s.builder.module.uniqueGlobalName name, type := t, init := some (.null t),
    constant := false, linkage := .internal }

/-- The global that a text leads to. -/
def State.worded (s : State) (text : String) : IR.Global :=
  let content := Constant.bytes (stringBytes text)
  { name := s.builder.module.uniqueGlobalName "str", type := content.type, init := some content,
    constant := true, linkage := .hidden }

/-- A global may be added that has a name of its own. -/
theorem Interned.add {new : IR.Global} (h : Interned s)
    (hname : new.name ∉ s.builder.module.globals.toList.map IR.Global.name) :
    Interned (s.withGlobal new) where
  names := by
    show (((s.builder.module.globals.push new).toList).map IR.Global.name).Nodup
    rw [Array.toList_push, List.map_append, List.map_singleton]
    refine List.nodup_append.mpr ⟨h.names, List.nodup_singleton _, fun a ha b hb he => ?_⟩
    rw [List.mem_singleton.mp hb] at he
    exact hname (he ▸ ha)
  texts := h.texts
  consts := h.consts
  globals := h.globals
  apart := h.apart
  inside g hg := by
    show g.index < (s.builder.module.addGlobal new).globals.size
    rw [IR.Module.globals_addGlobal_size]
    exact Nat.lt_succ_of_lt (h.inside g hg)
  content p hp := by
    have hin : p.2.index < s.builder.module.globals.size :=
      h.inside _ (List.mem_append_left _ (List.mem_append_left _ (List.mem_append_left _
        (List.mem_append_left _ (List.mem_map_of_mem hp)))))
    show IsText ((s.builder.module.addGlobal new).global p.2) p.1
    rw [IR.Module.global_addGlobal hin]
    exact h.content p hp

/-- Globals that are in no table may be put into the tables, under keys of their own. -/
theorem Interned.own (gs : List GlobalId) (h : Interned s)
    (hm : s'.builder.module.globals = s.builder.module.globals) (hgs : gs.Nodup)
    (hnew : ∀ g ∈ gs, g ∉ s.ownedGlobals ∧ g.index < s.builder.module.globals.size)
    (howned : s'.ownedGlobals.Perm (gs ++ s.ownedGlobals))
    (htexts : (s'.strings.map Prod.fst).Nodup) (hconsts : (s'.consts.map Prod.fst).Nodup)
    (hglobals : (s'.globals.map Prod.fst).Nodup)
    (hcontent : ∀ p ∈ s'.strings, p ∈ s.strings ∨ IsText (s.builder.module.global p.2) p.1) :
    Interned s' where
  names := hm ▸ h.names
  texts := htexts
  consts := hconsts
  globals := hglobals
  apart := howned.nodup_iff.mpr (List.nodup_append.mpr
    ⟨hgs, h.apart, fun g hg g' hg' he => (hnew g hg).1 (he ▸ hg')⟩)
  inside g hg := by
    rw [hm]
    rcases List.mem_append.mp (howned.mem_iff.mp hg) with hg | hg
    · exact (hnew g hg).2
    · exact h.inside g hg
  content p hp := by
    rw [IR.Module.global, hm]
    exact (hcontent p hp).elim (h.content p) id

/-! ### What steps keep -/

/-- What a step keeps: the module and the functions of the runtime only become more, entries stay in
the tables, and a global that is behind no constant keeps what it holds. -/
structure Interns (s s' : State) : Prop where
  grows : s.builder.module.Grows s'.builder.module
  runtime : s.runtime ⊆ s'.runtime
  interned : Interned s → Interned s'
  strings : ∀ text g, s.strings.lookup text = some g → s'.strings.lookup text = some g
  symbolTable : ∀ g, s.symbolTable = some g → s'.symbolTable = some g
  consts : ∀ id g, s.consts.lookup id = some g → s'.consts.lookup id = some g
  globals : ∀ name g, s.globals.lookup name = some g → s'.globals.lookup name = some g
  entryArgs : ∀ p, s.entryArgs = some p → s'.entryArgs = some p
  kept : ∀ g : GlobalId, g.index < s.builder.module.globals.size →
    (∀ id, s'.consts.lookup id ≠ some g) →
      s'.builder.module.global g = s.builder.module.global g

namespace Interns

/-- A step that keeps the module and the tables. -/
theorem of_eq (h : s'.registry = s.registry) : Interns s s' := by
  obtain ⟨hm, hr, hs, ht, hc, hg, ha⟩ := registry_eq h
  exact
    { grows := hm ▸ .refl _
      runtime := hr ▸ List.Subset.refl _
      interned := fun hs => hs.congr h
      strings := fun _ _ h => hs ▸ h
      symbolTable := fun _ h => ht.trans h
      consts := fun _ _ h => hc ▸ h
      globals := fun _ _ h => hg ▸ h
      entryArgs := fun _ h => ha.trans h
      kept := fun g _ _ => by rw [hm] }

/-- A step of building that makes no global. -/
theorem built {r : IR.Builder} {foreign : List (String × FuncId)}
    (h : s.builder.module.Grows r.module) (hm : r.module.globals = s.builder.module.globals)
    (hr : s.runtime ⊆ foreign) : Interns s { s with builder := r, runtime := foreign } where
  grows := h
  runtime := hr
  interned hs := hs.built hm
  strings _ _ h := h
  symbolTable _ h := h
  consts _ _ h := h
  globals _ _ h := h
  entryArgs _ h := h
  kept g _ _ := by
    show r.module.global g = _
    rw [IR.Module.global, hm, IR.Module.global]

theorem refl (s : State) : Interns s s := of_eq rfl

theorem size (h : Interns s s') :
    s.builder.module.globals.size ≤ s'.builder.module.globals.size := h.grows.globals

theorem trans (h : Interns s s₁) (h' : Interns s₁ s₂) : Interns s s₂ where
  grows := h.grows.trans h'.grows
  runtime := List.Subset.trans h.runtime h'.runtime
  interned hs := h'.interned (h.interned hs)
  strings _ _ hl := h'.strings _ _ (h.strings _ _ hl)
  symbolTable _ hl := h'.symbolTable _ (h.symbolTable _ hl)
  consts _ _ hl := h'.consts _ _ (h.consts _ _ hl)
  globals _ _ hl := h'.globals _ _ (h.globals _ _ hl)
  entryArgs _ hl := h'.entryArgs _ (h.entryArgs _ hl)
  kept g hg hno := by
    have hfirst := h.kept g hg fun id hl => hno id (h'.consts id g hl)
    exact (h'.kept g (hg.trans_le h.size) hno).trans hfirst

/-- Only the module and the tables matter. -/
theorem congr {t t' : State} (h : Interns s s') (ht : s.registry = t.registry)
    (ht' : t'.registry = s'.registry) : Interns t t' :=
  (of_eq ht).trans (h.trans (of_eq ht'))

end Interns

/-! ### Steps that make globals -/

section

variable {new : IR.Global} {base : String}

theorem lookup_cons_of_none {κ ν : Type} [BEq κ] [LawfulBEq κ] {l : List (κ × ν)} {key key' : κ}
    {v v' : ν} (h : l.lookup key = none) (h' : l.lookup key' = some v') :
    ((key, v) :: l).lookup key' = some v' := by
  have hne : key' ≠ key := fun he => by
    rw [he, h] at h'
    cases h'
  rw [List.lookup_cons, beq_false_of_ne hne]
  exact h'

theorem interns_withGlobal (hname : new.name = s.builder.module.uniqueGlobalName base) :
    Interns s (s.withGlobal new) where
  grows := .addGlobal new
  runtime := List.Subset.refl _
  interned h := h.add (hname ▸ s.builder.module.uniqueGlobalName_free base)
  strings _ _ h := h
  symbolTable _ h := h
  consts _ _ h := h
  globals _ _ h := h
  entryArgs _ h := h
  kept _ hg _ := IR.Module.global_addGlobal hg new

/-- The global that is added next is in no table. -/
theorem Interned.next (h : Interned s) (new : IR.Global) :
    ∀ g ∈ [s.builder.module.nextGlobal], g ∉ (s.withGlobal new).ownedGlobals ∧
      g.index < (s.withGlobal new).builder.module.globals.size := by
  intro g hg
  rw [List.mem_singleton.mp hg]
  refine ⟨fun hmem => absurd (h.inside _ hmem) (Nat.lt_irrefl _), ?_⟩
  show _ < (s.builder.module.addGlobal new).globals.size
  rw [IR.Module.globals_addGlobal_size]
  exact Nat.lt_succ_self _

/-- A text that is in no global yet gets one. -/
theorem interns_text {text : String} (hl : s.strings.lookup text = none)
    (hname : new.name = s.builder.module.uniqueGlobalName base) (htext : IsText new text) :
    Interns s { s.withGlobal new with
      strings := (text, s.builder.module.nextGlobal) :: s.strings } where
  __ := interns_withGlobal hname
  interned h := by
    refine .own [s.builder.module.nextGlobal]
      (h.add (hname ▸ s.builder.module.uniqueGlobalName_free base)) rfl
      (List.nodup_singleton _) (h.next new) ?_ (nodup_cons_of_lookup hl h.texts) h.consts h.globals ?_
    · exact List.Perm.refl _
    · intro p hp
      rcases List.mem_cons.mp hp with rfl | hp
      · refine .inr ?_
        show IsText ((s.builder.module.addGlobal new).global s.builder.module.nextGlobal) text
        rw [IR.Module.global_addGlobal_next]
        exact htext
      · exact .inl hp
  strings _ _ h := lookup_cons_of_none hl h

/-- A global of the program that is not in the module yet gets one of the module. -/
theorem interns_slot {name : String} (hl : s.globals.lookup name = none)
    (hname : new.name = s.builder.module.uniqueGlobalName base) :
    Interns s { s.withGlobal new with
      globals := (name, s.builder.module.nextGlobal) :: s.globals } where
  __ := interns_withGlobal hname
  interned h := by
    refine .own [s.builder.module.nextGlobal]
      (h.add (hname ▸ s.builder.module.uniqueGlobalName_free base)) rfl
      (List.nodup_singleton _) (h.next new) ?_ h.texts h.consts (nodup_cons_of_lookup hl h.globals)
      fun p hp => .inl hp
    simp only [State.ownedGlobals, State.tableGlobals, List.map_cons, List.append_assoc,
      List.cons_append, List.nil_append]
    exact (List.perm_append_left_iff _).mpr List.perm_middle |>.trans List.perm_middle
  globals _ _ h := lookup_cons_of_none hl h

/-- A constant that is behind no global yet gets one. -/
theorem interns_const {id : ConstId} (hl : s.consts.lookup id = none)
    (hname : new.name = s.builder.module.uniqueGlobalName base) :
    Interns s { s.withGlobal new with
      consts := (id, s.builder.module.nextGlobal) :: s.consts } where
  __ := interns_withGlobal hname
  interned h := by
    refine .own [s.builder.module.nextGlobal]
      (h.add (hname ▸ s.builder.module.uniqueGlobalName_free base)) rfl
      (List.nodup_singleton _) (h.next new) ?_ h.texts (nodup_cons_of_lookup hl h.consts) h.globals
      fun p hp => .inl hp
    exact List.perm_middle
  consts _ _ h := lookup_cons_of_none hl h
  kept _ hg _ := IR.Module.global_addGlobal hg new

/-- The symbols get their table. -/
theorem interns_table (hl : s.symbolTable = none)
    (hname : new.name = s.builder.module.uniqueGlobalName base) :
    Interns s { s.withGlobal new with symbolTable := some s.builder.module.nextGlobal } where
  __ := interns_withGlobal hname
  interned h := by
    refine .own [s.builder.module.nextGlobal]
      (h.add (hname ▸ s.builder.module.uniqueGlobalName_free base)) rfl
      (List.nodup_singleton _) (h.next new) ?_ h.texts h.consts h.globals fun p hp => .inl hp
    simp only [State.ownedGlobals, State.tableGlobals, State.withGlobal, State.withModule, hl,
      Option.toList_some, Option.toList_none, List.append_assoc, List.append_nil, List.cons_append,
      List.nil_append]
    exact List.perm_middle
  symbolTable g h := by
    rw [hl] at h
    cases h

/-- The global behind a constant gets its content. -/
theorem interns_content {id : ConstId} {g : GlobalId} {change : IR.Global → IR.Global}
    (hl : s.consts.lookup id = some g) (hname : ∀ g, (change g).name = g.name)
    (htype : ∀ g, (change g).type = g.type) :
    Interns s (s.withModule (s.builder.module.modifyGlobal g change)) where
  grows := .modifyGlobal g htype
  runtime := List.Subset.refl _
  interned h := by
    refine ⟨?_, h.texts, h.consts, h.globals, h.apart, fun g' hg' => ?_, fun p hp => ?_⟩
    · show ((s.builder.module.modifyGlobal g change).globals.toList.map IR.Global.name).Nodup
      rw [IR.Module.globalNames_modifyGlobal hname]
      exact h.names
    · show g'.index < (s.builder.module.modifyGlobal g change).globals.size
      rw [IR.Module.globals_modifyGlobal_size]
      exact h.inside g' hg'
    · -- no text is in the global of a constant
      have hne : p.2 ≠ g := by
        have hconst : g ∈ s.consts.map Prod.snd := List.mem_map_of_mem (mem_of_lookup hl)
        have htable : p.2 ∈ s.tableGlobals := List.mem_append_left _ (List.mem_append_left _
          (List.mem_append_left _ (List.mem_map_of_mem hp)))
        exact (List.nodup_append.mp h.apart).2.2 p.2 htable g hconst
      show IsText ((s.builder.module.modifyGlobal g change).global p.2) p.1
      rw [IR.Module.global_modifyGlobal_ne hne]
      exact h.content p hp
  strings _ _ h := h
  symbolTable _ h := h
  consts _ _ h := h
  globals _ _ h := h
  entryArgs _ h := h
  kept g' _ hno := IR.Module.global_modifyGlobal_ne (fun he => hno id (by rw [he]; exact hl)) change

/-- The arguments of the entry function get their globals. -/
theorem interns_arguments (argc argv : IR.Global) {base' : String} (hl : s.entryArgs = none)
    (hc : argc.name = s.builder.module.uniqueGlobalName base)
    (hv : argv.name = (s.withGlobal argc).builder.module.uniqueGlobalName base') :
    Interns s { (s.withGlobal argc).withGlobal argv with
      entryArgs := some (s.builder.module.nextGlobal,
        (s.withGlobal argc).builder.module.nextGlobal) } where
  __ := (interns_withGlobal hc).trans (interns_withGlobal hv)
  interned h := by
    have hadd := (h.add (hc ▸ s.builder.module.uniqueGlobalName_free base)).add
      (hv ▸ (s.withGlobal argc).builder.module.uniqueGlobalName_free base')
    refine .own [s.builder.module.nextGlobal, (s.withGlobal argc).builder.module.nextGlobal] hadd rfl ?_ ?_ ?_ h.texts h.consts h.globals
      fun p hp => .inl hp
    · have hsize : (s.builder.module.addGlobal argc).globals.size =
          s.builder.module.globals.size + 1 := IR.Module.globals_addGlobal_size _ _
      refine List.nodup_cons.mpr ⟨fun hmem => ?_, List.nodup_singleton _⟩
      have he := congrArg GlobalId.index (List.mem_singleton.mp hmem)
      exact absurd (he.trans hsize) (Nat.ne_of_lt (Nat.lt_succ_self _))
    · intro g hg
      have hargv := (h.add (hc ▸ s.builder.module.uniqueGlobalName_free base)).next argv
      rcases List.mem_cons.mp hg with rfl | hg
      · obtain ⟨hnew, hin⟩ := h.next argc _ (List.mem_singleton_self _)
        exact ⟨hnew, hin.trans_le (interns_withGlobal hv).size⟩
      · exact hargv g hg
    · simp only [State.ownedGlobals, State.tableGlobals, State.withGlobal, State.withModule, hl,
        Option.toList_some, Option.toList_none, List.flatMap_cons, List.flatMap_nil,
        List.append_nil]
      rw [List.append_assoc]
      exact List.perm_append_comm_assoc _ _ _
  entryArgs p h := by
    rw [hl] at h
    cases h

end

end Lowering.Gen
