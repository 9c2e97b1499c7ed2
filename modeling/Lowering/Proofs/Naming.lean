import Lowering.Proofs.Callees

/-!
# Names of functions

Functions come into a module as the entry function, for the definitions that are called, and as
those of the runtime that generated code calls itself.  A definition is looked up by its symbol
before it gets a function; one of the runtime is looked up in a table of its own.  So the only
function that can have the name of an earlier one is one of the runtime, and it is then the one that
the name stands for.

* `IR.Module.findFunction_last`: a name stands for the last function that has it;
* `Gen.Discerned.shared`: what two functions of one name are;
* `Gen.functions_discerned`: when the names of a generated module tell its functions.
-/

namespace Lowering

open IR (FuncId Module)

/-! ### The function of a name -/

namespace IR.Module

variable {m : Module} {f g : FuncId} {name : String}

/-- No function that has a name comes after the one that the name stands for. -/
theorem le_of_findFunction (h : m.findFunction name = some g) (hf : f.index < m.functions.size)
    (hname : (m.function f).name = name) : f.index ≤ g.index := by
  obtain ⟨i, hi, rfl⟩ := Option.map_eq_some_iff.mp h
  obtain ⟨-, before, after, hsplit, hbefore⟩ :=
    List.find?_eq_some_iff_append.mp (show List.find? _ _ = some i from hi)
  -- the positions are gone through from the last one down
  have hdown : (before ++ i :: after).Pairwise (· > ·) :=
    hsplit ▸ List.pairwise_reverse.mpr List.pairwise_lt_range
  have hmem : f.index ∈ before ++ i :: after := hsplit ▸ by simpa using hf
  rcases List.mem_append.mp hmem with hm | hm
  · exact absurd hname (by simpa [function, hf] using hbefore f.index hm)
  · rcases List.mem_cons.mp hm with heq | hm
    · exact le_of_eq heq
    · have hafter := (List.pairwise_append.mp hdown).2.1
      exact le_of_lt ((List.pairwise_cons.mp hafter).1 _ hm)

/-- A name stands for the last function that has it. -/
theorem findFunction_last (hf : f.index < m.functions.size) :
    ∃ g, m.findFunction (m.function f).name = some g ∧ g.index < m.functions.size ∧
      (m.function g).name = (m.function f).name ∧ f.index ≤ g.index := by
  cases h : m.findFunction (m.function f).name with
  | none => exact absurd rfl (name_ne_of_findFunction h hf)
  | some g =>
    obtain ⟨hg, hname⟩ := of_findFunction h
    exact ⟨g, rfl, hg, hname, le_of_findFunction h hf rfl⟩

/-- No name stands twice in the list of names just when no two functions share theirs. -/
theorem names_nodup : m.names.Nodup ↔ ∀ f g : FuncId, f.index < g.index →
    g.index < m.functions.size → (m.function f).name ≠ (m.function g).name := by
  have hlength : m.names.length = m.functions.size := by simp [names]
  have hname (i : Nat) (hi : i < m.names.length) : m.names[i] = (m.function ⟨i⟩).name := by
    rw [name_eq, List.getElem?_eq_getElem hi, Option.getD_some]
  rw [List.Nodup, List.pairwise_iff_getElem]
  refine ⟨fun h f g hfg hg => ?_, fun h i j hi hj hij => ?_⟩
  · have hne := h f.index g.index (by omega) (by omega) hfg
    rwa [hname, hname] at hne
  · rw [hname, hname]
    exact h ⟨i⟩ ⟨j⟩ hij (hlength ▸ hj)

end IR.Module

namespace Gen

/-! ### Functions that share a name -/

namespace Discerned

variable {m : Module} {runtime : List (String × FuncId)} {f g : FuncId}

/-- Functions of the runtime have different names. -/
theorem eq_of_mem (h : Discerned m runtime) {name : String} (hf : (name, f) ∈ runtime)
    (hg : (name, g) ∈ runtime) : f = g :=
  congrArg Prod.snd (List.inj_on_of_nodup_map h.keys hf hg rfl)

/-- Of two functions of one name the later one is of the runtime, and the earlier one is not. -/
theorem shared (h : Discerned m runtime) (hfg : f.index < g.index)
    (hg : g.index < m.functions.size) (hname : (m.function f).name = (m.function g).name) :
    ((m.function f).name, g) ∈ runtime ∧ (m.function f).name ∈ runtimeNames ∧
      ∀ name, (name, f) ∉ runtime := by
  have hlater := h.later f g hfg hg hname
  refine ⟨hname ▸ hlater, hname ▸ (h.named _ hlater).2.2, fun name hf => ?_⟩
  obtain ⟨-, hown, -⟩ := h.named _ hf
  have hown : (m.function g).name = name := hname.symm.trans hown
  obtain rfl : f = g := h.eq_of_mem hf (hown ▸ hlater)
  exact Nat.lt_irrefl _ hfg

theorem nodup_iff (h : Discerned m runtime) : m.names.Nodup ↔
    ∀ q ∈ runtime, ∀ f : FuncId, f.index < m.functions.size →
      (m.function f).name = q.1 → f = q.2 := by
  rw [Module.names_nodup]
  refine ⟨fun hne q hq f hf hname => ?_, fun htold f g hfg hg hname => ?_⟩
  · obtain ⟨hin, hown, -⟩ := h.named q hq
    have hsame : (m.function f).name = (m.function q.2).name := hname.trans hown.symm
    rcases Nat.lt_trichotomy f.index q.2.index with hlt | heq | hgt
    · exact absurd hsame (hne f q.2 hlt hin)
    · exact congrArg FuncId.mk heq
    · exact absurd hsame.symm (hne q.2 f hgt hf)
  · have hshared := (h.shared hfg hg hname).1
    obtain rfl := htold _ hshared f (hfg.trans hg) rfl
    exact Nat.lt_irrefl _ hfg

end Discerned

theorem Completed.discerned {c : Context} {g : Ledger} {s : State} (h : Completed c g s) :
    Discerned (s.connected c).builder.module s.runtime :=
  (show Accounted (s.connected c) from h.accounted.ended.ended).2

/-- Two functions of a generated module have one name only if the later of them is one of the
runtime and the earlier one is not; then the name stands for the later one. Any other function is
the one that its name stands for. So all names are different unless a function that is not of the
runtime has the name of one that is. -/
theorem functions_discerned {p : Program} {o : Options} {s : State}
    (h : run? p o = some (.ok (), s)) :
    (∀ f g : FuncId, f.index < g.index → g.index < s.builder.module.functions.size →
      (s.builder.module.function f).name = (s.builder.module.function g).name →
        ((s.builder.module.function f).name, g) ∈ s.runtime ∧
          (s.builder.module.function f).name ∈ runtimeNames ∧
          (∀ name, (name, f) ∉ s.runtime) ∧
          s.builder.module.findFunction (s.builder.module.function f).name = some g) ∧
    (∀ f : FuncId, f.index < s.builder.module.functions.size →
      s.builder.module.findFunction (s.builder.module.function f).name = some f ∨
        ∃ g : FuncId, f.index < g.index ∧ ((s.builder.module.function f).name, g) ∈ s.runtime) ∧
    (s.builder.module.names.Nodup ↔ ∀ q ∈ s.runtime, ∀ f : FuncId,
      f.index < s.builder.module.functions.size → (s.builder.module.function f).name = q.1 →
        f = q.2) := by
  obtain ⟨nil, l, s', hc, hm, -, -, hr⟩ := exists_completed h
  have hd : Discerned s.builder.module s.runtime := hm ▸ hr ▸ hc.discerned
  -- the last function of a name is a later one of the runtime, if it is not the function itself
  have hlast (f : FuncId) (hf : f.index < s.builder.module.functions.size) :
      ∃ g, s.builder.module.findFunction (s.builder.module.function f).name = some g ∧
        (g = f ∨ f.index < g.index ∧ ((s.builder.module.function f).name, g) ∈ s.runtime) := by
    obtain ⟨g, hfound, hg, hname, hle⟩ := Module.findFunction_last hf
    refine ⟨g, hfound, (Nat.eq_or_lt_of_le hle).imp (fun heq => ?_) fun hlt => ?_⟩
    · exact congrArg FuncId.mk heq.symm
    · exact ⟨hlt, (hd.shared hlt hg hname.symm).1⟩
  refine ⟨fun f g hfg hg hname => ?_, fun f hf => ?_, hd.nodup_iff⟩
  · obtain ⟨hin, hknown, hother⟩ := hd.shared hfg hg hname
    obtain ⟨g', hfound, rfl | ⟨-, hin'⟩⟩ := hlast f (hfg.trans hg)
    · have hle := Module.le_of_findFunction hfound hg hname.symm
      omega
    · exact ⟨hin, hknown, hother, hd.eq_of_mem hin' hin ▸ hfound⟩
  · obtain ⟨g, hfound, rfl | hg⟩ := hlast f hf
    · exact .inl hfound
    · exact .inr ⟨g, hg⟩

/-- A program that declares `memset` itself, with the parameters that the runtime's has, and calls
it before a primitive needs the runtime's. -/
def redeclared : Program := programOf do
  let bytes ← Draft.addType (.pointer Draft.charType)
  let fill ← Draft.foreign "memset" "memset"
    [⟨"arg0", bytes, false⟩, ⟨"arg1", Draft.charType, false⟩, ⟨"arg2", Draft.longType, false⟩]
    (some bytes) false
  let new ← Draft.primitive "new" Draft.programType [⟨"n", Draft.intType, false⟩] (some bytes)
    .pointerMalloc
  let x ← Draft.var "x" Draft.charType
  let place ← Draft.node (.pointerOf x) (some bytes)
  return [← Draft.assign x (← Draft.char 97),
    ← Draft.node (.call ⟨none, "memset", [place, ← Draft.char 98, ← Draft.long 1], [fill], none,
      none⟩) (some bytes),
    ← Draft.node (.call ⟨none, "new", [← Draft.int 1], [new], none, none⟩) (some bytes)]

/-- Both functions are declarations of one name with the same parameters and result. -/
theorem redeclared_shared : redeclared.IsValid ∧ ∃ s, run? redeclared {} = some (.ok (), s) ∧
    s.builder.module.function ⟨1⟩ = s.builder.module.function ⟨3⟩ ∧
    ("memset", ⟨3⟩) ∈ s.runtime ∧ s.builder.module.findFunction "memset" = some ⟨3⟩ ∧
    ¬ s.builder.module.names.Nodup := by
  have hchecks : Checks redeclared redeclared.IsValid (fun s =>
      s.builder.module.functions.size = 4 ∧ (s.builder.module.function ⟨3⟩).name = "memset" ∧
        s.builder.module.function ⟨1⟩ = s.builder.module.function ⟨3⟩) = true := by
    decide +kernel
  obtain ⟨hvalid, s, hs, hsize, hname, hsame⟩ := exists_of_checks hchecks
  have hlt : (3 : Nat) < s.builder.module.functions.size := hsize ▸ by decide
  have hname' : (s.builder.module.function ⟨1⟩).name = "memset" := hsame ▸ hname
  obtain ⟨hin, -, -, hfound⟩ := (functions_discerned hs).1 ⟨1⟩ ⟨3⟩ (by decide) hlt
    (congrArg IR.Function.name hsame)
  rw [hname'] at hin hfound
  refine ⟨hvalid, s, hs, hsame, hin, hfound, fun hnodup => ?_⟩
  exact Module.names_nodup.mp hnodup ⟨1⟩ ⟨3⟩ (by decide) hlt (congrArg IR.Function.name hsame)

end Gen

end Lowering
