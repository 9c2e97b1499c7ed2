import Lowering.Proofs.Listing
import Lowering.Proofs.Symbols

/-!
# Names of blocks

A block for which a name is asked that is taken gets the name with its own position after it.  The
blocks of a function have different names when no name that is asked for ends in a digit; one that
does can be the name that another block gets.

* `IR.Function.labels`, `IR.Function.appendAll`: the names of the blocks, and blocks for names;
* `IR.Function.nodup_labels_append`: when one more name is a new one;
* `IR.Function.findBlock_of_nodup`: the block that a name stands for;
* `IR.Builder.labels_told`, `IR.Function.labels_mistaken`.
-/

namespace Lowering.IR

namespace Function

/-- The names of the blocks. -/
def labels (fn : Function) : List String := fn.blocks.toList.map BasicBlock.name

/-- The function with a block for a name. -/
def append (fn : Function) (name : String) : Function :=
  fn.withBlock { name := Build.blockNameIn fn name }

/-- The function with blocks for some names, in their order. -/
def appendAll (fn : Function) (names : List String) : Function := names.foldl append fn

variable {fn : Function} {name : String} {names : List String} {b : BlockId}

theorem taken_iff : fn.blocks.any (·.name == name) = true ↔ name ∈ fn.labels := by
  simp [labels, ← Array.any_toList]

theorem blockNameIn_of_notMem (h : name ∉ fn.labels) : Build.blockNameIn fn name = name :=
  if_neg fun ht => h (taken_iff.mp ht)

theorem blockNameIn_of_mem (h : name ∈ fn.labels) :
    Build.blockNameIn fn name = name ++ toString fn.blocks.size := if_pos (taken_iff.mpr h)

theorem labels_append : (fn.append name).labels = fn.labels ++ [Build.blockNameIn fn name] := by
  simp [labels, append, withBlock]

/-- One more block has a name of its own, unless the name that was asked for is taken and so is the
one with the position after it. -/
theorem nodup_labels_append : (fn.append name).labels.Nodup ↔
    fn.labels.Nodup ∧ (name ∈ fn.labels → name ++ toString fn.blocks.size ∉ fn.labels) := by
  rw [labels_append, List.nodup_append_comm, List.singleton_append, List.nodup_cons, and_comm]
  refine and_congr_right fun _ => ?_
  by_cases h : name ∈ fn.labels
  · rw [blockNameIn_of_mem h]
    exact ⟨fun hn _ => hn, fun hn => hn h⟩
  · rw [blockNameIn_of_notMem h]
    exact ⟨fun _ hm => absurd hm h, fun _ => h⟩

/-- A block is found by its name when all names are different. -/
theorem findBlock_of_nodup (h : fn.labels.Nodup) (hb : fn.HasBlock b) :
    fn.findBlock (fn.block b).name = some b := by
  have hlt : b.index < fn.blocks.size := hb
  have hblock : fn.block b = fn.blocks[b.index] := by simp [block, hlt]
  have hidx : fn.blocks.findIdx? (·.name == (fn.block b).name) = some b.index := by
    refine Array.findIdx?_eq_some_iff_getElem.mpr ⟨hlt, by simp [hblock], fun j hj => ?_⟩
    rw [hblock, beq_iff_eq]
    intro hname
    have hindex : b.index < fn.labels.length := by simpa [labels] using hlt
    have hearlier : j < fn.labels.length := hj.trans hindex
    have hsame : fn.labels[j] = fn.labels[b.index] := by
      simp only [labels, List.getElem_map, Array.getElem_toList]
      exact hname
    exact hj.ne (h.getElem_inj_iff.mp hsame)
  rw [findBlock, hidx]
  rfl

end Function

/-! ### Names that end in no digit -/

/-- A name that does not end in a digit. -/
def EndsPlain (name : String) : Prop := ∀ c ∈ name.toList.getLast?, c.isDigit = false

instance (name : String) : Decidable (EndsPlain name) :=
  decidable_of_iff (name.toList.getLast?.any Char.isDigit = false) (by
    rw [EndsPlain]
    cases name.toList.getLast? <;> simp)

/-- A name with a number after it ends in a digit. -/
theorem not_endsPlain_numbered (name : String) (n : Nat) : ¬ EndsPlain (name ++ toString n) := by
  intro h
  have hne : (toString n).toList ≠ [] := by
    rw [show (toString n).toList = Nat.toDigits 10 n from Nat.toList_repr]
    exact Nat.toDigits_ne_nil
  have hlast := List.getLast?_eq_some_getLast hne
  have hplain := h ((toString n).toList.getLast hne) (by
    rw [String.toList_append, List.getLast?_append, hlast, Option.some_or]
    rfl)
  rw [isDigit_of_mem_toString (List.getLast_mem hne)] at hplain
  cases hplain

/-- The name and the number are told by the two together. -/
theorem numbered_inj {x y : String} {i j : Nat} (hx : EndsPlain x) (hy : EndsPlain y)
    (h : x ++ toString i = y ++ toString j) : x = y ∧ i = j := by
  have hlist := congrArg String.toList h
  rw [String.toList_append, String.toList_append] at hlist
  obtain ⟨hname, hnumber⟩ := append_word_inj hx hy
    (fun c hc => by simp [isDigit_of_mem_toString hc])
    (fun c hc => by simp [isDigit_of_mem_toString hc]) hlist
  exact ⟨String.toList_inj.mp hname, toString_inj (String.toList_inj.mp hnumber)⟩

namespace Function

variable {fn : Function} {name : String} {names : List String}

/-- The names of the blocks are different, and each ends in no digit or in the position of a
block. -/
structure Numbered (fn : Function) : Prop where
  nodup : fn.labels.Nodup
  forms : ∀ l ∈ fn.labels,
    EndsPlain l ∨ ∃ name, ∃ i < fn.blocks.size, EndsPlain name ∧ l = name ++ toString i

theorem Numbered.append (h : fn.Numbered) (hname : EndsPlain name) : (fn.append name).Numbered := by
  have hsize : (fn.append name).blocks.size = fn.blocks.size + 1 := by
    simp [Function.append, withBlock]
  refine ⟨nodup_labels_append.mpr ⟨h.nodup, fun _ hm => ?_⟩, fun l hl => ?_⟩
  · -- the number in a label is the position of a block before this one
    rcases h.forms _ hm with hplain | ⟨name', i, hi, hname', heq⟩
    · exact not_endsPlain_numbered _ _ hplain
    · exact hi.ne (numbered_inj hname hname' heq).2.symm
  · rw [hsize]
    rw [labels_append, List.mem_append, List.mem_singleton] at hl
    rcases hl with hl | rfl
    · rcases h.forms l hl with hplain | ⟨name', i, hi, hform⟩
      · exact .inl hplain
      · exact .inr ⟨name', i, Nat.lt_succ_of_lt hi, hform⟩
    · by_cases ht : name ∈ fn.labels
      · rw [blockNameIn_of_mem ht]
        exact .inr ⟨name, _, Nat.lt_succ_self _, hname, rfl⟩
      · rw [blockNameIn_of_notMem ht]
        exact .inl hname

theorem Numbered.appendAll (h : fn.Numbered) (hnames : ∀ name ∈ names, EndsPlain name) :
    (fn.appendAll names).Numbered := by
  induction names generalizing fn with
  | nil => exact h
  | cons name names ih =>
    exact ih (h.append (hnames name List.mem_cons_self)) fun n hn =>
      hnames n (List.mem_cons_of_mem _ hn)

theorem numbered_of_empty (h : fn.blocks = #[]) : fn.Numbered := by
  constructor <;> simp [labels, h]

end Function

/-- Blocks are added to a function one after the other. -/
theorem Builder.function_run_appendBlock {r : Builder} {f : FuncId}
    (hf : f.index < r.module.functions.size) (names : List String) :
    (r.run (names.map (.appendBlock f))).module.function f =
      (r.module.function f).appendAll names := by
  induction names generalizing r with
  | nil => rfl
  | cons name names ih =>
    have hsize : ((Operation.appendBlock f name).perform r).module.functions.size =
        r.module.functions.size := Module.functions_modifyFunction_size _ _ _
    refine (ih (hsize ▸ hf)).trans ?_
    exact congrArg (Function.appendAll · names) (Module.function_modifyFunction_self hf)

/-- The blocks that are added to a function under names that end in no digit have different names,
however often a name is asked for, and each is found by the name that it got. -/
theorem Builder.labels_told {r : Builder} {f : FuncId} {names : List String}
    (hf : f.index < r.module.functions.size) (hempty : (r.module.function f).blocks = #[])
    (hnames : ∀ name ∈ names, EndsPlain name) {fn : Function}
    (hfn : (r.run (names.map (.appendBlock f))).module.function f = fn) :
    fn.labels.Nodup ∧ ∀ b, fn.HasBlock b → fn.findBlock (fn.block b).name = some b := by
  subst hfn
  rw [function_run_appendBlock hf]
  have h := (Function.numbered_of_empty hempty).appendAll hnames
  exact ⟨h.nodup, fun b hb => Function.findBlock_of_nodup h.nodup hb⟩

/-- Whatever the name, it is mistaken when it is asked for twice after the same name with the number
of blocks after it. -/
theorem Function.labels_mistaken {fn : Function} (hempty : fn.blocks = #[]) (name : String) :
    ¬ (fn.appendAll [name ++ toString 2, name, name]).labels.Nodup := by
  let fn₁ := fn.append (name ++ toString 2)
  have hfirst : fn₁.labels = [name ++ toString 2] := by
    have hnone : fn.labels = [] := by simp [labels, hempty]
    rw [labels_append, hnone, blockNameIn_of_notMem (by simp [hnone]), List.nil_append]
  have hlabels : (fn₁.append name).labels = [name ++ toString 2, Build.blockNameIn fn₁ name] := by
    rw [labels_append, hfirst]
    rfl
  have hsize : (fn₁.append name).blocks.size = 2 := by simp [fn₁, append, withBlock, hempty]
  intro h
  have hfree := (nodup_labels_append.mp h).2
  rw [hsize] at hfree
  refine hfree ?_ (by rw [hlabels]; exact List.mem_cons_self)
  -- the name is that of the second block, unless it was taken before
  rw [labels_append, List.mem_append, List.mem_singleton]
  by_cases hm : name ∈ fn₁.labels
  · exact .inl hm
  · exact .inr (blockNameIn_of_notMem hm).symm

end Lowering.IR
