import Lowering.IR.Verify
import Lowering.Proofs.Growth

/-!
# The shape of a function

What holds of a function at every point of its construction, whatever the types in it: operands
name what there is, stack slots are in the first block, phis lead their block and list each
predecessor once, and jumps lead to blocks other than the first one.

* `IR.Function.Sound`, over the operands and callees that each block may have;
* `IR.Function.Sound.place`, `IR.Function.Sound.phi`, `IR.Function.Sound.withBlock`,
  `IR.Function.Sound.ended`: each change of a function keeps it.
-/

namespace Lowering.IR

/-- The operands of a terminator. -/
def Terminator.operands : Terminator → List Value
  | .condBr cond _ _ => [cond]
  | .ret (some v) => [v]
  | _ => []

namespace Function

/-- A block without phis. -/
def NoPhi (fn : Function) (b : BlockId) : Prop :=
  ∀ id ∈ (fn.block b).insts, (fn.inst id).kind.isPhi = false

/-- The shape of a function, given the operands and callees that each block may have, and the
operands that only some instructions of a block may have. -/
structure Sound (usable : BlockId → Value → Prop) (special : BlockId → InstKind → Value → Prop)
    (callable : BlockId → FuncId → Prop) (fn : Function) : Prop where
  placed : ∀ id : InstId, id.index < fn.insts.size → ∃ b, id ∈ (fn.block b).insts
  within : ∀ b, ∀ id ∈ (fn.block b).insts, id.index < fn.insts.size
  operands : ∀ b, ∀ id ∈ (fn.block b).insts, ∀ v ∈ (fn.inst id).kind.operands,
    usable b v ∨ special b (fn.inst id).kind v
  callees : ∀ b, ∀ id ∈ (fn.block b).insts, ∀ callee args,
    (fn.inst id).kind = .call callee args → callable b callee
  slots : ∀ b, ∀ id ∈ (fn.block b).insts, ∀ t, (fn.inst id).kind = .alloca t → b = ⟨0⟩
  phisLead : ∀ b, (fn.block b).insts.toList.Pairwise fun i j =>
    (fn.inst j).kind.isPhi → (fn.inst i).kind.isPhi
  phiEdges : ∀ b, ∀ id ∈ (fn.block b).insts, ∀ incoming, (fn.inst id).kind = .phi incoming →
    (incoming.map Prod.snd).Nodup ∧ ∀ p, p ∈ incoming.map Prod.snd ↔ fn.LeadsTo p b
  results : ∀ b t, (fn.block b).term = some t → ∀ v ∈ t.operands, usable b v
  targets : ∀ b b', fn.LeadsTo b b' → fn.HasBlock b' ∧ b' ≠ ⟨0⟩

variable {fn : Function} {b b' : BlockId} {id : InstId} {inst : Inst}
  {usable usable' : BlockId → Value → Prop} {special special' : BlockId → InstKind → Value → Prop}
  {callable callable' : BlockId → FuncId → Prop}

theorem hasBlock_of_mem (h : id ∈ (fn.block b).insts) : fn.HasBlock b := by
  by_contra hb
  rw [block_of_not_hasBlock hb] at h
  exact absurd h (by simp [show (default : BasicBlock).insts = #[] from rfl])

theorem hasBlock_of_term {t : Terminator} (h : (fn.block b).term = some t) : fn.HasBlock b := by
  by_contra hb
  rw [block_of_not_hasBlock hb] at h
  cases h

/-! ### Parts of a changed function -/

theorem inst_placed_old (h : id.index < fn.insts.size) :
    (Build.placed b inst fn).inst id = fn.inst id := by
  simp [Function.inst, Build.placed, Array.getElem?_push, h.ne]

theorem inst_placed_new : (Build.placed b inst fn).inst ⟨fn.insts.size⟩ = inst := by
  simp [Function.inst, Build.placed]

theorem mem_insts_placed (hb : fn.HasBlock b) :
    id ∈ ((Build.placed b inst fn).block b').insts ↔
      id ∈ (fn.block b').insts ∨ b' = b ∧ id = ⟨fn.insts.size⟩ := by
  by_cases h : b' = b
  · subst h
    rw [Build.block_placed_self hb]
    simp
  · rw [Build.block_placed_of_ne h]
    simp [h]

theorem leadsTo_ended {t : Terminator} {p : BlockId} (hb : fn.HasBlock b)
    (ht : (fn.block b).term = none) :
    (Build.ended b t fn).LeadsTo p b' ↔ fn.LeadsTo p b' ∨ p = b ∧ b' ∈ t.successors := by
  by_cases h : p = b
  · subst h
    simp only [LeadsTo, Build.block_ended_self hb, ht, Option.none_or, Option.some.injEq,
      true_and]
    constructor
    · rintro ⟨t', rfl, hm⟩
      exact .inr hm
    · rintro (⟨t', ht', -⟩ | hm)
      · cases ht'
      · exact ⟨t, rfl, hm⟩
  · simp only [LeadsTo, Build.block_ended_of_ne h, h, false_and, or_false]

theorem insts_ended {t : Terminator} :
    ((Build.ended b t fn).block b').insts = (fn.block b').insts := by
  by_cases hb : fn.HasBlock b
  · by_cases h : b' = b
    · rw [h, Build.block_ended_self hb]
    · rw [Build.block_ended_of_ne h]
  · by_cases h : b' = b
    · rw [h, block_of_not_hasBlock hb, block_of_not_hasBlock (by simpa using hb)]
    · rw [Build.block_ended_of_ne h]

/-- What has a terminator keeps it. -/
theorem ended_of_term {t t' : Terminator} (ht : (fn.block b).term = some t') :
    Build.ended b t fn = fn := by
  have hb : fn.blocks[b.index]? = some (fn.block b) := by
    have hb := hasBlock_of_term ht
    simp only [HasBlock] at hb
    simp [Function.block, hb]
  have : fn.blocks.modify b.index (fun b => { b with term := b.term.or (some t) }) = fn.blocks := by
    apply Array.ext_getElem?
    intro i
    rw [Array.getElem?_modify]
    split
    · rename_i h
      rw [← h, hb, Option.map_some]
      congr 1
      cases hbl : fn.block b with
      | mk name insts term =>
        rw [hbl] at ht
        simp only at ht
        simp [ht]
    · rfl
  show { fn with blocks := _ } = fn
  rw [this]

/-- A block without code. -/
def IsBare (fn : Function) (b : BlockId) : Prop :=
  (fn.block b).insts = #[] ∧ (fn.block b).term = none

theorem isBare_of_not_hasBlock (hb : ¬ fn.HasBlock b) : fn.IsBare b := by
  rw [IsBare, block_of_not_hasBlock hb]
  exact ⟨rfl, rfl⟩

theorem IsBare.withBlock {name : String} (h : fn.IsBare b) : (fn.withBlock { name }).IsBare b := by
  by_cases hb : b = fn.nextBlock
  · rw [IsBare, hb, block_withBlock_self]
    exact ⟨rfl, rfl⟩
  · rwa [IsBare, block_withBlock_of_ne hb]

theorem not_hasBlock_nextBlock (fn : Function) : ¬ fn.HasBlock fn.nextBlock := by
  simp [HasBlock, nextBlock]

theorem ne_nextBlock (h : fn.HasBlock b) : b ≠ fn.nextBlock :=
  fun e => not_hasBlock_nextBlock fn (e ▸ h)

theorem leadsTo_withBlock {name : String} {p : BlockId} :
    (fn.withBlock { name }).LeadsTo p b' ↔ fn.LeadsTo p b' := by
  by_cases h : p = fn.nextBlock
  · subst h
    constructor
    · rintro ⟨t, ht, -⟩
      rw [block_withBlock_self] at ht
      cases ht
    · exact fun hl => absurd hl.hasBlock (not_hasBlock_nextBlock fn)
  · simp only [LeadsTo, block_withBlock_of_ne h]

namespace Sound

variable (hs : fn.Sound usable special callable)
include hs

theorem mono (hu : ∀ b v, fn.HasBlock b → usable b v → usable' b v)
    (hsp : ∀ b k v, fn.HasBlock b → special b k v → special' b k v)
    (hc : ∀ b f, fn.HasBlock b → callable b f → callable' b f) :
    fn.Sound usable' special' callable' where
  placed := hs.placed
  within := hs.within
  operands b id hm v hv := (hs.operands b id hm v hv).imp (hu b v (hasBlock_of_mem hm))
    (hsp b _ v (hasBlock_of_mem hm))
  callees b id hm f args hk := hc b f (hasBlock_of_mem hm) (hs.callees b id hm f args hk)
  slots := hs.slots
  phisLead := hs.phisLead
  phiEdges := hs.phiEdges
  results b t ht v hv := hu b v (hasBlock_of_term ht) (hs.results b t ht v hv)
  targets := hs.targets

/-- The parts about single instructions, when one instruction is placed. -/
theorem placed_placed (hb : fn.HasBlock b) (id : InstId)
    (hid : id.index < (Build.placed b inst fn).insts.size) :
    ∃ b', id ∈ ((Build.placed b inst fn).block b').insts := by
  simp only [Build.insts_placed, Array.size_push] at hid
  by_cases h : id.index < fn.insts.size
  · obtain ⟨b', hm⟩ := hs.placed id h
    exact ⟨b', (mem_insts_placed hb).mpr (.inl hm)⟩
  · have hid : id = ⟨fn.insts.size⟩ := by
      cases id
      simp only [InstId.mk.injEq] at h hid ⊢
      omega
    exact ⟨b, (mem_insts_placed hb).mpr (.inr ⟨rfl, hid⟩)⟩

/-- A fact about each instruction in its block holds after one more is placed. -/
theorem forall_placed {P : BlockId → IR.Inst → Prop} (hb : fn.HasBlock b)
    (hold : ∀ b', ∀ id ∈ (fn.block b').insts, P b' (fn.inst id)) (hnew : P b inst) (b' : BlockId)
    (id : InstId) (hm : id ∈ ((Build.placed b inst fn).block b').insts) :
    P b' ((Build.placed b inst fn).inst id) := by
  rcases (mem_insts_placed hb).mp hm with h | ⟨rfl, rfl⟩
  · rw [inst_placed_old (hs.within b' id h)]
    exact hold b' id h
  · rw [inst_placed_new]
    exact hnew

theorem within_placed (hb : fn.HasBlock b) (b' : BlockId) (id : InstId)
    (hm : id ∈ ((Build.placed b inst fn).block b').insts) :
    id.index < (Build.placed b inst fn).insts.size := by
  simp only [Build.insts_placed, Array.size_push]
  rcases (mem_insts_placed hb).mp hm with h | ⟨-, rfl⟩
  · exact Nat.lt_succ_of_lt (hs.within b' id h)
  · exact Nat.lt_succ_self _

/-- Phis lead a block when the last instruction is no phi, or when all before it are. -/
theorem phisLead_placed (hb : fn.HasBlock b)
    (hlead : inst.kind.isPhi = true → ∀ id ∈ (fn.block b).insts, (fn.inst id).kind.isPhi)
    (b' : BlockId) : ((Build.placed b inst fn).block b').insts.toList.Pairwise fun i j =>
      ((Build.placed b inst fn).inst j).kind.isPhi → ((Build.placed b inst fn).inst i).kind.isPhi := by
  have hold : ((fn.block b').insts.toList.Pairwise fun i j =>
      ((Build.placed b inst fn).inst j).kind.isPhi →
        ((Build.placed b inst fn).inst i).kind.isPhi) := by
    refine (hs.phisLead b').imp_of_mem fun {i j} hi hj h => ?_
    rw [inst_placed_old (hs.within b' i (by simpa using hi)),
      inst_placed_old (hs.within b' j (by simpa using hj))]
    exact h
  by_cases h : b' = b
  · subst h
    rw [Build.block_placed_self hb, Array.toList_push]
    refine List.pairwise_append.mpr ⟨hold, List.pairwise_singleton _ _, fun i hi j hj => ?_⟩
    rw [List.mem_singleton.mp hj, inst_placed_new]
    intro hphi
    have hi : i ∈ (fn.block b').insts := by simpa using hi
    rw [inst_placed_old (hs.within b' i hi)]
    exact hlead hphi i hi
  · rw [Build.block_placed_of_ne h]
    exact hold

theorem place (hb : fn.HasBlock b) (hphi : inst.kind.isPhi = false)
    (hops : ∀ v ∈ inst.kind.operands, usable b v ∨ special b inst.kind v)
    (hcall : ∀ f args, inst.kind = .call f args → callable b f)
    (hslot : ∀ t, inst.kind = .alloca t → b = ⟨0⟩) :
    (Build.placed b inst fn).Sound usable special callable where
  placed := hs.placed_placed hb
  within := hs.within_placed hb
  operands := hs.forall_placed (P := fun b i => ∀ v ∈ i.kind.operands,
    usable b v ∨ special b i.kind v) hb hs.operands hops
  callees := hs.forall_placed (P := fun b i => ∀ f args, i.kind = .call f args → callable b f) hb
    hs.callees hcall
  slots := hs.forall_placed (P := fun b i => ∀ t, i.kind = .alloca t → b = ⟨0⟩) hb hs.slots hslot
  phisLead := hs.phisLead_placed hb fun h => by simp [hphi] at h
  phiEdges := by
    simp only [Build.leadsTo_placed]
    refine hs.forall_placed (P := fun b i => ∀ incoming, i.kind = .phi incoming →
      (incoming.map Prod.snd).Nodup ∧ ∀ p, p ∈ incoming.map Prod.snd ↔ fn.LeadsTo p b) hb
      hs.phiEdges fun incoming h => ?_
    simp [h, InstKind.isPhi] at hphi
  results b t ht := hs.results b t (by simpa using ht)
  targets b b' := by simpa using hs.targets b b'

/-- A phi at the start of a block that lists each block from which it is reached once. -/
theorem phi {incoming : List (Value × BlockId)} (hb : fn.HasBlock b)
    (hempty : (fn.block b).insts = #[]) (hk : inst.kind = .phi incoming)
    (hops : ∀ v ∈ incoming.map Prod.fst, usable b v) (hnodup : (incoming.map Prod.snd).Nodup)
    (hedges : ∀ p, p ∈ incoming.map Prod.snd ↔ fn.LeadsTo p b) :
    (Build.placed b inst fn).Sound usable special callable where
  placed := hs.placed_placed hb
  within := hs.within_placed hb
  operands := hs.forall_placed (P := fun b i => ∀ v ∈ i.kind.operands,
    usable b v ∨ special b i.kind v) hb hs.operands fun v hv => .inl (hops v (by rwa [hk] at hv))
  callees := hs.forall_placed (P := fun b i => ∀ f args, i.kind = .call f args → callable b f) hb
    hs.callees (by simp [hk])
  slots := hs.forall_placed (P := fun b i => ∀ t, i.kind = .alloca t → b = ⟨0⟩) hb hs.slots
    (by simp [hk])
  phisLead := hs.phisLead_placed hb fun _ id hm => by simp [hempty] at hm
  phiEdges := by
    simp only [Build.leadsTo_placed]
    refine hs.forall_placed (P := fun b i => ∀ incoming, i.kind = .phi incoming →
      (incoming.map Prod.snd).Nodup ∧ ∀ p, p ∈ incoming.map Prod.snd ↔ fn.LeadsTo p b) hb
      hs.phiEdges fun incoming' h => ?_
    rw [hk, InstKind.phi.injEq] at h
    rw [← h]
    exact ⟨hnodup, hedges⟩
  results b t ht := hs.results b t (by simpa using ht)
  targets b b' := by simpa using hs.targets b b'

/-- A change of jumps only. -/
theorem of_same_insts {fn' : Function} (hi : fn'.insts = fn.insts)
    (hb : ∀ b, (fn'.block b).insts = (fn.block b).insts)
    (hphi : ∀ b, ¬ fn.NoPhi b → ∀ p, fn'.LeadsTo p b ↔ fn.LeadsTo p b)
    (hres : ∀ b t, (fn'.block b).term = some t → ∀ v ∈ t.operands, usable b v)
    (htar : ∀ b b', fn'.LeadsTo b b' → fn'.HasBlock b' ∧ b' ≠ ⟨0⟩) :
    fn'.Sound usable special callable := by
  have hinst : ∀ id, fn'.inst id = fn.inst id := fun id => by simp only [inst, hi]
  refine ⟨?_, ?_, ?_, ?_, ?_, ?_, fun b id hm incoming hk => ?_, hres, htar⟩
  · simpa only [hb, hi] using hs.placed
  · simpa only [hb, hi] using hs.within
  · simpa only [hb, hinst] using hs.operands
  · simpa only [hb, hinst] using hs.callees
  · simpa only [hb, hinst] using hs.slots
  · simpa only [hb, hinst] using hs.phisLead
  · rw [hb] at hm
    rw [hinst] at hk
    obtain ⟨hn, he⟩ := hs.phiEdges b id hm incoming hk
    have hno : ¬ fn.NoPhi b := fun h => by
      have := h id hm
      simp [hk, InstKind.isPhi] at this
    exact ⟨hn, fun p => (he p).trans (hphi b hno p).symm⟩

theorem withBlock {name : String} : (fn.withBlock { name }).Sound usable special callable := by
  refine hs.of_same_insts rfl (fun b => ?_) (fun _ _ _ => leadsTo_withBlock) (fun b t ht => ?_)
    fun b b' hl => ?_
  · by_cases hb : fn.HasBlock b
    · rw [block_withBlock_of_ne (ne_nextBlock hb)]
    · rw [(isBare_of_not_hasBlock hb).withBlock.1, (isBare_of_not_hasBlock hb).1]
  · by_cases hb : fn.HasBlock b
    · rw [block_withBlock_of_ne (ne_nextBlock hb)] at ht
      exact hs.results b t ht
    · rw [(isBare_of_not_hasBlock hb).withBlock.2] at ht
      cases ht
  · obtain ⟨hb, hne⟩ := hs.targets b b' (leadsTo_withBlock.mp hl)
    exact ⟨hasBlock_withBlock.mpr (.inl hb), hne⟩

theorem ended {t : Terminator} (hb : fn.HasBlock b) (ht : (fn.block b).term = none)
    (hops : ∀ v ∈ t.operands, usable b v)
    (htargets : ∀ b' ∈ t.successors, fn.HasBlock b' ∧ b' ≠ ⟨0⟩ ∧ fn.NoPhi b') :
    (Build.ended b t fn).Sound usable special callable := by
  refine hs.of_same_insts rfl (fun _ => insts_ended) (fun b' hno p => ?_) (fun b' t' ht' => ?_)
    fun p b' hl => ?_
  · rw [leadsTo_ended hb ht]
    exact or_iff_left fun h => hno (htargets b' h.2).2.2
  · by_cases h : b' = b
    · subst h
      rw [Build.block_ended_self hb, ht] at ht'
      cases ht'
      exact hops
    · rw [Build.block_ended_of_ne h] at ht'
      exact hs.results b' t' ht'
  · rw [Build.hasBlock_ended]
    rcases (leadsTo_ended hb ht).mp hl with h | ⟨-, hsucc⟩
    · exact hs.targets p b' h
    · exact ⟨(htargets b' hsucc).1, (htargets b' hsucc).2.1⟩

end Sound

end Function

end Lowering.IR
