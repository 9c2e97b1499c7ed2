import Lowering.Gen.Merge
import Lowering.Proofs.Values
import Lowering.Proofs.Walk

/-!
# Jumps

The steps that end a block and those that go on in another one.

* `Gen.walks_terminate`: a block is ended;
* `Gen.Awaits.reached`, `Gen.Aimed.reached`: a jump to a merge point;
* `Gen.walks_positionAt`: generation goes on in a block that waited;
* `Gen.walks_phi`: the values of several jumps meet.
-/

namespace Lowering.Gen

open IR (Ty Value FuncId BlockId GlobalId Build Module Inst Terminator)

variable {α β : Type} {c : Context} {e : Entity} {g g' : Ledger} {s s' : State}
  {X : Set (FuncId × BlockId)}

/-! ### The end of a block -/

/-- The state with a block ended, unless it is. -/
def State.ended (s : State) (f : FuncId) (b : BlockId) (t : Terminator) : State :=
  s.withModule (s.builder.module.modifyFunction f (Build.ended b t))

/-- An end of the current block that leads only to blocks given and to those that `return` and
`break` lead to. -/
structure Jump (c : Context) (e : Entity) (X : Set (FuncId × BlockId)) (g : Ledger) (s : State)
    (t : Terminator) : Prop where
  operands : ∀ v ∈ t.operands, Usable c (some e) s v
  landings : ∀ b ∈ t.successors, Landing c e g s b
  allowed : ∀ b ∈ t.successors, (s.fn.func, b) ∈ X ∨ g.Aims s b

section

variable {t : Terminator} {f f' : FuncId} {b b' : BlockId} (hb : s.Has f b)

theorem func_ended_of_ne (h : f' ≠ f) : (s.ended f b t).func f' = s.func f' :=
  func_modify_of_ne h

theorem grows_ended : s.Grows (s.ended f b t) :=
  ⟨.modifyFunction fun _ => .ended, fun _ _ h _ => h⟩

theorem same_ended : Same s (s.ended f b t) :=
  ⟨rfl, rfl, rfl, rfl, rfl, rfl, rfl, List.Subset.refl _, rfl, rfl, rfl⟩

include hb

theorem func_ended_self : (s.ended f b t).func f = Build.ended b t (s.func f) :=
  Module.function_modifyFunction_self (index_lt_of_hasBlock hb)

theorem has_ended : (s.ended f b t).Has f' b' ↔ s.Has f' b' := by
  by_cases h : f' = f
  · subst h
    rw [State.Has, func_ended_self hb]
    exact Build.hasBlock_ended
  · rw [State.Has, func_ended_of_ne h]
    rfl

theorem insts_ended : ((s.ended f b t).block f' b').insts = (s.block f' b').insts := by
  by_cases h : f' = f
  · subst h
    rw [State.block, func_ended_self hb]
    exact IR.Function.insts_ended
  · rw [State.block, func_ended_of_ne h]
    rfl

theorem inst_ended {id : IR.InstId} :
    ((s.ended f b t).func f').inst id = (s.func f').inst id := by
  by_cases h : f' = f
  · subst h
    rw [func_ended_self hb]
    rfl
  · rw [func_ended_of_ne h]

theorem noPhi_ended (h : (s.func f').NoPhi b') : ((s.ended f b t).func f').NoPhi b' := by
  intro id hm
  have hm : id ∈ ((s.ended f b t).block f' b').insts := hm
  rw [insts_ended hb] at hm
  rw [inst_ended hb]
  exact h id hm

theorem block_ended_of_ne (h : (f', b') ≠ (f, b)) :
    (s.ended f b t).block f' b' = s.block f' b' := by
  by_cases hf : f' = f
  · subst hf
    rw [State.block, func_ended_self hb, Build.block_ended_of_ne fun hb => h (by rw [hb])]
    rfl
  · rw [State.block, func_ended_of_ne hf]
    rfl

/-- A block that is ended mentions what its terminator does as well. -/
theorem mentions_ended {v : Value} (h : (s.ended f b t).Mentions f' b' v) :
    s.Mentions f' b' v ∨ v ∈ t.operands := by
  rcases h with ⟨id, hm, hv⟩ | ⟨t', ht, hv⟩
  · rw [insts_ended hb] at hm
    rw [inst_ended hb] at hv
    exact .inl (.inl ⟨id, hm, hv⟩)
  · by_cases he : (f', b') = (f, b)
    · obtain ⟨rfl, rfl⟩ := Prod.mk.inj he
      rw [State.block, func_ended_self hb, Build.block_ended_self hb] at ht
      rcases Option.or_eq_some_iff.mp ht with ht | ⟨-, ht⟩
      · exact .inl (.inr ⟨t', ht, hv⟩)
      · exact .inr (Option.some.inj ht ▸ hv)
    · rw [block_ended_of_ne hb he] at ht
      exact .inl (.inr ⟨t', ht, hv⟩)

/-- A jump without an operand adds nothing that a block mentions. -/
theorem mentions_ended_br {v : Value} {b₁ : BlockId}
    (h : (s.ended f b (.br b₁)).Mentions f' b' v) : s.Mentions f' b' v :=
  (mentions_ended hb h).resolve_right List.not_mem_nil

theorem leads_ended (ho : (s.block f b).term = none) {p : BlockId} :
    (s.ended f b t).Leads f' p b' ↔ s.Leads f' p b' ∨ f' = f ∧ p = b ∧ b' ∈ t.successors := by
  by_cases h : f' = f
  · subst h
    rw [State.Leads, func_ended_self hb, IR.Function.leadsTo_ended hb ho]
    simp [State.Leads]
  · rw [State.Leads, func_ended_of_ne h]
    simp [State.Leads, h]

/-- What has a terminator keeps it. -/
theorem ended_of_term {t' : Terminator} (ht : (s.block f b).term = some t') :
    s.ended f b t = s := by
  have hi := index_lt_of_hasBlock hb
  have hf : s.builder.module.functions[f.index]? = some (s.func f) := by
    simp [State.func, Module.function, hi]
  have : s.builder.module.functions.modify f.index (Build.ended b t) =
      s.builder.module.functions := by
    apply Array.ext_getElem?
    intro i
    rw [Array.getElem?_modify]
    split
    · rename_i h
      rw [← h, hf, Option.map_some, IR.Function.ended_of_term ht]
    · rfl
  show { s with builder := { s.builder with module :=
    { s.builder.module with functions := _ } } } = s
  rw [this]

/-- A block may be ended by a jump to one that no phi leads. -/
theorem Sound.jump (hs : Sound c g s) (hb' : s.Has f b') (hne : b' ≠ ⟨0⟩)
    (hphi : (s.func f).NoPhi b') : Sound c g (s.ended f b (.br b')) := by
  cases ht : (s.block f b).term with
  | some t =>
    rw [ended_of_term hb ht]
    exact hs
  | none =>
    refine Sound.mono (fun f' => ?_) grows_ended (List.Subset.refl _)
    by_cases h : f' = f
    · subst h
      rw [func_ended_self hb]
      refine (hs _).ended hb ht (fun v hv => absurd hv (by simp [IR.Terminator.operands]))
        fun b'' hm => ?_
      rw [List.mem_singleton.mp hm]
      exact ⟨hb', hne, hphi⟩
    · rw [func_ended_of_ne h]
      exact hs f'

end

section

variable {t : Terminator} {b : BlockId} (hi : Inv c e g s)
  (hp : s.builder.position = some (s.fn.func, b))

include hi in
theorem Inv.has_position (hp : s.builder.position = some (s.fn.func, b)) :
    s.Has s.fn.func b := by
  obtain ⟨b', hp', hb'⟩ := hi.steady.position
  rw [hp', Option.some.injEq, Prod.mk.injEq] at hp
  exact hp.2 ▸ hb'

include hi hp

theorem terminated_ended : (s.ended s.fn.func b t).builder.isTerminated = true := by
  rw [isTerminated_eq (s := s.ended s.fn.func b t) hp, State.block,
    func_ended_self (hi.has_position hp), Build.block_ended_self (hi.has_position hp)]
  simp

theorem ended_of_terminated (ht : s.builder.isTerminated = true) :
    s.ended s.fn.func b t = s := by
  rw [isTerminated_eq hp] at ht
  obtain ⟨t', ht'⟩ := Option.isSome_iff_exists.mp ht
  exact ended_of_term (hi.has_position hp) ht'

omit hi hp in
theorem Accounted.ended (h : Accounted s) {f : FuncId} : Accounted (s.ended f b t) :=
  h.modifyFunction (fun _ => rfl) fun _ => rfl

omit hi hp in
/-- The end of a block that was given, or that any step may end. -/
theorem Path.ended {f : FuncId} {b : BlockId} (hb : s.Has f b)
    (hf : f = s.fn.func ∨ f = c.main.func)
    (hx : (f, b) ∈ X ∨ s.builder.position = some (f, b) ∨ (f, b) = (c.main.func, s.constTail))
    (hs : (s.block f b).term = none →
      ∀ b' ∈ t.successors, (f, b') ∈ X ∨ f = s.fn.func ∧ g.Aims s b') :
    Path c X g s g (s.ended f b t) where
  grows := grows_ended
  runtime := List.Subset.refl _
  consts := List.suffix_refl _
  owner _ _ _ := rfl
  chain := List.prefix_refl _
  func := .inl rfl
  position := .inl rfl
  tail := .inl rfl
  insts f' b' _ _ _ _ := insts_ended hb
  terms f' b' _ hx' hp ht := by
    rw [block_ended_of_ne hb]
    rintro he
    obtain ⟨rfl, rfl⟩ := Prod.mk.inj he
    rcases hx with h | h | h
    · exact hx' h
    · exact hp h
    · exact ht h
  others f' _ hne hm := func_ended_of_ne fun he => by
    rcases hf with h | h
    · exact hne (he.trans h)
    · exact hm (he.trans h)
  noPhi _ _ _ _ hn := noPhi_ended hb hn
  edges f' p b' _ hl := by
    cases ht : (s.block f b).term with
    | some t' =>
      rw [ended_of_term hb ht] at hl
      exact .inl hl
    | none =>
      refine ((leads_ended hb ht).mp hl).imp_right fun ⟨h, _, hm⟩ => ?_
      subst h
      exact hs ht b' hm
  aims _ h _ := .inr ⟨rfl, h⟩
  callTargets _ h _ := h
  targets _ m h := ⟨m, h, rfl, rfl, rfl, fun _ => rfl⟩
  accounts h := h.ended

theorem path_ended (hj : Jump c e X g s t) : Path c X g s g (s.ended s.fn.func b t) :=
  .ended (hi.has_position hp) (.inl rfl) (.inr (.inl hp)) fun _ b' hb' =>
    (hj.allowed b' hb').imp_right fun ha => ⟨rfl, ha⟩

theorem Idle.ended {b' : BlockId} (h : Idle c e g s b') :
    Idle c e g (s.ended s.fn.func b t) b' := by
  have hs : Same s (s.ended s.fn.func b t) := same_ended
  have hb : (s.fn.func, b') ≠ (s.fn.func, b) := fun he => h.away (by rw [he, hp])
  constructor
  · rw [hs.fn]
    exact (has_ended (hi.has_position hp)).mpr h.inside
  · exact h.notFirst
  · rw [hs.fn, block_ended_of_ne (hi.has_position hp) hb, h.empty]
  · rw [hs.fn, block_ended_of_ne (hi.has_position hp) hb, h.isOpen]
  · rw [hs.fn, hs.position]
    exact h.away
  · rw [hs.fn, hs.constTail]
    exact h.notTail
  · rw [hs.fn, h.owner]

/-- A merge point to which the end of the block does not lead. -/
theorem Awaits.ended {m : MergeTarget} (h : Awaits c e g s m) (hm : m.block ∉ t.successors) :
    Awaits c e g (s.ended s.fn.func b t) m := by
  have hs : Same s (s.ended s.fn.func b t) := same_ended
  have hg : s.Grows (s.ended s.fn.func b t) := grows_ended
  refine ⟨h.idle.ended hi hp, fun v hv => (h.slot v hv).mono hg hs.fn,
    fun q hq => (h.operands q hq).mono hg hs.fn, fun hslot ht => ?_⟩
  obtain ⟨hn, hb⟩ := h.sources hslot ht
  refine ⟨hn, fun p => (hb p).trans ?_⟩
  rw [hs.fn]
  refine ⟨hg.leads, fun hl => ?_⟩
  by_cases ht : s.builder.isTerminated = true
  · rwa [ended_of_terminated hi hp ht] at hl
  · rw [isTerminated_eq hp, Option.not_isSome_iff_eq_none] at ht
    exact ((leads_ended (hi.has_position hp) ht).mp hl).resolve_right fun h => hm h.2.2

end

/-! ### Jumps to merge points -/

/-- What a jump from a block carries to a merge point. -/
structure Carried (c : Context) (e : Entity) (s : State) (m : MergeTarget) (b : BlockId)
    (incoming : List (Value × BlockId)) : Prop where
  operands : ∀ p ∈ incoming, Usable c (some e) s p.1
  source : m.slot = none → (∃ k, m.type = some k ∧ c.program.types.isNil k = false) →
    incoming.map Prod.snd = [b]

/-- A merge point that was reached once more. -/
def MergeTarget.reached (m : MergeTarget) (incoming : List (Value × BlockId)) : MergeTarget :=
  { m with incoming := m.incoming ++ incoming }

section

variable {t : Terminator} {b : BlockId} {m : MergeTarget} {incoming : List (Value × BlockId)}
  (hi : Inv c e g s) (hp : s.builder.position = some (s.fn.func, b))
include hi hp

/-- The merge point to which a jump leads. -/
theorem Awaits.reached (h : Awaits c e g s m) (ho : (s.block s.fn.func b).term = none)
    (hc : Carried c e s m b incoming) :
    Awaits c e g (s.ended s.fn.func b (.br m.block)) (m.reached incoming) := by
  have hs : Same s (s.ended s.fn.func b (.br m.block)) := same_ended
  have hg : s.Grows (s.ended s.fn.func b (.br m.block)) := grows_ended
  refine ⟨h.idle.ended hi hp, fun v hv => (h.slot v hv).mono hg hs.fn, fun q hq => ?_,
    fun hslot ht => ?_⟩
  · rcases List.mem_append.mp hq with hq | hq
    · exact (h.operands q hq).mono hg hs.fn
    · exact (hc.operands q hq).mono hg hs.fn
  · obtain ⟨hn, hb⟩ := h.sources hslot ht
    -- The block was open, so that it did not lead to the merge point before.
    have hnew : b ∉ m.incoming.map Prod.snd := fun hm => by
      obtain ⟨t', ht', -⟩ := (hb b).mp hm
      have ht' : (s.block s.fn.func b).term = some t' := ht'
      rw [ho] at ht'
      cases ht'
    show ((m.incoming ++ incoming).map Prod.snd).Nodup ∧
      ∀ b', b' ∈ (m.incoming ++ incoming).map Prod.snd ↔
        (s.ended s.fn.func b (.br m.block)).Leads s.fn.func b' m.block
    rw [List.map_append, hc.source hslot ht]
    refine ⟨List.nodup_append.mpr ⟨hn, List.nodup_singleton _, ?_⟩, fun p => ?_⟩
    · rintro x hx y hy rfl
      rw [List.mem_singleton.mp hy] at hx
      exact hnew hx
    · rw [List.mem_append, hb p, leads_ended (hi.has_position hp) ho]
      simp [IR.Terminator.successors]

omit hi hp in
theorem Aimed.awaits_of (h : Aimed c e g s) {id : TargetId} (hid : id ∈ g.callTargets s)
    (hm : s.targets[id.index]? = some m) : Awaits c e g s m := by
  obtain ⟨m', hm', hw⟩ := h.awaits id hid
  rw [hm, Option.some.injEq] at hm'
  exact hm' ▸ hw

theorem Aimed.ended (h : Aimed c e g s) (hm : ∀ id ∈ g.callTargets s, ∀ m,
    s.targets[id.index]? = some m → m.block ∉ t.successors) :
    Aimed c e g (s.ended s.fn.func b t) := by
  have hs : Same s (s.ended s.fn.func b t) := same_ended
  have hst : Stay g s g (s.ended s.fn.func b t) := .of_same hs
  constructor
  · rw [hst.callTargets, hs.targets]
    intro id hid
    obtain ⟨m, hm', hw⟩ := h.awaits id hid
    exact ⟨m, hm', hw.ended hi hp (hm id hid m hm')⟩
  · rw [hst.loopExits]
    exact fun b' hb' => (h.exits b' hb').ended hi hp
  · rw [hst.callTargets, hs.targets]
    exact h.apart
  · rw [hst.callTargets, hst.loopExits, hs.targets]
    exact h.apartExits

theorem Inv.ended {ts : Array MergeTarget} (hj : Jump c e X g s t)
    (ha : Aimed c e g { s.ended s.fn.func b t with targets := ts }) :
    Inv c e g { s.ended s.fn.func b t with targets := ts } := by
  have hs : Same s (s.ended s.fn.func b t) := same_ended
  have hg : s.Grows (s.ended s.fn.func b t) := grows_ended
  have hb := hi.has_position hp
  have hvar : ∀ {v}, Usable c (some e) s v → Usable c (some e) (s.ended s.fn.func b t) v :=
    fun h => h.mono hg rfl
  constructor
  case steady => exact { hi.steady.modifyFunction hb hg with }
  case sound =>
    refine Sound.mono (fun f => ?_) ⟨hg.code, hg.consts⟩ hs.runtime
    by_cases hf : f = s.fn.func
    · subst hf
      show ((s.ended s.fn.func b t).func s.fn.func).Sound _ _ _
      by_cases ht : s.builder.isTerminated = true
      · rw [ended_of_terminated hi hp ht]
        exact hi.sound _
      · rw [isTerminated_eq hp, Option.not_isSome_iff_eq_none] at ht
        rw [func_ended_self (hi.has_position hp)]
        refine (hi.sound _).ended hb ht (fun v hv => ?_) fun b' hb' => ?_
        · rw [(hi.position b hp).2.2]
          exact hj.operands v hv
        · have hl := hj.landings b' hb'
          exact ⟨hl.inside, hl.notFirst, hl.noPhi⟩
    · show ((s.ended s.fn.func b t).func f).Sound _ _ _
      rw [func_ended_of_ne hf]
      exact hi.sound f
  case vars => exact fun p hp => hvar (hi.vars p hp)
  case frames =>
    intro fr hfr
    obtain ⟨hv, hown⟩ := hi.frames fr hfr
    exact ⟨fun q hq => hvar (hv q hq), hown⟩
  case returnSlot => exact fun v hv => hvar (hi.returnSlot v hv)
  case position => exact hi.position
  case tail => exact ⟨hg.has hi.tail.1, hi.tail.2⟩
  case aimed => exact ha
  case opened =>
    intro f b' hb' ht
    by_cases he : (f, b') = (s.fn.func, b)
    · exact .inr (.inl (hp.trans (congrArg some he.symm)))
    · have ht : ((s.ended s.fn.func b t).block f b').term = none := ht
      rw [block_ended_of_ne hb he] at ht
      exact hi.opened f b' ((has_ended hb).mp hb') ht
  case chained =>
    refine hi.chained.carry hs.fn hs.consts hs.constTail hg.code.functions
      (fun f b' => has_ended hb)
      (fun f hf => (hg.code.function f (index_lt_of_hasBlock hf)).name)
      (fun p b' hl => ?_) (fun f b' id hm => ?_) fun f b' => ?_
    · by_cases ht : s.builder.isTerminated = true
      · exact .inl (by rwa [← ended_of_terminated (t := t) hi hp ht])
      · rw [isTerminated_eq hp, Option.not_isSome_iff_eq_none] at ht
        refine ((leads_ended (hi.has_position hp) ht).mp hl).imp_right fun ⟨hf, hpb, hb'⟩ => ?_
        rw [hf, hpb]
        exact ⟨(hi.position b hp).2.2, (hj.landings b' hb').owner⟩
    · have hm : id ∈ ((s.ended s.fn.func b t).block f b').insts := hm
      rw [insts_ended (hi.has_position hp)] at hm
      exact .inl ⟨hm, inst_ended (hi.has_position hp)⟩
    · by_cases he : (f, b') = (s.fn.func, b)
      · obtain ⟨rfl, rfl⟩ := Prod.mk.inj he
        exact .inr ⟨.inl rfl, .inr (hi.position _ hp).2.2⟩
      · exact .inl (congrArg IR.BasicBlock.term (block_ended_of_ne hb he))

end

/-! ### Changed merge points -/

/-- The state with another merge point at an id. -/
def State.retarget (s : State) (id : TargetId) (change : MergeTarget → MergeTarget) : State :=
  { s with targets := s.targets.modify id.index change }

section

variable {id : TargetId} {change : MergeTarget → MergeTarget} {m m' : MergeTarget}

theorem retarget_self (h : s.targets[id.index]? = some m) :
    (s.retarget id change).targets[id.index]? = some (change m) := by
  simp [State.retarget, Array.getElem?_modify, h]

theorem retarget_of_ne {t : Nat} (h : t ≠ id.index) :
    (s.retarget id change).targets[t]? = s.targets[t]? := by
  simp [State.retarget, Array.getElem?_modify, h.symm]

variable (hblock : ∀ m, (change m).block = m.block)
include hblock

theorem of_retarget {t : Nat} (h : (s.retarget id change).targets[t]? = some m') :
    ∃ m, s.targets[t]? = some m ∧ m'.block = m.block := by
  by_cases ht : t = id.index
  · subst ht
    simp only [State.retarget, Array.getElem?_modify, if_true, Option.map_eq_some_iff] at h
    obtain ⟨m, hm, rfl⟩ := h
    exact ⟨m, hm, hblock m⟩
  · rw [retarget_of_ne ht] at h
    exact ⟨m', h, rfl⟩

theorem aims_retarget {b : BlockId} : g.Aims (s.retarget id change) b ↔ g.Aims s b := by
  refine or_congr_right (exists_congr fun t => and_congr_right fun _ => ⟨?_, ?_⟩)
  · rintro ⟨m, hm, rfl⟩
    obtain ⟨m₀, hm₀, hb⟩ := of_retarget hblock hm
    exact ⟨m₀, hm₀, hb.symm⟩
  · rintro ⟨m, hm, rfl⟩
    by_cases ht : t.index = id.index
    · exact ⟨change m, ht ▸ retarget_self (ht ▸ hm), hblock m⟩
    · exact ⟨m, (retarget_of_ne ht).trans hm, rfl⟩

omit hblock in
/-- What was carried to a merge point may change when jumps can lead there, and when the merge
point is new. -/
theorem Path.retarget (p : Path c X g s g' s')
    (hid : id.index < s.targets.size → id ∈ g.callTargets s)
    (hc : ∀ m, (change m).block = m.block ∧ (change m).type = m.type ∧ (change m).slot = m.slot) :
    Path c X g s g' (s'.retarget id change) :=
  { p with
    grows := ⟨p.grows.code, p.grows.consts⟩
    aims := fun b h hb => p.aims b ((aims_retarget fun m => (hc m).1).mp h) hb
    targets := fun t m hm => by
      obtain ⟨m', hm', hblock, htype, hslot, hsame⟩ := p.targets t m hm
      by_cases ht : t = id.index
      · subst ht
        refine ⟨change m', retarget_self hm', (hc m').1.trans hblock, (hc m').2.1.trans htype,
          (hc m').2.2.trans hslot, fun hn => absurd (hid ?_) hn⟩
        exact (Array.getElem?_eq_some_iff.mp hm).1
      · exact ⟨m', (retarget_of_ne ht).trans hm', hblock, htype, hslot, hsame⟩ }

omit hblock in
theorem Idle.retarget {b : BlockId} (h : Idle c e g s b) : Idle c e g (s.retarget id change) b :=
  { h with }

omit hblock in
theorem Awaits.retarget (h : Awaits c e g s m) : Awaits c e g (s.retarget id change) m :=
  { h with idle := h.idle.retarget }

end

theorem Aimed.reached {b : BlockId} {id : TargetId} {m : MergeTarget}
    {incoming : List (Value × BlockId)} (h : Aimed c e g s) (hi : Inv c e g s)
    (hp : s.builder.position = some (s.fn.func, b)) (ho : (s.block s.fn.func b).term = none)
    (hid : id ∈ g.callTargets s) (hm : s.targets[id.index]? = some m)
    (hc : Carried c e s m b incoming) :
    Aimed c e g ((s.ended s.fn.func b (.br m.block)).retarget id fun m => m.reached incoming) := by
  let s₁ := s.ended s.fn.func b (.br m.block)
  let change : MergeTarget → MergeTarget := fun m => m.reached incoming
  show Aimed c e g (s₁.retarget id change)
  have hold : ∀ {t : Nat} {m' : MergeTarget}, (s₁.retarget id change).targets[t]? = some m' →
      ∃ m, s.targets[t]? = some m ∧ m'.block = m.block :=
    of_retarget (show ∀ m, (change m).block = m.block from fun _ => rfl)
  refine ⟨fun t (ht : t ∈ g.callTargets s) => ?_, fun b' (hb' : b' ∈ g.loopExits s) =>
    ((h.exits b' hb').ended hi hp).retarget, fun t (ht : t ∈ g.callTargets s) t'
    (ht' : t' ∈ g.callTargets s) m₁ m₂ hm₁ hm₂ hb => ?_,
    fun t (ht : t ∈ g.callTargets s) m₁ hm₁ => ?_⟩
  · by_cases he : t = id
    · subst he
      exact ⟨_, retarget_self hm, ((h.awaits_of ht hm).reached hi hp ho hc).retarget⟩
    · obtain ⟨m', hm', hw⟩ := h.awaits t ht
      have hne : t.index ≠ id.index := fun hq => he (by cases t; cases id; exact congrArg _ hq)
      refine ⟨m', (retarget_of_ne hne).trans hm', (hw.ended hi hp ?_).retarget⟩
      intro hb
      simp only [IR.Terminator.successors, List.mem_singleton] at hb
      exact he (h.apart t ht id hid m' m hm' hm hb)
  · obtain ⟨m₁', hm₁', hb₁⟩ := hold hm₁
    obtain ⟨m₂', hm₂', hb₂⟩ := hold hm₂
    exact h.apart t ht t' ht' m₁' m₂' hm₁' hm₂' (by rw [← hb₁, hb, hb₂])
  · obtain ⟨m₁', hm₁', hb₁⟩ := hold hm₁
    rw [hb₁]
    exact h.apartExits t ht m₁' hm₁'

/-! ### Steps that end a block -/

/-- A block to which the current one may be made to lead, other than the end of an inlined call. -/
def Free (X : Set (FuncId × BlockId)) (g : Ledger) (s : State) (b : BlockId) : Prop :=
  (s.fn.func, b) ∈ X ∧ ¬ g.Aims s b ∨ b ∈ g.loopExits s

/-- What holds after the end of a block from which control goes on in other ones. -/
structure Ended (c : Context) (e : Entity) (X : Set (FuncId × BlockId)) (g : Ledger) (s : State)
    (successors : List BlockId) (g' : Ledger) (s' : State) : Prop where
  leg : Leg c e X g s g' s'
  terminated : s'.builder.isTerminated = true
  ledger : g' = g
  spare : ∀ b, Spare c e g s b → Spare c e g' s' b
  entry : ∀ b, Entry c e g s b → Entry c e g' s' b
  held : ∀ m, Held c e g s m → m.block ∉ successors → Held c e g' s' m

theorem Free.not_target {b : BlockId} (h : Free X g s b) (ha : Aimed c e g s) {id : TargetId}
    (hid : id ∈ g.callTargets s) {m : MergeTarget} (hm : s.targets[id.index]? = some m) :
    m.block ≠ b := by
  rintro rfl
  rcases h with ⟨-, h⟩ | h
  · exact h (.inr ⟨id, hid, m, hm, rfl⟩)
  · exact ha.apartExits id hid m hm h

theorem Entry.free {b : BlockId} (h : Entry c e g s b) (hx : (s.fn.func, b) ∈ X) : Free X g s b :=
  .inl ⟨hx, h.notAim⟩

theorem Free.allowed {b : BlockId} (h : Free X g s b) : (s.fn.func, b) ∈ X ∨ g.Aims s b :=
  h.imp And.left .inl

theorem gives_terminate {t : Terminator} {f : FuncId} {b : BlockId} {a : Unit}
    (hp : s.builder.position = some (f, b))
    (h : Gives (emit (Build.terminate t)) c s a s') : s' = s.ended f b t := by
  rw [(gives_emit h).2, Build.terminate_at hp]
  rfl

theorem walks_terminate {t : Terminator} (hv : ∀ v ∈ t.operands, Usable c (some e) s v)
    (hb : ∀ b ∈ t.successors, Landing c e g s b ∧ Free X g s b) :
    Walks c e X g s (emit (Build.terminate t)) fun g' s' _ =>
      Ended c e X g s t.successors g' s' ∧
        ∀ b, s.builder.position = some (s.fn.func, b) → s' = s.ended s.fn.func b t := by
  intro hi a s' hg
  obtain ⟨b, hp, -⟩ := hi.steady.position
  cases gives_terminate hp hg
  have hj : Jump c e X g s t := ⟨hv, fun b h => (hb b h).1, fun b h => (hb b h).2.allowed⟩
  have hs : Same s (s.ended s.fn.func b t) := same_ended
  have ha : Aimed c e g (s.ended s.fn.func b t) := hi.aimed.ended hi hp fun id hid m hm h =>
    (hb m.block h).2.not_target hi.aimed hid hm rfl
  have hpath := path_ended hi hp hj
  have hl : Leg c e X g s g (s.ended s.fn.func b t) :=
    ⟨hi.ended hp hj ha, hpath, .of_same hs⟩
  have hna : ∀ {b'}, ¬ g.Aims s b' → ¬ g.Aims (s.ended s.fn.func b t) b' :=
    fun h ha => h ((hs.aims _).mp ha)
  refine ⟨g, hl, ⟨hl, terminated_ended hi hp, rfl, fun b h => ⟨h.idle.ended hi hp, hna h.notAim⟩,
    fun b h => ⟨⟨?_, h.landing.notFirst, ?_, ?_⟩, hna h.notAim⟩,
    fun m h hm => ⟨h.awaits.ended hi hp hm, hna h.notAim⟩⟩, fun b' hp' => ?_⟩
  · rw [hs.fn]
    exact (has_ended (hi.has_position hp)).mpr h.landing.inside
  · rw [hs.fn]
    exact noPhi_ended (hi.has_position hp) h.landing.noPhi
  · rw [hs.fn]
    exact h.landing.owner
  · rw [hp, Option.some.injEq, Prod.mk.injEq] at hp'
    rw [hp'.2]

theorem walks_br {b : BlockId} (hb : Landing c e g s b) (hf : Free X g s b) :
    Walks c e X g s (emit (Build.br b)) fun g' s' _ =>
      Ended c e X g s [b] g' s' ∧
        ∀ b', s.builder.position = some (s.fn.func, b') → s' = s.ended s.fn.func b' (.br b) :=
  walks_terminate (t := .br b) (fun _ h => absurd h (by simp [IR.Terminator.operands]))
    fun b' h => by
      rw [List.mem_singleton.mp h]
      exact ⟨hb, hf⟩

theorem Ended.mono {bs bs' : List BlockId} (h : Ended c e X g s bs g' s') (hs : bs ⊆ bs') :
    Ended c e X g s bs' g' s' :=
  { h with held := fun m hm hn => h.held m hm fun hb => hn (hs hb) }

theorem walks_condBr {cond : Value} {b b' : BlockId} (hv : Usable c (some e) s cond)
    (hb : Landing c e g s b) (hf : Free X g s b) (hb' : Landing c e g s b') (hf' : Free X g s b') :
    Walks c e X g s (emit (Build.condBr cond b b')) fun g' s' _ =>
      Ended c e X g s [b, b'] g' s' := by
  unfold Build.condBr
  split
  · exact (walks_br hb hf).mono fun _ _ _ _ h => h.1.mono (by simp)
  · exact (walks_br hb' hf').mono fun _ _ _ _ h => h.1.mono (by simp)
  · have hs : (Terminator.condBr cond b b').successors ⊆ [b, b'] := by
      simp only [IR.Terminator.successors]
      split <;> simp
    refine (walks_terminate (t := .condBr cond b b') (fun v h => ?_) fun b'' h => ?_).mono
      fun _ _ _ _ h => h.1.mono hs
    · rw [List.mem_singleton.mp h]
      exact hv
    · rcases List.mem_pair.mp (hs h) with rfl | rfl
      · exact ⟨hb, hf⟩
      · exact ⟨hb', hf'⟩

theorem walks_ret {value : Option Value} (hv : ∀ v, value = some v → Usable c (some e) s v) :
    Walks c e X g s (emit (Build.ret value)) fun g' s' _ => Ended c e X g s [] g' s' := by
  refine (walks_terminate (t := .ret value) (fun v h => ?_) fun b h => absurd h (by
    simp [IR.Terminator.successors])).mono fun _ _ _ _ h => h.1
  cases value with
  | none => exact absurd h (by simp [IR.Terminator.operands])
  | some w =>
    rw [List.mem_singleton.mp h]
    exact hv w rfl

theorem walks_unreachable :
    Walks c e X g s (emit Build.unreachable) fun g' s' _ => Ended c e X g s [] g' s' :=
  (walks_terminate (t := .unreachable) (fun _ h => absurd h (by simp [IR.Terminator.operands]))
    fun _ h => absurd h (by simp [IR.Terminator.successors])).mono fun _ _ _ _ h => h.1

/-! ### The start of a block -/

/-- What holds when generation goes on in a block that waited. -/
structure Started (c : Context) (e : Entity) (g : Ledger) (s : State) (b : BlockId)
    (w : Set (FuncId × BlockId)) (g' : Ledger) (s' : State) : Prop where
  leg : Leg c e {(s.fn.func, b)} g s g' s'
  waiting : g'.waiting = w
  isOpen : s'.builder.isTerminated = false
  entry : ∀ b', Entry c e g s b' → Entry c e g' s' b'
  state : s' = s.atPosition (some (s.fn.func, b))

theorem gives_positionAt {b : BlockId} {a : Unit} (h : Gives (positionAt b) c s a s') :
    s' = s.atPosition (some (s.fn.func, b)) := by
  obtain ⟨s₀, s₁, hget, h⟩ := gives_bind.mp h
  cases hget
  exact (gives_emit (b := Build.positionAt s.fn.func b) h).2

theorem Inv.atPosition {b : BlockId} {w : Set (FuncId × BlockId)} (hi : Inv c e g s)
    (hb : Spare c e g s b) (ht : s.builder.isTerminated = true)
    (hw : g.waiting ⊆ insert (s.fn.func, b) w) :
    Inv c e { g with waiting := w } (s.atPosition (some (s.fn.func, b))) := by
  obtain ⟨b₀, hp₀, hb₀⟩ := hi.steady.position
  have hne : ∀ b', g.Aims s b' → b' ≠ b := fun b' ha he => hb.notAim (he ▸ ha)
  have hidle : ∀ b', b' ≠ b → Idle c e g s b' →
      Idle c e { g with waiting := w } (s.atPosition (some (s.fn.func, b))) b' := fun b' hbb h =>
    { h with away := fun h' => hbb (Prod.mk.inj (Option.some.inj h')).2.symm }
  constructor
  case steady => exact { hi.steady with position := ⟨b, rfl, hb.idle.inside⟩ }
  case sound => exact Sound.mono hi.sound ⟨.refl _, fun _ _ h _ => h⟩ (List.Subset.refl _)
  case vars => exact hi.vars
  case frames => exact hi.frames
  case returnSlot => exact hi.returnSlot
  case position =>
    intro b' hp
    have he : b = b' := (Prod.mk.inj (Option.some.inj hp)).2
    subst he
    exact ⟨hb.idle.notFirst, hb.idle.notTail, hb.idle.owner⟩
  case tail => exact hi.tail
  case aimed =>
    refine ⟨fun t ht' => ?_, fun b' hb' => ?_, hi.aimed.apart, hi.aimed.apartExits⟩
    · obtain ⟨m, hm, hw⟩ := hi.aimed.awaits t ht'
      exact ⟨m, hm, { hw with idle := hidle _ (hne _ (.inr ⟨t, ht', m, hm, rfl⟩)) hw.idle }⟩
    · exact hidle b' (hne b' (.inl hb')) (hi.aimed.exits b' hb')
  case opened =>
    intro f b' hb' hterm
    rcases hi.opened f b' hb' hterm with h | h | h
    · rcases hw h with h | h
      · exact .inr (.inl (congrArg some h.symm))
      · exact .inl h
    · rw [isTerminated_eq h] at ht
      have hterm : (s.block f b').term = none := hterm
      simp [hterm] at ht
    · exact .inr (.inr h)
  case chained =>
    have h := hi.chained
    refine ⟨h.path, h.bottom, h.started, h.once, h.running, h.tail, h.regions, h.edges, h.firsts,
      h.slots, h.head, h.entities, h.generated, fun before r after hc => ?_⟩
    exact { h.settled before r after hc with }

theorem walks_positionAt {b : BlockId} {w : Set (FuncId × BlockId)} (hb : Spare c e g s b)
    (hx : (s.fn.func, b) ∈ X) (ht : s.builder.isTerminated = true)
    (hw : g.waiting ⊆ insert (s.fn.func, b) w) :
    Walks c e X g s (positionAt b) fun g' s' _ => Started c e g s b w g' s' := by
  intro hi a s' hg
  cases gives_positionAt hg
  have hpath : Path c {(s.fn.func, b)} g s { g with waiting := w }
      (s.atPosition (some (s.fn.func, b))) :=
    { Path.refl c {(s.fn.func, b)} g s with
      grows := ⟨.refl _, fun _ _ h _ => h⟩
      position := .inr fun f b' h => .inl (Option.some.inj h).symm
      aims := fun b' h _ => .inr ⟨rfl, h⟩ }
  have hl : Leg c e {(s.fn.func, b)} g s { g with waiting := w } _ :=
    ⟨hi.atPosition hb ht hw, hpath, ⟨rfl, rfl, rfl, rfl, rfl, rfl, rfl, rfl⟩⟩
  refine ⟨_, hl.narrow fun f b' h => .inl ?_, hl, rfl, ?_,
    fun b' h => ⟨{ h.landing with }, h.notAim⟩, rfl⟩
  · rw [Set.mem_singleton_iff.mp h]
    exact hx
  · rw [isTerminated_eq (s := s.atPosition _) rfl]
    exact congrArg Option.isSome hb.idle.isOpen

/-- A phi at the start of a block that lists each block from which it is reached once. -/
theorem walks_phi {b : BlockId} {type : Ty} {incoming : List (Value × BlockId)}
    (hp : s.builder.position = some (s.fn.func, b)) (hx : (s.fn.func, b) ∈ X)
    (ho : s.builder.isTerminated = false) (hempty : (s.block s.fn.func b).insts = #[])
    (hv : ∀ p ∈ incoming, Usable c (some e) s p.1) (hn : (incoming.map Prod.snd).Nodup)
    (he : ∀ p, p ∈ incoming.map Prod.snd ↔ s.Leads s.fn.func p b) :
    Walks c e X g s (emit (Build.phi type incoming)) fun g' s' v =>
      g' = g ∧ Usable c (some e) s' v := by
  intro hi v s' hg
  have hb := hi.has_position hp
  have hopen : (s.block s.fn.func b).term = none := by
    rw [isTerminated_eq hp] at ho
    simpa using ho
  have hterm : s.builder.blockTerminated s.fn.func b = false :=
    (isTerminated_eq hp).symm.trans ho
  let inst : Inst := ⟨.phi incoming, type, none, s.builder.location⟩
  have hres : @Eq (Value × IR.Builder) (Build.phi type incoming s.builder)
      (.inst ⟨(s.func s.fn.func).insts.size⟩,
        { s.builder with module :=
          s.builder.module.modifyFunction s.fn.func (Build.placed b inst) }) :=
    (Build.push_at hp).trans (pushInto_open hterm)
  obtain ⟨rfl, rfl⟩ := gives_emit hg
  rw [hres]
  have hsite : Site c (some e) s s.fn.func b (some e) := .position hp rfl
  have hgrows : s.Grows (s.placed s.fn.func b inst []) :=
    ⟨.modifyFunction fun _ => .placed hopen, fun _ _ h _ => h⟩
  have hsteady : Steady c (s.placed s.fn.func b inst []) := hi.steady.modifyFunction hb hgrows
  have hnotes : Notes c s s.fn.func inst.kind [] := .other fun _ _ h => by cases h
  have haccounts : Accounted s → Accounted (s.placed s.fn.func b inst []) :=
    fun h => h.place (index_lt_of_hasBlock hb) hnotes
  have howner := (hi.site_owner hsite).1
  have hsound : (Build.placed b inst (s.func s.fn.func)).Sound
      (fun b => UsableIn c (g.owner s.fn.func b) s s.fn.func)
      (fun b => Settles (g.owner s.fn.func b) s) fun b => Callable c (g.owner s.fn.func b) s := by
    refine (hi.sound s.fn.func).phi hb hempty rfl (fun v hv' => ?_) hn he
    obtain ⟨p, hp', rfl⟩ := List.mem_map.mp hv'
    rw [howner]
    exact hv p hp'
  refine ⟨g, ⟨hi.place hsite hsteady hgrows haccounts hsound,
    .place hi hsite (fun _ => hx) hgrows haccounts,
    ⟨rfl, rfl, rfl, rfl, rfl, rfl, rfl, rfl⟩⟩, rfl, ?_⟩
  show (s.func s.fn.func).insts.size < ((s.placed _ b inst []).func s.fn.func).insts.size
  rw [func_place_self hb]
  simp

end Lowering.Gen
