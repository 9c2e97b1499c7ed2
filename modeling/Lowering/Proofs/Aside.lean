import Lowering.Proofs.Frame

/-!
# Generation of something else in between

A function is generated in the middle of another one when a call first needs it, and so is the
initializer of a constant.  Afterwards generation goes on where it was.

* `Gen.State.resume`: the state after something else was generated;
* `Gen.Path.resume`, `Gen.Inv.resume`.
-/

namespace Lowering.Gen

open IR (Ty Value FuncId BlockId GlobalId Build Module Inst Terminator)

variable {α : Type} {c : Context} {e : Entity} {g g' : Ledger} {s s' : State}

/-- The state when generation goes on where it was in an earlier state. -/
def State.resume (s' s : State) : State :=
  { s' with
    builder := { s'.builder with position := s.builder.position }
    act := s.act
    fn := s.fn
    blocks := s.blocks
    definition := s.definition }

/-- The ledger when generation goes on where it was. -/
def Ledger.resume (g' g : Ledger) : Ledger :=
  { g' with outer := g.outer, waiting := g.waiting, parked := g.parked }

theorem stay_resume : Stay g s (g'.resume g) (s'.resume s) :=
  ⟨rfl, rfl, rfl, rfl, rfl, rfl, rfl, rfl⟩

theorem Path.resume (hi : Inv c e g s) (p : Path c ∅ g s g' s') :
    Path c ∅ g s (g'.resume g) (s'.resume s) :=
  { p with
    grows := ⟨p.grows.code, p.grows.consts⟩
    func := .inl rfl
    position := .inl rfl
    aims := fun b h _ => .inr ⟨rfl, by
      rcases h with h | ⟨t, ht, m, hm, rfl⟩
      · exact .inl h
      · have ht : t ∈ g.callTargets s := ht
        obtain ⟨m₀, hm₀, -⟩ := hi.aimed.awaits t ht
        obtain ⟨m₁, hm₁, hb, -⟩ := p.targets _ m₀ hm₀
        have hm : s'.targets[t.index]? = some m := hm
        rw [hm, Option.some.injEq] at hm₁
        exact .inr ⟨t, ht, m₀, hm₀, by rw [hm₁, hb]⟩⟩
    callTargets := fun t ht _ => ht }

/-- What has to hold of a module so that generation can go on where it was. -/
structure Resumes (c : Context) (e : Entity) (g : Ledger) (s : State) (g' : Ledger) (s' : State) :
    Prop where
  path : Path c ∅ g s g' s'
  edges : ∀ b b', s'.Leads s.fn.func b b' → s.Has s.fn.func b' → s.Leads s.fn.func b b'
  targets : ∀ t ∈ g.callTargets s, s'.targets[t.index]? = s.targets[t.index]?
  steady : Steady c s'
  sound : Sound c g' s'
  tail : s'.Has c.main.func s'.constTail ∧ s'.constTail ≠ ⟨0⟩
  opened : ∀ f b, s'.Has f b → (s'.block f b).term = none → (f, b) ∈ g.waiting ∨
    s.builder.position = some (f, b) ∨ (f, b) = (c.main.func, s'.constTail)
  chained : Chained c e (g'.resume g) (s'.resume s)

theorem Inv.resume (hi : Inv c e g s) (h : Resumes c e g s g' s') :
    Inv c e (g'.resume g) (s'.resume s) := by
  have hp := h.path.resume hi
  have hg : s.Grows (s'.resume s) := hp.grows
  constructor
  case steady =>
    obtain ⟨b, hpos, hb⟩ := hi.steady.position
    exact { h.steady with position := ⟨b, hpos, hg.has hb⟩, slots := hi.steady.slots }
  case sound => exact Sound.mono h.sound ⟨.refl _, fun _ _ h _ => h⟩ (List.Subset.refl _)
  case vars => exact fun p hp => (hi.vars p hp).mono hg rfl
  case frames =>
    intro fr hfr
    obtain ⟨hv, hown⟩ := hi.frames fr hfr
    exact ⟨fun q hq => (hv q hq).mono hg rfl, hown⟩
  case returnSlot => exact fun v hv => (hi.returnSlot v hv).mono hg rfl
  case position =>
    intro b hb
    obtain ⟨hne, htail, ho⟩ := hi.position b hb
    have hhas := hi.has_position hb
    exact ⟨hne, hp.tail_ne hhas htail, (hp.owner _ b hhas).trans ho⟩
  case tail => exact h.tail
  case aimed =>
    exact hi.aimed.along hp stay_resume (fun _ _ => Set.notMem_empty _) h.targets h.edges
  case opened => exact h.opened
  case chained => exact h.chained

theorem Leg.resume (hi : Inv c e g s) (h : Resumes c e g s g' s') :
    Leg c e ∅ g s (g'.resume g) (s'.resume s) :=
  ⟨hi.resume h, h.path.resume hi, stay_resume⟩

theorem gives_aside {x : Gen α} {a : α} (hp : s.builder.position.isSome)
    (h : Gives (aside x) c s a s') :
    ∃ s₁, Gives x c s a s₁ ∧ s' = { s₁ with
      builder := { s₁.builder with position := s.builder.position }
      fn := s.fn
      blocks := s.blocks
      definition := s.definition } := by
  have h := gives_after (show Gives get c s s s from rfl) h
  obtain ⟨r, s₁, hx, h⟩ := gives_bind.mp h
  obtain ⟨⟨⟩, s₂, hm, h⟩ := gives_bind.mp h
  cases gives_modify hm
  obtain ⟨⟨⟩, s₃, hr, h⟩ := gives_bind.mp h
  cases gives_restorePosition hp hr
  obtain ⟨rfl, rfl⟩ := gives_resume h
  exact ⟨s₁, gives_attempted hx, rfl⟩

end Lowering.Gen
