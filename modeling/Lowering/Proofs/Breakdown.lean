import Lowering.Proofs.Bounded

/-!
# Where a generation fails

A step that fails names no position.  The failure passes through every expression that is being
generated, also those in the bodies of definitions, in blocks and in initializers, and it gets the
position of the first one on its way that has one.

* `Gen.Refails`, `Gen.Lasting.failure`: visitors that differ in what failures say, and what comes of
  them;
* `Gen.exists_consults_of_failed`, `Gen.Consults.failed`: a failure with a position is that of an
  expression inside, and an expression inside that fails ends the one around it with its failure;
* `Gen.Breakdown`, `Gen.FailsAlong`: the expressions that are being generated when one fails;
* `Gen.failures_located`.
-/

namespace Lowering

/-- The file is named only for a position without one, and stays unnamed when none is known. -/
theorem Diagnostic.inFile_eq (d : Diagnostic) (file : Option String) :
    d.inFile file = { d with location := d.location.map fun l =>
      if l.file.isEmpty then { l with file := file.getD l.file } else l } := by
  obtain ⟨kind, severity, text, issuer, location⟩ := d
  cases location with
  | none => rfl
  | some l =>
    cases file with
    | none => simp [inFile]
    | some file => rfl

namespace Gen

variable {c : Context} {n m : Node} {s t : State} {f : Failure}

/-! ### Failures of the expressions inside -/

section

variable {visit : Visitor}

/-- A visitor that comes to the same as another one but for what failures say. -/
def Refails (c : Context) (visit other : Visitor) : Prop :=
  ∀ m t, outcome (other m) c t = outcome (visit m) c t ∨ ∃ f f' t',
    outcome (visit m) c t = (.error f, t') ∧ outcome (other m) c t = (.error f', t')

/-- What comes of a step with visitors of this kind: each leads to its own failure, that of one
expression for all of them. -/
def Lasting.failure (c : Context) (visit : Visitor) : Lasting {w // Refails c visit w} where
  keeps _ := True
  kept := ⟨⟨visit, fun _ _ => .inl rfl⟩, trivial⟩
  shared f := f.location = none
  unlocated _ := id
  holds o := ∃ m t f, (outcome (visit m) c t).1 = .error f ∧
    ∀ w f', (outcome (w.val m) c t).1 = .error f' → (o w).1 = .error f'
  lasts := by
    rintro α β o o' h ⟨m, t, f, hf, hall⟩
    exact ⟨m, t, f, hf, fun w f' hw => (h w trivial).failure f' (hall w f' hw)⟩

theorem Restoring.refailing (hv : Restoring c visit) :
    Alike c (fun w : {w // Refails c visit w} => w.val) (.failure c visit) := by
  intro m t ht
  refine ⟨?_, fun w _ => ?_⟩
  · cases h : (outcome (visit m) c t).1 with
    | error f => exact .inr ⟨m, t, f, h, fun _ _ hw => hw⟩
    | ok a =>
      refine .inl ⟨outcome (visit m) c t, fun f hf => ?_, fun w => ?_⟩
      · rw [h] at hf
        cases hf
      · rcases w.property m t with he | ⟨f, f', t', hf, -⟩
        · exact he
        · rw [hf] at h
          cases h
  · rcases w.property m t with he | ⟨f, f', t', hf, hf'⟩
    · rw [he]
      exact hv m t ht
    · have hr := hv m t ht
      rw [hf] at hr
      rwa [hf']

/-- A failure of what an expression consists of. -/
theorem visit_failed (h : (outcome (visitWith visit n) c (s.inside c n)).1 = .error f) :
    (outcome (visitOnce visit n) c s).1 = .error (f.orAt n.location) := by
  rw [outcome_visitOnce]
  generalize outcome (visitWith visit n) c (s.inside c n) = o at h
  obtain ⟨r, t⟩ := o
  cases h
  rfl

theorem exists_of_visit_failed (h : (outcome (visitOnce visit n) c s).1 = .error f) :
    ∃ g, (outcome (visitWith visit n) c (s.inside c n)).1 = .error g ∧ f = g.orAt n.location := by
  rw [outcome_visitOnce] at h
  generalize outcome (visitWith visit n) c (s.inside c n) = o at h
  obtain ⟨g | a, t⟩ := o
  · exact ⟨g, rfl, (Except.error.inj h).symm⟩
  · cases h

/-- A failure with a position is that of an expression inside. -/
theorem exists_consults_of_failed (hv : Restoring c visit) (hs : s.InFunction)
    (h : (outcome (visitWith visit n) c (s.inside c n)).1 = .error f) :
    f.location = none ∨
      ∃ m t, Consults c visit n s m t ∧ (outcome (visit m) c t).1 = .error f := by
  classical
  have hinside : Restored s (s.inside c n) := restored_inside
  let self : {w // Refails c visit w} := ⟨visit, fun _ _ => .inl rfl⟩
  obtain ⟨p, hshared, hp⟩ | ⟨m, t, g, hg, hall⟩ :=
    (agree_visitWith hv.refailing n _ (hinside.inFunction hs)).meets
  · exact .inl (hshared f (hp self ▸ h))
  · obtain rfl : f = g := Except.error.inj (h.symm.trans (hall self g hg))
    refine .inr ⟨m, t, ?_, hg⟩
    -- With another failure of the expression inside, there is another failure around it.
    obtain ⟨cause, hcause⟩ : ∃ cause : Cause, cause ≠ f.cause := by
      by_cases he : f.cause = .noSelf
      · exact ⟨.noSymbols, by simp [he]⟩
      · exact ⟨.noSelf, fun h => he h.symm⟩
    let other : Visitor := fun m' c' t' =>
      if m' = m ∧ t' = t then (.error { cause }, (outcome (visit m) c t).2) else visit m' c' t'
    have hthere : outcome (other m) c t = (.error { cause }, (outcome (visit m) c t).2) :=
      if_pos ⟨rfl, rfl⟩
    have helse : ∀ m' t', ¬ (m' = m ∧ t' = t) →
        outcome (other m') c t' = outcome (visit m') c t' := fun _ _ hne => if_neg hne
    have hother : Refails c visit other := fun m' t' => by
      by_cases he : m' = m ∧ t' = t
      · obtain ⟨rfl, rfl⟩ := he
        exact .inr ⟨f, _, _, Prod.ext hg rfl, hthere⟩
      · exact .inl (helse m' t' he)
    refine ⟨other, helse, fun hsame => hcause ?_⟩
    have hfails := hall ⟨other, hother⟩ { cause } (congrArg Prod.fst hthere)
    have hsame := congrArg Prod.fst hsame
    rw [visit_failed hfails, visit_failed h] at hsame
    exact congrArg Failure.cause (Except.error.inj hsame)

/-- An expression inside that fails ends the one around it with its failure. -/
theorem Consults.failed (h : Consults c visit n s m t) (hv : Restoring c visit)
    (hs : s.InFunction) (hm : (outcome (visit m) c t).1 = .error f) :
    (outcome (visitWith visit n) c (s.inside c n)).1 = .error f :=
  h.lasts hv hs (fun o => o.1 = .error f) (fun h => h.failure f) fun _ => hm

end

/-! ### The expressions that are being generated -/

/-- The expressions that are being generated when one that is begun in a state fails, from it
inwards: each is generated for the one before, and the last one fails by itself. Beyond the bound on
the nesting there is none. -/
inductive Breakdown (c : Context) : Nat → Node → State → List Node → Prop
  | beyond {n : Node} {s : State} : Breakdown c 0 n s []
  | innermost {depth : Nat} {n : Node} {s : State} {f : Failure}
      (fails : (outcome (visit (depth + 1) n) c s).1 = .error f)
      (alone : ∀ m t f, Consults c (visit depth) n s m t →
        (outcome (visit depth m) c t).1 ≠ .error f) : Breakdown c (depth + 1) n s [n]
  | inside {depth : Nat} {n m : Node} {s t : State} {chain : List Node}
      (consults : Consults c (visit depth) n s m t) (inner : Breakdown c depth m t chain) :
      Breakdown c (depth + 1) n s (n :: chain)

theorem exists_breakdown {depth : Nat} (h : (outcome (visit depth n) c s).1 = .error f) :
    ∃ chain, Breakdown c depth n s chain := by
  induction depth generalizing n s f with
  | zero => exact ⟨[], .beyond⟩
  | succ depth ih =>
    by_cases hinner : ∃ m t f, Consults c (visit depth) n s m t ∧
        (outcome (visit depth m) c t).1 = .error f
    · obtain ⟨m, t, f, hc, hm⟩ := hinner
      obtain ⟨chain, hchain⟩ := ih hm
      exact ⟨n :: chain, .inside hc hchain⟩
    · exact ⟨[n], .innermost h fun m t f hc hm => hinner ⟨m, t, f, hc, hm⟩⟩

theorem Breakdown.head {depth : Nat} {chain : List Node} (h : Breakdown c depth n s chain)
    (hm : m ∈ chain.head?) : m = n := by
  cases h with
  | beyond => cases hm
  | innermost => exact (Option.some.inj hm).symm
  | inside => exact (Option.some.inj hm).symm

theorem Breakdown.reached {p : Program} {o : Options} {depth : Nat} {chain : List Node}
    (h : Breakdown c depth n s chain) (hr : Reached p o c depth n s) :
    ∀ m ∈ chain, ∃ depth t, Reached p o c depth m t := by
  induction h with
  | beyond => exact fun m hm => absurd hm List.not_mem_nil
  | innermost =>
    intro m hm
    obtain rfl := List.mem_singleton.mp hm
    exact ⟨_, _, hr⟩
  | inside consults inner ih =>
    intro m hm
    rcases List.mem_cons.mp hm with rfl | hm
    · exact ⟨_, _, hr⟩
    · exact ih (.inner hr consults) m hm

/-- The position of the innermost of some expressions that has one. -/
def innermostLocation (chain : List Node) : Option Location :=
  (chain.filterMap Node.location).getLast?

theorem innermostLocation_cons (n : Node) (chain : List Node) :
    innermostLocation (n :: chain) = (innermostLocation chain).or n.location := by
  unfold innermostLocation
  cases h : n.location with
  | none => simp [h]
  | some l =>
    rw [List.filterMap_cons_some h, List.getLast?_cons]
    cases (chain.filterMap Node.location).getLast? <;> rfl

theorem innermostLocation_eq_none {chain : List Node} :
    innermostLocation chain = none ↔ ∀ n ∈ chain, n.location = none := by
  simp [innermostLocation]

/-- An expression that breaks down fails, and at the innermost position. -/
theorem Breakdown.located {depth : Nat} {chain : List Node} (h : Breakdown c depth n s chain)
    (hs : s.InFunction) :
    ∃ f, (outcome (visit depth n) c s).1 = .error f ∧ f.location = innermostLocation chain := by
  induction h with
  | beyond => exact ⟨_, rfl, rfl⟩
  | @innermost depth n s f fails alone =>
    refine ⟨f, fails, ?_⟩
    obtain ⟨g, hg, rfl⟩ := exists_of_visit_failed fails
    rcases exists_consults_of_failed (restoring_visit depth) hs hg with hnone | ⟨m, t, hc, hm⟩
    · rw [Failure.orAt_location, hnone, innermostLocation_cons]
      rfl
    · exact absurd hm (alone m t g hc)
  | @inside depth n m s t chain consults inner ih =>
    have hv := restoring_visit (c := c) depth
    obtain ⟨g, hg, hlocation⟩ := ih (consults.inFunction hv hs)
    refine ⟨g.orAt n.location, visit_failed (consults.failed hv hs hg), ?_⟩
    rw [Failure.orAt_location, hlocation, innermostLocation_cons]

/-! ### Whole generations -/

/-- The expressions that are being generated when the generation of a program fails, from the root
inwards; none when it does not fail for the root. -/
inductive FailsAlong (p : Program) (o : Options) : List Node → Prop
  | root {c : Context} {s s' : State} {n : Node} {chain : List Node}
      (start : start? p o = some (c, s)) (symbols : Gives prepareSymbols c s () s')
      (root : p.root = some n) (breakdown : Breakdown c p.nestingBound n s' chain) :
      FailsAlong p o chain
  | after {c : Context} {s s' : State} (start : start? p o = some (c, s))
      (symbols : Gives prepareSymbols c s () s')
      (generated : ∀ n ∈ p.root, ∃ a, (outcome (visit p.nestingBound n) c s').1 = .ok a) :
      FailsAlong p o []

variable {p : Program} {o : Options}

theorem outcome_whole (h : Gives prepareSymbols c s () t) :
    outcome (whole p) c s = goOn finish c (outcome (match p.root with
      | some root => visit p.nestingBound root
      | none => pure nilValue) c t) := by
  have hsymbols : outcome prepareSymbols c s = (.ok (), t) := h
  rw [whole, outcome_after hsymbols]
  cases p.root with
  | none => exact outcome_bind _ finish c t
  | some root => exact outcome_bind _ finish c t

/-- The end of a generation fails without a position. -/
theorem finish_unlocated {o : Except Failure IR.Value × State} {a : IR.Value} (ho : o.1 = .ok a)
    (h : goOn finish c o = (.error f, s)) : f.location = none := by
  obtain ⟨r, t⟩ := o
  cases ho
  have hfinish : outcome (finish a) c t = (.error f, s) := h
  exact (quiet_finish (T := fun _ => False)).unlocated f (congrArg Prod.fst hfinish)

theorem exists_failsAlong {r : Except Failure Unit} (h : run? p o = some (r, s)) :
    ∃ chain, FailsAlong p o chain := by
  obtain ⟨⟨c, s₀⟩, hstart, -⟩ := Option.map_eq_some_iff.mp h
  obtain ⟨s₁, hsymbols⟩ := exists_gives_prepareSymbols c s₀
  cases hroot : p.root with
  | none => exact ⟨[], .after hstart hsymbols (by simp [hroot])⟩
  | some n =>
    cases hvisit : (outcome (visit p.nestingBound n) c s₁).1 with
    | ok a =>
      refine ⟨[], .after hstart hsymbols fun m hm => ?_⟩
      obtain rfl : n = m := Option.some.inj (hroot.symm.trans hm)
      exact ⟨a, hvisit⟩
    | error f =>
      obtain ⟨chain, hchain⟩ := exists_breakdown hvisit
      exact ⟨chain, .root hstart hsymbols hroot hchain⟩

theorem FailsAlong.located {chain : List Node} (h : FailsAlong p o chain)
    (hrun : run? p o = some (.error f, s)) : f.location = innermostLocation chain := by
  obtain ⟨⟨c, s₀⟩, hstart', hwhole⟩ := Option.map_eq_some_iff.mp hrun
  have hwhole : outcome (whole p) c s₀ = (.error f, s) := hwhole
  cases h with
  | root start symbols root breakdown =>
    cases hstart'.symm.trans start
    obtain ⟨g, hg, hlocation⟩ := breakdown.located (Reached.root start symbols root).inFunction
    rw [outcome_whole symbols, root] at hwhole
    dsimp only at hwhole
    generalize outcome (visit p.nestingBound _) c _ = q at hg hwhole
    obtain ⟨r, t⟩ := q
    cases hg
    cases hwhole
    exact hlocation
  | after start symbols generated =>
    cases hstart'.symm.trans start
    rw [outcome_whole symbols] at hwhole
    cases hroot : p.root with
    | none =>
      rw [hroot] at hwhole
      exact finish_unlocated (a := nilValue) rfl hwhole
    | some n =>
      obtain ⟨a, ha⟩ := generated n hroot
      rw [hroot] at hwhole
      exact finish_unlocated ha hwhole

/-- The expressions that are being generated when a generation fails are expressions that are
generated for the program, and the first of them is the root. -/
theorem FailsAlong.reached {chain : List Node} (h : FailsAlong p o chain) :
    (∀ n ∈ chain.head?, p.root = some n) ∧ ∀ n ∈ chain, ∃ c depth s, Reached p o c depth n s := by
  cases h with
  | root start symbols root breakdown =>
    refine ⟨fun m hm => ?_, fun m hm => ?_⟩
    · rwa [breakdown.head hm]
    · obtain ⟨depth, t, ht⟩ := breakdown.reached (.root start symbols root) m hm
      exact ⟨_, depth, t, ht⟩
  | after => exact ⟨nofun, fun n hn => absurd hn List.not_mem_nil⟩

/-- Failures are located: the position of a failure is the innermost one of the expressions that are
being generated, and it has none only if none of them has one. A module is refused with the same
failure, of which the file is named if it does not name one itself. -/
theorem failures_located (h : run? p o = some (.error f, s)) :
    (∃ chain, FailsAlong p o chain) ∧
    (∀ chain, FailsAlong p o chain →
      (∀ n ∈ chain.head?, p.root = some n) ∧
      (∀ n ∈ chain, ∃ c depth s, Reached p o c depth n s) ∧
      f.location = innermostLocation chain ∧
      (f.location = none ↔ ∀ n ∈ chain, n.location = none)) ∧
    (p.validate = .ok () → (p.generate o).result = .error { f.diagnostic with
      location := f.location.map fun l =>
        if l.file.isEmpty then { l with file := (o.filename.or p.filename).getD l.file }
        else l }) := by
  refine ⟨exists_failsAlong h, fun chain hchain => ?_, fun hvalid => ?_⟩
  · have hlocation := hchain.located h
    exact ⟨hchain.reached.1, hchain.reached.2, hlocation, hlocation ▸ innermostLocation_eq_none⟩
  · unfold Program.generate
    rw [hvalid]
    dsimp only
    rw [h]
    exact (Generation.result_failed _ _ _ _).trans
      (congrArg Except.error (Diagnostic.inFile_eq _ _))

/-- A program with a call of a definition with a `break` outside of loops and blocks: of the four
expressions around it only the call has a position. -/
def strayBreak : Program :=
  let build : Drafting Node := do
    let body ← Draft.sequence [← Draft.node (.break none) none]
    let stray ← Draft.function "stray" [] none body
    let call ← Draft.node (.call ⟨none, "stray", [], [stray], none, none⟩) (some Draft.nilType)
    Draft.sequence [{ call with location := some { line := 3, column := 5 } }]
  let (root, draft) := build.run Draft.new
  { draft.program root with filename := some "prog.bas" }

theorem strayBreak_located : ∃ s chain, run? strayBreak {} = some (.error
      { cause := .breakOutside, location := some { line := 3, column := 5 } }, s) ∧
    FailsAlong strayBreak {} chain ∧ innermostLocation chain = some { line := 3, column := 5 } ∧
    (strayBreak.generate {}).result = .error (.inconsistency Cause.breakOutside.text
      (some { file := "prog.bas", line := 3, column := 5 })) := by
  have hvalid : strayBreak.validate = .ok () := by decide +kernel
  obtain ⟨⟨r, s⟩, hrun, rfl⟩ := Option.map_eq_some_iff.mp
    (show (run? strayBreak {}).map Prod.fst = some (.error
      { cause := .breakOutside, location := some { line := 3, column := 5 } }) by decide +kernel)
  obtain ⟨⟨chain, hchain⟩, hall, hresult⟩ := failures_located hrun
  exact ⟨s, chain, hrun, hchain, (hall chain hchain).2.2.1.symm, hresult hvalid⟩

end Gen

end Lowering
