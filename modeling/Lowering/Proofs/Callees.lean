import Lowering.Proofs.Order
import Lowering.Proofs.Symbols

/-!
# Functions that calls call

The code of a definition is found by its symbol.  What a call means can be told from the function
that it calls, unless the symbols of two definitions are mistaken for each other.

* `Program.NamesApart`: types and definitions have different names;
* `Gen.CallSite.Placed`: a call in the code and the function that it calls;
* `Gen.CallSite.Overlaps`: two definitions that a symbol cannot tell;
* `Gen.CallSite.Tells`, `Gen.calls_tell_definitions`.
-/

namespace Lowering

open IR (FuncId Module)

/-- What tells a definition from the others of a program. -/
def Def.head (d : Def) : TypeId × String × List TypeId := (d.owner, d.name, d.argTypes)

namespace Program

/-- Types have different names, and no two definitions share owner, name and parameter types. -/
structure NamesApart (p : Program) : Prop where
  types : (p.types.ids.map p.types.name).Nodup
  defs : (p.defs.map Def.head).Nodup

instance (p : Program) : Decidable p.NamesApart :=
  decidable_of_iff ((p.types.ids.map p.types.name).Nodup ∧ (p.defs.map Def.head).Nodup)
    ⟨fun h => ⟨h.1, h.2⟩, fun h => ⟨h.1, h.2⟩⟩

variable {p : Program} {d d' : Def} {t t' : Option TypeId}

/-- The names of the types that two calls take the receiver as tell the types. -/
theorem NamesApart.selfType (hn : p.NamesApart) (hv : p.IsValid) (hm : p.Means d t)
    (hm' : p.Means d' t') (h : t.map p.types.name = t'.map p.types.name) : t = t' := by
  cases t with
  | none => exact (Option.map_eq_none_iff.mp h.symm).symm
  | some u =>
    obtain ⟨u', rfl, he⟩ := Option.map_eq_some_iff.mp h.symm
    exact congrArg some (TypeTable.name_inj hn.types (hm.contains hv) (hm'.contains hv) he.symm)

theorem NamesApart.argTypes (hn : p.NamesApart) (hv : p.IsValid) (hd : d ∈ p.defs)
    (hd' : d' ∈ p.defs) (h : d.argTypes.map p.types.name = d'.argTypes.map p.types.name) :
    d.argTypes = d'.argTypes := by
  have hlength : d.argTypes.length = d'.argTypes.length := by simpa using congrArg List.length h
  refine List.ext_getElem hlength fun i hi hi' => ?_
  refine TypeTable.name_inj hn.types (hv.contains_argType hd (List.getElem_mem hi))
    (hv.contains_argType hd' (List.getElem_mem hi')) ?_
  simpa [hi, hi'] using congrArg (fun l : List String => l[i]?) h

/-- Calls that ask for one symbol of one definition take the receiver as the same type. -/
theorem NamesApart.of_symbol (hn : p.NamesApart) (hv : p.IsValid) (hd : d.external = none)
    (hm : p.Means d t) (hm' : p.Means d t')
    (h : d.mangledName p.types t = d.mangledName p.types t') : t = t' :=
  hn.selfType hv hm hm' (Def.ownerName_inj (fun _ hu => (hu ▸ hm).passedAsSelf)
    (fun _ hu => (hu ▸ hm').passedAsSelf) (Def.ownerName_of_mangledName hd h)).1

/-- Calls that ask for one symbol take the receiver as the same type and mean definitions of the
same name and parameter types, or one definition when there is no receiver. -/
theorem NamesApart.of_symbols (hn : p.NamesApart) (hv : p.IsValid) (hplain : p.types.PlainNames)
    (hp : d.Plain) (hp' : d'.Plain) (hm : p.Means d t) (hm' : p.Means d' t')
    (h : d.mangledName p.types t = d'.mangledName p.types t') :
    t = t' ∧ d.name = d'.name ∧ d.argTypes = d'.argTypes ∧ (t = none → d = d') := by
  obtain ⟨howner, hname, hargs⟩ := Def.mangledName_inj hplain hp hp' h
  obtain ⟨hself, hnone⟩ := Def.ownerName_inj (fun _ hu => (hu ▸ hm).passedAsSelf)
    (fun _ hu => (hu ▸ hm').passedAsSelf) howner
  have hargs := hn.argTypes hv hm.mem_defs hm'.mem_defs hargs
  refine ⟨hn.selfType hv hm hm' hself, hname, hargs, fun ht => ?_⟩
  have howner := TypeTable.name_inj hn.types (hv.contains_owner hm.mem_defs)
    (hv.contains_owner hm'.mem_defs) (hnone ht)
  exact List.inj_on_of_nodup_map hn.defs hm.mem_defs hm'.mem_defs
    (by rw [Def.head, Def.head, howner, hname, hargs])

end Program

namespace Gen

namespace CallSite

variable {k k' : CallSite}

/-- The symbol that a call asks for. -/
def symbol (k : CallSite) (ts : TypeTable) : String := k.definition.mangledName ts k.selfType

/-- The function that a call calls. -/
def callee? (k : CallSite) (m : Module) : Option FuncId :=
  match ((m.function k.caller).inst k.inst).kind with
  | .call f _ => some f
  | _ => none

/-- The call is in the code of a module and calls a function. -/
structure Placed (k : CallSite) (m : Module) (f : FuncId) : Prop where
  inside : ∃ b, k.inst ∈ ((m.function k.caller).block b).insts
  callee : k.callee? m = some f

/-- Two calls take their receivers as the same type and mean definitions of the same name and
parameter types. -/
structure Overlaps (k k' : CallSite) : Prop where
  selfType : k.selfType = k'.selfType
  received : k.selfType ≠ none
  name : k.definition.name = k'.definition.name
  argTypes : k.definition.argTypes = k'.definition.argTypes

/-- What the functions that two calls call tell of what the calls mean. -/
structure Tells (p : Program) (k k' : CallSite) (f f' : FuncId) : Prop where
  /-- A definition has one function for each receiver type. -/
  same : k.definition = k'.definition → k.selfType = k'.selfType →
    k.symbol p.types ∉ runtimeNames → f = f'
  receivers : k.definition = k'.definition → k.definition.external = none →
    k.selfType ≠ k'.selfType → f ≠ f'
  definitions : p.types.PlainNames → k.definition.Plain → k'.definition.Plain →
    k.definition ≠ k'.definition → ¬ k.Overlaps k' → f ≠ f'
  foreign : ∀ e, k'.definition.external = some e → e.realName ≠ k.symbol p.types → f ≠ f'

end CallSite

variable {c : Context} {g : Ledger} {s : State} {k : CallSite} {f : FuncId}

/-- A noted call is in the code, and calls a function of the symbol that it asks for. -/
theorem Completed.placed (h : Completed c g s) (hk : k ∈ s.calls) :
    ∃ f, k.Placed (s.connected c).builder.module f := by
  obtain ⟨-, hplaced, f, args, hcall, -⟩ := h.steady.calls k hk
  exact ⟨f, (h.closed.sound k.caller).placed k.inst hplaced, by rw [CallSite.callee?, hcall]⟩

theorem Completed.named (h : Completed c g s) (hk : k ∈ s.calls)
    (hf : k.Placed (s.connected c).builder.module f) :
    f.index < (s.connected c).builder.module.functions.size ∧
      ((s.connected c).builder.module.function f).name = k.symbol c.program.types := by
  obtain ⟨-, -, f', args, hcall, hinside, hname⟩ := h.steady.calls k hk
  have hcallee := hf.callee
  rw [CallSite.callee?, hcall] at hcallee
  obtain rfl : f' = f := Option.some.inj hcallee
  exact ⟨hinside, hname⟩

theorem Completed.tells (h : Completed c g s) (hv : c.program.IsValid)
    (hn : c.program.NamesApart) {k' : CallSite} {f' : FuncId} (hk : k ∈ s.calls)
    (hk' : k' ∈ s.calls) (hf : k.Placed (s.connected c).builder.module f)
    (hf' : k'.Placed (s.connected c).builder.module f') : k.Tells c.program k' f f' := by
  have hm := (h.steady.calls k hk).means
  have hm' := (h.steady.calls k' hk').means
  obtain ⟨hin, hname⟩ := h.named hk hf
  obtain ⟨hin', hname'⟩ := h.named hk' hf'
  have hsymbol : f = f' → k.symbol c.program.types = k'.symbol c.program.types := by
    rintro rfl
    exact hname.symm.trans hname'
  constructor
  case same =>
    intro hd ht hr
    have hsame : k.symbol c.program.types = k'.symbol c.program.types := by
      rw [CallSite.symbol, hd, ht, CallSite.symbol]
    exact (h.steady.distinct f f' hin hin' (hname.trans (hsame.trans hname'.symm))).resolve_right
      (hname ▸ hr)
  case receivers =>
    intro hd he ht hff
    have hsymbol := hsymbol hff
    rw [CallSite.symbol, CallSite.symbol, ← hd] at hsymbol
    exact ht (hn.of_symbol hv he hm (hd ▸ hm') hsymbol)
  case definitions =>
    intro hplain hp hp' hd ho hff
    obtain ⟨ht, hname, hargs, hnone⟩ := hn.of_symbols hv hplain hp hp' hm hm' (hsymbol hff)
    exact ho ⟨ht, fun h => hd (hnone h), hname, hargs⟩
  case foreign =>
    intro e he hne hff
    exact hne ((Def.mangledName_of_external he).symm.trans (hsymbol hff).symm)

/-- A call in the code is one of a function of the runtime or a noted one. -/
theorem Completed.noted (h : Completed c g s) {b : IR.BlockId} {id : IR.InstId} {args : List IR.Value}
    (hid : id ∈ (((s.connected c).builder.module.function f).block b).insts) {callee : FuncId}
    (hk : (((s.connected c).builder.module.function f).inst id).kind = .call callee args) :
    (∃ n, (n, callee) ∈ s.runtime) ∨ ∃ k ∈ s.calls, k.caller = f ∧ k.inst = id := by
  have haccounted : Accounted (s.connected c) := h.accounted.ended.ended
  exact haccounted.1 f id callee args ((h.closed.sound f).within b id hid) hk

/-- The calls in the code are those of the runtime's functions and the noted ones, which call the
function of the definition that they mean. Two calls of one definition call the same function when
they take the receiver as the same type, and only then unless the definition is foreign; calls of
different definitions call different functions, unless their symbols are mistaken for each other;
and none calls the entry function. -/
theorem calls_tell_definitions {p : Program} {o : Options} {s : State}
    (h : run? p o = some (.ok (), s)) (hv : p.IsValid) (hn : p.NamesApart) :
    (∀ f b, ∀ id ∈ ((s.builder.module.function f).block b).insts, ∀ callee args,
      ((s.builder.module.function f).inst id).kind = .call callee args →
        (∃ n, (n, callee) ∈ s.runtime) ∨ ∃ k ∈ s.calls, k.caller = f ∧ k.inst = id) ∧
    ∀ k ∈ s.calls, p.Means k.definition k.selfType ∧ ∃ f, k.Placed s.builder.module f ∧
      (k.symbol p.types ≠ IR.entryName →
        s.builder.module.findFunction IR.entryName ≠ some f) ∧
      ∀ k' ∈ s.calls, ∀ f', k'.Placed s.builder.module f' → k.Tells p k' f f' := by
  obtain ⟨nil, g, s', he, hm, -, hcalls, hruntime⟩ := exists_completed h
  rw [hm, hcalls, hruntime]
  refine ⟨fun f b id hid callee args hk => he.noted hid hk, fun k hk => ?_⟩
  obtain ⟨f, hf⟩ := he.placed hk
  refine ⟨(he.steady.calls k hk).means, f, hf, fun hentry hfound => ?_,
    fun k' hk' f' hf' => he.tells hv hn hk hk' hf hf'⟩
  exact hentry ((he.named hk hf).2.symm.trans (Module.of_findFunction hfound).2)

/-- The test that something holds of a program and that generation ends in a state of a kind. -/
def Checks (p : Program) (P : Prop) (Q : State → Prop) [Decidable P] [DecidablePred Q] : Bool :=
  decide P && match run? p {} with
    | some (.ok (), s) => decide (Q s)
    | _ => false

theorem exists_of_checks {p : Program} {P : Prop} {Q : State → Prop} [Decidable P]
    [DecidablePred Q] (h : Checks p P Q = true) :
    P ∧ ∃ s, run? p {} = some (.ok (), s) ∧ Q s := by
  obtain ⟨hp, hrun⟩ := Bool.and_eq_true_iff.mp h
  obtain ⟨s, hs, hq⟩ := exists_of_check _ hrun
  exact ⟨of_decide_eq_true hp, s, hs, of_decide_eq_true hq⟩

/-- A program of some expressions. -/
def programOf (nodes : Drafting (List Node)) : Program :=
  let (root, draft) := (do Draft.sequence (← nodes)).run Draft.new
  draft.program root

/-- A call of type `Int32`. -/
def callTo (targets : List DefId) (receiver : Option Node) (args : List Node) : Drafting Node :=
  Draft.node (.call ⟨receiver, "call", args, targets, none, none⟩) (some Draft.intType)

/-- A definition whose body is a number. -/
def numbered (name : String) (owner : TypeId) (args : List TypeId) (n : Int) : Drafting DefId := do
  Draft.define name owner (args.map fun t => ⟨"a", t, false⟩) (some Draft.intType) (← Draft.int n)

/-- A program that calls one definition for two receiver types, two definitions of one name and a
foreign function. -/
def roundtrip : Program := programOf do
  let succ ← numbered "succ" Draft.intType [] 1
  let ofInt ← numbered "size" Draft.programType [Draft.intType] 2
  let ofBool ← numbered "size" Draft.programType [Draft.boolType] 3
  let clock ← Draft.foreign "clock" "now" [] (some Draft.intType) false
  return [← callTo [succ] (some (← Draft.int 7)) [], ← callTo [succ] (some (← Draft.int 8)) [],
    ← callTo [succ] (some (← Draft.long 9)) [], ← callTo [ofInt] none [← Draft.int 1],
    ← callTo [ofBool] none [← Draft.bool true], ← callTo [clock] none []]

theorem roundtrip_told : roundtrip.IsValid ∧ roundtrip.NamesApart ∧
    ∃ s, run? roundtrip {} = some (.ok (), s) ∧ s.calls.length = 6 ∧
      (∀ f b, ∀ id ∈ ((s.builder.module.function f).block b).insts, ∀ callee args,
        ((s.builder.module.function f).inst id).kind = .call callee args →
          (∃ n, (n, callee) ∈ s.runtime) ∨ ∃ k ∈ s.calls, k.caller = f ∧ k.inst = id) ∧
      ∀ k ∈ s.calls, roundtrip.Means k.definition k.selfType ∧
        ∃ f, k.Placed s.builder.module f ∧
          (k.symbol roundtrip.types ≠ IR.entryName →
            s.builder.module.findFunction IR.entryName ≠ some f) ∧
          ∀ k' ∈ s.calls, ∀ f', k'.Placed s.builder.module f' → k.Tells roundtrip k' f f' := by
  have hchecks : Checks roundtrip (roundtrip.IsValid ∧ roundtrip.NamesApart)
      (fun s => s.calls.length = 6) = true := by decide +kernel
  obtain ⟨⟨hvalid, hnames⟩, s, hs, hcalls⟩ := exists_of_checks hchecks
  exact ⟨hvalid, hnames, s, hs, hcalls, calls_tell_definitions hs hvalid hnames⟩

/-! ### Symbols that are mistaken for each other -/

/-- Two calls that mean different definitions, or take the receiver as different types, call one
function. -/
def Confused (s : State) : Prop :=
  ∃ k ∈ s.calls, ∃ k' ∈ s.calls,
    (k.definition.head, k.selfType) ≠ (k'.definition.head, k'.selfType) ∧
      (k.callee? s.builder.module).isSome ∧
        k.callee? s.builder.module = k'.callee? s.builder.module

/-- Two calls that mean one definition call different functions. -/
def Divided (s : State) : Prop :=
  ∃ k ∈ s.calls, ∃ k' ∈ s.calls, k.definition.head = k'.definition.head ∧
    k.callee? s.builder.module ≠ k'.callee? s.builder.module

instance (s : State) : Decidable (Confused s) :=
  inferInstanceAs (Decidable (∃ k ∈ s.calls, ∃ k' ∈ s.calls, _))

instance (s : State) : Decidable (Divided s) :=
  inferInstanceAs (Decidable (∃ k ∈ s.calls, ∃ k' ∈ s.calls, _))

/-- The receiver types of the calls of a program. -/
def receivers (p : Program) : List (Option TypeId) :=
  p.nodes.filterMap fun n =>
    match n.kind with
    | .call c => some (p.receiverType? c)
    | _ => none

/-- A definition with the name of a foreign function. -/
def borrowed : Program := programOf do
  let own ← numbered "now" Draft.programType [] 1
  let clock ← Draft.foreign "clock" "now" [] (some Draft.intType) false
  return [← callTo [own] none [], ← callTo [clock] none []]

/-- A definition without parameters whose name seems to have them. -/
def bracketed : Program := programOf do
  let f ← numbered "f" Draft.programType [Draft.intType] 1
  let f' ← numbered "f<Int32>" Draft.programType [] 2
  return [← callTo [f] none [← Draft.int 0], ← callTo [f'] none []]

/-- A definition whose name seems to have a receiver type. -/
def hashed : Program := programOf do
  let f ← numbered "f" Draft.intType [] 1
  let f' ← numbered "Int32#f" Draft.programType [] 2
  return [← callTo [f] (some (← Draft.int 0)) [], ← callTo [f'] none []]

/-- A definition whose name seems to have an owner. -/
def owned : Program := programOf do
  let metaclass ← Draft.addType (.metaclass Draft.intType)
  let f ← numbered "f" metaclass [] 1
  let f' ← numbered "Int32:Class::f" Draft.programType [] 2
  let receiver ← Draft.node .typeLiteral (some metaclass)
  return [← callTo [f] (some receiver) [], ← callTo [f'] none []]

/-- A class with a new object of it. -/
def objectOf (name : String) : Drafting (TypeId × Node) := do
  let t ← Draft.addType (.heapClass name none [])
  let new ← Draft.primitive ("new" ++ name) Draft.programType [] (some t) .allocate
  return (t, ← Draft.node (.call ⟨none, "new", [], [new], none, none⟩) (some t))

/-- A class whose name seems to be a list of names. -/
def listed : Program := programOf do
  let (pair, object) ← objectOf "Int32, Int32"
  let f ← numbered "f" Draft.programType [Draft.intType, Draft.intType] 1
  let f' ← numbered "f" Draft.programType [pair] 2
  return [← callTo [f] none [← Draft.int 0, ← Draft.int 0], ← callTo [f'] none [object]]

/-- A class whose name seems to begin a list of names. -/
def nested : Program := programOf do
  let (b, object) ← objectOf "B"
  let (ab, object') ← objectOf "A<B"
  let f ← numbered "f<A" Draft.programType [b] 1
  let f' ← numbered "f" Draft.programType [ab] 2
  return [← callTo [f] none [object], ← callTo [f'] none [object']]

/-- Two definitions of one name that take the receiver as the same type. -/
def shadowed : Program := programOf do
  let f ← numbered "f" Draft.intType [] 1
  let f' ← numbered "f" Draft.boolType [] 2
  return [← callTo [f] (some (← Draft.int 0)) [], ← callTo [f'] (some (← Draft.int 0)) []]

/-- A foreign function that is called for two receiver types. -/
def imported : Program := programOf do
  let abs ← Draft.addDef
    { name := "abs", owner := Draft.intType, type := some Draft.intType
      external := some { realName := "abs" } }
  return [← callTo [abs] (some (← Draft.int 0)) [], ← callTo [abs] (some (← Draft.long 0)) []]

/-- A foreign function that is called before and after the runtime's of its name is declared. -/
def cleared : Program := programOf do
  let bytes ← Draft.addType (.pointer Draft.charType)
  let clear ← Draft.foreign "clear" "memset" [⟨"p", bytes, false⟩] (some Draft.intType) false
  let new ← Draft.primitive "new" Draft.programType [⟨"n", Draft.intType, false⟩] (some bytes)
    .pointerMalloc
  let fresh ← Draft.node (.call ⟨none, "new", [← Draft.int 1], [new], none, none⟩) (some bytes)
  return [← callTo [clear] none [← Draft.node .nilPointer (some bytes)],
    ← callTo [clear] none [fresh], ← callTo [clear] none [fresh]]

/-- A definition that is called for one receiver type alone and as one of two candidates. -/
def narrowed : Program := programOf do
  let both ← Draft.union [Draft.intType, Draft.boolType]
  let f ← numbered "f" Draft.intType [] 1
  let f' ← numbered "f" Draft.boolType [] 2
  let x ← Draft.var "x" both
  return [← Draft.assign x (← Draft.int 0), ← callTo [f] (some x) [], ← callTo [f, f'] (some x) []]

/-- A foreign function with the name of the entry function. -/
def restarted : Program := programOf do
  let args ← Draft.addType (.pointer (← Draft.addType (.pointer Draft.charType)))
  let start ← Draft.foreign "start" IR.entryName
    [⟨"argc", Draft.intType, false⟩, ⟨"argv", args, false⟩] (some Draft.intType) false
  return [← callTo [start] none [← Draft.argc, ← Draft.node .nilPointer (some args)]]

/-- Names that are read in two ways, definitions that take the receiver as one type, foreign
functions of one name with a definition, with one of the runtime or with the entry function, and
calls of foreign functions for several receiver types: in all these a function does not tell what
was meant. -/
theorem calls_mistaken :
    (∀ p ∈ [borrowed, bracketed, hashed, owned, listed, nested, shadowed, imported],
      p.IsValid ∧ p.NamesApart ∧ ∃ s, run? p {} = some (.ok (), s) ∧ Confused s) ∧
    (∀ p ∈ [cleared, narrowed], p.IsValid ∧ p.NamesApart ∧ (receivers p).Pairwise (· = ·) ∧
      ∃ s, run? p {} = some (.ok (), s) ∧ Divided s) ∧
    restarted.IsValid ∧ restarted.NamesApart ∧ ∃ s, run? restarted {} = some (.ok (), s) ∧
      ∃ k ∈ s.calls, k.callee? s.builder.module =
        s.builder.module.findFunction IR.entryName := by
  have hconfused : ∀ p ∈ [borrowed, bracketed, hashed, owned, listed, nested, shadowed, imported],
      Checks p (p.IsValid ∧ p.NamesApart) Confused = true := by decide +kernel
  have hdivided : ∀ p ∈ [cleared, narrowed],
      Checks p (p.IsValid ∧ p.NamesApart ∧ (receivers p).Pairwise (· = ·)) Divided = true := by
    decide +kernel
  have hrestarted : Checks restarted (restarted.IsValid ∧ restarted.NamesApart) (fun s =>
      ∃ k ∈ s.calls, k.callee? s.builder.module =
        s.builder.module.findFunction IR.entryName) = true := by decide +kernel
  refine ⟨fun p hp => ?_, fun p hp => ?_, ?_⟩
  · exact and_assoc.mp (exists_of_checks (hconfused p hp))
  · obtain ⟨⟨hvalid, hnames, hreceivers⟩, hrun⟩ := exists_of_checks (hdivided p hp)
    exact ⟨hvalid, hnames, hreceivers, hrun⟩
  · exact and_assoc.mp (exists_of_checks hrestarted)

end Gen

end Lowering
