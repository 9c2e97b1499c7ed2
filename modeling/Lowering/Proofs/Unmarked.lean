import Lowering.Generation
import Lowering.Proofs.Agreement
import Lowering.Proofs.Budget
import Lowering.Proofs.Marks

/-!
# Debug information is a side channel

A program that is generated with debug information and without it comes to the same error, or to
modules that differ in nothing but that information.  The verifier and the machine do not read it
either, so the two modules are accepted or rejected alike and run alike.

* `Gen.blind_visit`: no expression is generated by what debug information there is;
* `IR.Module.findings_unmarked`, `Exec.runMain_unmarked`;
* `Gen.run?_unmarked` and `debug_information_aside`.
-/

namespace Lowering

open IR (Ty Value FuncId BlockId GlobalId InstId InstKind Build)

namespace Gen

variable {α β : Type}

/-! ### Expressions -/

theorem Blind.withBreakTarget {x : Gen α} (hx : Blind x) (b : BreakTarget) :
    Blind (withBreakTarget b x) :=
  .get (fun _ => .bind (.modify fun _ => rfl) fun _ => hx.attempt.bind fun _ =>
    .bind (.modify fun _ => rfl) fun _ => .resume _) fun _ => rfl

theorem Blind.inPlace {x : Gen α} (hx : Blind x) (block : Block Node) (act : Activation) :
    Blind (inPlace block act x) := by
  refine .bind (.modify fun _ => rfl) fun _ => hx.attempt.bind fun _ => .bind ?_ fun _ => .resume _
  refine .get (fun s => ?_) fun _ => rfl
  split
  · exact .modify fun _ => rfl
  · exact .fail _

section

variable {visit : Visitor} (hv : ∀ n, Blind (visit n))
include hv

theorem blind_operand (n : Option Node) : Blind (operand visit n) := by
  cases n with
  | none => exact blind_nil.bind fun _ => .pure _
  | some n => exact (hv n).bind fun _ => blind_typeOf.bind fun _ => .pure _

theorem blind_sequence (last : Value) (nodes : List Node) : Blind (sequence visit last nodes) := by
  induction nodes generalizing last with
  | nil => exact .pure last
  | cons n rest ih =>
    refine (hv n).bind fun value => blind_isTerminated.bind fun done => ?_
    split
    · exact .pure value
    · exact ih value

theorem blind_arm (block exit : BlockId) (slot : Option Value) (t : Option TypeId)
    (n : Option Node) : Blind (arm visit block exit slot t n) :=
  blind_positionAt.bind fun _ => (blind_operand hv n).bind fun _ => blind_deliver

theorem blind_branchOn (t : Option TypeId) (cond : Value) (whenTrue whenFalse : Option Node) :
    Blind (branchOn visit t cond whenTrue whenFalse) :=
  blind_appendBlock.bind fun _ => blind_appendBlock.bind fun _ => blind_appendBlock.bind fun _ =>
    Build.blind_condBr.emit.bind fun _ => blind_mergeSlot.bind fun _ =>
      (blind_arm hv _ _ _ _ _).bind fun _ => (blind_arm hv _ _ _ _ _).bind fun _ => blind_merge

theorem blind_branch (t : Option TypeId) (cond : Node) (whenTrue whenFalse : Option Node) :
    Blind (branch visit t cond whenTrue whenFalse) := by
  refine (hv cond).bind fun value => blind_isTerminated.bind fun done => ?_
  split
  · exact blind_deadValue
  · refine blind_knownTruth?.bind fun known => ?_
    split
    · refine (blind_operand hv _).bind fun r => blind_isTerminated.bind fun done => ?_
      split
      · exact blind_deadValue
      · exact blind_asResult
    · exact blind_typeOf.bind fun _ => blind_truth.bind fun _ => blind_branchOn hv _ _ _ _

theorem blind_loop (cond : Node) (body : Option Node) (runOnce : Bool) :
    Blind (loop visit cond body runOnce) := by
  refine blind_appendBlock.bind fun head => blind_appendBlock.bind fun inner =>
    blind_appendBlock.bind fun exit => Build.blind_br.emit.bind fun _ => ?_
  refine blind_positionAt.bind fun _ => (hv cond).bind fun value => blind_typeOf.bind fun _ =>
    blind_truth.bind fun test => Build.blind_condBr.emit.bind fun _ => ?_
  refine blind_positionAt.bind fun _ => ((blind_operand hv body).withBreakTarget _).bind fun _ =>
    Build.blind_br.emit.bind fun _ => blind_positionAt.bind fun _ => ?_
  refine .get (fun s => ?_) fun s => by rw [predecessors_unmarked]
  split
  · exact Build.blind_unreachable.emit.bind fun _ => .pure _
  · exact .bind (.pure _) fun _ => .pure _

theorem blind_leave (value : Option Node) : Blind (leave visit value) := by
  refine (blind_operand hv value).bind fun r => blind_isTerminated.bind fun done => ?_
  split
  · exact .pure _
  · refine .get (fun s => ?_) fun _ => rfl
    split
    · exact blind_jumpToTarget.bind fun _ => .pure _
    · exact blind_returnFromFunction.bind fun _ => .pure _

theorem blind_exit (value : Option Node) : Blind (exit visit value) := by
  refine (blind_operand hv value).bind fun r => .get (fun s => ?_) fun _ => rfl
  split
  · exact Build.blind_br.emit.bind fun _ => .pure _
  · exact blind_jumpToTarget.bind fun _ => .pure _
  · exact .bind (.fail _) fun _ => .pure _

theorem blind_membership (n : Node) (target : TypeId) : Blind (membership visit n target) :=
  (hv n).bind fun _ => blind_typeOf.bind fun _ => blind_isA

theorem blind_truthOf (n : Node) : Blind (truthOf visit n) :=
  (hv n).bind fun _ => blind_typeOf.bind fun _ => blind_truth

theorem blind_either (left right : Node) : Blind (either visit left right) :=
  (blind_truthOf hv left).bind fun _ => (blind_truthOf hv right).bind fun _ =>
    Build.blind_or.emit

/-! ### Functions and constants -/

theorem blind_functionBody (d : Def) : Blind (functionBody visit d) := by
  refine (blind_operand hv d.body).bind fun r => blind_isTerminated.bind fun done => ?_
  split
  · exact .pure _
  · exact blind_returnFromFunction

theorem blind_fillFunction (func : FuncId) (d : Def) (selfType : Option TypeId) :
    Blind (fillFunction visit func d selfType) := by
  refine Blind.aside (blind_enterFunction.bind fun _ => .get (fun s => ?_) fun _ => rfl)
  have hcode : Blind (do
      let act ← functionActivation d selfType
      withActivation act (functionBody visit d)) :=
    blind_functionActivation.bind fun act => (blind_functionBody hv d).withActivation act
  exact hcode.attempt.bind fun _ => Build.blind_positionAt.emit.bind fun _ =>
    Build.blind_br.emit.bind fun _ => .resume _

theorem blind_makeFunction (name : String) (d : Def) (selfType : Option TypeId) :
    Blind (makeFunction visit name d selfType) := by
  refine blind_declareFunction.bind fun func => ?_
  split
  · exact blind_note.bind fun _ => .pure _
  · exact blind_note.bind fun _ => (blind_fillFunction hv func d selfType).bind fun _ => .pure _

theorem blind_functionOf (d : Def) (selfType : Option TypeId) :
    Blind (functionOf visit d selfType) := by
  refine blind_types.bind fun ts => .get (fun s => ?_) fun s => by
    rw [show s.unmarked.builder.module = s.builder.module.unmarked from rfl,
      IR.Module.findFunction_unmarked]
  split
  · exact .pure _
  · exact blind_makeFunction hv _ d selfType

theorem blind_callFunction (d : Def) (selfType : Option TypeId) (args : List Value) :
    Blind (callFunction visit d selfType args) := by
  refine (blind_functionOf hv d selfType).bind fun func => .get (fun s => ?_) fun s => by
    rw [show s.unmarked.builder.module = s.builder.module.unmarked from rfl,
      IR.Module.function_unmarked]
    rfl
  exact blind_coerceAll.bind fun _ => Build.blind_call.emit.bind fun _ =>
    blind_noteCall.bind fun _ => blind_callResult

omit hv in
theorem blind_settle {g : GlobalId} {t : TypeId} {value : Value} : Blind (settle g t value) := by
  refine blind_irType.bind fun type => ?_
  split
  · exact fun _ _ => rfl
  · exact blind_assign

theorem blind_initializer (g : GlobalId) (d : ConstDef) (t : TypeId) :
    Blind (initializer visit g d t) :=
  blind_types.bind fun _ => .withActivation ((hv d.value).bind fun _ => blind_settle.bind fun _ =>
    blind_currentBlock) _

theorem blind_hoist (g : GlobalId) (d : ConstDef) (t : TypeId) : Blind (hoist visit g d t) := by
  refine blind_note.bind fun _ => Blind.aside (.read (fun c => ?_) fun _ => rfl)
  refine .bind (.modify fun _ => rfl) fun _ => Build.blind_appendBlock.emit.bind fun block => ?_
  refine Build.blind_positionAt.emit.bind fun _ => (blind_initializer hv g d t).bind fun tail => ?_
  exact .get (fun _ => Build.blind_positionAt.emit.bind fun _ => Build.blind_br.emit.bind fun _ =>
    .modify fun _ => rfl) fun _ => rfl

theorem blind_constantGlobal (id : ConstId) (d : ConstDef) (t : TypeId) :
    Blind (constantGlobal visit id d t) := by
  refine .get (fun s => ?_) fun _ => rfl
  split
  · exact .pure _
  · exact blind_irType.bind fun _ => blind_zeroGlobal.bind fun g =>
      .bind (.modify fun _ => rfl) fun _ => (blind_hoist hv g d t).bind fun _ => .pure g

theorem blind_constant (id : ConstId) : Blind (constant visit id) :=
  .read (fun _ => blind_orFail.bind fun d => blind_typeOf.bind fun t =>
    (blind_constantGlobal hv id d t).bind fun _ => blind_heldIn) fun _ => rfl

/-! ### Inlined calls and blocks -/

theorem blind_inlineBody (d : Def) (target : TargetId) : Blind (inlineBody visit d target) :=
  (blind_operand hv d.body).bind fun _ => blind_jumpToTarget

theorem blind_inlineCall (n : Node) (block : Block Node) (d : Def) (selfType : Option TypeId)
    (args : List Value) : Blind (inlineCall visit n block d selfType args) := by
  rw [inlineCall_eq]
  refine blind_note.bind fun _ => blind_appendBlock.bind fun exit => blind_mergeSlot.bind fun slot =>
    blind_addTarget.bind fun target => blind_parameterScope.bind fun vars => ?_
  refine .get (fun s => ((blind_inlineBody hv d target).inPlace _ _).bind fun _ => ?_) fun _ => rfl
  exact blind_takeIncoming.bind fun _ => blind_merge.bind fun _ => blind_typeOf.bind fun _ =>
    .pure _

theorem blind_blockScope (vars : Scope) (args : List BlockArg) (values : List Node) :
    Blind (blockScope visit vars args values) := by
  induction args generalizing vars values with
  | nil => exact .pure _
  | cons a args ih =>
    refine (blind_operand hv _).bind fun r => blind_isTerminated.bind fun done => ?_
    split
    · exact .pure _
    · exact blind_irType.bind fun _ => blind_alloca.bind fun _ => blind_assign.bind fun _ => ih _ _

theorem blind_discard (nodes : List Node) : Blind (discard visit nodes) := by
  induction nodes with
  | nil => exact .pure ()
  | cons n rest ih => exact (hv n).bind fun _ => ih

theorem blind_inlineBlock (n : Node) (values : List Node) (frame : BlockFrame) :
    Blind (inlineBlock visit n values frame) := by
  refine (blind_blockScope hv _ _ _).bind fun vars => ?_
  split
  · exact blind_deadValue
  · refine (blind_discard hv _).bind fun _ => blind_isTerminated.bind fun done => ?_
    split
    · exact blind_deadValue
    · refine .get (fun s => ((blind_operand hv _).withActivation _).bind fun r =>
        blind_isTerminated.bind fun done => ?_) fun _ => rfl
      split
      · exact blind_deadValue
      · exact blind_asResult

theorem blind_yield (n : Node) (values : List Node) : Blind (yield visit n values) := by
  refine .get (fun s => ?_) fun _ => rfl
  split
  · exact .fail _
  · rename_i frame rest _
    exact .bind (.modify fun _ => rfl) fun _ => (blind_inlineBlock hv n values frame).attempt.bind
      fun _ => .bind (.modify fun _ => rfl) fun _ => .resume _

/-! ### Calls -/

theorem blind_resolvedCall (n : Node) (block : Option (Block Node)) (d : Def)
    (selfType : Option TypeId) (args : List Value) :
    Blind (resolvedCall visit n block d selfType args) := by
  cases block with
  | none => exact blind_callFunction hv d selfType args
  | some block => exact blind_inlineCall hv n block d selfType args

theorem blind_receiverArgument (k : Call Node) (selfType : Option TypeId) :
    Blind (receiverArgument visit k selfType) := by
  unfold receiverArgument
  split
  · exact (hv _).bind fun _ => blind_typeOf.bind fun _ => blind_convert.bind fun _ => .pure _
  · exact (hv _).bind fun _ => .pure _
  · exact blind_implicitSelf.bind fun _ => .pure _
  · exact .pure _

theorem blind_passedArgument (n : Node) (param : Option Arg) :
    Blind (passedArgument visit n param) := by
  unfold passedArgument
  dsimp only
  split
  · exact blind_typeOf.bind fun _ => blind_declare.bind fun _ => .pure _
  · refine (hv n).bind fun value => ?_
    split
    · exact blind_typeOf.bind fun _ => blind_convert
    · exact .pure value

theorem blind_passedArguments (params : List Arg) (nodes : List Node) :
    Blind (passedArguments visit params nodes) := by
  induction nodes generalizing params with
  | nil => exact .pure _
  | cons n rest ih =>
    refine blind_isTerminated.bind fun done => ?_
    split
    · exact .pure _
    · exact (blind_passedArgument hv n _).bind fun _ => (ih _).bind fun _ => .pure _

theorem blind_staticCall (n : Node) (k : Call Node) (id : DefId) :
    Blind (staticCall visit n k id) := by
  refine blind_targetOf.bind fun d => blind_types.bind fun ts => blind_receiverType.bind fun t => ?_
  refine (blind_receiverArgument hv k _).bind fun self => (blind_passedArguments hv _ _).bind
    fun args => blind_isTerminated.bind fun done => ?_
  split
  · exact blind_deadValue
  · refine (blind_resolvedCall hv _ _ _ _ _).bind fun r => blind_isTerminated.bind fun done => ?_
    split
    · exact blind_deadValue
    · exact blind_asResult

theorem blind_receiverOperand (k : Call Node) : Blind (receiverOperand visit k) := by
  unfold receiverOperand
  split
  · exact (hv _).bind fun _ => blind_typeOf.bind fun _ => blind_operandOf.bind fun _ => .pure _
  · refine blind_types.bind fun ts => blind_lookup?.bind fun found => ?_
    split
    · split
      · exact blind_heldValue.bind fun _ => blind_operandOf.bind fun _ => .pure _
      · exact .pure _
    · exact .pure _

theorem blind_argumentOperands (nodes : List Node) : Blind (argumentOperands visit nodes) := by
  induction nodes with
  | nil => exact .pure _
  | cons n rest ih =>
    refine (hv n).bind fun _ => blind_typeOf.bind fun _ => blind_operandOf.bind fun o =>
      blind_isTerminated.bind fun done => ?_
    split
    · exact .pure _
    · exact ih.bind fun _ => .pure _

theorem blind_callCandidate (n : Node) (block : Option (Block Node)) (exit : BlockId)
    (slot : Option Value) (self : Option Operand) (args : List Operand) (d : Def) :
    Blind (callCandidate visit n block exit slot self args d) :=
  blind_types.bind fun _ => blind_shaped.bind fun _ => (blind_resolvedCall hv _ _ _ _ _).bind
    fun _ => blind_deliver

theorem blind_candidate (n : Node) (k : Call Node) (exit : BlockId) (slot : Option Value)
    (self : Option Operand) (args : List Operand) (id : DefId) :
    Blind (candidate visit n k exit slot self args id) := by
  refine blind_targetOf.bind fun d => blind_guard.bind fun admitted => blind_appendBlock.bind
    fun current => blind_appendBlock.bind fun next => Build.blind_condBr.emit.bind fun _ => ?_
  refine blind_positionAt.bind fun _ => blind_types.bind fun ts => ?_
  split
  · exact (blind_callCandidate hv _ _ _ _ _ _ _).bind fun _ => blind_positionAt.bind fun _ =>
      .pure _
  · exact blind_typeName.bind fun _ => blind_note.bind fun _ =>
      Build.blind_unreachable.emit.bind fun _ => .bind (.pure _) fun _ =>
        blind_positionAt.bind fun _ => .pure _

theorem blind_dispatch (n : Node) (k : Call Node) : Blind (dispatch visit n k) := by
  refine blind_note.bind fun _ => (blind_receiverOperand hv k).bind fun self =>
    (blind_argumentOperands hv _).bind fun args => blind_isTerminated.bind fun done => ?_
  split
  · exact blind_deadValue
  · exact blind_appendBlock.bind fun exit => blind_mergeSlot.bind fun slot =>
      .bind (.mapM (fun id => blind_candidate hv n k exit slot self args id) _) fun _ =>
        Build.blind_unreachable.emit.bind fun _ => blind_merge

theorem blind_call (n : Node) (k : Call Node) : Blind (call visit n k) := by
  unfold call
  split
  · exact .fail _
  · exact blind_staticCall hv n k _
  · exact blind_dispatch hv n k

/-! ### Assignments -/

theorem blind_assignment (n target value : Node) : Blind (assignment visit n target value) := by
  refine (hv value).bind fun v => blind_typeOf.bind fun _ => blind_isTerminated.bind fun done => ?_
  split
  · exact .pure v
  · exact blind_assignTarget.bind fun _ => blind_assign.bind fun _ => blind_typeOf.bind fun _ =>
      blind_convert

theorem blind_detached (n : Node) : Blind (detached visit n) := by
  refine (hv n).bind fun _ => blind_typeOf.bind fun _ => blind_isAddressHeld.bind fun held => ?_
  split
  · exact blind_irType.bind fun _ => blind_alloca.bind fun _ => blind_assign.bind fun _ => .pure _
  · exact .pure _

omit hv in
theorem blind_storeAll (values : List (Node × Value × TypeId)) : Blind (storeAll values) := by
  induction values with
  | nil => exact .pure ()
  | cons entry rest ih =>
    refine blind_isTerminated.bind fun done => ?_
    split
    · exact .pure ()
    · exact blind_assignTarget.bind fun _ => blind_assign.bind fun _ => ih

theorem blind_multiAssignment (targets values : List Node) :
    Blind (multiAssignment visit targets values) := by
  unfold multiAssignment
  split
  · exact .fail _
  · exact .bind (.mapM (fun n => blind_detached hv n) _) fun _ => (blind_storeAll _).bind fun _ =>
      .pure _

/-- Every kind of expression, given a visitor of those inside. -/
theorem blind_visitWith (n : Node) : Blind (visitWith visit n) := by
  unfold visitWith
  cases n.kind with
  | nop | nilLiteral => exact .pure _
  | boolLiteral value => exact .pure _
  | intLiteral value => exact blind_types.bind fun _ => .pure _
  | floatLiteral value => exact blind_types.bind fun _ => .pure _
  | charLiteral value => exact .pure _
  | stringLiteral value => exact blind_stringValue
  | symbolLiteral value => exact blind_symbolValue
  | typeLiteral => exact blind_types.bind fun _ => .pure _
  | var name => exact blind_typeOf.bind fun _ => blind_readVariable
  | assign target value => exact blind_assignment hv n target value
  | multiAssign targets values => exact blind_multiAssignment hv targets values
  | instanceVar name => exact blind_typeOf.bind fun _ => blind_readField
  | global name => exact blind_typeOf.bind fun _ => blind_readGlobal
  | const id => exact blind_constant hv id
  | expressions nodes => exact blind_sequence hv nilValue nodes
  | branch cond whenTrue whenFalse => exact blind_branch hv n.type cond whenTrue whenFalse
  | loop cond body runOnce => exact blind_loop hv cond body runOnce
  | «return» value => exact blind_leave hv value
  | «break» value => exact blind_exit hv value
  | yield values => exact blind_yield hv n values
  | call k => exact blind_call hv n k
  | isA value target => exact blind_membership hv value target
  | simpleOr left right => exact blind_either hv left right
  | pointerOf target => exact blind_typeOf.bind fun _ => blind_pointerTo
  | nilPointer => exact blind_typeOf.bind fun _ => blind_irType.bind fun _ => .pure _
  | argc => exact blind_argumentCount
  | argv => exact blind_argumentVector
  | primitive op => exact blind_primitive

end

/-- A step at another position of the source, which is given back afterwards. -/
theorem unmarked_atPosition {x : Gen α} (hx : Blind x) (l saved : Option Location) (c : Context)
    (s : State) : outcome x c.unmarked s.unmarked =
      ((outcome (do let r ← attempt x; emit (Build.setLocation saved); resume r) c
          { s with builder := { s.builder with location := l } }).1,
        (outcome (do let r ← attempt x; emit (Build.setLocation saved); resume r) c
          { s with builder := { s.builder with location := l } }).2.unmarked) := by
  have hfinally := outcome_finally x (y := emit (Build.setLocation saved)) (c := c)
    (s := { s with builder := { s.builder with location := l } }) rfl
  rw [hfinally]
  exact hx c { s with builder := { s.builder with location := l } }

/-- Without debug information the position of an expression is not set; with it the position is
taken away with the others. -/
theorem blind_atLocation {x : Gen α} (hx : Blind x) (n : Node) : Blind (atLocation n x) := by
  intro c s
  have hplain : outcome (atLocation n x) c.unmarked s.unmarked = outcome x c.unmarked s.unmarked :=
    rfl
  rw [hplain]
  by_cases hd : c.debugInfo = true
  · have hset : outcome (atLocation n x) c s = outcome (do
        let r ← attempt x
        emit (Build.setLocation s.builder.location)
        resume r) c { s with builder := { s.builder with
          location := (n.location.filter Location.isKnown).or s.builder.location } } := by
      show outcome (if c.debugInfo then _ else x) c s = _
      rw [if_pos hd]
      cases n.location.filter Location.isKnown <;> rfl
    rw [hset]
    exact unmarked_atPosition hx _ _ c s
  · have hsame : outcome (atLocation n x) c s = outcome x c s := by
      show outcome (if c.debugInfo then _ else x) c s = _
      rw [if_neg hd]
    rw [hsame]
    exact hx c s

theorem blind_located {x : Gen α} (hx : Blind x) (n : Node) : Blind (located n x) := by
  refine (blind_atLocation hx n).attempt.bind fun r => ?_
  cases r with
  | ok a => exact .pure a
  | error f => exact .throw _

/-- No expression is generated by what debug information there is. -/
theorem blind_visit (depth : Nat) (n : Node) : Blind (visit depth n) := by
  induction depth generalizing n with
  | zero => exact .fail _
  | succ depth ih =>
    exact blind_note.bind fun _ => (blind_located (blind_visitWith ih n) n).bind fun value =>
      .bind (.modify fun _ => rfl) fun _ => .pure value

/-! ### Whole generations -/

theorem blind_finish (value : Value) : Blind (finish value) := by
  refine .read (fun c => .bind (.modify fun _ => rfl) fun _ => ?_) fun _ => rfl
  have hrest : Blind (do
      positionAt (← get).constTail
      Build.br c.main.entryBlock
      positionAt c.main.allocaBlock
      Build.br c.constHead
      let m := (← get).builder.module
      note .debug <| "entry function done: " ++ toString m.functions.size ++ " function(s), " ++
        toString m.globals.size ++ " global(s)" : Gen Unit) := by
    refine .get (fun s => blind_positionAt.bind fun _ => Build.blind_br.emit.bind fun _ => ?_)
      fun _ => rfl
    refine blind_positionAt.bind fun _ => Build.blind_br.emit.bind fun _ => ?_
    refine .get (fun s => blind_note) fun s => ?_
    dsimp only
    rw [show s.unmarked.builder.module.functions.size = s.builder.module.functions.size from
      Array.size_map]
    rfl
  refine blind_isTerminated.bind fun done => ?_
  split
  · split
    · exact .get (fun s => blind_convertExactly.bind fun _ => Build.blind_ret.emit.bind fun _ =>
        hrest) fun _ => rfl
    · exact Build.blind_ret.emit.bind fun _ => hrest
  · exact hrest

theorem blind_whole (p : Program) : Blind (whole p) := by
  refine blind_prepareSymbols.bind fun _ => ?_
  split
  · exact (blind_visit _ _).bind fun _ => blind_finish _
  · exact .bind (.pure _) fun _ => blind_finish _

/-- What a generation starts with, its debug information apart. -/
theorem start?_unmarked (p : Program) (o : Options) (b b' : Bool) :
    (start? p { o with debugInfo := b }).map (Prod.map Context.unmarked State.unmarked) =
      (start? p { o with debugInfo := b' }).map (Prod.map Context.unmarked State.unmarked) := by
  unfold start?
  cases p.types.nil? <;> rfl

/-- What a generation comes to, its debug information apart. -/
theorem run?_unmarked (p : Program) (o : Options) (b b' : Bool) :
    (run? p { o with debugInfo := b }).map (Prod.map id State.unmarked) =
      (run? p { o with debugInfo := b' }).map (Prod.map id State.unmarked) := by
  have hrun : ∀ o, (run? p o).map (Prod.map id State.unmarked) =
      ((start? p o).map (Prod.map Context.unmarked State.unmarked)).map
        fun r => outcome (whole p) r.1 r.2 := fun o => by
    rw [run?, Option.map_map, Option.map_map]
    refine congrArg (Option.map · _) (funext fun r => ?_)
    exact (blind_whole p r.1 r.2).symm
  rw [hrun, hrun, start?_unmarked]

end Gen

/-! ### The verifier -/

namespace IR.Module

variable (m : Module)

theorem operandDefects_unmarked (f : FuncId) :
    m.unmarked.operandDefects f = m.operandDefects f := by
  funext v
  have hsize : (m.function f).unmarked.insts.size = (m.function f).insts.size := Array.size_map
  cases v with
  | inst id =>
    simp only [operandDefects, hsize, function_unmarked, Function.inst_unmarked]
    rfl
  | param i =>
    simp only [operandDefects, function_unmarked]
    rfl
  | global g => rfl
  | const c => cases c <;> rfl

theorem phiDefects_unmarked (f : FuncId) : m.unmarked.phiDefects f = m.phiDefects f := by
  funext b id t late incoming
  simp only [phiDefects, function_unmarked, typeOf_unmarked]
  rfl

theorem callDefects_unmarked (f : FuncId) : m.unmarked.callDefects f = m.callDefects f := by
  funext callee args
  have hsize : m.unmarked.functions.size = m.functions.size := Array.size_map
  simp only [callDefects, hsize, function_unmarked, typeOf_unmarked]
  rfl

theorem kindDefects_unmarked (f : FuncId) : m.unmarked.kindDefects f = m.kindDefects f := by
  funext t kind
  cases kind <;> simp only [kindDefects, typeOf_unmarked, callDefects_unmarked]

theorem instDefects_unmarked (f : FuncId) (b : BlockId) (late : Bool) (ids : List InstId) :
    m.unmarked.instDefects f b late ids = m.instDefects f b late ids := by
  induction ids generalizing late with
  | nil => rfl
  | cons id ids ih =>
    rw [instDefects, instDefects]
    simp only [ih, operandDefects_unmarked, phiDefects_unmarked, kindDefects_unmarked,
      function_unmarked, Function.inst_unmarked]
    rfl

theorem termDefects_unmarked (f : FuncId) : m.unmarked.termDefects f = m.termDefects f := by
  funext t
  simp only [termDefects, function_unmarked, typeOf_unmarked]
  rfl

theorem functionFindings_unmarked (f : FuncId) :
    m.unmarked.functionFindings f = m.functionFindings f := by
  have hblock : ∀ b, m.unmarked.blockDefects f b = m.blockDefects f b := fun b => by
    simp only [blockDefects, instDefects_unmarked, termDefects_unmarked, function_unmarked]
    rfl
  simp only [functionFindings, hblock, function_unmarked]
  rfl

/-- The verifier finds the same without debug information. -/
theorem findings_unmarked : m.unmarked.findings = m.findings := by
  have hsize : m.unmarked.functions.size = m.functions.size := Array.size_map
  simp only [findings, hsize, functionFindings_unmarked]
  rfl

end IR.Module

/-! ### The machine -/

namespace Exec.Run

open IR (Module)

variable (m : Module)

theorem instruction_unmarked : instruction m.unmarked = instruction m := by
  funext call f fr kind t
  cases kind <;> simp only [instruction, IR.Module.typeOf_unmarked]

theorem instructions_unmarked (call : FuncId → List RtValue → Run RtValue) (f : FuncId)
    (fn : IR.Function) (fr : Frame) (ids : List InstId) :
    instructions m.unmarked call f fn.unmarked fr ids = instructions m call f fn fr ids := by
  induction ids generalizing fr with
  | nil => rfl
  | cons id ids ih =>
    rw [instructions, instructions]
    simp only [ih, instruction_unmarked, IR.Function.inst_unmarked]
    rfl

theorem phiValues_unmarked (fn : IR.Function) (fr : Frame) (source : Option BlockId)
    (ids : List InstId) : phiValues fn.unmarked fr source ids = phiValues fn fr source ids := by
  induction ids with
  | nil => rfl
  | cons id ids ih =>
    rw [phiValues, phiValues, ih, IR.Function.inst_unmarked]
    rfl

theorem block_unmarked (call : FuncId → List RtValue → Run RtValue) (f : FuncId) (fr : Frame)
    (source : Option BlockId) (b : BlockId) :
    block m.unmarked call f fr source b = block m call f fr source b := by
  simp only [block, IR.Module.function_unmarked, phiValues_unmarked, instructions_unmarked]
  rfl

theorem blocks_unmarked (call : FuncId → List RtValue → Run RtValue) (f : FuncId) (n : Nat)
    (fr : Frame) (source : Option BlockId) (b : BlockId) :
    blocks m.unmarked call f n fr source b = blocks m call f n fr source b := by
  induction n generalizing fr source b with
  | zero => rfl
  | succ n ih =>
    rw [blocks, blocks, block_unmarked]
    simp only [ih]

theorem callWithin_unmarked (n : Nat) : callWithin m.unmarked n = callWithin m n := by
  induction n with
  | zero => rfl
  | succ n ih =>
    funext f args
    have hsize : (m.function f).unmarked.insts.size = (m.function f).insts.size := Array.size_map
    rw [callWithin, callWithin, ih, IR.Module.function_unmarked]
    simp only [blocks_unmarked, hsize]
    rfl

theorem entry_unmarked (args : List String) : entry m.unmarked args = entry m args := by
  have hcall : call m.unmarked = call m := by
    funext f args
    simp only [call, callWithin_unmarked]
  rw [entry, entry, hcall, IR.Module.findFunction_unmarked]

end Exec.Run

/-- A module runs the same without debug information. -/
theorem Exec.runMain_unmarked (m : IR.Module) (args : List String) (stepLimit : Nat) :
    runMain m.unmarked args stepLimit = runMain m args stepLimit := by
  rw [runMain, Run.entry_unmarked]
  rfl

/-! ### Whole programs -/

/-- Two results of generation that differ in debug information only: one fails as the other does,
and two modules are accepted by the verifier and run alike. -/
def SameButMarked : Except Diagnostic IR.Module → Except Diagnostic IR.Module → Prop
  | .ok m, .ok m' => m.unmarked = m'.unmarked ∧ m.findings = m'.findings ∧
      ∀ args stepLimit, Exec.runMain m args stepLimit = Exec.runMain m' args stepLimit
  | .error d, .error d' => d = d'
  | _, _ => False

theorem sameButMarked_of_unmarked {m m' : IR.Module} (h : m.unmarked = m'.unmarked) :
    SameButMarked (.ok m) (.ok m') := by
  refine ⟨h, ?_, fun args stepLimit => ?_⟩
  · rw [← m.findings_unmarked, h, m'.findings_unmarked]
  · rw [← Exec.runMain_unmarked m, h, Exec.runMain_unmarked m']

namespace Generation

theorem result_verified (o : Options) (log : Log) (m : IR.Module) : (verified o log m).result =
    if o.verify then m.verify.map fun _ => m else .ok m := by
  unfold verified
  split
  · cases m.verify with
    | error d => exact result_failed _ _ _ d
    | ok _ => rfl
  · rfl

/-- The last stage goes the same way for modules that differ in debug information only. -/
theorem sameButMarked_verified {m m' : IR.Module} (h : m.unmarked = m'.unmarked) (o : Options)
    (log log' : Log) (b b' : Bool) :
    SameButMarked (verified { o with debugInfo := b } log m).result
      (verified { o with debugInfo := b' } log' m').result := by
  have hsame := sameButMarked_of_unmarked h
  have hverify : m.verify = m'.verify := by
    rw [IR.Module.verify, IR.Module.verify, hsame.2.1]
  rw [result_verified, result_verified, hverify]
  show SameButMarked (if o.verify then _ else _) (if o.verify then _ else _)
  split
  · cases m'.verify with
    | error d => exact rfl
    | ok _ => exact hsame
  · exact hsame

end Generation

/-- Debug information is a side channel: a program comes to the same with it and without it. -/
theorem debug_information_aside (p : Program) (o : Options) (b b' : Bool) :
    SameButMarked (p.generate { o with debugInfo := b }).result
      (p.generate { o with debugInfo := b' }).result := by
  have hrun := Gen.run?_unmarked p o b b'
  unfold Program.generate
  cases p.validate with
  | error d => exact rfl
  | ok _ =>
    dsimp only
    generalize Gen.run? p { o with debugInfo := b } = r at hrun
    generalize Gen.run? p { o with debugInfo := b' } = r' at hrun
    rcases r with _ | ⟨_ | _, s⟩ <;> rcases r' with _ | ⟨_ | _, s'⟩ <;>
      simp only [Option.map_none, Option.map_some, Prod.map, id, Option.some.injEq, Prod.mk.injEq,
        reduceCtorEq, Except.error.injEq, false_and] at hrun
    · exact rfl
    · obtain ⟨rfl, -⟩ := hrun
      rw [Generation.result_failed, Generation.result_failed]
      exact rfl
    · exact Generation.sameButMarked_verified
        (congrArg (fun s : Gen.State => s.builder.module) hrun.2) o _ _ b b'

example : ((Gen.oneAssignment.generate { debugInfo := true }).result.toOption.bind
    IR.Module.debug).isSome ∧
    (Gen.oneAssignment.generate {}).result.toOption.any (·.debug.isNone) := by decide +kernel

end Lowering
