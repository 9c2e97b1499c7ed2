import Mathlib.Data.String.Basic
import Lowering.Proofs.Identity
import Lowering.Proofs.Arrays
import Lowering.Proofs.Review

/-!
# Numbers of symbols

The number of a symbol is the number of symbols whose bytes come before its own, and the text of the
symbol is found through it in the table that the module has.

* `Program.symbolRank`, `Program.Dense`: the numbers of the symbols of a program;
* `Exec.Intact`: a state of a run in which the texts and tables of a module are as they were, with
  `Exec.Intact.element`;
* `Gen.gives_symbolLiteral`: the value of a symbol literal;
* `Gen.Prepared`: the table of the symbols, in every state that comes after it was made;
* `Gen.performs_symbolText`: the text of the symbol of a number;
* `Gen.MadeIn`, `Gen.symbols_named`.
-/

namespace Lowering

/-! ### Ascending lists -/

section

variable {α : Type} [LinearOrder α] {l : List α} {a : α} {i : Nat}

/-- In an ascending list there are as many smaller elements as come before an element. -/
theorem countP_lt_of_getElem? (h : l.Pairwise (· < ·)) (hi : l[i]? = some a) :
    l.countP (· < a) = i := by
  induction l generalizing i with
  | nil => cases hi
  | cons b l ih =>
    obtain ⟨hb, hl⟩ := List.pairwise_cons.mp h
    cases i with
    | zero =>
      obtain rfl := Option.some.inj hi
      refine List.countP_eq_zero.mpr fun x hx => ?_
      rcases List.mem_cons.mp hx with rfl | hx
      · simp
      · simpa using (hb x hx).le
    | succ i =>
      have hlt : b < a := hb a (List.mem_of_getElem? hi)
      rw [List.countP_cons, ih hl hi]
      simp [hlt]

theorem findIdx?_of_getElem? (h : l.Nodup) (hi : l[i]? = some a) :
    l.findIdx? (· == a) = some i := by
  obtain ⟨hlt, rfl⟩ := List.getElem?_eq_some_iff.mp hi
  refine List.findIdx?_eq_some_iff_getElem.mpr ⟨hlt, beq_self_eq_true _, fun j hj he => ?_⟩
  have hsame : j = i := (List.Nodup.getElem_inj_iff h).mp (beq_iff_eq.mp he)
  omega

end

theorem pairwise_insertSorted {s : String} {l : List String} (h : l.Pairwise (· < ·)) :
    (insertSorted s l).Pairwise (· < ·) := by
  induction l with
  | nil => exact List.pairwise_singleton _ s
  | cons t l ih =>
    obtain ⟨ht, hl⟩ := List.pairwise_cons.mp h
    unfold insertSorted
    split
    · rename_i hst
      refine List.pairwise_cons.mpr ⟨fun x hx => ?_, h⟩
      rcases List.mem_cons.mp hx with rfl | hx
      · exact hst
      · exact hst.trans (ht x hx)
    · rename_i hst
      split
      · exact h
      · rename_i hne
        have hts : t < s := lt_of_le_of_ne (not_lt.mp hst) (Ne.symm hne)
        refine List.pairwise_cons.mpr ⟨fun x hx => ?_, ih hl⟩
        rcases Program.mem_insertSorted.mp hx with rfl | hx
        · exact hts
        · exact ht x hx

/-! ### Symbols of a program -/

namespace Program

variable {p p' : Program} {text text' : String} {i : Nat}

/-- The number of symbols whose bytes come before those of a text. -/
def symbolRank (p : Program) (text : String) : Nat :=
  p.symbolSet.countP fun s => decide (Utf8.bytes s < Utf8.bytes text)

theorem pairwise_symbolSet : p.symbolSet.Pairwise (· < ·) := by
  unfold symbolSet
  induction p.symbols ++ p.nodes.filterMap fun n => symbolOf? n.kind with
  | nil => exact .nil
  | cons s l ih => exact pairwise_insertSorted ih

theorem nodup_symbolSet : p.symbolSet.Nodup := pairwise_symbolSet.imp fun h => h.ne

theorem symbolRank_of_getElem? (h : p.symbolSet[i]? = some text) : p.symbolRank text = i := by
  rw [← countP_lt_of_getElem? pairwise_symbolSet h, symbolRank]
  exact List.countP_congr fun s _ => by simp only [Utf8.bytes_lt_bytes]

theorem getElem?_symbolRank (h : text ∈ p.symbolSet) :
    p.symbolSet[p.symbolRank text]? = some text := by
  obtain ⟨i, hi⟩ := List.mem_iff_getElem?.mp h
  rwa [symbolRank_of_getElem? hi]

theorem findIdx?_symbolSet (h : text ∈ p.symbolSet) :
    p.symbolSet.findIdx? (· == text) = some (p.symbolRank text) :=
  findIdx?_of_getElem? nodup_symbolSet (getElem?_symbolRank h)

/-- The symbols of a program are numbered without gaps, ascending with their bytes, and in a way that
depends on nothing but the set of them. -/
structure Dense (p : Program) : Prop where
  mem : ∀ text, text ∈ p.symbolSet ↔
    text ∈ p.symbols ∨ ∃ n ∈ p.nodes, n.kind = .symbolLiteral text
  lt : ∀ text ∈ p.symbolSet, p.symbolRank text < p.symbolSet.length
  onto : ∀ i < p.symbolSet.length, ∃ text ∈ p.symbolSet, p.symbolRank text = i
  ascends : ∀ text ∈ p.symbolSet, ∀ text' ∈ p.symbolSet,
    p.symbolRank text < p.symbolRank text' ↔ Utf8.bytes text < Utf8.bytes text'
  settled : ∀ p' : Program, (∀ text, text ∈ p'.symbolSet ↔ text ∈ p.symbolSet) →
    ∀ text, p'.symbolRank text = p.symbolRank text

theorem dense (p : Program) : p.Dense where
  mem _ := mem_symbolSet
  lt text h := (List.getElem?_eq_some_iff.mp (getElem?_symbolRank h)).1
  onto i hi := ⟨p.symbolSet[i], List.getElem_mem hi,
    symbolRank_of_getElem? (List.getElem?_eq_getElem hi)⟩
  ascends text h text' h' := by
    obtain ⟨hi, he⟩ := List.getElem?_eq_some_iff.mp (getElem?_symbolRank h)
    obtain ⟨hj, he'⟩ := List.getElem?_eq_some_iff.mp (getElem?_symbolRank h')
    have hmono := pairwise_symbolSet (p := p) |>.sortedLT.strictMono_get
    rw [Utf8.bytes_lt_bytes]
    conv_rhs => rw [← he, ← he']
    exact (hmono.lt_iff_lt (a := ⟨_, hi⟩) (b := ⟨_, hj⟩)).symm
  settled p' h text := by
    have hsame : p'.symbolSet = p.symbolSet :=
      List.Pairwise.eq_of_mem_iff pairwise_symbolSet pairwise_symbolSet h
    rw [symbolRank, hsame, symbolRank]

end Program

open IR (Ty Value Constant FuncId GlobalId Build Module)
open Exec (RtValue Fault Memory decode encode baseAddress offsetRange)
open Exec.Run (callWithin)

/-! ### Arrays of a module in memory -/

namespace Exec

variable {m : Module} {σ : State} {g : GlobalId} {elem : Ty} {cs : List Constant} {a : Constant}
  {i : Nat} {addresses : Array Nat} {text : String}

theorem length_elementBytes : (elementBytes addresses elem cs).length = elem.size * cs.length := by
  induction cs with
  | nil => rfl
  | cons a cs ih =>
    rw [elementBytes, List.length_append, length_encode, ih, List.length_cons, Nat.mul_succ,
      Nat.add_comm]

/-- The bytes of an element in those of its array. -/
theorem elementBytes_element (h : cs[i]? = some a) :
    ((elementBytes addresses elem cs).drop (elem.size * i)).take elem.size =
      encode (constantValue addresses a) elem := by
  induction cs generalizing i with
  | nil => cases h
  | cons b cs ih =>
    have hlength : (encode (constantValue addresses b) elem).length = elem.size := length_encode _ _
    rw [elementBytes]
    cases i with
    | zero =>
      obtain rfl := Option.some.inj h
      rw [Nat.mul_zero, List.drop_zero]
      exact List.take_left' hlength
    | succ i =>
      rw [Nat.mul_succ, Nat.add_comm, ← List.drop_drop, List.drop_left' hlength]
      exact ih h

/-- A state of a run of a module in which the globals that hold an array are as they were in the
beginning. -/
structure Intact (m : Module) (σ : State) : Prop where
  globals : σ.globals = (State.initial m).globals
  arrays : ∀ (g : GlobalId) elem cs, g.index < m.globals.size →
    (m.global g).init = some (.array elem cs) →
      σ.memory.allocations[g.index]? = (State.initial m).memory.allocations[g.index]?

theorem intact_initial (m : Module) : Intact m (State.initial m) := ⟨rfl, fun _ _ _ _ _ => rfl⟩

theorem Intact.readString (h : Intact m σ) (hg : g.index < m.globals.size)
    (ht : Gen.IsText (m.global g) text) (hlen : (Utf8.bytes text).length < 2 ^ 31) :
    σ.memory.readString (baseAddress g.index) = .ok text :=
  readString_of_initial hg ht hlen (h.arrays g _ _ hg ht.1)

/-- An element of an array of a module is in memory. -/
theorem Intact.element (h : Intact m σ) (hg : g.index < m.globals.size)
    (hinit : (m.global g).init = some (.array elem cs))
    (htype : (m.global g).type = .array elem cs.length) (ha : cs[i]? = some a)
    (hi : elem.size * i < offsetRange) (hend : elem.size * i + elem.size ≤ offsetRange) :
    σ.memory.Room (baseAddress g.index + elem.size * i) elem.size ∧
      σ.memory.bytes (baseAddress g.index + elem.size * i) elem.size =
        encode (constantValue σ.globals a) elem := by
  have hat : m.globals[g.index]? = some (m.global g) := by simp [Module.global, hg]
  have hal := (h.arrays g _ _ hg hinit).trans (State.allocations_initial m hat)
  have hsize : (m.global g).type.size = elem.size * cs.length := by rw [htype, Ty.size]
  have hlt : i < cs.length := (List.getElem?_eq_some_iff.mp ha).1
  have hin : elem.size * i + elem.size ≤ elem.size * cs.length := by
    rw [← Nat.mul_succ]
    exact Nat.mul_le_mul_left _ hlt
  have hlength : (constantBytes (State.initial m).globals (.array elem cs)).length =
      elem.size * cs.length := length_elementBytes
  have hslice := slice_initialAllocation (State.initial m).globals hinit (by
    rw [hlength, freshAllocation, hsize]
    exact le_max_left _ _)
  refine ⟨Memory.room_inside hal (live_initialAllocation _ _) hi ?_ hend, ?_⟩
  · rw [size_initialAllocation, hsize]
    exact hin.trans (le_max_left _ _)
  · rw [Memory.bytes_inside hal hend, h.globals, ← elementBytes_element ha]
    have hpart := Allocation.slice_sub (a := initialAllocation (State.initial m).globals (m.global g))
      (o := 0) hin
    rw [Nat.zero_add, ← hlength, hslice] at hpart
    exact hpart

end Exec

namespace Gen

variable {c : Context} {s s' : State} {p : Program} {o : Options} {text : String} {n : Node}

/-! ### Literals -/

theorem gives_symbolValue (hc : c.symbols = p.symbolSet) (h : text ∈ p.symbolSet) (s : State) :
    Gives (symbolValue text) c s (.i32 (p.symbolRank text)) s := by
  have hread : Gives (read : Gen Context) c s c s := rfl
  refine gives_bind.mpr ⟨c, s, hread, gives_bind.mpr ⟨p.symbolRank text, s, ?_, rfl⟩⟩
  rw [hc, Program.findIdx?_symbolSet h]
  rfl

/-- A literal of a symbol of the program is the number of the symbol. -/
theorem gives_symbolLiteral (hc : c.symbols = p.symbolSet) (hn : n.kind = .symbolLiteral text)
    (h : text ∈ p.symbolSet) (depth : Nat) (s : State) :
    ∃ s', Gives (visit (depth + 1) n) c s (.i32 (p.symbolRank text)) s' := by
  have hvisit : ∀ s, Gives (visitWith (visit depth) n) c s (.i32 (p.symbolRank text)) s := fun s => by
    unfold visitWith
    simp only [hn]
    exact gives_symbolValue hc h s
  have htotal : Total c (visit (depth + 1) n) := by
    unfold visit
    exact Total.bind (fun s => ⟨(), _, rfl⟩) fun _ => (Total.located fun s => ⟨_, s, hvisit s⟩).bind
      fun _ => Total.bind (fun s => ⟨(), _, rfl⟩) fun _ => .pure _
  obtain ⟨v, s', hv⟩ := htotal s
  obtain ⟨s₁, s₂, -, hbody, -⟩ := gives_visit_succ hv
  obtain ⟨rfl, -⟩ := hbody.unique (hvisit s₁)
  exact ⟨s', hv⟩

theorem Reached.symbols {depth : Nat} (h : Reached p o c depth n s) : c.symbols = p.symbolSet := by
  induction h with
  | root start =>
    obtain ⟨nil, name, n₀, n₁, n₂, -, rfl, -⟩ := start?_eq start
    rfl
  | inner _ _ ih => exact ih

/-! ### The table of the symbols -/

section

variable {symbols : List String} {table : GlobalId} {gs : List GlobalId} {cs : List Constant}
  {prepared : State}

/-- Each text needs at most one more global. -/
theorem index_of_symbolTexts {bound : Nat} (hs : Interned s)
    (hsize : s.builder.module.globals.size ≤ bound)
    (h : Gives (symbols.mapM fun text => return stringAt (← stringGlobal text)) c s cs s') {i : Nat}
    {g : GlobalId} (hi : cs[i]? = some (stringAt g)) : g.index ≤ bound + i := by
  induction symbols generalizing s bound cs i with
  | nil =>
    obtain ⟨rfl, -⟩ := gives_pure.mp h
    cases hi
  | cons text symbols ih =>
    rw [List.mapM_cons] at h
    obtain ⟨a, s₁, ha, h⟩ := gives_bind.mp h
    obtain ⟨cs', s₂, hrest, h⟩ := gives_bind.mp h
    obtain ⟨rfl, rfl⟩ := gives_pure.mp h
    obtain ⟨g', s₃, hg, ha⟩ := gives_bind.mp ha
    obtain ⟨rfl, rfl⟩ := gives_pure.mp ha
    -- a text that has a global has one below the bound, and another text gets the next one
    have hnext : g'.index ≤ bound ∧ s₁.builder.module.globals.size ≤ bound + 1 := by
      have hout : outcome (stringGlobal text) c s = (.ok g', s₁) := hg
      have hplace := placeOf_stringGlobal hg
      rw [outcome_stringGlobal] at hout
      cases hl : s.strings.lookup text with
      | some g₀ =>
        rw [hl] at hout
        obtain ⟨-, rfl⟩ := Prod.mk.inj hout
        have hin := hs.placeOf_inside hplace
        omega
      | none =>
        rw [hl] at hout
        obtain ⟨hnew, rfl⟩ := Prod.mk.inj hout
        obtain rfl := Except.ok.inj hnew
        exact ⟨hsize, (IR.Module.globals_addGlobal_size _ _).trans_le (Nat.succ_le_succ hsize)⟩
    have hinterned := (restores_stringGlobal.gives hg).1.interns.interned hs
    cases i with
    | zero =>
      have hsame : stringAt g' = stringAt g := Option.some.inj hi
      obtain ⟨rfl, -⟩ := Constant.globalAddr.inj hsame
      exact hnext.1
    | succ i =>
      have hle := ih hinterned hnext.2 hrest hi
      omega

/-- The symbols have their table, and each one the global of its text, which is not far behind. -/
structure Prepared (symbols : List String) (s : State) (table : GlobalId) (gs : List GlobalId) :
    Prop where
  interned : Interned s
  place : s.placeOf .symbols = some table
  init : (s.builder.module.global table).init = some (.array (.ptr stringRecord) (gs.map stringAt))
  type : (s.builder.module.global table).type = .array (.ptr stringRecord) (gs.map stringAt).length
  texts : ∀ i text, symbols[i]? = some text →
    ∃ g, gs[i]? = some g ∧ s.placeOf (.text text) = some g ∧ g.index ≤ i

theorem Prepared.along (h : Prepared symbols s table gs) (hi : Interns s s') :
    Prepared symbols s' table gs := by
  have hkept : s'.builder.module.global table = s.builder.module.global table :=
    hi.global_of_placeOf h.interned h.place fun _ => by simp
  refine ⟨hi.interned h.interned, hi.placeOf h.place, hkept ▸ h.init, hkept ▸ h.type,
    fun i text ht => ?_⟩
  obtain ⟨g, hg, hplace, hle⟩ := h.texts i text ht
  exact ⟨g, hg, hi.placeOf hplace, hle⟩

theorem exists_prepared (hstart : start? p o = some (c, s)) (hne : p.symbolSet ≠ [])
    (h : Gives prepareSymbols c s () prepared) : ∃ table gs, Prepared p.symbolSet prepared table gs := by
  have hinterned := interned_start hstart
  have hempty : s.builder.module.globals.size = 0 := by
    obtain ⟨nil, name, n₀, n₁, n₂, -, -, rfl⟩ := start?_eq hstart
    rfl
  have hkept : Interns s prepared := (restored_symbols hstart h).interns
  obtain ⟨nil, name, n₀, n₁, n₂, -, rfl, -⟩ := start?_eq hstart
  obtain ⟨gs, s₁, hgs, hall, -⟩ := gives_symbolTexts (c := startContext p o nil) p.symbolSet s
  obtain ⟨-, rfl⟩ := h.unique (gives_prepareSymbols_of_texts hne hgs)
  refine ⟨s₁.builder.module.nextGlobal, gs, hkept.interned hinterned, rfl, ?_, ?_, fun i text ht => ?_⟩
  · exact congrArg IR.Global.init (IR.Module.global_addGlobal_next _ _)
  · exact congrArg IR.Global.type (IR.Module.global_addGlobal_next _ _)
  · obtain ⟨hlt, rfl⟩ := List.getElem?_eq_some_iff.mp ht
    have hlt' := hall.length_eq ▸ hlt
    have hi : gs[i]? = some gs[i] := List.getElem?_eq_getElem hlt'
    have hindex := index_of_symbolTexts hinterned hempty.le hgs (i := i) (g := gs[i]) (by
      rw [List.getElem?_map, hi]
      rfl)
    exact ⟨gs[i], hi, hall.get hlt hlt', by omega⟩

end

/-! ### Texts of numbers -/

section

variable {w : Setting} {k : Spot} {v u : Value} {elem t : Ty} {table : GlobalId}
  {a i bits count : Nat}

theorem performs_part (hp : k.Holds w v (.ptr (.array elem count)) (.ptr a)) (h0 : a ≠ 0)
    (hu : k.Holds w u t (.int bits i)) (hi : a % offsetRange + elem.size * i < offsetRange) :
    Performs w c k (emit (Build.gep v [.i32 0, u]))
      (k.Gets w (.ptr elem) (.ptr (a + elem.size * i))) := by
  refine .assume fun ho => .build_congr (Build.push (.gep v [.i32 0, u]) (.ptr elem)) ?_
    (performs_quiet rfl ?_)
  · show Build.push _ ((([u] : List Value).foldl Build.stepType
      (k.gen.builder.typeOf v).pointee?).map Ty.ptr |>.getD .void) none _ = _
    rw [hp.type]
    rfl
  · exact Exec.Run.returns_part (σ := k.run.ticked) (hp.typeOf ho) hp.value h0 hu.value hi

theorem performs_symbolText (htable : k.gen.symbolTable = some table)
    (hinside : table.index < k.gen.builder.module.globals.size)
    (htype : (k.gen.builder.module.global table).type = .array (.ptr stringRecord) count)
    (hglobal : k.run.globals[table.index]? = some (baseAddress table.index))
    (hv : k.Holds w v .i32 (.int 32 i)) (hopen : v.constInt? = none) (hi : 8 * i < offsetRange)
    (hroom : k.run.memory.Room (baseAddress table.index + 8 * i) 8)
    (hbytes : decode (k.run.memory.bytes (baseAddress table.index + 8 * i) 8) (.ptr stringRecord) =
      .ptr a) :
    Performs w c k (symbolText v) fun k' r =>
      k'.Holds w r (.ptr stringRecord) (.ptr a) ∧ k'.run.memory = k.run.memory := by
  have hsize : (Ty.ptr stringRecord).size = 8 := by rw [Ty.size, Ty.pointerSize]
  have hnumber : Exec.castValue .sext (.int 32 i) .i32 .i64 = .int 64 i :=
    congrArg (RtValue.int 64) (Exec.wrap_of_fits (by omega) (by unfold offsetRange at hi; omega))
  have haddress : k.Holds w (.global table) (.ptr (.array (.ptr stringRecord) count))
      (.ptr (baseAddress table.index)) := by
    refine ⟨hinside, congrArg Ty.ptr htype, ?_⟩
    show some (RtValue.ptr (k.run.globals[table.index]?.getD 0)) = _
    rw [hglobal]
    rfl
  unfold symbolText
  refine .assume fun ho => .ask (a := k.gen) rfl (.ask (a := table)
    (by rw [htable]; rfl) ?_)
  refine (performs_cast (.inr (.inr rfl)) hv hopen).bind
    (fun _ => (adds_gep.bind fun _ => adds_load).grow) fun k₁ index hr₁ ho₁ hcast => ?_
  have hindex := hcast.1
  rw [hnumber] at hindex
  have hstart := Exec.baseAddress_add_mod (i := table.index) Exec.offsetRange_pos
  have hnonzero := Exec.baseAddress_add_ne_zero (i := table.index) (o := 0)
  rw [Nat.add_zero] at hstart hnonzero
  have hpart := performs_part (c := c) (haddress.along ho hr₁ ho₁) hnonzero hindex.holds
    (by rwa [hstart, hsize, Nat.zero_add])
  refine hpart.bind (fun _ => adds_load.grow) fun k₂ slot hr₂ ho₂ hslot => ?_
  have hm : k₂.run.memory = k.run.memory := hslot.memory.trans hindex.memory
  have hroom : k₂.run.memory.Room (baseAddress table.index + (Ty.ptr stringRecord).size * i)
      (Ty.ptr stringRecord).size := by rwa [hm, hsize]
  refine (performs_load hslot.holds hroom).mono fun k₃ r _ _ hg => ⟨?_, hg.1.memory.trans hm⟩
  have hholds := hg.1.holds
  rwa [hm, hsize, hbytes] at hholds

end

theorem adds_symbolToString {d : Def} : Adds (primitiveBody d .symbolToString) :=
  adds_receiver.bind fun _ => Adds.bind (.ask fun _ s => ⟨s, rfl⟩) fun _ =>
    Adds.bind (.orFail _ _) fun _ => adds_cast.bind fun _ => adds_gep.bind fun _ => adds_load

/-! ### Functions of names -/

theorem interns_makeFunction {depth : Nat} {name : String} {d : Def} {selfType : Option TypeId}
    {f : FuncId} (hs : s.InFunction)
    (h : Gives (makeFunction (visit depth) name d selfType) c s f s') : Interns s s' := by
  have hkept := ((agree_makeFunction (restoring_visit (c := c) depth).alike name d selfType s
    hs).restored () trivial).interns
  rwa [show outcome (makeFunction (visit depth) name d selfType) c s = (.ok f, s') from h] at hkept

/-- A function that was made for a definition when the symbols of a program had their table, in the
module of a later state. -/
structure MadeIn (p : Program) (o : Options) (m : Module) (d : Def) (selfType : Option TypeId)
    (f : FuncId) : Prop where
  internal : d.external = none
  made : ∃ c s₀ prepared depth name s s' sf, start? p o = some (c, s₀) ∧
    Gives prepareSymbols c s₀ () prepared ∧ Interns prepared s ∧
      Gives (makeFunction (visit depth) name d selfType) c s f s' ∧ Linked s' m ∧
        Interns prepared sf ∧ m = sf.builder.module

/-- A definition that names symbols. -/
structure NamesSymbols (ts : TypeTable) (d : Def) (symbol : TypeId) : Prop where
  body : d.primitive? = some .symbolToString
  named : Named d (some symbol)
  receiver : ts.kind symbol = .symbol
  result : ∃ t, d.type = some t ∧ ts.kind t = .string

section

variable {m : Module} {d : Def} {symbol : TypeId} {f : FuncId} {σ : Exec.State} {k : Nat}
  {rest : List RtValue}

theorem argType_of_symbol {ts : TypeTable} (h : ts.kind symbol = .symbol) :
    ts.argType symbol = .i32 := by
  rw [TypeTable.argType_of_register (TypeTable.not_isAddressHeld_of_kind h nofun nofun),
    TypeTable.irType, TypeTable.irTypeWithin, h]

theorem argType_of_string {ts : TypeTable} {t : TypeId} (h : ts.kind t = .string) :
    ts.argType t = .ptr stringRecord := by
  rw [TypeTable.argType_of_register (TypeTable.not_isAddressHeld_of_kind h nofun nofun),
    TypeTable.irType, TypeTable.irTypeWithin, h]

/-- The function of a definition that names symbols gives a symbol's text for its number. -/
theorem MadeIn.named (h : MadeIn p o m d (some symbol) f) (hd : NamesSymbols p.types d symbol)
    (ht : text ∈ p.symbolSet) (hrank : 8 * p.symbolRank text < offsetRange)
    (hlen : (Utf8.bytes text).length < 2 ^ 31) (hσ : Exec.Intact m σ)
    (hfuel : σ.steps + cost (m.function f) ≤ σ.stepLimit) :
    ∃ address σ', Exec.Run.outcome
        (callWithin m (k + 2) f (.int 32 (p.symbolRank text) :: rest)) σ = (.ok (.ptr address), σ') ∧
      σ'.memory = σ.memory ∧ σ'.memory.readString address = .ok text := by
  obtain ⟨c, s₀, prepared, depth, name, s, s', sf, hstart, hprepared, hbefore, hmake, hl, hlast, rfl⟩ :=
    h.made
  obtain ⟨t, htype, hresult⟩ := hd.result
  have htypes : c.program.types = p.types := by
    obtain ⟨nil, name, n₀, n₁, n₂, -, rfl, -⟩ := start?_eq hstart
    rfl
  obtain ⟨table, gs, htable⟩ := exists_prepared hstart (List.ne_nil_of_mem ht) hprepared
  obtain ⟨_, s₁, _, _, _, _, hfill, hmade⟩ :=
    exists_filling_of_make h.internal hd.body htype hmake hl
  -- the same table and texts where the body was made and in the module at the end
  have hbegun := htable.along (hbefore.trans hmade)
  have hend := htable.along hlast
  obtain ⟨g, hg, hplace, hle⟩ := hend.texts _ _ (Program.getElem?_symbolRank ht)
  have hin := hend.interned.placeOf_inside hend.place
  have htext := hend.interned.placeOf_inside hplace
  have hsize : (Ty.ptr stringRecord).size = 8 := by rw [Ty.size, Ty.pointerSize]
  have hentry : (gs.map stringAt)[p.symbolRank text]? = some (stringAt g) := by
    rw [List.getElem?_map, hg]
    rfl
  obtain ⟨hroom, hbytes⟩ := hσ.element hin hend.init hend.type hentry (by rwa [hsize])
    (by rw [hsize]; unfold offsetRange at *; omega)
  rw [hsize] at hroom hbytes
  have hvalue : Exec.constantValue σ.globals (stringAt g) = .ptr (baseAddress g.index) := by
    rw [hσ.globals]
    exact constantValue_initial htext
  -- texts have no global far behind their number, so that eight bytes hold the address
  have hfits : baseAddress g.index < 2 ^ 64 := by
    unfold baseAddress offsetRange at *
    omega
  have hdecode : decode (σ.memory.bytes (baseAddress table.index + 8 * p.symbolRank text) 8)
      (.ptr stringRecord) = .ptr (baseAddress g.index) := by
    rw [hbytes, hvalue]
    exact (Exec.RtValue.Of.ptr hfits).decode_encode
  have hheld : c.program.types.isAddressHeld t = false := by
    rw [htypes]
    exact TypeTable.not_isAddressHeld_of_kind hresult (by simp) (by simp)
  have hcall : ∃ σ', Exec.Run.outcome (callWithin sf.builder.module (k + 2) f
      (.int 32 (p.symbolRank text) :: rest)) σ = (.ok (.ptr (baseAddress g.index)), σ') ∧
        σ'.memory = σ.memory := by
    refine hfill.exists_register htype hheld (fun s _ => adds_symbolToString.from c s) hd.named hfuel
      fun w k _ hw hk hmemory hcalled => ?_
    subst hk
    have hself := hcalled.params.holds_self (x := .int 32 (p.symbolRank text)) rfl rfl
    rw [htypes, argType_of_symbol hd.receiver] at hself
    have hglobal : k.run.globals[table.index]? = some (baseAddress table.index) := by
      rw [hcalled.globals, hσ.globals]
      exact Exec.State.address_initial _ hin
    rw [← hmemory] at hroom hdecode ⊢
    refine answers_register hw hheld hcalled ?_
    rw [htypes, argType_of_string hresult]
    exact .ask (hcalled.params.gives_receiver rfl) (performs_symbolText hbegun.place
      (hbegun.interned.placeOf_inside hbegun.place) hbegun.type hglobal hself rfl hrank hroom
      hdecode).achieves
  obtain ⟨σ', hσ', hm⟩ := hcall
  exact ⟨_, σ', hσ', hm, by rw [hm]; exact hσ.readString htext (hend.interned.isText hplace) hlen⟩

end

/-- A program that is a symbol and declares another one. -/
def symbolic : Program where
  types := Draft.new.types
  symbols := ["a"]
  root := some { id := 0, kind := .symbolLiteral "b", type := some Draft.symbolType }

/-- The definition of the text of a symbol. -/
def symbolName : Def where
  name := "to_s"
  owner := Draft.symbolType
  type := some Draft.stringType
  body := some { id := 1, kind := .primitive .symbolToString }

/-- What the function of the definition is made in after the symbols of the program. -/
def symbolNameMade (c : Context) (s : State) : Except Failure FuncId × State :=
  makeFunction (visit 1) "to_s" symbolName (some Draft.symbolType) c (prepareSymbols c s).2

end Gen

end Lowering
