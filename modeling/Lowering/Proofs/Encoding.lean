import Lowering.Program.Decode
import Lowering.Program.Encode
import Lowering.Proofs.Dependence
import Lowering.Proofs.Document

/-!
# Records written and read back

Everything of a program but its nodes: what is written for a location, a type or an operation is
read back as it was.

* `Json.slot?_cons_self`, `Json.list?_map`, `Json.optional_ofOption`: the parts of records;
* `Node.Fits`, `Program.Fits`: the numbers of a program fit the widths of the format;
* `TypeKind.ofFields?_fields`, `TypeInfo.ofJson?_toJson`, `Primitive.ofJson?_toJson`.
-/

namespace Lowering

namespace Json

variable {α : Type} {fields rest : List (String × Json)} {names : List String} {j : Json}

/-! ### Documents that survive -/

theorem allSurvive_iff {items : List Json} : AllSurvive items ↔ ∀ j ∈ items, j.Survives := by
  induction items with
  | nil => simp [AllSurvive]
  | cons j rest ih => simp [AllSurvive, ih]

theorem fieldsSurvive_iff : FieldsSurvive fields ↔ ∀ f ∈ fields, f.2.Survives := by
  induction fields with
  | nil => simp [FieldsSurvive]
  | cons f rest ih => simp [FieldsSurvive, ih]

theorem Survives.of_mem_parts {k : Json} (h : k.Survives) (hj : j ∈ k.parts) : j.Survives := by
  match k, h, hj with
  | .array _, h, hj => exact allSurvive_iff.mp h j hj
  | .object _, h, hj =>
    obtain ⟨f, hf, rfl⟩ := List.mem_map.mp hj
    exact fieldsSurvive_iff.mp h f hf

theorem survives_map {f : α → Json} {l : List α} (h : ∀ a ∈ l, (f a).Survives) :
    (Json.array (l.map f)).Survives :=
  allSurvive_iff.mpr (List.forall_mem_map.mpr h)

theorem survives_ofOption {f : α → Json} {o : Option α} (h : ∀ a ∈ o, (f a).Survives) :
    (ofOption f o).Survives := by
  cases o with
  | none => trivial
  | some a => exact h a rfl

@[simp] theorem survives_null : Json.null.Survives := trivial

@[simp] theorem survives_bool (b : Bool) : (Json.bool b).Survives := trivial

@[simp] theorem survives_string (s : String) : (Json.string s).Survives := trivial

@[simp] theorem survives_object : (Json.object fields).Survives ↔ FieldsSurvive fields := Iff.rfl

@[simp] theorem fieldsSurvive_nil : FieldsSurvive [] := trivial

@[simp] theorem fieldsSurvive_cons {f : String × Json} :
    FieldsSurvive (f :: rest) ↔ f.2.Survives ∧ FieldsSurvive rest := Iff.rfl

theorem survives_nat {n : Nat} (h : n < twoTo 64) : (nat n).Survives :=
  survives_integer (Int.neg_nonpos_of_nonneg (Int.natCast_nonneg _) |>.trans (Int.natCast_nonneg n))
    (Int.ofNat_lt.mpr h)

mutual

theorem Survives.isReadable : ∀ {j : Json}, j.Survives → j.isReadable = true
  | .null, _ | .bool _, _ | .number _, _ | .string _, _ => rfl
  | .array _, h => AllSurvive.allReadable h
  | .object _, h => FieldsSurvive.allFieldsReadable h

theorem AllSurvive.allReadable : ∀ {items : List Json}, AllSurvive items → allReadable items = true
  | [], _ => rfl
  | j :: rest, h => by
    rw [Json.allReadable, Survives.isReadable h.1, AllSurvive.allReadable h.2]
    rfl

theorem FieldsSurvive.allFieldsReadable : ∀ {fields : List (String × Json)}, FieldsSurvive fields →
    allFieldsReadable fields = true
  | [], _ => rfl
  | (k, j) :: rest, h => by
    rw [Json.allFieldsReadable, Survives.isReadable h.1, FieldsSurvive.allFieldsReadable h.2]
    rfl

end

/-! ### Fields by name -/

theorem slot?_cons_self {name : String} (h : ∀ f ∈ fields, f.1 ≠ name) :
    slot? ((name, j) :: fields) name = some (some j) := by
  have hnil : fields.filter (fun f => f.1 == name) = [] :=
    List.filter_eq_nil_iff.mpr fun f hf => by simpa using h f hf
  rw [slot?, List.filter_cons_of_pos (by simp), hnil]

theorem slot?_cons_of_ne {name other : String} (h : other ≠ name) :
    slot? ((other, j) :: fields) name = slot? fields name := by
  rw [slot?, slot?, List.filter_cons_of_neg (by simpa using h)]

theorem slot?_append {name : String} (h : ∀ f ∈ fields, f.1 ≠ name) :
    slot? (fields ++ rest) name = slot? rest name := by
  have hnil : fields.filter (fun f => f.1 == name) = [] :=
    List.filter_eq_nil_iff.mpr fun f hf => by simpa using h f hf
  rw [slot?, slot?, List.filter_append, hnil, List.nil_append]

theorem others_eq_self (h : ∀ f ∈ fields, f.1 ∉ names) : others fields names = fields :=
  List.filter_eq_self.mpr fun f hf => by simpa using h f hf

theorem others_append : others (fields ++ rest) names = others fields names ++ others rest names :=
  List.filter_append ..

/-- The word of a record that is written before its other fields. -/
theorem tagged?_cons {tag word : String} {words : List String} (hw : words.contains word = true)
    (h : ∀ f ∈ fields, f.1 ≠ tag) :
    tagged? tag words ((tag, .string word) :: fields) = some (word, fields) := by
  have hrest : others ((tag, .string word) :: fields) [tag] = fields := by
    rw [others, List.filter_cons_of_neg (by simp)]
    exact others_eq_self fun f hf => by simpa using h f hf
  simp only [tagged?, slot?_cons_self h, hrest, required, variant?, hw, if_true,
    Option.bind_eq_bind, Option.bind_some]

/-! ### Scalars and lists -/

theorem natOf?_nat {bits n : Nat} (h : n < twoTo bits) : natOf? bits (nat n) = some n := by
  have hin : (0 : Int) ≤ n ∧ (n : Int) ≤ twoTo bits - 1 := by omega
  show (if (0 : Int) ≤ n ∧ (n : Int) ≤ twoTo bits - 1 then some (n : Int) else none).map _ = _
  rw [if_pos hin]
  rfl

theorem int64?_int {n : Int} (hlow : -twoTo 63 ≤ n) (hhigh : n < twoTo 63) :
    int64? (int n) = some n :=
  if_pos ⟨hlow, by omega⟩

theorem list?_map {r : Json → Option α} {w : α → Json} {l : List α}
    (h : ∀ a ∈ l, r (w a) = some a) : list? r (.array (l.map w)) = some l := by
  show (l.map w).mapM r = some l
  induction l with
  | nil => rfl
  | cons a l ih =>
    obtain ⟨ha, hl⟩ := List.forall_mem_cons.mp h
    rw [List.map_cons, List.mapM_cons, ha, ih hl]
    rfl

theorem optional_of_ne_null {read : Json → Option α} (h : j ≠ .null) :
    optional read (some j) = (read j).map some := by
  unfold optional
  split
  · next hs => cases hs
  · next hs => exact absurd (Option.some.inj hs) h
  · next hs => rw [Option.some.inj hs]

theorem optional_ofOption {read : Json → Option α} {write : α → Json} {o : Option α}
    (hnull : ∀ a, write a ≠ .null) (h : ∀ a ∈ o, read (write a) = some a) :
    optional read (some (ofOption write o)) = some o := by
  cases o with
  | none => rfl
  | some a =>
    rw [ofOption, optional_of_ne_null (hnull a), h a rfl]
    rfl

end Json

/-! ### Numbers that fit -/

/-- The id fits 32 bits. -/
def TypeId.Fits (id : TypeId) : Prop := id.index < twoTo 32

instance (id : TypeId) : Decidable id.Fits := inferInstanceAs (Decidable (_ < _))

/-- The numbers of a location fit 64 bits. -/
structure Location.Fits (l : Location) : Prop where
  line : l.line < twoTo 64
  column : l.column < twoTo 64

instance (l : Location) : Decidable l.Fits :=
  decidable_of_iff (l.line < twoTo 64 ∧ l.column < twoTo 64)
    ⟨fun h => ⟨h.1, h.2⟩, fun h => ⟨h.line, h.column⟩⟩

/-- The width of an integer type fits 32 bits. -/
def TypeKind.WidthFits : TypeKind → Prop
  | .int bits => bits < twoTo 32
  | _ => True

instance (k : TypeKind) : Decidable k.WidthFits :=
  match k with
  | .int bits => inferInstanceAs (Decidable (bits < twoTo 32))
  | .program | .nil | .bool | .char | .float _ | .symbol | .string | .heapClass .. | .record ..
  | .pointer _ | .union _ | .hierarchy _ | .metaclass _ => isTrue trivial

/-- The numbers of a description of a type fit 32 bits. -/
structure TypeKind.Fits (k : TypeKind) : Prop where
  width : k.WidthFits
  types : ∀ id ∈ k.referenced, id.Fits

instance (k : TypeKind) : Decidable k.Fits :=
  decidable_of_iff (k.WidthFits ∧ ∀ id ∈ k.referenced, id.Fits)
    ⟨fun h => ⟨h.1, h.2⟩, fun h => ⟨h.width, h.types⟩⟩

/-- The numbers of a call fit 32 bits. -/
structure Call.Fits (c : Call Node) : Prop where
  targets : ∀ t ∈ c.targets, t.index < twoTo 32
  scope : ∀ s ∈ c.scope, s.Fits
  block : ∀ b ∈ c.block, ∀ a ∈ b.args, a.type.Fits

instance (c : Call Node) : Decidable c.Fits :=
  decidable_of_iff ((∀ t ∈ c.targets, t.index < twoTo 32) ∧ (∀ s ∈ c.scope, s.Fits) ∧
      ∀ b ∈ c.block, ∀ a ∈ b.args, a.type.Fits)
    ⟨fun h => ⟨h.1, h.2.1, h.2.2⟩, fun h => ⟨h.targets, h.scope, h.block⟩⟩

/-- The numbers that a kind of expression adds fit their widths. -/
def NodeKind.Fits : NodeKind Node → Prop
  | .intLiteral value => -twoTo 63 ≤ value ∧ value < twoTo 63
  | .const id => id.index < twoTo 32
  | .isA _ target => target.Fits
  | .call c => c.Fits
  | _ => True

instance (k : NodeKind Node) : Decidable k.Fits := by
  unfold NodeKind.Fits
  split <;> infer_instance

/-- The numbers of a node fit their widths. -/
structure Node.Fits (n : Node) : Prop where
  id : n.id < twoTo 64
  kind : n.kind.Fits
  type : ∀ t ∈ n.type, t.Fits
  location : ∀ l ∈ n.location, l.Fits

instance (n : Node) : Decidable n.Fits :=
  decidable_of_iff (n.id < twoTo 64 ∧ n.kind.Fits ∧ (∀ t ∈ n.type, t.Fits) ∧
      ∀ l ∈ n.location, l.Fits)
    ⟨fun h => ⟨h.1, h.2.1, h.2.2.1, h.2.2.2⟩, fun h => ⟨h.id, h.kind, h.type, h.location⟩⟩

/-- The numbers of the head of a definition fit their widths. -/
structure Def.Fits (d : Def) : Prop where
  owner : d.owner.Fits
  args : ∀ a ∈ d.args, a.type.Fits
  type : ∀ t ∈ d.type, t.Fits
  location : ∀ l ∈ d.location, l.Fits

instance (d : Def) : Decidable d.Fits :=
  decidable_of_iff (d.owner.Fits ∧ (∀ a ∈ d.args, a.type.Fits) ∧ (∀ t ∈ d.type, t.Fits) ∧
      ∀ l ∈ d.location, l.Fits)
    ⟨fun h => ⟨h.1, h.2.1, h.2.2.1, h.2.2.2⟩, fun h => ⟨h.owner, h.args, h.type, h.location⟩⟩

/-- The numbers of a program fit the widths of the format. -/
structure Program.Fits (p : Program) : Prop where
  types : ∀ i ∈ p.types.infos.toList, i.kind.Fits
  defs : ∀ d ∈ p.defs, d.Fits
  globals : ∀ g ∈ p.globals, g.type.Fits
  nodes : ∀ n ∈ p.nodes, n.Fits

instance (p : Program) : Decidable p.Fits :=
  decidable_of_iff ((∀ i ∈ p.types.infos.toList, i.kind.Fits) ∧ (∀ d ∈ p.defs, d.Fits) ∧
      (∀ g ∈ p.globals, g.type.Fits) ∧ ∀ n ∈ p.nodes, n.Fits)
    ⟨fun h => ⟨h.1, h.2.1, h.2.2.1, h.2.2.2⟩, fun h => ⟨h.types, h.defs, h.globals, h.nodes⟩⟩

/-! ### Records without nodes -/

theorem TypeId.ofJson?_toJson {id : TypeId} (h : id.Fits) : ofJson? id.toJson = some id := by
  rw [ofJson?, toJson, Json.natOf?_nat h]
  rfl

theorem TypeId.Fits.survives {id : TypeId} (h : id.Fits) : id.toJson.Survives :=
  Json.survives_nat (lt_trans h (by decide))

theorem Field.survives_toJson {f : Field} (h : f.type.Fits) : f.toJson.Survives := by
  simpa [Field.toJson] using h.survives

theorem Field.ofJson?_toJson {f : Field} (h : f.type.Fits) : ofJson? f.toJson = some f := by
  simp [ofJson?, toJson, Json.record?, Json.slots?, Json.slot?, Json.required, Json.string?,
    TypeId.ofJson?_toJson h]

theorem BlockArg.survives_toJson {a : BlockArg} (h : a.type.Fits) : a.toJson.Survives := by
  simpa [BlockArg.toJson] using h.survives

theorem BlockArg.ofJson?_toJson {a : BlockArg} (h : a.type.Fits) : ofJson? a.toJson = some a := by
  rw [ofJson?, show a.toJson = Field.toJson ⟨a.name, a.type⟩ from rfl, Field.ofJson?_toJson h]
  rfl

theorem Location.Fits.survives {l : Location} (h : l.Fits) : l.toJson.Survives := by
  simpa [Location.toJson] using ⟨Json.survives_nat h.line, Json.survives_nat h.column⟩

theorem Location.ofJson?_toJson {l : Location} (h : l.Fits) : ofJson? l.toJson = some l := by
  simp [ofJson?, toJson, Json.record?, Json.slots?, Json.slot?, Json.required, Json.default,
    Json.string?, Json.natOf?_nat h.line, Json.natOf?_nat h.column]

namespace TypeKind

variable {k : TypeKind}

/-- The word of a kind and its own fields stand for the kind. -/
theorem ofFields?_fields (h : k.Fits) : ofFields? k.word k.fields = some k := by
  have hid : ∀ {t}, t ∈ k.referenced → TypeId.ofJson? t.toJson = some t := fun ht =>
    TypeId.ofJson?_toJson (h.types _ ht)
  have hlist : ∀ {l : List Field}, (∀ f ∈ l, f.type ∈ k.referenced) →
      Json.list? Field.ofJson? (.array (l.map Field.toJson)) = some l := fun hl =>
    Json.list?_map fun f hf => Field.ofJson?_toJson (h.types _ (hl f hf))
  cases k with
  | int bits =>
    have hbits := Json.natOf?_nat (h.width)
    simp [ofFields?, word, fields, Json.slot?, Json.required, hbits]
  | float double => simp [ofFields?, word, fields, Json.slot?, Json.default, Json.bool?]
  | heapClass name parent ivars =>
    have hivars := hlist (l := ivars) fun f hf => by
      exact List.mem_append_left _ (List.mem_map_of_mem hf)
    have hparent : Json.optional TypeId.ofJson? (some (Json.ofOption TypeId.toJson parent)) =
        some parent :=
      Json.optional_ofOption nofun fun t ht => hid (by simpa [referenced] using .inr ht)
    simp [ofFields?, word, fields, Json.slot?, Json.required, Json.string?, Json.default, hivars,
      hparent]
  | record name fs =>
    have hfields := hlist (l := fs) fun f hf => List.mem_map_of_mem hf
    simp [ofFields?, word, fields, Json.slot?, Json.required, Json.string?, Json.default, hfields]
  | union members =>
    have hmembers : Json.list? TypeId.ofJson? (.array (members.map TypeId.toJson)) =
        some members :=
      Json.list?_map fun id => hid
    simp [ofFields?, word, fields, Json.slot?, Json.required, hmembers]
  | pointer t | hierarchy t | metaclass t =>
    simp [ofFields?, word, fields, Json.slot?, Json.required, hid (t := t) List.mem_cons_self]
  | _ => simp [ofFields?, word]

theorem word_mem (k : TypeKind) : words.contains k.word = true := by
  cases k <;> simp [word, words]

/-- No kind has a field for its word, or for what a type says beside its kind. -/
theorem fields_names (k : TypeKind) : ∀ f ∈ k.fields, f.1 ≠ "kind" ∧ f.1 ≠ "allocated" := by
  cases k <;> simp [fields]

theorem survives_fields (h : k.Fits) : Json.FieldsSurvive k.fields := by
  have hid : ∀ {id}, id ∈ k.referenced → id.toJson.Survives := fun hid =>
    (h.types _ hid).survives
  have hlist : ∀ {l : List Field}, (∀ f ∈ l, f.type ∈ k.referenced) →
      (Json.array (l.map Field.toJson)).Survives := fun hl =>
    Json.survives_map fun f hf => Field.survives_toJson (h.types _ (hl f hf))
  cases k with
  | int bits =>
    have hlt : twoTo 32 < twoTo 64 := by decide
    simpa [fields] using Json.survives_nat (lt_trans h.width hlt)
  | heapClass name parent ivars =>
    have hivars := hlist (l := ivars) fun f hf => List.mem_append_left _ (List.mem_map_of_mem hf)
    have hparent : (Json.ofOption TypeId.toJson parent).Survives :=
      Json.survives_ofOption fun t ht => hid (by simpa [referenced] using .inr ht)
    simpa [fields] using ⟨hparent, hivars⟩
  | record name fs => simpa [fields] using hlist fun f hf => List.mem_map_of_mem hf
  | union members => simpa [fields] using Json.survives_map (l := members) fun id => hid
  | pointer t | hierarchy t | metaclass t => simpa [fields] using hid List.mem_cons_self
  | _ => simp [fields]

theorem ofJson?_fields (h : k.Fits) :
    ofJson? (.object (("kind", .string k.word) :: k.fields)) = some k := by
  have htagged := Json.tagged?_cons k.word_mem fun f hf => (k.fields_names f hf).1
  simp only [ofJson?, Json.object?, htagged, Option.bind_eq_bind, Option.bind_some,
    ofFields?_fields h]

end TypeKind

theorem TypeInfo.survives_toJson {i : TypeInfo} (h : i.kind.Fits) : i.toJson.Survives := by
  have hfields := Json.fieldsSurvive_iff.mp (TypeKind.survives_fields h)
  rw [toJson, Json.survives_object, Json.fieldsSurvive_iff]
  intro f hf
  rcases List.mem_cons.mp hf with rfl | hf
  · trivial
  · rcases List.mem_append.mp hf with hf | hf
    · exact hfields f hf
    · rw [List.mem_singleton.mp hf]
      trivial

theorem TypeInfo.ofJson?_toJson {i : TypeInfo} (h : i.kind.Fits) : ofJson? i.toJson = some i := by
  have hnames : ∀ f ∈ ("kind", Json.string i.kind.word) :: i.kind.fields, f.1 ≠ "allocated" :=
    List.forall_mem_cons.mpr ⟨by simp, fun f hf => (i.kind.fields_names f hf).2⟩
  have hslot : Json.slot? (("kind", .string i.kind.word) :: i.kind.fields ++
      [("allocated", .bool i.allocated)]) "allocated" = some (some (.bool i.allocated)) :=
    (Json.slot?_append hnames).trans (Json.slot?_cons_self nofun)
  have hrest : Json.others (("kind", .string i.kind.word) :: i.kind.fields ++
      [("allocated", .bool i.allocated)]) ["allocated"] =
        ("kind", .string i.kind.word) :: i.kind.fields := by
    rw [Json.others_append, Json.others_eq_self fun f hf => by simpa using hnames f hf]
    simp [Json.others]
  have hreadable := Json.FieldsSurvive.allFieldsReadable
    (show Json.FieldsSurvive (("kind", .string i.kind.word) :: i.kind.fields) from
      ⟨trivial, TypeKind.survives_fields h⟩)
  rw [ofJson?, toJson]
  simp only [Json.object?, hslot, hrest, hreadable, if_true, TypeKind.ofJson?_fields h,
    Json.default, Json.bool?, Option.bind_eq_bind, Option.bind_some]

theorem BinaryPrimitive.ofJson?_word (op : BinaryPrimitive) :
    BinaryPrimitive.ofJson? (.string op.word) = some op := by
  rw [ofJson?, ofWord?_word]

namespace Primitive

theorem word_mem (op : Primitive) : words.contains op.word = true := by
  cases op <;> simp [word, words]

theorem fields_names (op : Primitive) : ∀ f ∈ op.fields, f.1 ≠ "prim" := by
  cases op <;> simp [fields]

theorem ofParts?_fields (op : Primitive) : ofParts? op.word (.object op.fields) = some op := by
  cases op with
  | binary op =>
    simp [fields, word, ofParts?, Json.record?, Json.slots?, Json.slot?, Json.required,
      BinaryPrimitive.ofJson?_word]
  | structGet field | structSet field =>
    simp [fields, word, ofParts?, Json.record?, Json.slots?, Json.slot?, Json.required,
      Json.string?]
  | _ => simp [word, ofParts?]

theorem ofJson?_toJson (op : Primitive) : ofJson? op.toJson = some op := by
  have htagged := Json.tagged?_cons op.word_mem op.fields_names
  simp only [ofJson?, toJson, htagged, Option.bind_eq_bind, Option.bind_some, ofParts?_fields]

theorem survives_toJson (op : Primitive) : op.toJson.Survives := by
  cases op <;> simp [toJson, fields]

end Primitive

end Lowering
