import Lowering.Proofs.Nesting
import Lowering.Proofs.Symbols

/-!
# Names of types as they are read

The name of a type shows how the type is put together: from its ends it can be seen whether it is a
word, a pointer, a union, a hierarchy or a metaclass, and the members of a union are told by the
bars that are in no other parentheses.  So types of one name are put together in the same way from
the same classes, and the symbol of a function tells all the types that it was made from.

* `StaysOpen`: texts that close the parentheses that they open, `append_bar_inj`;
* `IsWord`: names that are not put together;
* `TypeTable.Ends`, `TypeTable.name_eq`: a name, from the names inside it;
* `TypeTable.NamesTold`: names that are given to classes and records;
* `Outline.read`, `TypeTable.NamesTold.read_spell`: what the ends of a name show;
* `TypeTable.SameShape`, `TypeTable.NamesTold.sameShape_of_name_eq`: types put together in the same
  way;
* `Def.SameParts`, `Def.mangledName_eq_iff`.
-/

namespace Lowering

/-! ### Parentheses -/

/-- How many parentheses are open after a character. A bar or a closing parenthesis stands inside of
some. -/
def openAfter (n : Nat) (c : Char) : Option Nat :=
  if c = '(' then some (n + 1)
  else if c = ')' then if n = 0 then none else some (n - 1)
  else if c = '|' then if n = 0 then none else some n
  else some n

/-- Inside of so many parentheses, a text closes those that it opens and no others, and has bars
only if there are parentheses around them. -/
def StaysOpen (n : Nat) (l : List Char) : Prop := l.foldlM openAfter n = some n

section

variable {n : Nat} {l m u v : List Char}

theorem StaysOpen.append (hl : StaysOpen n l) (hm : StaysOpen n m) : StaysOpen n (l ++ m) := by
  rw [StaysOpen, List.foldlM_append, hl]
  exact hm

theorem StaysOpen.parenthesized (h : StaysOpen (n + 1) l) : StaysOpen n ('(' :: (l ++ [')'])) := by
  show (l ++ [')']).foldlM openAfter (n + 1) = some n
  rw [List.foldlM_append, h]
  rfl

theorem StaysOpen.of_plain (h : ∀ c ∈ l, c ∉ ['(', ')', '|']) : StaysOpen n l := by
  induction l with
  | nil => rfl
  | cons c l ih =>
    have hc := h c List.mem_cons_self
    simp only [List.mem_cons, List.not_mem_nil, or_false, not_or] at hc
    rw [StaysOpen, List.foldlM_cons, openAfter, if_neg hc.1, if_neg hc.2.1, if_neg hc.2.2]
    exact ih fun c' hc' => h c' (List.mem_cons_of_mem _ hc')

/-- A text without parentheses and bars, as it can be checked. -/
theorem StaysOpen.of_all (h : l.all (· ∉ ['(', ')', '|']) = true) : StaysOpen n l :=
  .of_plain fun c hc => of_decide_eq_true (List.all_eq_true.mp h c hc)

/-- No text that stays open goes on with a bar after another one, outside of parentheses. -/
theorem StaysOpen.ne_append_bar (hl : StaysOpen 0 l) (hm : StaysOpen 0 m) : l ≠ m ++ '|' :: u := by
  rintro rfl
  rw [StaysOpen, List.foldlM_append, hm] at hl
  cases hl

/-- A text is cut at the first bar outside of parentheses in one way. -/
theorem append_bar_inj (hl : StaysOpen 0 l) (hm : StaysOpen 0 m)
    (h : l ++ '|' :: u = m ++ '|' :: v) : l = m ∧ u = v := by
  rcases append_cons_cases h with h | ⟨w, rfl, -⟩ | ⟨w, rfl, -⟩
  · exact h
  · exact absurd rfl (hm.ne_append_bar hl)
  · exact absurd rfl (hl.ne_append_bar hm)

end

theorem intercalate_ne_empty {sep : String} {l : List String} (hl : ∀ s ∈ l, s ≠ "")
    (hne : l ≠ []) : sep.intercalate l ≠ "" := by
  match l with
  | [] => exact absurd rfl hne
  | [s] => simpa using hl
  | s :: t :: l =>
    rw [String.intercalate_cons_cons, ne_eq, String.append_eq_empty_iff,
      String.append_eq_empty_iff]
    exact fun h => hl s List.mem_cons_self h.1.1

/-- A list of names that stay open is taken apart in one way. -/
theorem intercalate_bar_inj {l m : List String} (hl : ∀ s ∈ l, s ≠ "" ∧ StaysOpen 0 s.toList)
    (hm : ∀ s ∈ m, s ≠ "" ∧ StaysOpen 0 s.toList)
    (h : " | ".intercalate l = " | ".intercalate m) : l = m := by
  have hlist : ∀ s u : String,
      (s ++ " | " ++ u).toList = (s.toList ++ [' ']) ++ '|' :: ' ' :: u.toList := fun s u => by simp
  have hspace : ∀ {l : List Char}, StaysOpen 0 l → StaysOpen 0 (l ++ [' ']) :=
    fun h => h.append (.of_plain (by simp))
  rcases eq_or_ne l [] with rfl | hl' <;> rcases eq_or_ne m [] with rfl | hm'
  · rfl
  · exact absurd h.symm (intercalate_ne_empty (fun s hs => (hm s hs).1) hm')
  · exact absurd h (intercalate_ne_empty (fun s hs => (hl s hs).1) hl')
  refine intercalate_inj_of_cut (fun {s t u v} hs ht h => ?_) (fun {s t u} hs ht h => ?_)
    hl hm hl' hm' h
  · have h := congrArg String.toList h
    rw [hlist, hlist] at h
    obtain ⟨hst, huv⟩ := append_bar_inj (hspace hs.2) (hspace ht.2) h
    exact ⟨String.toList_inj.mp (List.append_cancel_right hst),
      String.toList_inj.mp (List.cons.inj huv).2⟩
  · have h := congrArg String.toList h
    rw [hlist] at h
    exact hs.2.ne_append_bar (hspace ht.2) h

/-! ### Words -/

/-- The characters that names and symbols are put together with. -/
def marks : List Char := ['#', ':', '<', '>', ',', '(', ')', '|', '+']

/-- A name without these characters, such as one of letters, digits and underscores. -/
def IsWord (s : String) : Prop := s ≠ "" ∧ ∀ c ∈ s.toList, c ∉ marks

instance (s : String) : Decidable (IsWord s) :=
  decidable_of_iff (s ≠ "" ∧ s.toList.all (· ∉ marks) = true) (by simp [IsWord])

/-- Identifiers are words. -/
theorem IsWord.of_alphanum {s : String} (hne : s ≠ "")
    (h : ∀ c ∈ s.toList, c.isAlphanum = true ∨ c = '_') : IsWord s := by
  refine ⟨hne, fun c hc hm => ?_⟩
  simp only [marks, List.mem_cons, List.not_mem_nil, or_false] at hm
  rcases hm with rfl | rfl | rfl | rfl | rfl | rfl | rfl | rfl | rfl <;>
    exact absurd (h _ hc) (by decide)

theorem IsWord.plain {s : String} (h : IsWord s) {some : List Char} (hs : some ⊆ marks) :
    ∀ c ∈ s.toList, c ∉ some := fun c hc hm => h.2 c hc (hs hm)

/-- What a name is put together to. -/
inductive Outline
  | word
  | program
  | pointer
  | union
  | hierarchy
  | metaclass
  deriving DecidableEq

/-- What the ends of a name show of how it is put together. -/
def Outline.read (l : List Char) : Outline :=
  if l.getLast? = some '>' then .program
  else if l.getLast? = some '+' then .hierarchy
  else if l.getLast? = some ')' then if l.head? = some '(' then .union else .pointer
  else if ':' ∈ l then .metaclass
  else .word

theorem IsWord.read {s : String} (h : IsWord s) : Outline.read s.toList = .word := by
  have hlast : ∀ c ∈ marks, s.toList.getLast? ≠ some c := fun c hc hl =>
    h.2 c (List.mem_of_getLast? hl) hc
  rw [Outline.read, if_neg (hlast _ (by decide)), if_neg (hlast _ (by decide)),
    if_neg (hlast _ (by decide)), if_neg fun hm => h.2 _ hm (by decide)]

namespace TypeKind

/-- How the name of a type of a kind is put together. -/
def outline : TypeKind → Outline
  | .program => .program
  | .pointer _ => .pointer
  | .union _ => .union
  | .hierarchy _ => .hierarchy
  | .metaclass _ => .metaclass
  | _ => .word

/-- A class or a record, which has a name given to it. -/
def isGiven : TypeKind → Bool
  | .heapClass .. | .record .. => true
  | _ => false

/-- A type with nothing inside it and no name given to it. -/
def isBuiltin : TypeKind → Bool
  | .program | .nil | .bool | .char | .int _ | .float _ | .symbol | .string => true
  | _ => false

variable {k k' : TypeKind} {name name' : TypeId → String}

theorem spell_of_isGiven (h : k.isGiven = true) : k.spell name = k.givenName := by
  cases k <;> first | rfl | cases h

theorem isBuiltin_of_word (hw : k.outline = .word) (hg : k.isGiven = false) :
    k.isBuiltin = true := by
  cases k <;> simp_all [isBuiltin, isGiven, outline]

theorem isWord_spell_of_isBuiltin (h : k.isBuiltin = true) (hw : k.outline = .word) :
    IsWord (k.spell name) := by
  cases k with
  | int bits =>
    refine .of_alphanum (fun he => absurd (congrArg String.toList he) (by simp [spell]))
      fun c hc => .inl ?_
    rw [spell, String.toList_append, List.mem_append] at hc
    rcases hc with hc | hc
    · exact List.all_eq_true.mp (by decide : "Int".toList.all Char.isAlphanum = true) c hc
    · rw [Char.isAlphanum, isDigit_of_mem_toString hc, Bool.or_true]
  | float double =>
    cases double with
    | false => exact (by decide : IsWord "Float32")
    | true => exact (by decide : IsWord "Float64")
  | nil => exact (by decide : IsWord "Nil")
  | bool => exact (by decide : IsWord "Bool")
  | char => exact (by decide : IsWord "Char")
  | symbol => exact (by decide : IsWord "Symbol")
  | string => exact (by decide : IsWord "String")
  | program => cases hw
  | _ => cases h

/-- Kinds of no given name have different names. -/
theorem eq_of_spell (h : k.isBuiltin = true) (h' : k'.isBuiltin = true)
    (hs : k.spell name = k'.spell name') : k = k' := by
  cases k with
  | int bits =>
    cases k' with
    | int bits' => rw [toString_inj ((String.append_right_inj _).mp hs)]
    | float double => cases double <;> simp [spell, String.ext_iff] at hs
    | _ => simp [spell, isBuiltin, String.ext_iff] at hs h'
  | float double =>
    cases k' with
    | float double' => revert hs; cases double <;> cases double' <;> simp [spell]
    | int bits => cases double <;> simp [spell, String.ext_iff] at hs
    | _ => cases double <;> simp [spell, isBuiltin, String.ext_iff] at hs h'
  | program | nil | bool | char | symbol | string =>
    cases k' with
    | float double => cases double <;> simp [spell] at hs
    | _ => first | rfl | simp [spell, isBuiltin, String.ext_iff] at hs h'
  | _ => cases h

end TypeKind

/-! ### Names from the names inside them -/

namespace TypeTable

variable (ts : TypeTable) {a b : TypeId}

/-- The description of a type ends: it does not lead back to itself, however far it is followed.
Other types have no name, since theirs would have no end. -/
def Ends : TypeId → Prop := Acc fun b a => ts.Refers a b

/-- The names given to classes and records are words, no two have the same one, and none has that of
a type without a given name. -/
structure NamesTold : Prop where
  words : ∀ a ∈ ts.ids, (ts.kind a).isGiven = true → IsWord (ts.kind a).givenName
  apart : ∀ a ∈ ts.ids, ∀ b ∈ ts.ids, (ts.kind a).isGiven = true → (ts.kind b).isBuiltin = true →
    (ts.kind a).givenName ≠ ts.name b
  unique : ∀ a ∈ ts.ids, ∀ b ∈ ts.ids, (ts.kind a).isGiven = true → (ts.kind b).isGiven = true →
    (ts.kind a).givenName = (ts.kind b).givenName → a = b

instance (ts : TypeTable) : Decidable ts.NamesTold :=
  decidable_of_iff
    ((∀ a ∈ ts.ids, (ts.kind a).isGiven = true → IsWord (ts.kind a).givenName) ∧
      (∀ a ∈ ts.ids, ∀ b ∈ ts.ids, (ts.kind a).isGiven = true → (ts.kind b).isBuiltin = true →
        (ts.kind a).givenName ≠ ts.name b) ∧
      ∀ a ∈ ts.ids, ∀ b ∈ ts.ids, (ts.kind a).isGiven = true → (ts.kind b).isGiven = true →
        (ts.kind a).givenName = (ts.kind b).givenName → a = b)
    ⟨fun h => ⟨h.1, h.2.1, h.2.2⟩, fun h => ⟨h.words, h.apart, h.unique⟩⟩

variable {ts}

/-- Where its description ends, a type has the name that its kind says. -/
theorem name_eq (h : ts.Ends a) : ts.name a = (ts.kind a).spell ts.name := by
  rw [name, nameWithin_succ]
  have hin : ∀ a b, ts.Refers a b → a.index < ts.size := fun _ _ hr =>
    of_decide_eq_true (contains_of_mem_referenced hr.mem_referenced)
  exact spell_congr fun b hb => within_size_eq hin nameWithin_step h hb

theorem Ordered.ends (h : ts.Ordered) (a : TypeId) : ts.Ends a := by
  have hlt : ∀ {a b}, ts.Refers a b → b.index < a.index := fun hb =>
    h _ (mem_ids.mpr (contains_of_mem_referenced hb.mem_referenced)) _ hb.mem_referenced
  exact Subrelation.accessible hlt (InvImage.accessible TypeId.index (Nat.lt_wfRel.wf.apply _))

theorem mem_ids_of_word (h : (ts.kind a).outline = .word) : a ∈ ts.ids := by
  rw [mem_ids]
  by_contra hc
  rw [kind_of_not_contains (Bool.not_eq_true _ ▸ hc)] at h
  cases h

namespace NamesTold

variable (hn : ts.NamesTold)
include hn

theorem isWord_spell (h : (ts.kind a).outline = .word) (name : TypeId → String) :
    IsWord ((ts.kind a).spell name) := by
  cases hg : (ts.kind a).isGiven with
  | true =>
    rw [TypeKind.spell_of_isGiven hg]
    exact hn.words a (mem_ids_of_word h) hg
  | false => exact TypeKind.isWord_spell_of_isBuiltin (TypeKind.isBuiltin_of_word h hg) h

/-- The ends of a name show how the type is put together. -/
theorem read_spell (name : TypeId → String) :
    Outline.read ((ts.kind a).spell name).toList = (ts.kind a).outline := by
  by_cases hw : (ts.kind a).outline = .word
  · rw [hw]
    exact (hn.isWord_spell hw name).read
  · cases hk : ts.kind a with
    | program => simp [TypeKind.spell, TypeKind.outline, Outline.read]
    | pointer | union | hierarchy | metaclass =>
      simp [TypeKind.spell, TypeKind.outline, Outline.read, List.getLast?_cons]
    | _ => simp [hk, TypeKind.outline] at hw

/-- Names close the parentheses that they open, and have bars only inside of them. -/
theorem staysOpen (n k : Nat) (a : TypeId) : StaysOpen k (ts.nameWithin n a).toList := by
  induction n generalizing k a with
  | zero => rfl
  | succ n ih =>
    rw [nameWithin_succ]
    by_cases hw : (ts.kind a).outline = .word
    · exact .of_plain ((hn.isWord_spell hw _).plain (by decide))
    cases hk : ts.kind a with
    | program => exact (.of_all (by decide) : StaysOpen k "<Program>".toList)
    | pointer elem =>
      have hparen := (ih (k + 1) elem).parenthesized
      have hword : StaysOpen k "Pointer".toList := .of_all (by decide)
      simpa [TypeKind.spell] using hword.append hparen
    | union members =>
      have hlist :
          StaysOpen (k + 1) (" | ".intercalate (members.map (ts.nameWithin n))).toList := by
        refine intercalate_keeps (P := StaysOpen (k + 1)) rfl .append rfl fun s hs => ?_
        obtain ⟨m, -, rfl⟩ := List.mem_map.mp hs
        exact ih _ m
      simpa [TypeKind.spell] using hlist.parenthesized
    | hierarchy base =>
      have hplus : StaysOpen k ['+'] := .of_all (by decide)
      simpa [TypeKind.spell] using (ih k base).append hplus
    | metaclass made =>
      have hclass : StaysOpen k ":Class".toList := .of_all (by decide)
      simpa [TypeKind.spell] using (ih k made).append hclass
    | _ => simp [hk, TypeKind.outline] at hw

theorem spell_ne_empty (name : TypeId → String) : (ts.kind a).spell name ≠ "" := by
  intro h
  have hw : (ts.kind a).outline = .word := by
    rw [← hn.read_spell name, h]
    rfl
  exact (hn.isWord_spell hw name).1 h

end NamesTold

/-! ### Types put together in the same way -/

/-- Two types are put together in the same way from the same classes and records: through pointers,
the members of unions one by one, hierarchies and metaclasses, however deep. -/
inductive SameShape (ts : TypeTable) : TypeId → TypeId → Prop
  | same (a : TypeId) : SameShape ts a a
  | builtin {a b : TypeId} (ha : (ts.kind a).isBuiltin = true) (hb : ts.kind b = ts.kind a) :
    SameShape ts a b
  | pointer {a b elem elem' : TypeId} (ha : ts.kind a = .pointer elem)
    (hb : ts.kind b = .pointer elem') (h : SameShape ts elem elem') : SameShape ts a b
  | union {a b : TypeId} {members members' : List TypeId} (ha : ts.kind a = .union members)
    (hb : ts.kind b = .union members') (hlen : members.length = members'.length)
    (h : ∀ m m', (m, m') ∈ members.zip members' → SameShape ts m m') : SameShape ts a b
  | hierarchy {a b base base' : TypeId} (ha : ts.kind a = .hierarchy base)
    (hb : ts.kind b = .hierarchy base') (h : SameShape ts base base') : SameShape ts a b
  | metaclass {a b made made' : TypeId} (ha : ts.kind a = .metaclass made)
    (hb : ts.kind b = .metaclass made') (h : SameShape ts made made') : SameShape ts a b

theorem map_eq_map_iff_zip {α : Type} {f : TypeId → α} {l m : List TypeId} :
    l.map f = m.map f ↔ l.length = m.length ∧ ∀ a b, (a, b) ∈ l.zip m → f a = f b := by
  rw [← List.forall₂_eq_eq_eq, List.forall₂_map_left_iff, List.forall₂_map_right_iff,
    List.forall₂_iff_zip]

/-- Types put together in the same way have one name. -/
theorem SameShape.name_eq (h : ts.SameShape a b) : ts.name a = ts.name b := by
  suffices ∀ n, ts.nameWithin n a = ts.nameWithin n b from this _
  intro n
  induction h generalizing n with
  | same a => rfl
  | builtin ha hb =>
    cases n with
    | zero => rfl
    | succ n =>
      rw [nameWithin_succ, nameWithin_succ, hb]
  | pointer ha hb _ ih | hierarchy ha hb _ ih | metaclass ha hb _ ih =>
    cases n with
    | zero => rfl
    | succ n => rw [nameWithin_succ, nameWithin_succ, ha, hb, TypeKind.spell, TypeKind.spell, ih n]
  | union ha hb hlen _ ih =>
    cases n with
    | zero => rfl
    | succ n =>
      rw [nameWithin_succ, nameWithin_succ, ha, hb, TypeKind.spell, TypeKind.spell,
        map_eq_map_iff_zip.mpr ⟨hlen, fun m m' hm => ih m m' hm n⟩]

theorem SameShape.program_iff (h : ts.SameShape a b) :
    ts.kind a = .program ↔ ts.kind b = .program := by
  cases h with
  | same => rfl
  | builtin ha hb => rw [hb]
  | _ ha hb => simp [ha, hb]

namespace NamesTold

variable (hn : ts.NamesTold)
include hn

theorem names_stayOpen (l : List TypeId) :
    ∀ s ∈ l.map ts.name, s ≠ "" ∧ StaysOpen 0 s.toList := by
  intro s hs
  obtain ⟨t, -, rfl⟩ := List.mem_map.mp hs
  refine ⟨?_, hn.staysOpen _ 0 t⟩
  rw [name, nameWithin_succ]
  exact hn.spell_ne_empty _

theorem plainNames : ts.PlainNames := fun t ht => by
  cases hg : (ts.kind t).isGiven with
  | true => exact (hn.words t ht hg).plain (by decide)
  | false => cases hk : ts.kind t <;> simp_all [TypeKind.givenName, TypeKind.isGiven]

/-- A name that is one word belongs to one class or record, or to the types of one kind. -/
theorem sameShape_of_word (hwa : (ts.kind a).outline = .word) (hwb : (ts.kind b).outline = .word)
    (ha : ts.Ends a) (hb : ts.Ends b) (h : ts.name a = ts.name b) : ts.SameShape a b := by
  have hina := mem_ids_of_word hwa
  have hinb := mem_ids_of_word hwb
  cases hga : (ts.kind a).isGiven with
  | true =>
    rw [name_eq ha, TypeKind.spell_of_isGiven hga] at h
    cases hgb : (ts.kind b).isGiven with
    | true =>
      rw [name_eq hb, TypeKind.spell_of_isGiven hgb] at h
      rw [hn.unique a hina b hinb hga hgb h]
      exact .same b
    | false => exact absurd h (hn.apart a hina b hinb hga (TypeKind.isBuiltin_of_word hwb hgb))
  | false =>
    have hba := TypeKind.isBuiltin_of_word hwa hga
    rw [name_eq hb] at h
    cases hgb : (ts.kind b).isGiven with
    | true =>
      rw [TypeKind.spell_of_isGiven hgb] at h
      exact absurd h.symm (hn.apart b hinb a hina hgb hba)
    | false =>
      rw [name_eq ha] at h
      exact .builtin hba (TypeKind.eq_of_spell hba (TypeKind.isBuiltin_of_word hwb hgb) h).symm

/-- Types of one name are put together in the same way. -/
theorem sameShape_of_name_eq (ha : ts.Ends a) (hb : ts.Ends b) (h : ts.name a = ts.name b) :
    ts.SameShape a b := by
  -- along what the first type is put together from; the second is taken apart with it
  induction (show Acc (fun b a => ts.Refers a b) a from ha) generalizing b with
  | intro a _ ih =>
    have hinner : ∀ {x y : TypeId}, ts.Refers a x → ts.Refers b y → ts.name x = ts.name y →
        ts.SameShape x y := fun hx hy hxy => ih _ hx (ha.inv hx) (hb.inv hy) hxy
    have hs := h
    rw [name_eq ha, name_eq hb] at hs
    -- only names with the same ends have what is between them compared
    have hout : (ts.kind a).outline = (ts.kind b).outline := by
      rw [← hn.read_spell ts.name, hs, hn.read_spell]
    by_cases hw : (ts.kind a).outline = .word
    · exact hn.sameShape_of_word hw (hout ▸ hw) ha hb h
    cases hk : ts.kind a with
    | program =>
      cases hk' : ts.kind b with
      | program => exact .builtin (hk ▸ rfl) (hk'.trans hk.symm)
      | _ => simp [hk, hk', TypeKind.outline] at hout
    | pointer elem =>
      cases hk' : ts.kind b with
      | pointer elem' =>
        rw [hk, hk', TypeKind.spell, TypeKind.spell, String.append_left_inj,
          String.append_right_inj] at hs
        exact .pointer hk hk' (hinner (by simp [Refers, hk]) (by simp [Refers, hk']) hs)
      | _ => simp [hk, hk', TypeKind.outline] at hout
    | union members =>
      cases hk' : ts.kind b with
      | union members' =>
        rw [hk, hk', TypeKind.spell, TypeKind.spell, String.append_left_inj,
          String.append_right_inj] at hs
        obtain ⟨hlen, hall⟩ := map_eq_map_iff_zip.mp
          (intercalate_bar_inj (hn.names_stayOpen members) (hn.names_stayOpen members') hs)
        refine .union hk hk' hlen fun m m' hm => hinner ?_ ?_ (hall m m' hm)
        · simpa [Refers, hk] using (List.of_mem_zip hm).1
        · simpa [Refers, hk'] using (List.of_mem_zip hm).2
      | _ => simp [hk, hk', TypeKind.outline] at hout
    | hierarchy base =>
      cases hk' : ts.kind b with
      | hierarchy base' =>
        rw [hk, hk', TypeKind.spell, TypeKind.spell, String.append_left_inj] at hs
        exact .hierarchy hk hk' (hinner (by simp [Refers, hk]) (by simp [Refers, hk']) hs)
      | _ => simp [hk, hk', TypeKind.outline] at hout
    | metaclass made =>
      cases hk' : ts.kind b with
      | metaclass made' =>
        rw [hk, hk', TypeKind.spell, TypeKind.spell, String.append_left_inj] at hs
        exact .metaclass hk hk' (hinner (by simp [Refers, hk]) (by simp [Refers, hk']) hs)
      | _ => simp [hk, hk', TypeKind.outline] at hout
    | _ => simp [hk, TypeKind.outline] at hw

end NamesTold

end TypeTable

/-! ### Symbols -/

namespace Def

variable {ts : TypeTable} {d d' : Def} {t t' : Option TypeId}

/-- The type that the symbol of a function starts with: that of the receiver, or the owner when the
function takes none. -/
def home (d : Def) (ts : TypeTable) (t : Option TypeId) : TypeId :=
  (t.filter ts.passedAsSelf).getD d.owner

/-- The types in the symbol of a function have names. -/
structure Spelled (d : Def) (ts : TypeTable) (t : Option TypeId) : Prop where
  home : ts.Ends (d.home ts t)
  args : ∀ a ∈ d.argTypes, ts.Ends a

/-- The symbols of two functions are made from the same parts, types being taken apart. -/
structure SameParts (ts : TypeTable) (d d' : Def) (t t' : Option TypeId) : Prop where
  received : (t.filter ts.passedAsSelf).isSome = (t'.filter ts.passedAsSelf).isSome
  home : ts.SameShape (d.home ts t) (d'.home ts t')
  name : d.name = d'.name
  args : List.Forall₂ ts.SameShape d.argTypes d'.argTypes

theorem Plain.of_isWord (hd : d.external = none) (hw : IsWord d.name) : d.Plain where
  internal := hd
  noMark := hw.plain (by decide)
  bare _ h := hw.2 _ (List.mem_of_getLast? h) (by decide)

theorem ownerName_filter : d.ownerName ts (t.filter ts.passedAsSelf) = d.ownerName ts t := by
  simp [ownerName, Option.filter_filter]

/-- What the start of a symbol tells. -/
theorem name_home_of_ownerName (h : d.ownerName ts t = d'.ownerName ts t') :
    (t.filter ts.passedAsSelf).isSome = (t'.filter ts.passedAsSelf).isSome ∧
      ts.name (d.home ts t) = ts.name (d'.home ts t') := by
  have hself : ∀ {t : Option TypeId}, ∀ u ∈ t.filter ts.passedAsSelf, ts.passedAsSelf u = true :=
    fun u hu => (Option.filter_eq_some_iff.mp hu).2
  rw [← ownerName_filter, ← ownerName_filter (d := d')] at h
  obtain ⟨hmap, hnone⟩ := ownerName_inj hself hself h
  unfold home
  cases hr : t.filter ts.passedAsSelf with
  | none =>
    rw [hr, Option.map_none, eq_comm, Option.map_eq_none_iff] at hmap
    rw [hmap]
    exact ⟨rfl, hnone hr⟩
  | some u =>
    rw [hr, Option.map_some, eq_comm, Option.map_eq_some_iff] at hmap
    obtain ⟨u', hr', hu⟩ := hmap
    rw [hr']
    exact ⟨rfl, hu.symm⟩

theorem SameParts.ownerName_eq (h : SameParts ts d d' t t') :
    d.ownerName ts t = d'.ownerName ts t' := by
  have hhome := h.home
  have hreceived := h.received
  unfold Def.home at hhome
  unfold ownerName
  cases hr : t.filter ts.passedAsSelf with
  | none =>
    rw [hr, Option.isSome_none, eq_comm, Option.isSome_eq_false_iff, Option.isNone_iff_eq_none]
      at hreceived
    rw [hr, hreceived] at hhome
    rw [hreceived]
    exact if_congr hhome.program_iff rfl (congrArg (· ++ "::") hhome.name_eq)
  | some u =>
    rw [hr, Option.isSome_some, eq_comm, Option.isSome_iff_exists] at hreceived
    obtain ⟨u', hr'⟩ := hreceived
    rw [hr, hr'] at hhome
    rw [hr']
    exact congrArg (· ++ "#") hhome.name_eq

theorem mangledName_congr (hd : d.external = none) (hd' : d'.external = none)
    (howner : d.ownerName ts t = d'.ownerName ts t') (hname : d.name = d'.name)
    (hargs : d.argTypes.map ts.name = d'.argTypes.map ts.name) :
    d.mangledName ts t = d'.mangledName ts t' := by
  simp only [argTypes, List.map_map, Function.comp_def] at hargs
  have hempty : d.args.isEmpty = d'.args.isEmpty := by
    simpa only [List.isEmpty_map] using congrArg List.isEmpty hargs
  simp only [mangledName, hd, hd', howner, hname, hempty, hargs]

/-- Two functions have one symbol exactly when their symbols are made from the same parts. -/
theorem mangledName_eq_iff (hn : ts.NamesTold) (hd : d.external = none) (hd' : d'.external = none)
    (hw : IsWord d.name) (hw' : IsWord d'.name) (hs : d.Spelled ts t) (hs' : d'.Spelled ts t') :
    d.mangledName ts t = d'.mangledName ts t' ↔ SameParts ts d d' t t' := by
  constructor
  · intro h
    obtain ⟨howner, hname, hargs⟩ :=
      mangledName_inj hn.plainNames (.of_isWord hd hw) (.of_isWord hd' hw') h
    obtain ⟨hreceived, hhome⟩ := name_home_of_ownerName howner
    obtain ⟨hlen, hall⟩ := TypeTable.map_eq_map_iff_zip.mp hargs
    refine ⟨hreceived, hn.sameShape_of_name_eq hs.home hs'.home hhome, hname,
      List.forall₂_iff_zip.mpr ⟨hlen, fun {a b} hab => ?_⟩⟩
    exact hn.sameShape_of_name_eq (hs.args a (List.of_mem_zip hab).1)
      (hs'.args b (List.of_mem_zip hab).2) (hall a b hab)
  · intro h
    have hargs : d.argTypes.map ts.name = d'.argTypes.map ts.name :=
      TypeTable.map_eq_map_iff_zip.mpr ⟨h.args.length_eq, fun a b hab =>
        ((List.forall₂_iff_zip.mp h.args).2 hab).name_eq⟩
    exact mangledName_congr hd hd' h.ownerName_eq h.name hargs

/-- A table that has each type twice, apart from its classes. -/
def twofoldTypes : TypeTable :=
  ⟨#[⟨.program, true⟩, ⟨.heapClass "A" none [], true⟩, ⟨.heapClass "B" (some ⟨1⟩) [], true⟩,
    ⟨.int 32, true⟩, ⟨.int 32, true⟩, ⟨.pointer ⟨3⟩, true⟩, ⟨.pointer ⟨4⟩, true⟩,
    ⟨.hierarchy ⟨1⟩, true⟩, ⟨.hierarchy ⟨1⟩, true⟩, ⟨.union [⟨5⟩, ⟨7⟩, ⟨2⟩], true⟩,
    ⟨.union [⟨6⟩, ⟨8⟩, ⟨2⟩], true⟩, ⟨.metaclass ⟨9⟩, true⟩, ⟨.metaclass ⟨10⟩, true⟩]⟩

/-- A definition with a metaclass and a number as parameters. -/
def twofoldDef (owner made bits : Nat) : Def where
  name := "m"
  owner := ⟨owner⟩
  args := [⟨"x", ⟨made⟩, false⟩, ⟨"y", ⟨bits⟩, false⟩]

/-- Other ids of the same types make the same symbol, and leaving out the receiver another one. -/
theorem twofold_sameParts :
    SameParts twofoldTypes (twofoldDef 1 11 3) (twofoldDef 2 12 4) (some ⟨9⟩) (some ⟨10⟩) ∧
      ¬ SameParts twofoldTypes (twofoldDef 1 11 3) (twofoldDef 1 12 4) (some ⟨9⟩) none := by
  have hnames : twofoldTypes.NamesTold := by decide +kernel
  have hordered : twofoldTypes.Ordered := by decide +kernel
  have hspelled : ∀ (d : Def) (t : Option TypeId), d.Spelled twofoldTypes t := fun _ _ =>
    ⟨hordered.ends _, fun _ _ => hordered.ends _⟩
  have hword : IsWord "m" := by decide
  constructor
  · exact (mangledName_eq_iff hnames rfl rfl hword hword (hspelled _ _) (hspelled _ _)).mp
      (by decide +kernel)
  · exact (mangledName_eq_iff hnames rfl rfl hword hword (hspelled _ _) (hspelled _ _)).not.mp
      (by decide +kernel)

end Def

end Lowering
