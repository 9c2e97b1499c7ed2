import Lowering.Proofs.Review

/-!
# Symbols of functions

The symbol of a generated function is put together from the name of the receiver type or of the
owner, the name of the definition and the names of the parameter types.  It can be taken apart
again when these names have none of the characters that stand between them.

* `Balanced`, `append_bracket_inj`: the last bracket that is opened and not closed;
* `TypeTable.PlainNames`, `TypeTable.isName_name`: what names of types are made of;
* `Def.ownerName_inj`: the receiver type, or the owner;
* `Def.Plain`, `Def.mangledName_inj`: the parts of a symbol.
-/

namespace Lowering

/-! ### Brackets -/

/-- Every bracket of a text has a partner: as many are opened as are closed, and from no place on
are more opened than closed. -/
structure Balanced (l : List Char) : Prop where
  total : l.count '<' = l.count '>'
  right : ∀ s, s <:+ l → s.count '<' ≤ s.count '>'

section

variable {a b l m n s : List Char}

theorem Balanced.append (hl : Balanced l) (hm : Balanced m) : Balanced (l ++ m) := by
  refine ⟨by rw [List.count_append, List.count_append, hl.total, hm.total], fun s hs => ?_⟩
  obtain ⟨t, ht⟩ := hs
  rcases List.append_eq_append_iff.mp ht with ⟨u, rfl, rfl⟩ | ⟨u, rfl, rfl⟩
  · have hu := hl.right u (List.suffix_append t u)
    rw [List.count_append, List.count_append, hm.total]
    omega
  · exact hm.right s (List.suffix_append u s)

theorem Balanced.of_notMem (ho : '<' ∉ l) (hc : '>' ∉ l) : Balanced l where
  total := by rw [List.count_eq_zero.mpr ho, List.count_eq_zero.mpr hc]
  right s hs := by
    rw [List.count_eq_zero.mpr fun h => ho (hs.subset h)]
    exact Nat.zero_le _

theorem Balanced.bracket (hl : Balanced l) : Balanced ('<' :: (l ++ ['>'])) where
  total := by simp [List.count_append, hl.total]
  right s hs := by
    rcases List.suffix_cons_iff.mp hs with rfl | hs
    · simp [List.count_append, hl.total]
    rcases List.suffix_concat_iff.mp hs with rfl | ⟨t, rfl, ht⟩
    · exact le_rfl
    · have := hl.right t ht
      simp only [List.count_append, List.count_singleton]
      simp
      omega

theorem Balanced.not_suffix (hl : Balanced l) (hm : Balanced m) : ¬ '<' :: m <:+ l := fun h => by
  have := hl.right _ h
  rw [List.count_cons_self, List.count_cons_of_ne (by decide), hm.total] at this
  omega

/-- Two ways to cut a text at one character are the same, or one cut is inside a part of the
other. -/
theorem append_cons_cases {x : Char} (h : a ++ x :: l = b ++ x :: m) :
    (a = b ∧ l = m) ∨ (∃ u, b = a ++ x :: u ∧ l = u ++ x :: m) ∨
      ∃ u, a = b ++ x :: u ∧ m = u ++ x :: l := by
  rcases List.append_eq_append_iff.mp h with ⟨u, rfl, hu⟩ | ⟨u, rfl, hu⟩
  · cases u with
    | nil => exact .inl ⟨(List.append_nil a).symm, (List.cons.inj hu).2⟩
    | cons y u =>
      obtain ⟨rfl, hl⟩ := List.cons.inj hu
      exact .inr (.inl ⟨u, rfl, hl⟩)
  · cases u with
    | nil => exact .inl ⟨List.append_nil b, (List.cons.inj hu).2.symm⟩
    | cons y u =>
      obtain ⟨rfl, hm⟩ := List.cons.inj hu
      exact .inr (.inr ⟨u, rfl, hm⟩)

/-- A text that ends in a bracket around a balanced text is taken apart in one way. -/
theorem append_bracket_inj (hl : Balanced l) (hm : Balanced m)
    (h : a ++ '<' :: l = b ++ '<' :: m) : a = b ∧ l = m := by
  -- The other cut would leave a bracket open to the right of this one.
  rcases append_cons_cases h with h | ⟨u, -, rfl⟩ | ⟨u, -, rfl⟩
  · exact h
  · exact absurd (List.suffix_append u _) (hl.not_suffix hm)
  · exact absurd (List.suffix_append u _) (hm.not_suffix hl)

/-- A text is cut at the first place of a mark in one way. -/
theorem append_mark_inj {x : Char} (ha : x ∉ a) (hb : x ∉ b) (h : a ++ x :: l = b ++ x :: m) :
    a = b ∧ l = m := by
  rcases append_cons_cases h with h | ⟨u, rfl, -⟩ | ⟨u, rfl, -⟩
  · exact h
  · exact absurd (by simp) hb
  · exact absurd (by simp) ha

/-- A text that ends in a word without the characters that can stand before the word is taken apart
in one way. -/
theorem append_word_inj {IsMark : Char → Prop} (ha : ∀ c ∈ a.getLast?, IsMark c)
    (hb : ∀ c ∈ b.getLast?, IsMark c) (hn : ∀ c ∈ n, ¬ IsMark c) (hm : ∀ c ∈ m, ¬ IsMark c)
    (h : a ++ n = b ++ m) : a = b ∧ n = m := by
  -- What one cut has more on its left would end in a mark, and is in the word of the other.
  have hnil : ∀ {x u w : List Char}, (∀ c ∈ (x ++ u).getLast?, IsMark c) →
      (∀ c ∈ u ++ w, ¬ IsMark c) → u = [] := fun {x u w} hx hw => by
    by_contra hu
    have hlast : (x ++ u).getLast? = some (u.getLast hu) := by
      rw [List.getLast?_append, List.getLast?_eq_some_getLast hu, Option.some_or]
    exact hw _ (List.mem_append_left w (List.getLast_mem hu)) (hx _ (by rw [hlast]; rfl))
  rcases List.append_eq_append_iff.mp h with ⟨u, rfl, rfl⟩ | ⟨u, rfl, rfl⟩
  · rw [hnil hb hn]
    simp
  · rw [hnil ha hm]
    simp

/-! ### Names of types -/

/-- What the name of a type can be in a list of names between brackets. -/
structure IsName (l : List Char) : Prop where
  balanced : Balanced l
  noComma : ',' ∉ l

theorem IsName.append (hl : IsName l) (hm : IsName m) : IsName (l ++ m) where
  balanced := hl.balanced.append hm.balanced
  noComma h := (List.mem_append.mp h).elim hl.noComma hm.noComma

theorem IsName.of_plain (h : ∀ c ∈ l, c ∉ [',', '<', '>']) : IsName l where
  balanced := .of_notMem (fun hm => h _ hm (by decide)) fun hm => h _ hm (by decide)
  noComma hm := h _ hm (by decide)

/-- A word of letters, as it can be checked. -/
theorem IsName.of_all (h : l.all (· ∉ [',', '<', '>']) = true) : IsName l :=
  .of_plain fun c hc => of_decide_eq_true (List.all_eq_true.mp h c hc)

theorem IsName.bracket (h : IsName l) : IsName ('<' :: (l ++ ['>'])) where
  balanced := h.balanced.bracket
  noComma hm := by
    simp only [List.mem_cons, List.mem_append, List.not_mem_nil, or_false] at hm
    rcases hm with hm | hm | hm
    · exact absurd hm (by decide)
    · exact h.noComma hm
    · exact absurd hm (by decide)

end

/-- What texts keep when they are put together holds of a list of names. -/
theorem intercalate_keeps {P : List Char → Prop} (hnil : P [])
    (happend : ∀ {l m : List Char}, P l → P m → P (l ++ m)) {sep : String} {names : List String}
    (hsep : P sep.toList) (h : ∀ s ∈ names, P s.toList) : P (sep.intercalate names).toList := by
  induction names with
  | nil => simpa using hnil
  | cons s names ih =>
    have hs := h s List.mem_cons_self
    cases names with
    | nil => simpa using hs
    | cons t names =>
      rw [String.intercalate_cons_cons, String.toList_append, String.toList_append]
      exact happend (happend hs hsep) (ih fun u hu => h u (List.mem_cons_of_mem _ hu))

theorem Balanced.intercalate {sep : String} {names : List String} (hsep : Balanced sep.toList)
    (h : ∀ s ∈ names, Balanced s.toList) : Balanced (sep.intercalate names).toList :=
  intercalate_keeps (.of_notMem (by simp) (by simp)) Balanced.append hsep h

theorem IsName.intercalate {sep : String} {names : List String} (hsep : IsName sep.toList)
    (h : ∀ s ∈ names, IsName s.toList) : IsName (sep.intercalate names).toList :=
  intercalate_keeps (.of_all rfl) IsName.append hsep h

theorem isDigit_of_mem_toString {n : Nat} {c : Char} (h : c ∈ (toString n).toList) :
    c.isDigit = true :=
  Nat.isDigit_of_mem_toDigits (by decide) le_rfl (Nat.toList_repr ▸ h)

theorem toString_inj {m n : Nat} (h : toString m = toString n) : m = n := by
  have hdigits : Nat.toDigits 10 m = Nat.toDigits 10 n := by
    rw [← Nat.toList_repr, ← Nat.toList_repr]
    exact congrArg String.toList h
  rw [← Nat.ofDigitChars_toDigits (b := 10) (n := m) (by decide) le_rfl, hdigits,
    Nat.ofDigitChars_toDigits (by decide) le_rfl]

theorem isName_toString (n : Nat) : IsName (toString n).toList := by
  refine .of_plain fun c hc hm => ?_
  have hdigit := isDigit_of_mem_toString hc
  simp only [List.mem_cons, List.not_mem_nil, or_false] at hm
  rcases hm with rfl | rfl | rfl <;> exact absurd hdigit (by decide)

/-- The name that a class or a record is given. -/
def TypeKind.givenName : TypeKind → String
  | .heapClass name _ _ | .record name _ => name
  | _ => ""

namespace TypeTable

variable {ts : TypeTable}

/-- The names given to classes and records have no commas and no brackets. -/
def PlainNames (ts : TypeTable) : Prop :=
  ∀ t ∈ ts.ids, ∀ c ∈ (ts.kind t).givenName.toList, c ∉ [',', '<', '>']

theorem kind_of_not_contains {t : TypeId} (h : ts.contains t = false) : ts.kind t = .program := by
  have hout : ts.infos.size ≤ t.index := Nat.le_of_not_lt (of_decide_eq_false h)
  simp [kind, info, Array.getElem?_eq_none hout]

theorem PlainNames.givenName (h : ts.PlainNames) (t : TypeId) :
    IsName (ts.kind t).givenName.toList := by
  cases hc : ts.contains t with
  | true => exact .of_plain (h t (mem_ids.mpr hc))
  | false =>
    rw [kind_of_not_contains hc]
    exact .of_all (by decide)

theorem isName_nameWithin (h : ts.PlainNames) (n : Nat) (t : TypeId) :
    IsName (ts.nameWithin n t).toList := by
  induction n generalizing t with
  | zero => exact .of_all rfl
  | succ n ih =>
    have hgiven := h.givenName t
    rw [nameWithin]
    cases hk : ts.kind t with
    | program =>
      have hword : IsName "Program".toList := .of_all (by decide)
      exact (show IsName "<Program>".toList from hword.bracket)
    | heapClass name parent ivars => rwa [hk] at hgiven
    | record name fields => rwa [hk] at hgiven
    | int bits =>
      dsimp only
      rw [String.toList_append]
      exact .append (.of_all (by decide)) (isName_toString bits)
    | float double =>
      cases double with
      | false => exact (show IsName "Float32".toList from .of_all (by decide))
      | true => exact (show IsName "Float64".toList from .of_all (by decide))
    | pointer elem =>
      dsimp only
      rw [String.toList_append, String.toList_append]
      exact (IsName.append (.of_all (by decide)) (ih elem)).append (.of_all (by decide))
    | union members =>
      dsimp only
      rw [String.toList_append, String.toList_append]
      refine (IsName.append (.of_all (by decide)) (.intercalate (.of_all (by decide)) ?_)).append
        (.of_all (by decide))
      intro s hs
      obtain ⟨t', -, rfl⟩ := List.mem_map.mp hs
      exact ih t'
    | hierarchy base =>
      dsimp only
      rw [String.toList_append]
      exact (ih base).append (.of_all (by decide))
    | metaclass instanceType =>
      dsimp only
      rw [String.toList_append]
      exact (ih instanceType).append (.of_all (by decide))
    | nil | bool | char | symbol | string =>
      dsimp only
      exact .of_all (by decide)

theorem isName_name (h : ts.PlainNames) (t : TypeId) : IsName (ts.name t).toList :=
  isName_nameWithin h _ t

/-- Types of a table in which names are not shared are told by their names. -/
theorem name_inj (h : (ts.ids.map ts.name).Nodup) {t u : TypeId} (ht : ts.contains t = true)
    (hu : ts.contains u = true) (heq : ts.name t = ts.name u) : t = u :=
  List.inj_on_of_nodup_map h (mem_ids.mpr ht) (mem_ids.mpr hu) heq

end TypeTable

/-! ### Parts of a symbol -/

/-- A list of names is taken apart in one way when the separator shows where the first name ends. -/
theorem intercalate_inj_of_cut {sep : String} {P : String → Prop}
    (hcut : ∀ {s t u v : String}, P s → P t → s ++ sep ++ u = t ++ sep ++ v → s = t ∧ u = v)
    (hlone : ∀ {s t u : String}, P s → P t → s ≠ t ++ sep ++ u) {l m : List String}
    (hl : ∀ s ∈ l, P s) (hm : ∀ s ∈ m, P s) (hl' : l ≠ []) (hm' : m ≠ [])
    (h : sep.intercalate l = sep.intercalate m) : l = m := by
  induction l generalizing m with
  | nil => exact absurd rfl hl'
  | cons s l ih =>
    cases m with
    | nil => exact absurd rfl hm'
    | cons t m =>
      have hs := hl s List.mem_cons_self
      have ht := hm t List.mem_cons_self
      cases l with
      | nil =>
        cases m with
        | nil => simpa using h
        | cons t' m =>
          rw [String.intercalate_singleton, String.intercalate_cons_cons] at h
          exact absurd h (hlone hs ht)
      | cons s' l =>
        cases m with
        | nil =>
          rw [String.intercalate_singleton, String.intercalate_cons_cons] at h
          exact absurd h.symm (hlone ht hs)
        | cons t' m =>
          rw [String.intercalate_cons_cons, String.intercalate_cons_cons] at h
          obtain ⟨rfl, hrest⟩ := hcut hs ht h
          rw [ih (fun u hu => hl u (List.mem_cons_of_mem _ hu))
            (fun u hu => hm u (List.mem_cons_of_mem _ hu)) (by simp) (by simp) hrest]

/-- A list of names without commas is taken apart in one way. -/
theorem intercalate_inj {l m : List String} (hl : ∀ s ∈ l, ',' ∉ s.toList)
    (hm : ∀ s ∈ m, ',' ∉ s.toList) (hl' : l ≠ []) (hm' : m ≠ [])
    (h : ", ".intercalate l = ", ".intercalate m) : l = m := by
  have hlist : ∀ s u : String, (s ++ ", " ++ u).toList = s.toList ++ ',' :: ' ' :: u.toList :=
    fun s u => by simp
  refine intercalate_inj_of_cut (fun {s t u v} hs ht h => ?_) (fun {s t u} hs ht h => ?_)
    hl hm hl' hm' h
  · have h := congrArg String.toList h
    rw [hlist, hlist] at h
    obtain ⟨hst, huv⟩ := append_mark_inj hs ht h
    exact ⟨String.toList_inj.mp hst, String.toList_inj.mp (List.cons.inj huv).2⟩
  · rw [h, hlist] at hs
    exact hs (by simp)

namespace Def

/-- A definition with a body of its own, whose name has no mark that ends the name of a receiver
type or of an owner and does not end as if there were parameters when there are none. -/
structure Plain (d : Def) : Prop where
  internal : d.external = none
  noMark : ∀ c ∈ d.name.toList, c ∉ ['#', ':']
  bare : d.args = [] → d.name.toList.getLast? ≠ some '>'

variable {ts : TypeTable} {d d' : Def} {t t' : Option TypeId}

theorem getLast_ownerName : ∀ c ∈ (d.ownerName ts t).toList.getLast?, c ∈ ['#', ':'] := by
  unfold ownerName
  cases t.filter ts.passedAsSelf with
  | some u =>
    dsimp only
    rw [String.toList_append, List.getLast?_append]
    simp
  | none =>
    dsimp only
    split
    · simp
    · rw [String.toList_append, List.getLast?_append]
      simp

theorem ownerName_some {u : TypeId} (hu : ts.passedAsSelf u = true) :
    d.ownerName ts (some u) = ts.name u ++ "#" := by
  simp [ownerName, Option.filter, hu]

theorem ownerName_none :
    d.ownerName ts none = if ts.kind d.owner = .program then "" else ts.name d.owner ++ "::" := rfl

theorem getLast_ownerName_none : (d.ownerName ts none).toList.getLast? ≠ some '#' := by
  rw [ownerName_none]
  split
  · simp
  · rw [String.toList_append, List.getLast?_append]
    simp

theorem name_of_program {u : TypeId} (h : ts.kind u = .program) : ts.name u = "<Program>" := by
  rw [TypeTable.name, TypeTable.nameWithin, h]

/-- The symbol of a function that takes the receiver tells the name of its type, and that of one
that takes none tells the name of the owner. -/
theorem ownerName_inj (ht : ∀ u ∈ t, ts.passedAsSelf u = true)
    (ht' : ∀ u ∈ t', ts.passedAsSelf u = true) (h : d.ownerName ts t = d'.ownerName ts t') :
    t.map ts.name = t'.map ts.name ∧ (t = none → ts.name d.owner = ts.name d'.owner) := by
  -- The mark between the parts says which of the two names stands before it.
  have hmark : ∀ {e e' : Def} {u : TypeId}, ts.passedAsSelf u = true →
      e.ownerName ts (some u) ≠ e'.ownerName ts none := fun {e e' u} hu he => by
    have hlast : (e'.ownerName ts none).toList.getLast? ≠ some '#' := getLast_ownerName_none
    refine hlast ?_
    rw [← he, ownerName_some hu, String.toList_append, List.getLast?_append]
    simp
  cases t with
  | some u =>
    cases t' with
    | some u' =>
      rw [ownerName_some (ht u rfl), ownerName_some (ht' u' rfl)] at h
      exact ⟨congrArg some ((String.append_left_inj _).mp h), fun h => absurd h (by simp)⟩
    | none => exact absurd h (hmark (ht u rfl))
  | none =>
    cases t' with
    | some u' => exact absurd h.symm (hmark (ht' u' rfl))
    | none =>
      refine ⟨rfl, fun _ => ?_⟩
      rw [ownerName_none, ownerName_none] at h
      split at h <;> split at h
      · rw [name_of_program ‹_›, name_of_program ‹_›]
      · exact absurd (congrArg String.toList h) (by simp)
      · exact absurd (congrArg String.toList h) (by simp)
      · exact (String.append_left_inj _).mp h

/-- The symbol without the parameter types. -/
def baseName (d : Def) (ts : TypeTable) (t : Option TypeId) : String := d.ownerName ts t ++ d.name

theorem mangledName_of_external {e : External} (h : d.external = some e) :
    d.mangledName ts t = e.realName := by
  rw [mangledName, h]

theorem mangledName_of_nil (hd : d.external = none) (ha : d.args = []) :
    d.mangledName ts t = d.baseName ts t := by
  simp [mangledName, hd, ha, baseName]

theorem toList_mangledName (hd : d.external = none) (ha : d.args ≠ []) :
    (d.mangledName ts t).toList = (d.baseName ts t).toList ++ '<' ::
      ((", ".intercalate (d.argTypes.map ts.name)).toList ++ ['>']) := by
  have hempty : d.args.isEmpty = false := List.isEmpty_eq_false_iff.mpr ha
  simp only [mangledName, hd, hempty, Bool.false_eq_true, if_false, String.toList_append, baseName,
    argTypes, List.map_map]
  simp [Function.comp_def]

theorem getLast_mangledName (hd : d.external = none) (ha : d.args ≠ []) :
    (d.mangledName ts t).toList.getLast? = some '>' := by
  rw [toList_mangledName hd ha, ← List.cons_append, ← List.append_assoc, List.getLast?_concat]

theorem Plain.getLast_baseName (h : d.Plain) (ha : d.args = []) :
    (d.baseName ts t).toList.getLast? ≠ some '>' := by
  rw [baseName, String.toList_append, List.getLast?_append]
  intro hlast
  cases hn : d.name.toList.getLast? with
  | some c =>
    rw [hn, Option.some_or] at hlast
    exact h.bare ha (hn.trans hlast)
  | none =>
    rw [hn, Option.none_or] at hlast
    exact absurd (getLast_ownerName _ hlast) (by decide)

/-- The symbol of the function of one definition tells the receiver type or the owner. -/
theorem ownerName_of_mangledName (hd : d.external = none)
    (h : d.mangledName ts t = d.mangledName ts t') : d.ownerName ts t = d.ownerName ts t' := by
  rcases eq_or_ne d.args [] with ha | ha
  · rw [mangledName_of_nil hd ha, mangledName_of_nil hd ha] at h
    exact (String.append_left_inj _).mp h
  · have hsymbol := congrArg String.toList h
    rw [toList_mangledName hd ha, toList_mangledName hd ha] at hsymbol
    exact (String.append_left_inj _).mp (String.toList_inj.mp (List.append_cancel_right hsymbol))

theorem isName_argNames (hn : ts.PlainNames) : ∀ s ∈ d.argTypes.map ts.name, IsName s.toList :=
  fun s hs => by
    obtain ⟨t, -, rfl⟩ := List.mem_map.mp hs
    exact ts.isName_name hn t

theorem noComma_argNames (hn : ts.PlainNames) : ∀ s ∈ d.argTypes.map ts.name, ',' ∉ s.toList :=
  fun s hs => (isName_argNames hn s hs).noComma

theorem balanced_argNames (hn : ts.PlainNames) :
    Balanced (", ".intercalate (d.argTypes.map ts.name)).toList :=
  .intercalate (.of_notMem (by decide) (by decide)) fun s hs => (isName_argNames hn s hs).balanced

/-- The symbol of a generated function tells the name of the receiver type or the owner, the name of
the definition and the names of the parameter types. -/
theorem mangledName_inj (hn : ts.PlainNames) (hp : d.Plain) (hp' : d'.Plain)
    (h : d.mangledName ts t = d'.mangledName ts t') :
    d.ownerName ts t = d'.ownerName ts t' ∧ d.name = d'.name ∧
      d.argTypes.map ts.name = d'.argTypes.map ts.name := by
  have hparts : (d.baseName ts t).toList = (d'.baseName ts t').toList ∧
      d.argTypes.map ts.name = d'.argTypes.map ts.name := by
    have hd := hp.internal
    have hd' := hp'.internal
    have hsymbol := congrArg String.toList h
    rcases eq_or_ne d.args [] with ha | ha <;> rcases eq_or_ne d'.args [] with ha' | ha'
    · rw [mangledName_of_nil hd ha, mangledName_of_nil hd' ha'] at hsymbol
      simp [argTypes, ha, ha', hsymbol]
    -- A symbol with parameters ends in a bracket, which one without does not.
    · rw [mangledName_of_nil hd ha] at hsymbol
      exact absurd (hsymbol ▸ getLast_mangledName hd' ha') (hp.getLast_baseName ha)
    · rw [mangledName_of_nil hd' ha'] at hsymbol
      exact absurd (hsymbol ▸ getLast_mangledName hd ha) (hp'.getLast_baseName ha')
    · rw [toList_mangledName hd ha, toList_mangledName hd' ha', ← List.cons_append,
        ← List.append_assoc, ← List.cons_append, ← List.append_assoc] at hsymbol
      obtain ⟨hbase, hargs⟩ := append_bracket_inj (balanced_argNames hn) (balanced_argNames hn)
        (List.append_cancel_right hsymbol)
      exact ⟨hbase, intercalate_inj (noComma_argNames hn) (noComma_argNames hn)
        (by simpa [argTypes] using ha) (by simpa [argTypes] using ha') (String.toList_inj.mp hargs)⟩
  obtain ⟨hbase, hargs⟩ := hparts
  rw [baseName, baseName, String.toList_append, String.toList_append] at hbase
  obtain ⟨ho, hname⟩ :=
    append_word_inj getLast_ownerName getLast_ownerName hp.noMark hp'.noMark hbase
  exact ⟨String.toList_inj.mp ho, String.toList_inj.mp hname, hargs⟩

end Def

end Lowering
