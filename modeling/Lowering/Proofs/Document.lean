import Lowering.Json.Parser
import Lowering.Proofs.Token

/-!
# Reading back what was written

A document that is nested no deeper than the limit is read back from its text as it was.

* `Json.depth`: how deeply arrays and objects are nested;
* `Json.Partial.push_tokens`: the tokens of a value are taken as the value, wherever one may stand;
* `Json.parse?_pretty`.
-/

namespace Lowering.Json

mutual

/-- How deeply arrays and objects are nested in a document. -/
def depth : Json → Nat
  | .array items => itemsDepth items + 1
  | .object fields => fieldsDepth fields + 1
  | _ => 0

/-- The greatest depth of an item. -/
def itemsDepth : List Json → Nat
  | [] => 0
  | j :: rest => max j.depth (itemsDepth rest)

/-- The greatest depth of the value of a field. -/
def fieldsDepth : List (String × Json) → Nat
  | [] => 0
  | (_, j) :: rest => max j.depth (fieldsDepth rest)

end

/-- The items of an array or the values of the fields of an object. -/
def parts : Json → List Json
  | .array items => items
  | .object fields => fields.map Prod.snd
  | _ => []

section

variable {j k : Json}

theorem depth_le_itemsDepth {items : List Json} (h : j ∈ items) : j.depth ≤ itemsDepth items := by
  induction items with
  | nil => cases h
  | cons i rest ih =>
    rcases List.mem_cons.mp h with rfl | h
    · exact Nat.le_max_left _ _
    · exact (ih h).trans (Nat.le_max_right _ _)

theorem depth_le_fieldsDepth {fields : List (String × Json)} {f : String × Json}
    (h : f ∈ fields) : f.2.depth ≤ fieldsDepth fields := by
  induction fields with
  | nil => cases h
  | cons g rest ih =>
    rcases List.mem_cons.mp h with rfl | h
    · exact Nat.le_max_left _ _
    · exact (ih h).trans (Nat.le_max_right _ _)

theorem fieldsDepth_le {fields : List (String × Json)} {n : Nat}
    (h : ∀ f ∈ fields, f.2.depth ≤ n) : fieldsDepth fields ≤ n := by
  induction fields with
  | nil => exact Nat.zero_le n
  | cons f rest ih =>
    obtain ⟨hf, hrest⟩ := List.forall_mem_cons.mp h
    exact Nat.max_le.mpr ⟨hf, ih hrest⟩

theorem depth_lt_of_mem_parts (h : j ∈ k.parts) : j.depth < k.depth := by
  match k, h with
  | .array items, h => exact Nat.lt_succ_of_le (depth_le_itemsDepth h)
  | .object fields, h =>
    obtain ⟨f, hf, rfl⟩ := List.mem_map.mp h
    exact Nat.lt_succ_of_le (depth_le_fieldsDepth hf)

end

namespace Partial

variable {p : Partial} {fs : List Frame} {root : Option Json}

/-- A value may come next. -/
def AtValue (p : Partial) : Prop := p.need = .value ∨ p.need = .itemOrClose

/-- A key may come next. -/
def AtKey (p : Partial) : Prop := p.need = .key ∨ p.need = .keyOrClose

theorem AtValue.push? (h : p.AtValue) {t : Token} (ht : t ≠ .closeArray) :
    p.push? t = p.value? t := by
  rcases h with h | h
  · rw [Partial.push?, h]
  · rw [Partial.push?, h]
    exact if_neg ht

theorem AtKey.push? (h : p.AtKey) {t : Token} (ht : t ≠ .closeObject) : p.push? t = p.key? t := by
  rcases h with h | h
  · rw [Partial.push?, h]
  · rw [Partial.push?, h]
    exact if_neg ht

/-- What is delivered goes by the open containers, not by what may come next. -/
theorem deliver_need (p : Partial) (need : Need) (v : Json) :
    { p with need }.deliver v = p.deliver v := by
  unfold deliver
  rfl

/-- The value of an object whose keys could all be read. -/
theorem objectValue_readable (fields : List (String × Json)) :
    objectValue (fields.map fun f => (some f.1, f.2)).reverse = .object fields := by
  have h : (fields.map fun f => (some f.1, f.2)).mapM
      (fun f : Option String × Json => f.1.map (·, f.2)) = some fields := by
    induction fields with
    | nil => rfl
    | cons f fields ih =>
      rw [List.map_cons, List.mapM_cons, ih]
      rfl
  rw [objectValue, List.reverse_reverse]
  simp only [h]

/-- A container that is not nested too deeply is closed. -/
theorem close_eq (f : Frame) (need : Need) (v : Json) (h : p.frames.length < depthLimit) :
    Partial.close ⟨f :: p.frames, need, p.root⟩ v = p.deliver v := by
  have hlen : (f :: p.frames).length ≤ depthLimit := h
  exact (congrArg (Partial.deliver _) (if_pos hlen)).trans (deliver_need p need v)

/-- The tokens of a key and the colon after it. -/
theorem push_key {before : List (Option String × Json)} {key : Option String} {need : Need}
    (hp : AtKey ⟨.object before key :: fs, need, root⟩) (k : String) (ts : List Token) :
    (.string (some k) :: .colon :: ts).foldlM push? ⟨.object before key :: fs, need, root⟩ =
      ts.foldlM push? ⟨.object before (some k) :: fs, .value, root⟩ := by
  rw [List.foldlM_cons, hp.push? (by simp)]
  rfl

mutual

/-- The tokens of a value are taken as the value. -/
theorem push_tokens : ∀ (j : Json) (p : Partial), j.Survives → p.AtValue →
    p.frames.length + j.depth ≤ depthLimit → j.tokens.foldlM push? p = some (p.deliver j)
  | .null, p, _, hp, _ => by simp [tokens, hp.push?, value?]
  | .bool b, p, _, hp, _ => by simp [tokens, hp.push?, value?]
  | .number n, p, _, hp, _ => by simp [tokens, hp.push?, value?]
  | .string s, p, _, hp, _ => by simp [tokens, hp.push?, value?]
  | .array items, p, h, hp, hdepth => by
    rw [depth] at hdepth
    have hopen : p.push? .openArray = some ⟨.array [] :: p.frames, .itemOrClose, p.root⟩ := by
      rw [hp.push? (by decide)]
      rfl
    rw [tokens, List.cons_append, List.foldlM_cons, hopen]
    show List.foldlM push? _ _ = _
    rw [List.foldlM_append]
    cases items with
    | nil =>
      rw [itemTokens, List.foldlM_nil]
      refine congrArg some (close_eq _ _ _ (by omega))
    | cons j rest =>
      rw [push_items (j :: rest) (List.cons_ne_nil j rest) [] p.frames _ p.root h (.inr rfl)
        (by omega)]
      refine congrArg some ((close_eq _ _ _ (by omega)).trans ?_)
      rw [List.append_nil, List.reverse_reverse]
  | .object fields, p, h, hp, hdepth => by
    rw [depth] at hdepth
    have hopen : p.push? .openObject = some ⟨.object [] none :: p.frames, .keyOrClose, p.root⟩ := by
      rw [hp.push? (by decide)]
      rfl
    rw [tokens, List.cons_append, List.foldlM_cons, hopen]
    show List.foldlM push? _ _ = _
    rw [List.foldlM_append]
    cases fields with
    | nil =>
      rw [fieldTokens, List.foldlM_nil]
      refine congrArg some (close_eq _ _ _ (by omega))
    | cons f rest =>
      rw [push_fields (f :: rest) (List.cons_ne_nil f rest) [] none p.frames _ p.root h (.inr rfl)
        (by omega)]
      refine congrArg some ((close_eq _ _ _ (by omega)).trans ?_)
      rw [List.append_nil, objectValue_readable]
  | .unreadable, _, h, _, _ => h.elim

/-- The tokens of items are taken as items of the innermost array. -/
theorem push_items : ∀ (items : List Json), items ≠ [] → ∀ (before : List Json) (fs : List Frame)
    (need : Need) (root : Option Json), AllSurvive items →
    AtValue ⟨.array before :: fs, need, root⟩ → fs.length + 1 + itemsDepth items ≤ depthLimit →
    (itemTokens items).foldlM push? ⟨.array before :: fs, need, root⟩ =
      some ⟨.array (items.reverse ++ before) :: fs, .separator, root⟩
  | [], h, _, _, _, _, _, _, _ => absurd rfl h
  | [j], _, before, fs, need, root, h, hp, hdepth => by
    rw [itemsDepth, itemsDepth, Nat.max_zero] at hdepth
    rw [itemTokens, push_tokens j _ h.1 hp hdepth]
    rfl
  | j :: k :: rest, _, before, fs, need, root, h, hp, hdepth => by
    rw [itemsDepth] at hdepth
    have htokens : itemTokens (j :: k :: rest) = j.tokens ++ .comma :: itemTokens (k :: rest) := rfl
    rw [htokens, List.foldlM_append,
      push_tokens j _ h.1 hp (by simp only [List.length_cons]; omega)]
    refine (push_items (k :: rest) (List.cons_ne_nil k rest) (j :: before) fs .value root h.2
      (.inl rfl) (by omega)).trans ?_
    rw [List.reverse_cons (a := j), List.append_assoc]
    rfl

/-- The tokens of fields are taken as fields of the innermost object. -/
theorem push_fields : ∀ (fields : List (String × Json)), fields ≠ [] →
    ∀ (before : List (Option String × Json)) (key : Option String) (fs : List Frame) (need : Need)
    (root : Option Json), FieldsSurvive fields → AtKey ⟨.object before key :: fs, need, root⟩ →
    fs.length + 1 + fieldsDepth fields ≤ depthLimit →
    (fieldTokens fields).foldlM push? ⟨.object before key :: fs, need, root⟩ =
      some ⟨.object ((fields.map fun f => (some f.1, f.2)).reverse ++ before) none :: fs,
        .separator, root⟩
  | [], h, _, _, _, _, _, _, _, _ => absurd rfl h
  | [(k, j)], _, before, key, fs, need, root, h, hp, hdepth => by
    rw [fieldsDepth, fieldsDepth, Nat.max_zero] at hdepth
    rw [fieldTokens, push_key hp]
    rw [push_tokens j ⟨.object before (some k) :: fs, .value, root⟩ h.1 (.inl rfl) hdepth]
    rfl
  | (k, j) :: f :: rest, _, before, key, fs, need, root, h, hp, hdepth => by
    rw [fieldsDepth] at hdepth
    have htokens : fieldTokens ((k, j) :: f :: rest) =
        .string (some k) :: .colon :: (j.tokens ++ .comma :: fieldTokens (f :: rest)) := rfl
    have hj : (Partial.frames ⟨.object before (some k) :: fs, .value, root⟩).length + j.depth ≤
        depthLimit := by
      simp only [List.length_cons]
      omega
    rw [htokens, push_key hp, List.foldlM_append, push_tokens j _ h.1 (.inl rfl) hj]
    refine (push_fields (f :: rest) (List.cons_ne_nil f rest) ((some k, j) :: before) none fs .key
      root h.2 (.inl rfl) (by omega)).trans ?_
    rw [List.map_cons (a := (k, j)), List.reverse_cons, List.append_assoc]
    rfl

end

end Partial

/-- A document is read back from its text. -/
theorem parse?_pretty {j : Json} (h : j.Survives) (hdepth : j.depth ≤ depthLimit) :
    parse? j.pretty = some j := by
  have hpush := Partial.push_tokens j .empty h (.inl rfl) ((Nat.zero_add _).trans_le hdepth)
  rw [parse?, tokens?_pretty h]
  show (j.tokens.foldlM Partial.push? .empty).bind Partial.document? = _
  rw [hpush]
  rfl

end Lowering.Json
