import Mathlib.Data.List.TakeWhile
import Mathlib.Tactic
import Lowering.Json.Printer
import Lowering.Json.Token

/-!
# Tokens of written documents

A written document is cut into the tokens that it was written for.

* `Json.Number.Survives`: the text of a number is read as the number, as it is for every integer
  that fits;
* `Json.Lexes`, `Json.LexesFully`: what the pass over a text makes of a part of it, with a rule for
  each kind of part;
* `Json.tokens`, `Json.tokens?_pretty`: the tokens of a document and of its text.
-/

namespace Lowering.Json

/-! ### Numerals -/

/-- The text of a number is read as the number. -/
def Number.Survives (n : Number) : Prop := Number.ofNumeral? n.text.toList = some (some n)

instance (n : Number) : Decidable n.Survives := inferInstanceAs (Decidable (_ = _))

theorem digitValue_digitChar {d : Nat} (h : d < 10) : digitValue d.digitChar = d := by
  rw [digitValue, Nat.toNat_digitChar_of_lt_ten h]
  exact Nat.add_sub_cancel_left 48 d

theorem isDigit_of_mem_toDigits {n : Nat} {c : Char} (h : c ∈ Nat.toDigits 10 n) :
    c.isDigit = true :=
  Nat.isDigit_of_mem_toDigits (by decide) le_rfl h

/-- The digits of a number that fits are all kept. -/
theorem pushWhole_toDigits {n : Nat} (h : n < twoTo 64) :
    (Nat.toDigits 10 n).foldl Leading.pushWhole .empty = ⟨n, 0, false⟩ := by
  have hpush : ∀ {m d}, d < 10 → 10 * m + d < twoTo 64 →
      Leading.pushWhole ⟨m, 0, false⟩ d.digitChar = ⟨10 * m + d, 0, false⟩ := by
    intro m d hd hm
    have hfits : Leading.fits ⟨m, 0, false⟩ d.digitChar = true := by
      simp only [Leading.fits, digitValue_digitChar hd, Bool.not_false, Bool.true_and,
        decide_eq_true hm]
    rw [Leading.pushWhole, if_pos hfits, digitValue_digitChar hd]
  induction n using Nat.strong_induction_on with
  | _ n ih =>
    by_cases hn : n < 10
    · rw [Nat.toDigits_of_lt_base hn]
      have h0 := hpush (m := 0) hn (by omega)
      rw [Nat.mul_zero, Nat.zero_add] at h0
      exact h0
    · have hmod : n % 10 < 10 := Nat.mod_lt n (by decide)
      rw [Nat.toDigits_of_base_le (by decide) (Nat.le_of_not_lt hn), List.foldl_append,
        ih (n / 10) (by omega) (by omega)]
      exact (hpush hmod (by omega)).trans (by rw [Nat.div_add_mod])

/-- No number begins with a zero but zero itself. -/
theorem head?_toDigits (n : Nat) (h : (Nat.toDigits 10 n).head? = some '0') :
    Nat.toDigits 10 n = ['0'] := by
  induction n using Nat.strong_induction_on with
  | _ n ih =>
    by_cases hn : n < 10
    · rw [Nat.toDigits_of_lt_base hn] at h ⊢
      exact congrArg ([·]) (Option.some.inj h)
    · have hle := Nat.le_of_not_lt hn
      rw [Nat.toDigits_of_base_le (by decide) hle] at h
      rw [List.head?_append_of_ne_nil _ Nat.toDigits_ne_nil] at h
      have h10 := ih (n / 10) (by omega) h
      -- the number without its last digit is not zero
      have hzero : n / 10 = 0 := by
        have hof := Nat.ofDigitChars_toDigits (b := 10) (n := n / 10) (by decide) le_rfl
        rw [h10] at hof
        exact hof.symm
      omega

/-- The value of the digits of a number after its sign. -/
theorem ofNumeral?_digits {n : Nat} (h : n < twoTo 64) (negative : Bool) :
    Number.ofNumeral? ((if negative then ['-'] else []) ++ Nat.toDigits 10 n) =
      some (some (Number.ofInteger negative n)) := by
  have hdigit : ∀ c ∈ Nat.toDigits 10 n, c.isDigit = true := fun c => isDigit_of_mem_toDigits
  have hpush := pushWhole_toDigits h
  have hzero := head?_toDigits n
  obtain ⟨c, cs, hcs⟩ := List.exists_cons_of_ne_nil (Nat.toDigits_ne_nil (n := n) (b := 10))
  rw [hcs] at hdigit hpush hzero ⊢
  have hall : (c :: cs).takeWhile Char.isDigit = c :: cs := by
    rw [← List.append_nil (c :: cs), List.takeWhile_append_of_pos hdigit]
    rfl
  have hnone : (c :: cs).dropWhile Char.isDigit = [] := by
    rw [← List.append_nil (c :: cs), List.dropWhile_append_of_pos hdigit]
    rfl
  have hhead : c = '0' → cs = [] := fun hc => (List.cons_eq_cons.mp (hzero (congrArg _ hc))).2
  have hsign : c ≠ '-' := by
    rintro rfl
    cases hdigit '-' List.mem_cons_self
  have hvalue : ∀ negative, Number.ofDigits negative (c :: cs) none none =
      some (Number.ofInteger negative n) := fun negative => by
    simp only [Number.ofDigits, hpush, Bool.false_eq_true, if_false]
  cases negative <;>
  · simp [Number.ofNumeral?, hsign, hall, hnone, Number.fraction?, Number.exponent?, hvalue]
    exact hhead

/-- The integers that fit are read as they were written. -/
theorem survives_integer {n : Int} (hlow : -twoTo 63 ≤ n) (hhigh : n < twoTo 64) :
    (Number.integer n).Survives := by
  have htext : (Number.integer n).text = n.repr := rfl
  rw [Number.Survives, htext]
  cases n with
  | ofNat m =>
    have hm : m < twoTo 64 := Int.ofNat_lt.mp hhigh
    have h := ofNumeral?_digits hm false
    rw [show (Int.ofNat m).repr.toList = Nat.toDigits 10 m from Nat.toList_repr]
    exact h
  | negSucc m =>
    have hm : m + 1 ≤ twoTo 63 := by
      have : ((m + 1 : Nat) : Int) ≤ twoTo 63 := by
        rw [Int.negSucc_eq] at hlow
        push_cast
        omega
      exact_mod_cast this
    have hlt : twoTo 63 < twoTo 64 := by decide
    have h := ofNumeral?_digits (n := m + 1) (by omega) true
    have hrepr : (Int.negSucc m).repr.toList = ['-'] ++ Nat.toDigits 10 (m + 1) := by
      show ("-" ++ (m + 1).repr).toList = _
      rw [String.toList_append, Nat.toList_repr]
      rfl
    rw [hrepr]
    refine h.trans ?_
    rw [Number.ofInteger, if_pos rfl, if_neg (by omega), Int.negSucc_eq]
    push_cast
    rfl

/-! ### What a numeral is made of -/

theorem isNumeral_of_isDigit {c : Char} (h : c.isDigit = true) : isNumeral c = true := by
  simp [isNumeral, h]

theorem isNumeral_of_exponent? {cs : List Char} {e : Option Int}
    (h : Number.exponent? cs = some e) : ∀ c ∈ cs, isNumeral c = true := by
  have hdigits : ∀ {ds : List Char} {r : Option (Option Int)},
      (if ds.isEmpty || !ds.all Char.isDigit then none else r) = some e →
        ∀ c ∈ ds, isNumeral c = true := fun {ds r} hr c hc => by
    split at hr
    · cases hr
    · next hall =>
      rw [Bool.or_eq_true, not_or, Bool.not_eq_true', Bool.not_eq_false, List.all_eq_true] at hall
      exact isNumeral_of_isDigit (hall.2 c hc)
  unfold Number.exponent? at h
  split at h
  · nofun
  · split at h
    · next he =>
      refine List.forall_mem_cons.mpr ⟨by rcases he with rfl | rfl <;> rfl, ?_⟩
      dsimp only at h
      split at h
      · exact List.forall_mem_cons.mpr ⟨rfl, hdigits h⟩
      · exact List.forall_mem_cons.mpr ⟨rfl, hdigits h⟩
      · exact hdigits h
    · cases h

/-- The digits of a numeral before another part. -/
theorem isNumeral_of_dropWhile {cs : List Char}
    (h : ∀ c ∈ cs.dropWhile Char.isDigit, isNumeral c = true) : ∀ c ∈ cs, isNumeral c = true := by
  intro c hc
  rw [← List.takeWhile_append_dropWhile (p := Char.isDigit) (l := cs)] at hc
  rcases List.mem_append.mp hc with hc | hc
  · exact isNumeral_of_isDigit (List.mem_takeWhile_imp hc)
  · exact h c hc

theorem isNumeral_of_fraction? {cs rest : List Char} {f : Option (List Char)}
    (h : Number.fraction? cs = some (f, rest)) (hrest : ∀ c ∈ rest, isNumeral c = true) :
    ∀ c ∈ cs, isNumeral c = true := by
  unfold Number.fraction? at h
  split at h
  · next cs =>
    dsimp only at h
    split at h
    · cases h
    · obtain ⟨-, rfl⟩ := Prod.mk.inj (Option.some.inj h)
      exact List.forall_mem_cons.mpr ⟨rfl, isNumeral_of_dropWhile hrest⟩
  · obtain ⟨-, rfl⟩ := Prod.mk.inj (Option.some.inj h)
    exact hrest

/-- A numeral begins with a sign or a digit, and no other character than those of numerals is
part of it. -/
theorem isNumeral_of_ofNumeral? {cs : List Char} {v : Option Number}
    (h : Number.ofNumeral? cs = some v) :
    (∃ c rest, cs = c :: rest ∧ (c = '-' ∨ c.isDigit = true)) ∧
      ∀ c ∈ cs, isNumeral c = true := by
  unfold Number.ofNumeral? at h
  split at h
  next negative ds hds =>
  dsimp only at h
  split at h
  · cases h
  · next hwhole =>
    obtain ⟨⟨fraction, rest⟩, hfraction, h⟩ := Option.bind_eq_some_iff.mp h
    obtain ⟨exponent, hexponent, -⟩ := Option.bind_eq_some_iff.mp h
    have hall : ∀ c ∈ ds, isNumeral c = true :=
      isNumeral_of_dropWhile (isNumeral_of_fraction? hfraction (isNumeral_of_exponent? hexponent))
    have hstart : ∃ c rest, ds = c :: rest ∧ c.isDigit = true := by
      match ds with
      | [] => exact absurd rfl hwhole
      | c :: ds =>
        refine ⟨c, ds, rfl, ?_⟩
        by_contra hc
        rw [List.takeWhile_cons_of_neg hc] at hwhole
        exact hwhole rfl
    split at hds
    · obtain ⟨rfl, rfl⟩ := Prod.mk.inj hds
      exact ⟨⟨'-', _, rfl, .inl rfl⟩, List.forall_mem_cons.mpr ⟨rfl, hall⟩⟩
    · obtain ⟨rfl, rfl⟩ := Prod.mk.inj hds
      obtain ⟨c, rest, hc, hdigit⟩ := hstart
      exact ⟨⟨c, rest, hc, .inr hdigit⟩, hall⟩

/-! ### The pass over a text -/

section

variable {pass : Mode × List Token} {cs ds : List Char} {ts us : List Token} {c : Char} {t : Token}

/-- The pass can end where it stands, with these tokens. -/
def Settled (pass : Mode × List Token) (ts : List Token) : Prop :=
  ∃ ended, finish? pass.1 = some ended ∧ pass.2.reverse ++ ended = ts

/-- A character that ends words and numerals and stands for tokens of its own. -/
structure Delimits (c : Char) (us : List Token) : Prop where
  alpha : c.isAlpha = false
  numeral : isNumeral c = false
  start : start? c = some (.between, us)

theorem Settled.take? (h : Settled pass ts) (hc : Delimits c us) :
    take? pass c = some (.between, (ts ++ us).reverse) := by
  obtain ⟨ended, hended, rfl⟩ := h
  have hnext : ∀ {mode}, finish? mode = some ended →
      advance?.next? c mode = some (.between, ended ++ us) := fun hm => by
    simp [advance?.next?, hm, hc.start]
  have hadvance : advance? pass.1 c = some (.between, ended ++ us) := by
    match hmode : pass.1, hended with
    | .between, hended =>
      obtain rfl := Option.some.inj hended
      exact hc.start
    | .word read, hended =>
      rw [advance?, if_neg (Bool.eq_false_iff.mp hc.alpha), hnext hended]
    | .numeral read, hended =>
      rw [advance?, if_neg (Bool.eq_false_iff.mp hc.numeral), hnext hended]
  rw [Json.take?, hadvance]
  simp

/-- The pass over a text, which may leave a word or numeral open at the end. -/
def Lexes (cs : List Char) (ts : List Token) : Prop :=
  ∀ made, ∃ pass, cs.foldlM Json.take? (.between, made) = some pass ∧
    Settled pass (made.reverse ++ ts)

/-- The pass over a text, which leaves no token open at the end. -/
def LexesFully (cs : List Char) (ts : List Token) : Prop :=
  ∀ made, cs.foldlM Json.take? (.between, made) = some (.between, ts.reverse ++ made)

theorem LexesFully.lexes (h : LexesFully cs ts) : Lexes cs ts := fun made =>
  ⟨_, h made, [], rfl, by simp⟩

theorem lexesFully_nil : LexesFully [] [] := fun _ => rfl

theorem LexesFully.append (h : LexesFully cs ts) (h' : LexesFully ds us) :
    LexesFully (cs ++ ds) (ts ++ us) := fun made => by
  rw [List.foldlM_append, h made]
  exact (h' _).trans (by rw [List.reverse_append, List.append_assoc])

theorem LexesFully.append_lexes (h : LexesFully cs ts) (h' : Lexes ds us) :
    Lexes (cs ++ ds) (ts ++ us) := fun made => by
  obtain ⟨pass, hpass, hsettled⟩ := h' (ts.reverse ++ made)
  refine ⟨pass, ?_, ?_⟩
  · rw [List.foldlM_append, h made]
    exact hpass
  · rwa [List.reverse_append, List.reverse_reverse, List.append_assoc] at hsettled

theorem Lexes.delimit (h : Lexes cs ts) (hc : Delimits c us) :
    LexesFully (cs ++ [c]) (ts ++ us) := fun made => by
  obtain ⟨pass, hpass, hsettled⟩ := h made
  rw [List.foldlM_append, hpass]
  simp [hsettled.take? hc, List.append_assoc]

theorem Delimits.lexesFully (hc : Delimits c us) : LexesFully [c] us :=
  lexesFully_nil.lexes.delimit hc

theorem delimits_blank : Delimits ' ' [] := ⟨rfl, rfl, rfl⟩

theorem delimits_newline : Delimits '\n' [] := ⟨rfl, rfl, rfl⟩

theorem delimits_comma : Delimits ',' [.comma] := ⟨rfl, rfl, rfl⟩

theorem delimits_colon : Delimits ':' [.colon] := ⟨rfl, rfl, rfl⟩

theorem delimits_openArray : Delimits '[' [.openArray] := ⟨rfl, rfl, rfl⟩

theorem delimits_closeArray : Delimits ']' [.closeArray] := ⟨rfl, rfl, rfl⟩

theorem delimits_openObject : Delimits '\x7b' [.openObject] := ⟨rfl, rfl, rfl⟩

theorem delimits_closeObject : Delimits '\x7d' [.closeObject] := ⟨rfl, rfl, rfl⟩

theorem lexesFully_indent (level : Nat) : LexesFully (indent level).toList [] := by
  rw [indent, String.toList_ofList]
  induction 2 * level with
  | zero => exact lexesFully_nil
  | succ n ih => exact delimits_blank.lexesFully.append ih

/-! ### Words and numbers -/

theorem foldlM_word (made : List Token) (read : List Char) (hcs : ∀ c ∈ cs, c.isAlpha = true) :
    cs.foldlM Json.take? (.word read, made) = some (.word (cs.reverse ++ read), made) := by
  induction cs generalizing read with
  | nil => rfl
  | cons c cs ih =>
    obtain ⟨hc, hcs⟩ := List.forall_mem_cons.mp hcs
    rw [List.foldlM_cons, Json.take?, advance?, if_pos hc]
    exact (ih (c :: read) hcs).trans (by simp)

theorem foldlM_numeral (made : List Token) (read : List Char)
    (hcs : ∀ c ∈ cs, isNumeral c = true) :
    cs.foldlM Json.take? (.numeral read, made) = some (.numeral (cs.reverse ++ read), made) := by
  induction cs generalizing read with
  | nil => rfl
  | cons c cs ih =>
    obtain ⟨hc, hcs⟩ := List.forall_mem_cons.mp hcs
    rw [List.foldlM_cons, Json.take?, advance?, if_pos hc]
    exact (ih (c :: read) hcs).trans (by simp)

theorem lexes_word (hstart : start? c = some (.word [c], [])) (hcs : cs.all (·.isAlpha) = true)
    (ht : wordToken? (c :: cs) = some t) : Lexes (c :: cs) [t] := fun made => by
  refine ⟨(.word (cs.reverse ++ [c]), made), ?_, [t], ?_, rfl⟩
  · rw [List.foldlM_cons, Json.take?, advance?, hstart]
    exact foldlM_word made [c] (List.all_eq_true.mp hcs)
  · simp [finish?, ht]

theorem start?_numeral (hc : c = '-' ∨ c.isDigit = true) :
    start? c = some (.numeral [c], []) := by
  rcases hc with rfl | hc
  · rfl
  · have hne : ∀ {d : Char}, d.isDigit = false → c ≠ d := fun hd h => by
      rw [h, hd] at hc
      cases hc
    rw [start?, if_neg (by simp [hne]), if_neg (hne rfl), if_neg (hne rfl), if_neg (hne rfl),
      if_neg (hne rfl), if_neg (hne rfl), if_neg (hne rfl), if_neg (hne rfl), if_pos (.inr hc)]

theorem lexes_number {n : Number} (h : n.Survives) : Lexes n.text.toList [.number (some n)] := by
  obtain ⟨⟨c, rest, hcs, hc⟩, hall⟩ := isNumeral_of_ofNumeral? h
  rw [Number.Survives] at h
  rw [hcs] at h hall ⊢
  intro made
  refine ⟨(.numeral (rest.reverse ++ [c]), made), ?_, [.number (some n)], ?_, rfl⟩
  · rw [List.foldlM_cons, Json.take?, advance?, start?_numeral hc]
    exact foldlM_numeral made [c] (List.forall_mem_cons.mp hall).2
  · simp [finish?, h]

/-! ### Texts between quotation marks -/

theorem hexValue?_hexDigit {n : Nat} (h : n < 16) : hexValue? (hexDigit n) = some n := by
  have hall : ∀ m < 16, hexValue? (hexDigit m) = some m := by decide
  exact hall n h

/-- A character that is written in four hexadecimal digits. -/
theorem foldlM_unit (made : List Token) (read : List Piece) (hc : c.toNat < 0x20) :
    ['\\', 'u', '0', '0', hexDigit (c.toNat / 16), hexDigit (c.toNat % 16)].foldlM Json.take?
      (.text read, made) = some (.text (.char c :: read), made) := by
  have hzero : hexValue? '0' = some 0 := rfl
  have hhigh := hexValue?_hexDigit (n := c.toNat / 16) (by omega)
  have hlow := hexValue?_hexDigit (n := c.toNat % 16) (by omega)
  have hsum : 16 * (c.toNat / 16) + c.toNat % 16 = c.toNat := Nat.div_add_mod _ _
  have hunit : Piece.ofUnit c.toNat = .char c := by
    rw [Piece.ofUnit, if_neg (by omega), Char.ofNat_toNat]
  simp [List.foldlM_cons, Json.take?, advance?, hzero, hhigh, hlow, hsum, hunit]

theorem foldlM_escape (made : List Token) (read : List Piece) (c : Char) :
    (escape c).foldlM Json.take? (.text read, made) = some (.text (.char c :: read), made) := by
  by_cases hcontrol : c.toNat < 0x20
  · unfold escape
    split_ifs with h1 h2 h3 h4 h5 h6 h7
    all_goals first
      | exact foldlM_unit made read hcontrol
      | (subst_vars; rfl)
  · unfold escape
    split_ifs with h1 h2 h3 h4 h5 h6 h7
    all_goals first
      | (subst_vars; rfl)
      | simp [Json.take?, advance?, h1, h2, hcontrol]

theorem joinPieces_map_char (cs : List Char) : joinPieces (cs.map Piece.char) = some cs := by
  induction cs with
  | nil => rfl
  | cons c cs ih => simp [joinPieces, ih]

theorem foldlM_escapes (made : List Token) (read : List Piece) (cs : List Char) :
    (cs.flatMap escape).foldlM Json.take? (.text read, made) =
      some (.text ((cs.map Piece.char).reverse ++ read), made) := by
  induction cs generalizing read with
  | nil => rfl
  | cons c cs ih =>
    rw [List.flatMap_cons, List.foldlM_append, foldlM_escape]
    exact (ih _).trans (by simp)

theorem lexesFully_quote (s : String) : LexesFully (quote s).toList [.string (some s)] := by
  intro made
  have hlist : (quote s).toList = '"' :: (s.toList.flatMap escape ++ ['"']) := by
    simp [quote]
  have hopen : Json.take? (.between, made) '"' = some (.text [], made) := rfl
  rw [hlist, List.foldlM_cons, hopen]
  show (s.toList.flatMap escape ++ ['"']).foldlM Json.take? _ = _
  rw [List.foldlM_append, foldlM_escapes]
  simp [Json.take?, advance?, joinPieces_map_char]

end

/-! ### Documents -/

mutual

/-- The tokens of a document. -/
def tokens : Json → List Token
  | .null | .unreadable => [.null]
  | .bool b => [.bool b]
  | .number n => [.number (some n)]
  | .string s => [.string (some s)]
  | .array items => .openArray :: itemTokens items ++ [.closeArray]
  | .object fields => .openObject :: fieldTokens fields ++ [.closeObject]

/-- The tokens of items, with commas between them. -/
def itemTokens : List Json → List Token
  | [] => []
  | [j] => j.tokens
  | j :: rest => j.tokens ++ .comma :: itemTokens rest

/-- The tokens of fields, with commas between them. -/
def fieldTokens : List (String × Json) → List Token
  | [] => []
  | [(k, j)] => .string (some k) :: .colon :: j.tokens
  | (k, j) :: rest => .string (some k) :: .colon :: j.tokens ++ .comma :: fieldTokens rest

end

mutual

/-- Every number of the document survives, and no part of it is unreadable. -/
def Survives : Json → Prop
  | .number n => n.Survives
  | .array items => AllSurvive items
  | .object fields => FieldsSurvive fields
  | .unreadable => False
  | _ => True

/-- Every item survives. -/
def AllSurvive : List Json → Prop
  | [] => True
  | j :: rest => j.Survives ∧ AllSurvive rest

/-- The value of every field survives. -/
def FieldsSurvive : List (String × Json) → Prop
  | [] => True
  | (_, j) :: rest => j.Survives ∧ FieldsSurvive rest

end

/-- Brackets around what is written on lines of its own. -/
theorem lexes_bracketed {opening closing : Char} {start stop : Token} {text : String}
    {ts : List Token} (ho : Delimits opening [start]) (hc : Delimits closing [stop])
    (h : Lexes text.toList ts) (level : Nat) :
    Lexes (String.ofList [opening, '\n'] ++ text ++ "\n" ++ indent level ++
      String.ofList [closing]).toList (start :: ts ++ [stop]) := by
  have hopen := (ho.lexesFully.append delimits_newline.lexesFully).append_lexes h
  have hclose := (hopen.delimit delimits_newline).append (lexesFully_indent level)
  have hall := (hclose.append hc.lexesFully).lexes
  simpa using hall

mutual

theorem lexes_prettyAt (level : Nat) : ∀ j : Json, j.Survives →
    Lexes (j.prettyAt level).toList j.tokens
  | .null, _ => by
    have h : Lexes ['n', 'u', 'l', 'l'] [.null] := lexes_word rfl rfl rfl
    simpa [prettyAt, tokens] using h
  | .bool true, _ => by
    have h : Lexes ['t', 'r', 'u', 'e'] [.bool true] := lexes_word rfl rfl rfl
    simpa [prettyAt, tokens] using h
  | .bool false, _ => by
    have h : Lexes ['f', 'a', 'l', 's', 'e'] [.bool false] := lexes_word rfl rfl rfl
    simpa [prettyAt, tokens] using h
  | .number _, h => lexes_number h
  | .string s, _ => (lexesFully_quote s).lexes
  | .array [], _ => by
    have h := (delimits_openArray.lexesFully.append delimits_closeArray.lexesFully).lexes
    simpa [prettyAt, tokens, itemTokens] using h
  | .array (j :: rest), h =>
    lexes_bracketed delimits_openArray delimits_closeArray
      (lexes_prettyItems (level + 1) (j :: rest) h) level
  | .object [], _ => by
    have h := (delimits_openObject.lexesFully.append delimits_closeObject.lexesFully).lexes
    simpa [prettyAt, tokens, fieldTokens] using h
  | .object (f :: rest), h =>
    lexes_bracketed delimits_openObject delimits_closeObject
      (lexes_prettyFields (level + 1) (f :: rest) h) level
  | .unreadable, h => h.elim

theorem lexes_prettyItems (level : Nat) : ∀ items : List Json, AllSurvive items →
    Lexes (prettyItems level items).toList (itemTokens items)
  | [], _ => lexesFully_nil.lexes
  | [j], h => by
    rw [prettyItems, String.toList_append]
    exact (lexesFully_indent level).append_lexes (lexes_prettyAt level j h.1)
  | j :: k :: rest, h => by
    have hj := (lexesFully_indent level).append_lexes (lexes_prettyAt level j h.1)
    have hcomma := (hj.delimit delimits_comma).append delimits_newline.lexesFully
    have hall := hcomma.append_lexes (lexes_prettyItems level (k :: rest) h.2)
    simpa [prettyItems, itemTokens] using hall

theorem lexes_prettyFields (level : Nat) : ∀ fields : List (String × Json), FieldsSurvive fields →
    Lexes (prettyFields level fields).toList (fieldTokens fields)
  | [], _ => lexesFully_nil.lexes
  | [(k, j)], h => by
    have hkey := (lexesFully_indent level).append (lexesFully_quote k)
    have hcolon := (hkey.lexes.delimit delimits_colon).append delimits_blank.lexesFully
    have hall := hcolon.append_lexes (lexes_prettyAt level j h.1)
    simpa [prettyFields, fieldTokens] using hall
  | (k, j) :: f :: rest, h => by
    have hkey := (lexesFully_indent level).append (lexesFully_quote k)
    have hcolon := (hkey.lexes.delimit delimits_colon).append delimits_blank.lexesFully
    have hj := hcolon.append_lexes (lexes_prettyAt level j h.1)
    have hcomma := (hj.delimit delimits_comma).append delimits_newline.lexesFully
    have hall := hcomma.append_lexes (lexes_prettyFields level (f :: rest) h.2)
    simpa [prettyFields, fieldTokens] using hall

end

/-- The text of a document is cut into the tokens of the document. -/
theorem tokens?_pretty {j : Json} (h : j.Survives) : tokens? j.pretty = some j.tokens := by
  obtain ⟨pass, hpass, ended, hended, htokens⟩ := lexes_prettyAt 0 j h []
  rw [tokens?, pretty, hpass]
  simp [hended, htokens]

end Lowering.Json
