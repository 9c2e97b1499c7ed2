import Lowering.Text.Utf8
import Mathlib.Tactic

/-!
# Texts and their bytes

* `Utf8.decodeLossy_bytes`: the bytes of a text are decoded to the text;
* `Utf8.bytes_lt_bytes`: texts are ordered as their bytes are.
-/

namespace Lowering.Utf8

open String (utf8EncodeChar)

theorem toList_loop (bs : ByteArray) (i : Nat) (r : List UInt8) :
    ByteArray.toList.loop bs i r = r.reverse ++ bs.data.toList.drop i := by
  induction i, r using ByteArray.toList.loop.induct bs with
  | case1 i r hi ih =>
    have hi' : i < bs.data.toList.length := by simpa using hi
    rw [ByteArray.toList.loop, if_pos hi, ih, List.drop_eq_getElem_cons hi']
    simp [ByteArray.get!, hi]
  | case2 i r hi =>
    rw [ByteArray.toList.loop, if_neg hi, List.drop_eq_nil_of_le (by simpa using hi),
      List.append_nil]

/-- The bytes of a text are those of its characters. -/
theorem bytes_eq (s : String) : bytes s = s.toList.flatMap utf8EncodeChar := by
  have hbytes : s.toUTF8 = (s.toList.flatMap utf8EncodeChar).toByteArray := by
    conv => lhs; rw [← String.ofList_toList (s := s)]
    rw [String.toUTF8_eq_toByteArray]
    rfl
  rw [bytes, hbytes, ByteArray.toList, toList_loop, List.data_toByteArray]
  simp

/-! ### The bytes of a character -/

/-- A character is no surrogate and no number past the last one. -/
theorem char_valid (c : Char) :
    c.val.toNat < 0xD800 ∨ 0xDFFF < c.val.toNat ∧ c.val.toNat < 0x110000 := c.valid

/-- The bytes of a character, by the number of them. -/
inductive Encoded (c : Char) : List UInt8 → Prop
  | one (h : c.val.toNat ≤ 0x7F) : Encoded c [UInt8.ofNat c.val.toNat]
  | two (lo : 0x7F < c.val.toNat) (hi : c.val.toNat ≤ 0x7FF) : Encoded c
      [UInt8.ofNat (c.val.toNat / 64 % 32 + 192), UInt8.ofNat (c.val.toNat % 64 + 128)]
  | three (lo : 0x7FF < c.val.toNat) (hi : c.val.toNat ≤ 0xFFFF) : Encoded c
      [UInt8.ofNat (c.val.toNat / 4096 % 16 + 224), UInt8.ofNat (c.val.toNat / 64 % 64 + 128),
        UInt8.ofNat (c.val.toNat % 64 + 128)]
  | four (lo : 0xFFFF < c.val.toNat) : Encoded c
      [UInt8.ofNat (c.val.toNat / 262144 % 8 + 240), UInt8.ofNat (c.val.toNat / 4096 % 64 + 128),
        UInt8.ofNat (c.val.toNat / 64 % 64 + 128), UInt8.ofNat (c.val.toNat % 64 + 128)]

theorem encoded_char (c : Char) : Encoded c (utf8EncodeChar c) := by
  unfold utf8EncodeChar
  dsimp only
  split
  · exact .one ‹_›
  · split
    · exact .two (by omega) ‹_›
    · split
      · exact .three (by omega) ‹_›
      · exact .four (by omega)

theorem toNat_ofNat {n : Nat} (h : n < 256) : (UInt8.ofNat n).toNat = n := by
  rw [UInt8.toNat_ofNat', Nat.mod_eq_of_lt h]

theorem isTail_ofNat {n : Nat} : isTail (UInt8.ofNat (n % 64 + 128)) = true := by
  have hn : n % 64 + 128 < 256 := by omega
  simp only [isTail, Bool.and_eq_true, decide_eq_true_eq, UInt8.le_iff_toNat_le, toNat_ofNat hn]
  simp
  omega

theorem low6_ofNat {n : Nat} : low6 (UInt8.ofNat (n % 64 + 128)) = n % 64 := by
  rw [low6, toNat_ofNat (by omega)]
  omega

theorem charsFrom_append (bs rest : List UInt8) :
    charsFrom bs.length (bs ++ rest) = charsFrom 0 rest := by
  induction bs with
  | nil => rfl
  | cons b bs ih => exact ih

/-- The first character of bytes that begin with those of a character. -/
theorem next_encode {c : Char} {b : UInt8} {bs : List UInt8} (h : Encoded c (b :: bs))
    (rest : List UInt8) : next b (bs ++ rest) = (c, bs.length + 1) := by
  have hvalid := char_valid c
  have hchar : Char.ofNat c.val.toNat = c := Char.ofNat_toNat c
  cases h with
  | one h =>
    have hn : c.val.toNat < 256 := by omega
    have hlt : UInt8.ofNat c.val.toNat < 0x80 := by
      rw [UInt8.lt_iff_toNat_lt, toNat_ofNat hn]
      exact Nat.lt_succ_of_le h
    unfold next
    rw [if_pos hlt, toNat_ofNat hn, hchar]
    rfl
  | two lo hi =>
    have hn : c.val.toNat / 64 % 32 + 192 < 256 := by omega
    unfold next
    simp only [UInt8.lt_iff_toNat_lt, UInt8.le_iff_toNat_le, Bool.and_eq_true, decide_eq_true_eq,
      toNat_ofNat hn, UInt8.reduceToNat, List.cons_append, isTail_ofNat, low6_ofNat, if_true]
    rw [if_neg (by omega), if_pos (by omega)]
    have hvalue : (c.val.toNat / 64 % 32 + 192) % 32 * 64 + c.val.toNat % 64 = c.val.toNat := by
      omega
    rw [hvalue, hchar]
    rfl
  | three lo hi =>
    have hn : c.val.toNat / 4096 % 16 + 224 < 256 := by omega
    have hfollows : follows3 (UInt8.ofNat (c.val.toNat / 4096 % 16 + 224))
        (UInt8.ofNat (c.val.toNat / 64 % 64 + 128)) = true := by
      simp only [follows3, isTail, ← UInt8.toNat_inj, UInt8.le_iff_toNat_le, UInt8.toNat_ofNat',
        UInt8.reduceToNat]
      split
      · simp only [Bool.and_eq_true, decide_eq_true_eq]
        omega
      · split <;> simp only [Bool.and_eq_true, decide_eq_true_eq] <;> omega
    unfold next
    simp only [UInt8.lt_iff_toNat_lt, UInt8.le_iff_toNat_le, Bool.and_eq_true, decide_eq_true_eq,
      toNat_ofNat hn, UInt8.reduceToNat, List.cons_append, isTail_ofNat, low6_ofNat, hfollows,
      if_true]
    rw [if_neg (by omega), if_neg (by omega), if_pos (by omega)]
    have hvalue : (c.val.toNat / 4096 % 16 + 224) % 16 * 4096 + c.val.toNat / 64 % 64 * 64 +
        c.val.toNat % 64 = c.val.toNat := by omega
    rw [hvalue, hchar]
    rfl
  | four lo =>
    have hn : c.val.toNat / 262144 % 8 + 240 < 256 := by omega
    have hfollows : follows4 (UInt8.ofNat (c.val.toNat / 262144 % 8 + 240))
        (UInt8.ofNat (c.val.toNat / 4096 % 64 + 128)) = true := by
      simp only [follows4, isTail, ← UInt8.toNat_inj, UInt8.le_iff_toNat_le, UInt8.toNat_ofNat',
        UInt8.reduceToNat]
      split
      · simp only [Bool.and_eq_true, decide_eq_true_eq]
        omega
      · split <;> simp only [Bool.and_eq_true, decide_eq_true_eq] <;> omega
    unfold next
    simp only [UInt8.lt_iff_toNat_lt, UInt8.le_iff_toNat_le, Bool.and_eq_true, decide_eq_true_eq,
      toNat_ofNat hn, UInt8.reduceToNat, List.cons_append, isTail_ofNat, low6_ofNat, hfollows,
      if_true]
    rw [if_neg (by omega), if_neg (by omega), if_neg (by omega), if_pos (by omega)]
    have hvalue : (c.val.toNat / 262144 % 8 + 240) % 8 * 262144 +
        c.val.toNat / 4096 % 64 * 4096 + c.val.toNat / 64 % 64 * 64 + c.val.toNat % 64 =
          c.val.toNat := by omega
    rw [hvalue, hchar]
    rfl

/-- Bytes that begin with those of a character are decoded to the character and the rest. -/
theorem charsFrom_encode (c : Char) (rest : List UInt8) :
    charsFrom 0 (utf8EncodeChar c ++ rest) = c :: charsFrom 0 rest := by
  have h := encoded_char c
  generalize utf8EncodeChar c = bs at h
  obtain ⟨b, bs, rfl⟩ : ∃ b bs', bs = b :: bs' := by cases h <;> exact ⟨_, _, rfl⟩
  show (next b (bs ++ rest)).1 :: charsFrom ((next b (bs ++ rest)).2 - 1) (bs ++ rest) = _
  rw [next_encode h rest]
  show c :: charsFrom bs.length (bs ++ rest) = _
  rw [charsFrom_append]

/-- The bytes of a text are decoded to the text. -/
theorem decodeLossy_bytes (s : String) : decodeLossy (bytes s) = s := by
  have hchars : ∀ cs : List Char, charsFrom 0 (cs.flatMap utf8EncodeChar) = cs := by
    intro cs
    induction cs with
    | nil => rfl
    | cons c cs ih => rw [List.flatMap_cons, charsFrom_encode, ih]
  rw [decodeLossy, bytes_eq, hchars, String.ofList_toList]

/-! ### Order -/

/-- Numbers are ordered as their digits to the base 64 are. -/
theorem digits_lt {a b c d a' b' c' d' : Nat} (hb : b' < 64) (hc : c' < 64) (hd : d' < 64)
    (h : a * 262144 + b * 4096 + c * 64 + d < a' * 262144 + b' * 4096 + c' * 64 + d') :
    a < a' ∨ a = a' ∧ (b < b' ∨ b = b' ∧ (c < c' ∨ c = c' ∧ d < d')) := by
  omega

/-- Bytes that begin with those of a smaller character are smaller. -/
theorem encode_lt {c d : Char} (h : c < d) (xs ys : List UInt8) :
    utf8EncodeChar c ++ xs < utf8EncodeChar d ++ ys := by
  have hlt : c.val.toNat < d.val.toNat := h
  have hc := char_valid c
  have hd := char_valid d
  have hx := encoded_char c
  have hy := encoded_char d
  generalize utf8EncodeChar c = bs at hx
  generalize utf8EncodeChar d = bs' at hy
  cases hx <;> cases hy <;>
    simp (disch := omega) only [List.cons_append, List.nil_append, List.cons_lt_cons_iff,
      UInt8.lt_iff_toNat_lt, ← UInt8.toNat_inj, toNat_ofNat]
  case four.four =>
    have hdigits : ∀ n < 0x110000, n = (n / 262144 % 8) * 262144 + (n / 4096 % 64) * 4096 +
        (n / 64 % 64) * 64 + n % 64 := fun n hn => by omega
    have hless := digits_lt (Nat.mod_lt _ (by decide)) (Nat.mod_lt _ (by decide))
      (Nat.mod_lt _ (by decide)) ((hdigits _ (by omega)).symm.trans_lt (hlt.trans_eq (hdigits _ (by omega))))
    omega
  all_goals omega

theorem bytes_lt_of_lt {s t : String} (h : s < t) : bytes s < bytes t := by
  have hchars : ∀ cs ds : List Char, cs < ds →
      cs.flatMap utf8EncodeChar < ds.flatMap utf8EncodeChar := by
    intro cs ds h
    induction h with
    | @nil d ds =>
      rw [List.flatMap_nil, List.flatMap_cons]
      have hd := encoded_char d
      generalize utf8EncodeChar d = bs at hd
      cases hd <;> exact List.nil_lt_cons _ _
    | rel h =>
      rw [List.flatMap_cons, List.flatMap_cons]
      exact encode_lt h _ _
    | cons h ih =>
      rw [List.flatMap_cons, List.flatMap_cons]
      exact List.append_left_lt ih
  rw [bytes_eq, bytes_eq]
  exact hchars _ _ (String.lt_iff.mp h)

/-- Texts are ordered as their bytes are. -/
theorem bytes_lt_bytes {s t : String} : bytes s < bytes t ↔ s < t := by
  refine ⟨fun h => ?_, bytes_lt_of_lt⟩
  by_contra hst
  by_cases hts : t < s
  · exact List.lt_asymm h (bytes_lt_of_lt hts)
  · obtain rfl := String.le_antisymm (String.not_lt.mp hts) (String.not_lt.mp hst)
    exact List.lt_irrefl _ h

end Lowering.Utf8
