import Mathlib.Data.String.Basic

set_option autoImplicit false

/-! # The order of texts

Texts are ordered by their code points, lexicographically. Bytes give the same order: in UTF-8 the
bytes of a character are in front of those of every character with a larger code point, whatever
follows either of them (`utf8EncodeChar_append_lt`). So it does not matter whether texts are compared
as code points or as the bytes that they are stored as.
-/

namespace RowQuery.Text

/-- The code points of a text. -/
def codePoints (s : String) : List Nat := s.toList.map Char.toNat

/-- The bytes of a text in UTF-8. -/
def bytes (s : String) : List UInt8 := s.toByteArray.data.toList

/-! ## One character -/

theorem ofNat_lt_ofNat_iff {m n : Nat} (hm : m < 256) (hn : n < 256) :
    UInt8.ofNat m < UInt8.ofNat n ↔ m < n := by
  rw [UInt8.lt_iff_toNat_lt, UInt8.toNat_ofNat_of_lt' hm, UInt8.toNat_ofNat_of_lt' hn]

theorem ofNat_eq_ofNat_iff {m n : Nat} (hm : m < 256) (hn : n < 256) :
    UInt8.ofNat m = UInt8.ofNat n ↔ m = n := by
  rw [← UInt8.toNat_inj, UInt8.toNat_ofNat_of_lt' hm, UInt8.toNat_ofNat_of_lt' hn]

theorem toNat_lt (c : Char) : c.val.toNat < 0x110000 := by
  rcases c.valid with h | ⟨-, h⟩
  · exact Nat.lt_trans h (by decide)
  · exact h

theorem digit_lt {m n : Nat} (h : m < n) : m / 64 < n / 64 ∨ m / 64 = n / 64 ∧ m % 64 < n % 64 := by
  omega

/-- Of two numbers the smaller one is in front in the order of their digits to the base 64. -/
theorem digits_lt {m n : Nat} (h : m < n) :
    m / 262144 < n / 262144 ∨ m / 262144 = n / 262144 ∧
      (m / 4096 % 64 < n / 4096 % 64 ∨ m / 4096 % 64 = n / 4096 % 64 ∧
        (m / 64 % 64 < n / 64 % 64 ∨ m / 64 % 64 = n / 64 % 64 ∧ m % 64 < n % 64)) := by
  have hdiv : ∀ k : Nat, k / 4096 = k / 64 / 64 ∧ k / 262144 = k / 64 / 64 / 64 := by
    intro k
    omega
  rw [(hdiv m).1, (hdiv m).2, (hdiv n).1, (hdiv n).2]
  -- digit by digit, from the last one
  rcases digit_lt h with h1 | ⟨h1, hlast⟩
  · rcases digit_lt h1 with h2 | ⟨h2, hlast⟩
    · rcases digit_lt h2 with h3 | ⟨h3, hlast⟩
      · exact .inl h3
      · exact .inr ⟨h3, .inl hlast⟩
    · rw [h2]
      exact .inr ⟨rfl, .inr ⟨rfl, .inl hlast⟩⟩
  · rw [h1]
    exact .inr ⟨rfl, .inr ⟨rfl, .inr ⟨rfl, hlast⟩⟩⟩

/-- The bytes of a character are in front of those of a larger one, whatever follows. -/
theorem utf8EncodeChar_append_lt {c d : Char} (h : c < d) (s t : List UInt8) :
    String.utf8EncodeChar c ++ s < String.utf8EncodeChar d ++ t := by
  have hlt : c.val.toNat < d.val.toNat := h
  have hd := toNat_lt d
  simp only [String.utf8EncodeChar]
  generalize c.val.toNat = m at hlt
  generalize d.val.toNat = n at hlt hd
  by_cases hlong : 0xffff < m
  · -- four bytes each, and the four digits of the code points in them
    have hm : m / 262144 % 8 = m / 262144 := Nat.mod_eq_of_lt (by omega)
    have hn : n / 262144 % 8 = n / 262144 := Nat.mod_eq_of_lt (by omega)
    rw [if_neg (by omega), if_neg (by omega), if_neg (by omega), if_neg (by omega),
      if_neg (by omega), if_neg (by omega), hm, hn]
    simp only [List.cons_append, List.nil_append, List.cons_lt_cons_iff]
    simp (disch := omega) only [ofNat_lt_ofNat_iff, ofNat_eq_ofNat_iff]
    have hdigits := digits_lt hlt
    omega
  · -- the first bytes tell how many there are; where these agree, the digits decide
    split_ifs
    all_goals
      simp only [List.cons_append, List.nil_append, List.cons_lt_cons_iff]
      simp (disch := omega) only [ofNat_lt_ofNat_iff, ofNat_eq_ofNat_iff]
      omega

/-! ## Texts -/

theorem bytes_eq (s : String) : bytes s = s.toList.flatMap String.utf8EncodeChar := by
  rw [bytes, ← String.utf8Encode_toList]
  exact List.toList_data_toByteArray

theorem flatMap_utf8EncodeChar_lt {s t : List Char} (h : s < t) :
    s.flatMap String.utf8EncodeChar < t.flatMap String.utf8EncodeChar := by
  induction h with
  | @nil c rest =>
      obtain ⟨b, more, hbytes⟩ := List.exists_cons_of_ne_nil (String.utf8EncodeChar_ne_nil (c := c))
      rw [List.flatMap_nil, List.flatMap_cons, hbytes]
      exact .nil
  | rel h =>
      rw [List.flatMap_cons, List.flatMap_cons]
      exact utf8EncodeChar_append_lt h _ _
  | cons _ ih =>
      rw [List.flatMap_cons, List.flatMap_cons]
      exact List.append_left_lt ih

theorem map_toNat_lt {s t : List Char} (h : s < t) : s.map Char.toNat < t.map Char.toNat :=
  List.map_lt (fun _ _ => id) h

/-- What keeps the order of texts shows it. -/
theorem lex_iff_of_lt {α : Type} [LT α] [Std.Asymm (fun a b : α => a < b)]
    {f : List Char → List α}
    (hf : ∀ {s t : List Char}, s < t → List.Lex (· < ·) (f s) (f t)) {s t : String} :
    List.Lex (· < ·) (f s.toList) (f t.toList) ↔ s < t := by
  constructor
  · intro h
    rcases lt_trichotomy s t with hlt | rfl | hgt
    · exact hlt
    · exact absurd h (List.lt_asymm h)
    · exact absurd h (List.lt_asymm (hf (String.lt_iff_toList_lt.mp hgt)))
  · intro h
    exact hf (String.lt_iff_toList_lt.mp h)

theorem lex_codePoints_iff {s t : String} :
    List.Lex (· < ·) (codePoints s) (codePoints t) ↔ s < t :=
  lex_iff_of_lt map_toNat_lt

/-- The bytes of two texts are ordered as the texts are. -/
theorem lex_bytes_iff {s t : String} : List.Lex (· < ·) (bytes s) (bytes t) ↔ s < t := by
  rw [bytes_eq, bytes_eq]
  exact lex_iff_of_lt (f := fun s => s.flatMap String.utf8EncodeChar) flatMap_utf8EncodeChar_lt

end RowQuery.Text
