import RowQuery.Value.Member

set_option autoImplicit false

/-! # Positions in a tuple

The members of a tuple are named by their positions. A position has one decimal, but it has many
spellings: zeros may stand in front of the decimal, and a plus sign before them. `Value.Spells` says
which names spell which position, without reading them. Reading a name is the inverse of it
(`Value.position?_eq_some_iff`), up to the bound that positions have.

So a tuple has more names for each of its values than the decimal of the position
(`Value.padded_name_denotes`).
-/

namespace RowQuery

namespace Decimal

/-! ## Decimals and other rows of digits -/

/-- A digit is the decimal of its value. -/
theorem digitsOf_digit {c : Char} (h : c.isDigit = true) :
    c.toNat - '0'.toNat < 10 ∧ digitsOf (c.toNat - '0'.toNat) = [c] := by
  obtain ⟨hlower, hupper⟩ := Char.isDigit_iff_toNat.mp h
  have hzero : '0'.toNat = 48 := rfl
  have hnine : '9'.toNat = 57 := rfl
  have hsmall : c.toNat - '0'.toNat < 10 := by omega
  refine ⟨hsmall, ?_⟩
  rw [digitsOf, Nat.toDigits_of_lt_base hsmall, List.singleton_inj, ← Char.toNat_inj,
    Nat.toNat_digitChar_of_lt_ten hsmall]
  omega

/-- Digits behind the decimal of a positive number make a longer decimal. -/
theorem digitsOf_append {n : Nat} (hn : 0 < n) {ds : List Char}
    (hds : ∀ c ∈ ds, c.isDigit = true) :
    digitsOf n ++ ds = digitsOf (Nat.ofDigitChars 10 ds n) := by
  induction ds generalizing n with
  | nil => simp
  | cons c ds ih =>
      obtain ⟨hc, hds⟩ := List.forall_mem_cons.mp hds
      obtain ⟨hsmall, hdigit⟩ := digitsOf_digit hc
      calc digitsOf n ++ c :: ds
          = (digitsOf n ++ digitsOf (c.toNat - '0'.toNat)) ++ ds := by
            rw [hdigit, List.append_assoc, List.singleton_append]
        _ = digitsOf (10 * n + (c.toNat - '0'.toNat)) ++ ds := by
            rw [digitsOf, digitsOf, Nat.toDigits_append_toDigits (by decide) hn hsmall, digitsOf]
        _ = digitsOf (Nat.ofDigitChars 10 (c :: ds) n) := by
            rw [ih (by omega) hds, Nat.ofDigitChars_cons]

/-- Zeros in front do not count. -/
theorem ofDigits_zeros_append (zeros : Nat) (ds : List Char) :
    ofDigits (List.replicate zeros '0' ++ ds) = ofDigits ds := by
  induction zeros with
  | zero => rfl
  | succ zeros ih =>
      rw [List.replicate_succ, List.cons_append, ofDigits, Nat.ofDigitChars_cons]
      exact ih

/-- A row of digits is a decimal with zeros in front. -/
theorem eq_zeros_append_digitsOf {ds : List Char} (hne : ds ≠ [])
    (hds : ∀ c ∈ ds, c.isDigit = true) :
    ∃ zeros, ds = List.replicate zeros '0' ++ digitsOf (ofDigits ds) := by
  induction ds with
  | nil => exact absurd rfl hne
  | cons c ds ih =>
      obtain ⟨hc, hrest⟩ := List.forall_mem_cons.mp hds
      obtain ⟨-, hdigit⟩ := digitsOf_digit hc
      have hvalue : ofDigits (c :: ds) = Nat.ofDigitChars 10 ds (c.toNat - '0'.toNat) := by
        rw [ofDigits, Nat.ofDigitChars_cons, Nat.mul_zero, Nat.zero_add]
      by_cases hpos : 0 < c.toNat - '0'.toNat
      · -- the first digit counts, so the row is a decimal as it stands
        refine ⟨0, ?_⟩
        rw [hvalue, ← digitsOf_append hpos hrest, hdigit]
        rfl
      · have hzero : c.toNat - '0'.toNat = 0 := by omega
        rw [hzero] at hdigit
        obtain rfl : '0' = c := List.singleton_inj.mp hdigit
        -- a single zero is the decimal of zero, and any other zero stands in front of the rest
        cases ds with
        | nil => exact ⟨0, rfl⟩
        | cons d ds =>
            obtain ⟨zeros, h⟩ := ih (List.cons_ne_nil d ds) hrest
            refine ⟨zeros + 1, ?_⟩
            have hskip : ofDigits ('0' :: d :: ds) = ofDigits (d :: ds) :=
              ofDigits_zeros_append 1 (d :: ds)
            rw [hskip, List.replicate_succ, List.cons_append, ← h]

end Decimal

namespace Value

open Decimal (digitsOf ofDigits)

/-! ## Spellings -/

/-- The spellings of a position: its decimal, with any number of zeros in front, and perhaps a plus
sign before them. -/
def Spells (name : String) (i : Nat) : Prop :=
  ∃ sign zeros, (sign = [] ∨ sign = ['+']) ∧
    name.toList = sign ++ (List.replicate zeros '0' ++ digitsOf i)

theorem spells_toString (i : Nat) : Spells (toString i) i :=
  ⟨[], 0, .inl rfl, Nat.toList_repr⟩

/-- Behind the sign of a spelling there are digits only. -/
theorem isDigit_of_mem_zeros_append {zeros i : Nat} {c : Char}
    (h : c ∈ List.replicate zeros '0' ++ digitsOf i) : c.isDigit = true := by
  rcases List.mem_append.mp h with h | h
  · rw [List.eq_of_mem_replicate h]
    rfl
  · exact Nat.isDigit_of_mem_toDigits (by decide) (by decide) h

/-- The digits of a name: all of it but a plus sign in front. -/
def digitsIn (name : String) : List Char :=
  match name.toList with
  | '+' :: rest => rest
  | all => all

theorem position?_eq (name : String) :
    position? name
      = if digitsIn name ≠ [] ∧ (digitsIn name).all Char.isDigit ∧
          ofDigits (digitsIn name) < Nat.pow 2 64
        then some (ofDigits (digitsIn name)) else none := rfl

/-- The name is its digits, behind what may be a sign. -/
theorem toList_eq_sign_append (name : String) :
    ∃ sign, (sign = [] ∨ sign = ['+']) ∧ name.toList = sign ++ digitsIn name := by
  unfold digitsIn
  split
  · rename_i rest h
    exact ⟨['+'], .inr rfl, h⟩
  · exact ⟨[], .inl rfl, rfl⟩

theorem digitsIn_of_toList_eq {name : String} {sign : List Char} {zeros i : Nat}
    (hsign : sign = [] ∨ sign = ['+'])
    (h : name.toList = sign ++ (List.replicate zeros '0' ++ digitsOf i)) :
    digitsIn name = List.replicate zeros '0' ++ digitsOf i := by
  unfold digitsIn
  rw [h]
  rcases hsign with rfl | rfl
  · rw [List.nil_append]
    split
    · rename_i rest hplus
      -- a plus sign is not a digit
      have hdigit : '+'.isDigit = true :=
        isDigit_of_mem_zeros_append (hplus ▸ List.mem_cons_self)
      exact absurd hdigit (by decide)
    · rfl
  · rfl

/-- A name is read as a position exactly if it spells one that is not too large. -/
theorem position?_eq_some_iff {name : String} {i : Nat} :
    position? name = some i ↔ Spells name i ∧ i < Nat.pow 2 64 := by
  rw [position?_eq]
  constructor
  · intro h
    obtain ⟨⟨hne, hdigits, hsmall⟩, hi⟩ := Option.ite_none_right_eq_some.mp h
    cases hi
    obtain ⟨sign, hsign, hname⟩ := toList_eq_sign_append name
    obtain ⟨zeros, hzeros⟩ :=
      Decimal.eq_zeros_append_digitsOf hne (fun c hc => List.all_eq_true.mp hdigits c hc)
    refine ⟨⟨sign, zeros, hsign, ?_⟩, hsmall⟩
    rw [← hzeros]
    exact hname
  · rintro ⟨⟨sign, zeros, hsign, hname⟩, hsmall⟩
    have hvalue : ofDigits (List.replicate zeros '0' ++ digitsOf i) = i := by
      rw [Decimal.ofDigits_zeros_append, Decimal.ofDigits_digitsOf]
    have hne : List.replicate zeros '0' ++ digitsOf i ≠ [] :=
      List.append_ne_nil_of_right_ne_nil _ Nat.toDigits_ne_nil
    have hall : (List.replicate zeros '0' ++ digitsOf i).all Char.isDigit = true :=
      List.all_eq_true.mpr (fun c hc => isDigit_of_mem_zeros_append hc)
    rw [digitsIn_of_toList_eq hsign hname, hvalue, if_pos ⟨hne, hall, hsmall⟩]

/-- A name spells one position only. -/
theorem Spells.unique {name : String} {i j : Nat} (hi : Spells name i) (hj : Spells name j) :
    i = j := by
  obtain ⟨sign, zeros, hsign, hname⟩ := hi
  obtain ⟨sign', zeros', hsign', hname'⟩ := hj
  have hdigits := digitsIn_of_toList_eq hsign hname
  rw [digitsIn_of_toList_eq hsign' hname'] at hdigits
  have hvalue := congrArg ofDigits hdigits
  rw [Decimal.ofDigits_zeros_append, Decimal.ofDigits_zeros_append, Decimal.ofDigits_digitsOf,
    Decimal.ofDigits_digitsOf] at hvalue
  exact hvalue.symm

/-! ## Members -/

/-- A tuple has the members whose names spell its positions. -/
theorem member_tuple_iff_spells {values : List Value} {name : String} {v : Value} :
    member name (.tuple values) = .ok v ↔
      ∃ i, Spells name i ∧ i < Nat.pow 2 64 ∧ values[i]? = some v := by
  rw [member_tuple_eq_ok_iff]
  constructor
  · rintro ⟨i, hi, hv⟩
    obtain ⟨hspells, hsmall⟩ := position?_eq_some_iff.mp hi
    exact ⟨i, hspells, hsmall, hv⟩
  · rintro ⟨i, hspells, hsmall, hv⟩
    exact ⟨i, position?_eq_some_iff.mpr ⟨hspells, hsmall⟩, hv⟩

/-- **The members of a tuple are named by the spellings of their positions.** A name denotes a value
exactly if it spells a position that the tuple has and that fits in 64 bits, and it denotes the
value there; any other name is an error that tells the length and the name. No name spells two
positions. So the decimal of a position is one of its names, and denotes nothing else. -/
theorem tuple_members_spelled (values : List Value) (name : String) :
    (∀ v, member name (.tuple values) = .ok v ↔
      ∃ i, Spells name i ∧ i < Nat.pow 2 64 ∧ values[i]? = some v) ∧
    ((¬∃ i, Spells name i ∧ i < Nat.pow 2 64 ∧ i < values.length) →
      member name (.tuple values) = .error (.noPosition values.length name)) ∧
    (∀ i j, Spells name i → Spells name j → i = j) ∧
    (∀ (i : Nat) v, member (toString i) (.tuple values) = .ok v ↔
      i < Nat.pow 2 64 ∧ values[i]? = some v) := by
  refine ⟨fun v => member_tuple_iff_spells, ?_, fun i j => Spells.unique, ?_⟩
  · intro hnone
    rw [member]
    split
    · rename_i v hv
      obtain ⟨i, hi, hv⟩ := Option.bind_eq_some_iff.mp hv
      obtain ⟨hspells, hsmall⟩ := position?_eq_some_iff.mp hi
      obtain ⟨hlength, -⟩ := List.getElem?_eq_some_iff.mp hv
      exact absurd ⟨i, hspells, hsmall, hlength⟩ hnone
    · rfl
  · intro i v
    rw [member_tuple_iff_spells]
    constructor
    · rintro ⟨j, hspells, hsmall, hv⟩
      obtain rfl := (spells_toString i).unique hspells
      exact ⟨hsmall, hv⟩
    · rintro ⟨hsmall, hv⟩
      exact ⟨i, spells_toString i, hsmall, hv⟩

/-- A tuple has a member that is not named by the decimal of a position. -/
theorem padded_name_denotes :
    ¬∀ (values : List Value) (name : String) (v : Value),
      member name (.tuple values) = .ok v ↔ ∃ i : Nat, name = toString i ∧ values[i]? = some v := by
  intro h
  have hmember : member "01" (.tuple [.int64 3, .int64 4]) = .ok (.int64 4) := rfl
  obtain ⟨i, hname, -⟩ := (h _ _ _).mp hmember
  -- the name spells one, whose decimal is shorter
  have hone : Spells "01" 1 := ⟨[], 1, .inl rfl, rfl⟩
  have hi : Spells "01" i := hname ▸ spells_toString i
  rw [hi.unique hone] at hname
  exact absurd hname (by decide)

end Value

end RowQuery
