import Mathlib.Algebra.Group.Int.Defs
import RowQuery.Operator.Eval

set_option autoImplicit false

/-! # Integer arithmetic

What an arithmetic operator has to come to on two integers is said here by what characterises the
result (`BinaryOperator.Exact`). For a division this is the equation between dividend, divisor,
quotient and remainder, with a remainder that is smaller than the divisor and has the sign of the
dividend (`Truncates`); there is one such pair for every divisor but zero (`truncates_iff`).

On 64-bit integers an operator answers with this result or refuses: it refuses to divide by zero,
and otherwise what does not fit. One remainder is refused too although it is zero, that of the least
integer by minus one. What is answered is never another number that only agrees modulo `2 ^ 64`, so
a quotient and a remainder give their dividend back, through two more operations neither of which
overflows (`restored`).
-/

namespace RowQuery.BinaryOperator

/-! ## Exact results -/

/-- A division that truncates: `a` is `b` times the quotient and the remainder, which is smaller
than `b` and has the sign of `a`. -/
structure Truncates (a b quotient remainder : Int) : Prop where
  sum : b * quotient + remainder = a
  small : remainder.natAbs < b.natAbs
  nonneg : 0 ≤ a → 0 ≤ remainder
  nonpos : a ≤ 0 → remainder ≤ 0

/-- The operators of arithmetic. -/
def arithmetic : List BinaryOperator := [add, sub, mul, div, mod]

/-- The number that an operator of arithmetic has to come to. -/
def Exact : BinaryOperator → Int → Int → Int → Prop
  | add, a, b, n => n = a + b
  | sub, a, b, n => n = a - b
  | mul, a, b, n => n = a * b
  | div, a, b, n => ∃ remainder, Truncates a b n remainder
  | mod, a, b, n => ∃ quotient, Truncates a b quotient n
  | _, _, _, _ => False

/-- Nothing is smaller than zero, so there is no division by it. -/
theorem Truncates.divisor_ne_zero {a b q r : Int} (h : Truncates a b q r) : b ≠ 0 := by
  have hsmall := h.small
  omega

theorem natAbs_tmod_lt {b : Int} (a : Int) (hb : b ≠ 0) : (a.tmod b).natAbs < b.natAbs := by
  rw [Int.natAbs_tmod]
  exact Nat.mod_lt _ (by omega)

theorem truncates_tdiv_tmod (a : Int) {b : Int} (hb : b ≠ 0) :
    Truncates a b (a.tdiv b) (a.tmod b) where
  sum := Int.mul_tdiv_add_tmod a b
  small := natAbs_tmod_lt a hb
  nonneg := Int.tmod_nonneg b
  nonpos := by
    intro ha
    have hneg : 0 ≤ (-a).tmod b := Int.tmod_nonneg b (by omega)
    rw [Int.neg_tmod] at hneg
    omega

/-- There is one quotient and one remainder. -/
theorem Truncates.unique {a b q r q' r' : Int} (h : Truncates a b q r) (h' : Truncates a b q' r') :
    q = q' ∧ r = r' := by
  have hb := h.divisor_ne_zero
  have hsum := h.sum
  have hsum' := h'.sum
  -- the remainders differ by a multiple of `b`, but by less than `b`
  have hmultiple : b * (q' - q) = r - r' := by
    rw [Int.mul_sub]
    omega
  have hclose : (r - r').natAbs < b.natAbs := by
    have := h.small
    have := h'.small
    have := h.nonneg
    have := h'.nonneg
    have := h.nonpos
    have := h'.nonpos
    omega
  have hrest : r - r' = 0 :=
    Int.eq_zero_of_dvd_of_natAbs_lt_natAbs ⟨q' - q, hmultiple.symm⟩ hclose
  refine ⟨?_, by omega⟩
  rw [hrest] at hmultiple
  rcases Int.mul_eq_zero.mp hmultiple with hzero | hzero
  · exact absurd hzero hb
  · omega

theorem truncates_iff {a b q r : Int} :
    Truncates a b q r ↔ b ≠ 0 ∧ q = a.tdiv b ∧ r = a.tmod b := by
  constructor
  · intro h
    exact ⟨h.divisor_ne_zero, h.unique (truncates_tdiv_tmod a h.divisor_ne_zero)⟩
  · rintro ⟨hb, rfl, rfl⟩
    exact truncates_tdiv_tmod a hb

/-- A quotient times its divisor lies between zero and the dividend. -/
theorem Truncates.between {a b q r : Int} (h : Truncates a b q r) :
    (0 ≤ q * b ∧ q * b ≤ a) ∨ (a ≤ q * b ∧ q * b ≤ 0) := by
  obtain ⟨-, -, hr⟩ := truncates_iff.mp h
  have hsum := h.sum
  rw [Int.mul_comm] at hsum
  have hle : r.natAbs ≤ a.natAbs := by
    rw [hr, Int.natAbs_tmod]
    exact Nat.mod_le _ _
  have := h.nonneg
  have := h.nonpos
  omega

theorem exactResult?_eq_some_iff {op : BinaryOperator} {a b n : Int} :
    op.exactResult? a b = some n ↔ op.Exact a b n := by
  cases op with
  | add | sub | mul => simp [exactResult?, Exact, eq_comm]
  | div | mod =>
      by_cases hb : b = 0
      · simp [exactResult?, Exact, truncates_iff, hb]
      · simp [exactResult?, Exact, truncates_iff, hb, eq_comm]
  | _ => simp [exactResult?, Exact]

/-- Unless it divides by zero, an operator has one exact result. -/
theorem exists_exact {op : BinaryOperator} (hop : op ∈ arithmetic) {a b : Int}
    (h : ¬ (op.divides = true ∧ b = 0)) : ∃ z, ∀ n, op.Exact a b n ↔ n = z := by
  obtain ⟨z, hz⟩ : ∃ z, op.exactResult? a b = some z := by
    simp only [arithmetic, List.mem_cons, List.not_mem_nil, or_false] at hop
    rcases hop with rfl | rfl | rfl | rfl | rfl
    · exact ⟨_, rfl⟩
    · exact ⟨_, rfl⟩
    · exact ⟨_, rfl⟩
    · have hb : b ≠ 0 := fun hb => h ⟨rfl, hb⟩
      exact ⟨_, if_neg hb⟩
    · have hb : b ≠ 0 := fun hb => h ⟨rfl, hb⟩
      exact ⟨_, if_neg hb⟩
  refine ⟨z, ?_⟩
  intro n
  rw [← exactResult?_eq_some_iff, hz, Option.some.injEq, eq_comm]

/-! ## On 64-bit integers -/

theorem fit?_eq_some_iff {z : Int} {n : Int64} : fit? z = some n ↔ n.toInt = z := by
  rw [fit?]
  constructor
  · intro h
    split at h
    · rename_i hrange
      obtain ⟨hlow, hhigh⟩ := hrange
      rw [Int64.toInt_maxValue] at hhigh
      cases h
      exact Int64.toInt_ofInt_of_le hlow (by omega)
    · cases h
  · rintro rfl
    rw [if_pos ⟨n.minValue_le_toInt, n.toInt_le⟩, Int64.ofInt_toInt]

theorem fit?_eq_none_iff {z : Int} : fit? z = none ↔ z < -2 ^ 63 ∨ 2 ^ 63 ≤ z := by
  have hlow := Int64.toInt_minValue
  have hhigh := Int64.toInt_maxValue
  rw [fit?]
  split
  · simp only [reduceCtorEq, false_iff]
    omega
  · simp only [true_iff]
    omega

/-- The remainder that is refused although it fits. -/
def RefusedRemainder (op : BinaryOperator) (a b : Int64) : Prop :=
  op = mod ∧ a = Int64.minValue ∧ b = -1

theorem eval_int64 {op : BinaryOperator} (hop : op ∈ arithmetic) (a b : Int64) :
    op.eval (.int64 a) (.int64 b) = op.integers a b := by
  simp only [arithmetic, List.mem_cons, List.not_mem_nil, or_false] at hop
  rcases hop with rfl | rfl | rfl | rfl | rfl <;> rfl

theorem toInt_eq_zero_iff {b : Int64} : b.toInt = 0 ↔ b = 0 := by
  rw [← Int64.toInt_inj, Int64.toInt_zero]

theorem not_divides_of_exact {op : BinaryOperator} {a b : Int64} {z : Int}
    (h : op.Exact a.toInt b.toInt z) : ¬ (op.divides = true ∧ b = 0) := by
  rintro ⟨hdivides, rfl⟩
  rw [← exactResult?_eq_some_iff] at h
  cases op <;> cases hdivides <;> cases h

/-- An exact result that fits is the answer. -/
theorem eval_eq_ok {op : BinaryOperator} (hop : op ∈ arithmetic) {a b n : Int64}
    (hexact : op.Exact a.toInt b.toInt n.toInt) (hrefused : ¬ op.RefusedRemainder a b) :
    op.eval (.int64 a) (.int64 b) = .ok (.int64 n) := by
  rw [RefusedRemainder] at hrefused
  rw [eval_int64 hop, integers, if_neg (not_divides_of_exact hexact), if_neg hrefused,
    exactResult?_eq_some_iff.mpr hexact, Option.bind_some, fit?_eq_some_iff.mpr rfl]

/-- What is answered is an exact result. -/
theorem exact_of_eval_eq_ok {op : BinaryOperator} (hop : op ∈ arithmetic) {a b : Int64} {v : Value}
    (h : op.eval (.int64 a) (.int64 b) = .ok v) :
    ∃ n, v = .int64 n ∧ op.Exact a.toInt b.toInt n.toInt := by
  rw [eval_int64 hop, integers] at h
  split at h
  · cases h
  · split at h
    · cases h
    · split at h
      · rename_i n hn
        cases h
        obtain ⟨z, hz, hfit⟩ := Option.bind_eq_some_iff.mp hn
        refine ⟨n, rfl, ?_⟩
        rw [fit?_eq_some_iff.mp hfit]
        exact exactResult?_eq_some_iff.mp hz
      · cases h

/-- An exact result that does not fit is an overflow, and so is the remainder that is refused. -/
theorem eval_eq_overflow {op : BinaryOperator} (hop : op ∈ arithmetic) {a b : Int64} {z : Int}
    (hexact : op.Exact a.toInt b.toInt z)
    (hz : (z < -2 ^ 63 ∨ 2 ^ 63 ≤ z) ∨ op.RefusedRemainder a b) :
    op.eval (.int64 a) (.int64 b) = .error (.overflow a op b) := by
  rw [eval_int64 hop, integers, if_neg (not_divides_of_exact hexact)]
  rcases hz with hz | hrefused
  · split
    · rfl
    · rw [exactResult?_eq_some_iff.mpr hexact, Option.bind_some, fit?_eq_none_iff.mpr hz]
  · rw [RefusedRemainder] at hrefused
    rw [if_pos hrefused]

/-- A quotient and a remainder give their dividend back. -/
theorem restored {a b : Int64} {q r : Value} (hq : div.eval (.int64 a) (.int64 b) = .ok q)
    (hr : mod.eval (.int64 a) (.int64 b) = .ok r) :
    ∃ p, mul.eval q (.int64 b) = .ok p ∧ add.eval p r = .ok (.int64 a) := by
  obtain ⟨quotient, rfl, remainder, hdiv⟩ := exact_of_eval_eq_ok (by decide) hq
  obtain ⟨rest, rfl, quotient', hmod⟩ := exact_of_eval_eq_ok (by decide) hr
  obtain ⟨-, rfl⟩ := hdiv.unique hmod
  -- the product lies between zero and the dividend, so it fits
  obtain ⟨product, hproduct⟩ : ∃ n : Int64, n.toInt = quotient.toInt * b.toInt := by
    have hbetween := hdiv.between
    have hlow := a.le_toInt
    have hhigh := a.toInt_lt
    exact ⟨.ofInt _, Int64.toInt_ofInt_of_le (by omega) (by omega)⟩
  refine ⟨.int64 product, eval_eq_ok (by decide) hproduct ?_, eval_eq_ok (by decide) ?_ ?_⟩
  · rintro ⟨hop, -⟩
    cases hop
  · show a.toInt = product.toInt + rest.toInt
    rw [hproduct, Int.mul_comm]
    exact hdiv.sum.symm
  · rintro ⟨hop, -⟩
    cases hop

/-- **Integer arithmetic is exact or refused.** An operator refuses to divide by zero. Otherwise
there is one exact result; it is the answer where it fits, and an overflow where it does not. One
exception is the remainder of the least integer by minus one, which is zero and is reported as an
overflow too. So wherever a quotient and a remainder are answered, the product of the quotient with
the divisor and its sum with the remainder are answered as well, and the sum is the dividend. -/
theorem exact_or_refused (a b : Int64) :
    (∀ op ∈ arithmetic,
      (op.divides = true ∧ b = 0 →
        op.eval (.int64 a) (.int64 b) = .error .divisionByZero) ∧
      (¬ (op.divides = true ∧ b = 0) →
        ∃ z, (∀ n, op.Exact a.toInt b.toInt n ↔ n = z) ∧
          (∀ n : Int64, n.toInt = z → ¬ op.RefusedRemainder a b →
            op.eval (.int64 a) (.int64 b) = .ok (.int64 n)) ∧
          ((z < -2 ^ 63 ∨ 2 ^ 63 ≤ z) ∨ op.RefusedRemainder a b →
            op.eval (.int64 a) (.int64 b) = .error (.overflow a op b)))) ∧
    (RefusedRemainder mod a b → Exact mod a.toInt b.toInt 0) ∧
    ∀ q r, div.eval (.int64 a) (.int64 b) = .ok q → mod.eval (.int64 a) (.int64 b) = .ok r →
      ∃ p, mul.eval q (.int64 b) = .ok p ∧ add.eval p r = .ok (.int64 a) := by
  refine ⟨?_, ?_, ?_⟩
  · intro op hop
    constructor
    · intro hdivisor
      rw [eval_int64 hop, integers, if_pos hdivisor]
    · intro hdivisor
      rw [← toInt_eq_zero_iff] at hdivisor
      obtain ⟨z, hz⟩ := exists_exact hop hdivisor
      refine ⟨z, hz, ?_, ?_⟩
      · intro n hn hrefused
        exact eval_eq_ok hop ((hz _).mpr hn) hrefused
      · intro h
        exact eval_eq_overflow hop ((hz z).mpr rfl) h
  · rintro ⟨-, rfl, rfl⟩
    exact ⟨2 ^ 63, truncates_iff.mpr ⟨by decide, by decide, by decide⟩⟩
  · intro q r hq hr
    exact restored hq hr

/-- The least integer divided by three: toward zero, with a negative remainder. -/
theorem exact_or_refused_least :
    div.eval (.int64 Int64.minValue) (.int64 3) = .ok (.int64 (-3074457345618258602)) ∧
      mod.eval (.int64 Int64.minValue) (.int64 3) = .ok (.int64 (-2)) ∧
      ∃ p, mul.eval (.int64 (-3074457345618258602)) (.int64 3) = .ok p ∧
        add.eval p (.int64 (-2)) = .ok (.int64 Int64.minValue) := by
  obtain ⟨hanswers, -, hrestored⟩ := exact_or_refused Int64.minValue 3
  have htruncates : Truncates Int64.minValue.toInt (3 : Int64).toInt
      (-3074457345618258602 : Int64).toInt (-2 : Int64).toInt :=
    truncates_iff.mpr ⟨by decide, by decide, by decide⟩
  have hdiv : div.eval (.int64 Int64.minValue) (.int64 3)
      = .ok (.int64 (-3074457345618258602)) := by
    obtain ⟨z, hz, hfits, -⟩ := (hanswers div (by decide)).2 (by decide)
    exact hfits _ ((hz _).mp ⟨_, htruncates⟩) (by rintro ⟨hop, -⟩; cases hop)
  have hmod : mod.eval (.int64 Int64.minValue) (.int64 3) = .ok (.int64 (-2)) := by
    obtain ⟨z, hz, hfits, -⟩ := (hanswers mod (by decide)).2 (by decide)
    exact hfits _ ((hz _).mp ⟨_, htruncates⟩) (by rintro ⟨-, -, hb⟩; revert hb; decide)
  exact ⟨hdiv, hmod, hrestored _ _ hdiv hmod⟩

end RowQuery.BinaryOperator
