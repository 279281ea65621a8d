import Mathlib
import RowQuery.Operator.Eval
import RowQuery.Proofs.TextOrder

set_option autoImplicit false

/-! # Comparisons

The six comparisons look at one thing, how two values are ordered (`BinaryOperator.order?`). So they
fit together: of two values they are all unknown, or they all fail, or they are all answered as one
order has it (`Verdict`). Taking the values the other way round turns the order round
(`order?_swap`), also where an integer meets a floating-point number and is converted on the other
side then. There is no order where the kinds do not go together, and none with a NaN; an integer
never becomes one (`Double.isNaN_ofInt`).
-/

namespace RowQuery

/-! ## Floating-point numbers -/

namespace Double

open Float.Model (UnpackedFloat Format)
open Float.Model.UnpackedFloat (Sign)

theorem compare_sign_swap (s t : Sign) : compare t s = (compare s t).swap := by
  cases s <;> cases t <;> rfl

/-- The sizes of two numbers, compared the other way round. -/
theorem compare_size_swap (m n : Nat) (e f : Int) :
    (compare f e).then (compare n m) = ((compare e f).then (compare m n)).swap := by
  rw [Ordering.swap_then, ← Std.OrientedOrd.eq_swap, ← Std.OrientedOrd.eq_swap]

theorem compare_swap (u v : UnpackedFloat) :
    UnpackedFloat.compare v u = (UnpackedFloat.compare u v).map Ordering.swap := by
  cases u with
  | notANumber => cases v <;> rfl
  | infinity s =>
      cases v with
      | infinity t => exact congrArg some (compare_sign_swap s t)
      | _ => cases s <;> rfl
  | zero s =>
      cases v with
      | infinity t => cases t <;> rfl
      | finite t n f hn => cases t <;> rfl
      | _ => rfl
  | finite s m e hm =>
      cases v with
      | notANumber => rfl
      | infinity t => cases t <;> rfl
      | zero t => cases s <;> rfl
      | finite t n f hn =>
          -- of two negative numbers the larger size is in front
          cases s <;> cases t
          · exact congrArg (fun o => some o.swap) (compare_size_swap m n e f)
          · rfl
          · rfl
          · exact congrArg some (compare_size_swap m n e f)

theorem compare_eq_none_iff {u v : UnpackedFloat} :
    UnpackedFloat.compare u v = none ↔ u.isNaN = true ∨ v.isNaN = true := by
  cases u with
  | notANumber => cases v <;> simp [UnpackedFloat.compare, UnpackedFloat.isNaN]
  | infinity s => cases v <;> cases s <;> simp [UnpackedFloat.compare, UnpackedFloat.isNaN]
  | zero s =>
      cases v with
      | infinity t | finite t => cases t <;> simp [UnpackedFloat.compare, UnpackedFloat.isNaN]
      | _ => simp [UnpackedFloat.compare, UnpackedFloat.isNaN]
  | finite s =>
      cases v with
      | notANumber => simp [UnpackedFloat.compare, UnpackedFloat.isNaN]
      | zero t => cases s <;> simp [UnpackedFloat.compare, UnpackedFloat.isNaN]
      | infinity t | finite t =>
          cases s <;> cases t <;> simp [UnpackedFloat.compare, UnpackedFloat.isNaN]

theorem order?_swap (x y : Float) : order? y x = (order? x y).map Ordering.swap :=
  compare_swap (parts x) (parts y)

/-- Two numbers have an order unless one is a NaN. -/
theorem order?_eq_none_iff {x y : Float} :
    order? x y = none ↔ x.isNaN = true ∨ y.isNaN = true :=
  compare_eq_none_iff

/-- Only the largest exponent can stand for a NaN, and then only with a mantissa. -/
theorem isNaN_unpack {f : Format} {b : BitVec f.numBits}
    (h : UnpackedFloat.unpackExponent b = -1#_ → UnpackedFloat.unpackMantissa b = 0#_) :
    (UnpackedFloat.unpack f b).isNaN = false := by
  simp only [UnpackedFloat.unpack]
  split
  · rename_i hexponent
    rw [if_pos (h hexponent)]
    rfl
  · split
    · split <;> rfl
    · rfl

theorem isNaN_pack {u : UnpackedFloat} (h : u.isNaN = false) :
    (Float.Model.pack u).unpack.isNaN = false := by
  apply isNaN_unpack
  show UnpackedFloat.unpackExponent (UnpackedFloat.pack Format.binary64 u) = _ →
    UnpackedFloat.unpackMantissa (UnpackedFloat.pack Format.binary64 u) = _
  cases u with
  | notANumber => cases h
  | infinity s => simp [UnpackedFloat.pack, UnpackedFloat.packedInfinity]
  | zero s => simp [UnpackedFloat.pack, UnpackedFloat.packedZero]
  | finite s m e hm =>
      rw [UnpackedFloat.pack]
      simp only
      split
      · simp [UnpackedFloat.packedInfinity]
      · rename_i hsmall
        split
        · rw [UnpackedFloat.unpackExponent_packComponents, ← BitVec.toNat_inj, BitVec.toNat_ofNat]
          intro heq
          -- the largest exponent is kept for infinities
          have hlast : (-1#11).toNat = 2047 := by decide
          simp only [Format.binary64] at heq hsmall
          rw [hlast] at heq
          omega
        · rw [UnpackedFloat.unpackExponent_packComponents]
          intro heq
          cases heq

theorem isNaN_round (f : Format) (s : Sign) (m : Nat) (e : Int) :
    (UnpackedFloat.round f s m e).isNaN = false := by
  simp only [UnpackedFloat.round, UnpackedFloat.roundWithAccuracy]
  split <;> rfl

/-- An integer is never converted to a NaN. -/
theorem isNaN_ofInt (n : Int) : (ofInt n).isNaN = false := by
  show (Float.Model.pack (UnpackedFloat.ofInt _ n)).unpack.isNaN = false
  apply isNaN_pack
  rw [UnpackedFloat.ofInt, UnpackedFloat.normalize]
  split
  · exact isNaN_round _ _ _ _
  · rfl
  · exact isNaN_round _ _ _ _

end Double

namespace BinaryOperator

/-! ## How values are ordered -/

/-- Two values that have an order: two Booleans, two texts, or two numbers of which none is a NaN.
-/
def Comparable : Value → Value → Prop
  | .boolean _, .boolean _ => True
  | .utf8 _, .utf8 _ => True
  | .int64 _, .int64 _ => True
  | .int64 _, .float64 y => y.isNaN = false
  | .float64 x, .int64 _ => x.isNaN = false
  | .float64 x, .float64 y => x.isNaN = false ∧ y.isNaN = false
  | _, _ => False

theorem order?_swap (l r : Value) : order? r l = (order? l r).map Ordering.swap := by
  cases l with
  | boolean a =>
      cases r with
      | boolean b => exact congrArg some Std.OrientedOrd.eq_swap
      | _ => rfl
  | int64 a =>
      cases r with
      | int64 b => exact congrArg some Std.OrientedOrd.eq_swap
      | float64 y => exact Double.order?_swap _ _
      | _ => rfl
  | float64 x =>
      cases r with
      | int64 b => exact Double.order?_swap _ _
      | float64 y => exact Double.order?_swap _ _
      | _ => rfl
  | utf8 s =>
      cases r with
      | utf8 t => exact congrArg some Std.OrientedOrd.eq_swap
      | _ => rfl
  | _ => cases r <;> rfl

theorem order?_eq_none_iff {l r : Value} : order? l r = none ↔ ¬ Comparable l r := by
  cases l with
  | int64 a =>
      cases r with
      | float64 y =>
          rw [order?, Double.order?_eq_none_iff, Double.isNaN_ofInt,
            or_iff_right Bool.false_ne_true, Comparable, Bool.not_eq_false]
      | _ => simp [order?, Comparable]
  | float64 x =>
      cases r with
      | int64 b =>
          rw [order?, Double.order?_eq_none_iff, Double.isNaN_ofInt,
            or_iff_left Bool.false_ne_true, Comparable, Bool.not_eq_false]
      | float64 y =>
          rw [order?, Double.order?_eq_none_iff, Comparable, not_and_or, Bool.not_eq_false,
            Bool.not_eq_false]
      | _ => simp [order?, Comparable]
  | _ => cases r <;> simp [order?, Comparable]

theorem exists_order?_iff {l r : Value} : (∃ o, order? l r = some o) ↔ Comparable l r := by
  rw [← Option.ne_none_iff_exists', Ne, order?_eq_none_iff, not_not]

/-- A null has no order. -/
theorem ne_null_of_comparable {l r : Value} (h : Comparable l r) : l ≠ .null ∧ r ≠ .null := by
  constructor
  · rintro rfl
    exact h
  · rintro rfl
    cases l <;> exact h

/-! ## The six comparisons -/

section

variable {op : BinaryOperator} (hop : op.isComparison = true) {l r : Value}

include hop

theorem eval_of_null (h : l = .null ∨ r = .null) : op.eval l r = .ok .null := by
  rw [eval, if_neg (by rw [isLogical_eq_false_of_isComparison hop]; exact Bool.false_ne_true)]
  rw [if_pos]
  rcases h with rfl | rfl
  · rfl
  · exact Bool.or_true _

theorem eval_of_ne_null (hl : l ≠ .null) (hr : r ≠ .null) : op.eval l r = op.compared l r := by
  rw [eval, if_neg (by rw [isLogical_eq_false_of_isComparison hop]; exact Bool.false_ne_true),
    if_neg, if_pos hop]
  simp [Value.isNull_iff, hl, hr]

theorem eval_of_not_comparable (hl : l ≠ .null) (hr : r ≠ .null) (h : ¬ Comparable l r) :
    op.eval l r = .error (.incomparable l.datatype r.datatype) := by
  rw [eval_of_ne_null hop hl hr, compared, order?_eq_none_iff.mpr h]

theorem eval_of_order? {o : Ordering} (h : order? l r = some o) :
    op.eval l r = .ok (.boolean (op.holds o)) := by
  obtain ⟨hl, hr⟩ := ne_null_of_comparable (exists_order?_iff.mp ⟨o, h⟩)
  rw [eval_of_ne_null hop hl hr, compared, h]

end

/-- All six comparisons are unknown. -/
def Unknown (l r : Value) : Prop :=
  ∀ op : BinaryOperator, op.isComparison = true → op.eval l r = .ok .null

/-- All six comparisons fail, and the error names the kinds of the two values. -/
def Refused (l r : Value) : Prop :=
  ∀ op : BinaryOperator, op.isComparison = true →
    op.eval l r = .error (.incomparable l.datatype r.datatype)

/-- All six comparisons are answered with Booleans. Exactly one of three answers is true, and the
other three are their negations. -/
structure Ranked (l r : Value) (equal less greater : Bool) : Prop where
  one : [equal, less, greater].count true = 1
  eq : eval .eq l r = .ok (.boolean equal)
  lt : eval .lt l r = .ok (.boolean less)
  gt : eval .gt l r = .ok (.boolean greater)
  ne : eval .ne l r = .ok (.boolean !equal)
  ge : eval .ge l r = .ok (.boolean !less)
  le : eval .le l r = .ok (.boolean !greater)

theorem ranked_of_order? {l r : Value} {o : Ordering} (h : order? l r = some o) :
    Ranked l r (o == .eq) (o == .lt) (o == .gt) where
  one := by cases o <;> rfl
  eq := eval_of_order? rfl h
  lt := eval_of_order? rfl h
  gt := eval_of_order? rfl h
  ne := eval_of_order? rfl h
  ge := eval_of_order? rfl h
  le := eval_of_order? rfl h

/-- What the six comparisons make of two values. -/
inductive Verdict where
  | unknown | refused | ranked

namespace Verdict

/-- The six comparisons make this of two values, whichever stands on the left. -/
def Given (l r : Value) : Verdict → Prop
  | unknown => Unknown l r ∧ Unknown r l
  | refused => Refused l r ∧ Refused r l
  | ranked => ∃ equal less greater,
      Ranked l r equal less greater ∧ Ranked r l equal greater less

/-- The verdict that shows in the result of one comparison. -/
def ofResult : Except EvalError Value → Verdict
  | .ok .null => unknown
  | .ok _ => ranked
  | .error _ => refused

variable {l r : Value}

theorem Given.eq_ofResult {v : Verdict} (h : v.Given l r) : v = ofResult (eval .eq l r) := by
  cases v with
  | unknown => rw [h.1 .eq rfl, ofResult]
  | refused => rw [h.1 .eq rfl, ofResult]
  | ranked =>
      obtain ⟨equal, less, greater, hranked, -⟩ := h
      rw [hranked.eq]
      rfl

/-- Two values are not given two verdicts. -/
theorem Given.unique {v w : Verdict} (hv : v.Given l r) (hw : w.Given l r) : v = w :=
  hv.eq_ofResult.trans hw.eq_ofResult.symm

theorem unknown_given (h : l = .null ∨ r = .null) : unknown.Given l r :=
  ⟨fun _ hop => eval_of_null hop h, fun _ hop => eval_of_null hop h.symm⟩

theorem refused_given (hl : l ≠ .null) (hr : r ≠ .null) (h : ¬ Comparable l r) :
    refused.Given l r := by
  have hswap : ¬ Comparable r l := by
    rw [← order?_eq_none_iff] at h ⊢
    rw [order?_swap, h, Option.map_none]
  exact ⟨fun _ hop => eval_of_not_comparable hop hl hr h,
    fun _ hop => eval_of_not_comparable hop hr hl hswap⟩

theorem ranked_given (h : Comparable l r) : ranked.Given l r := by
  obtain ⟨o, ho⟩ := exists_order?_iff.mpr h
  have hswap : order? r l = some o.swap := by rw [order?_swap, ho, Option.map_some]
  refine ⟨o == .eq, o == .lt, o == .gt, ranked_of_order? ho, ?_⟩
  -- the order taken the other way round exchanges two of the answers
  have hranked := ranked_of_order? hswap
  cases o <;> exact hranked

/-- Without a null there is an answer or an error. -/
theorem refused_or_ranked (hl : l ≠ .null) (hr : r ≠ .null) :
    refused.Given l r ∨ ranked.Given l r := by
  by_cases hcomparable : Comparable l r
  · exact .inr (ranked_given hcomparable)
  · exact .inl (refused_given hl hr hcomparable)

/-- A null makes comparisons unknown, and nothing else does. -/
theorem unknown_given_iff : unknown.Given l r ↔ l = .null ∨ r = .null := by
  refine ⟨fun h => ?_, unknown_given⟩
  by_contra hnull
  rw [not_or] at hnull
  rcases refused_or_ranked hnull.1 hnull.2 with hrefused | hranked
  · cases h.unique hrefused
  · cases h.unique hranked

theorem refused_given_iff :
    refused.Given l r ↔ l ≠ .null ∧ r ≠ .null ∧ ¬ Comparable l r := by
  refine ⟨fun h => ⟨?_, ?_, ?_⟩, fun h => refused_given h.1 h.2.1 h.2.2⟩
  · intro hl
    cases h.unique (unknown_given (.inl hl))
  · intro hr
    cases h.unique (unknown_given (.inr hr))
  · intro hcomparable
    cases h.unique (ranked_given hcomparable)

theorem existsUnique_given (l r : Value) : ∃! v : Verdict, v.Given l r := by
  refine existsUnique_of_exists_of_unique ?_ fun _ _ => Given.unique
  by_cases hnull : l = .null ∨ r = .null
  · exact ⟨unknown, unknown_given hnull⟩
  · rw [not_or] at hnull
    rcases refused_or_ranked hnull.1 hnull.2 with hrefused | hranked
    · exact ⟨refused, hrefused⟩
    · exact ⟨ranked, hranked⟩

end Verdict

/-! ## The order of the values of one kind -/

/-- A kind whose values are ordered as what they hold. -/
def Embeds {α : Type} [Ord α] (f : α → Value) : Prop :=
  ∀ a b, order? (f a) (f b) = some (compare a b)

namespace Embeds

variable {α : Type} [Ord α] {f : α → Value}

theorem eval_le_iff (hf : Embeds f) {a b : α} :
    eval .le (f a) (f b) = .ok (.boolean true) ↔ (compare a b).isLE = true := by
  rw [eval_of_order? rfl (hf a b)]
  cases compare a b <;> simp [holds]

theorem eval_le_trans [Std.TransOrd α] (hf : Embeds f) {a b c : α}
    (hab : eval .le (f a) (f b) = .ok (.boolean true))
    (hbc : eval .le (f b) (f c) = .ok (.boolean true)) :
    eval .le (f a) (f c) = .ok (.boolean true) := by
  rw [hf.eval_le_iff] at hab hbc ⊢
  exact Std.TransOrd.isLE_trans hab hbc

end Embeds

theorem embeds_boolean : Embeds Value.boolean := fun _ _ => rfl

theorem embeds_int64 : Embeds Value.int64 := fun _ _ => rfl

theorem embeds_utf8 : Embeds Value.utf8 := fun _ _ => rfl

/-- Texts are at most as large as others as their code points are, in lexicographic order. -/
theorem eval_le_utf8_iff {s t : String} :
    eval .le (.utf8 s) (.utf8 t) = .ok (.boolean true) ↔
      s = t ∨ List.Lex (· < ·) (Text.codePoints s) (Text.codePoints t) := by
  rw [embeds_utf8.eval_le_iff, Ordering.isLE_iff_ne_gt, Text.lex_codePoints_iff, ← le_iff_eq_or_lt]
  exact compare_le_iff_le

/-- The kinds whose values are ordered linearly: Booleans, integers and texts. -/
def linear : List DataType := [.boolean, .int64, .utf8]

theorem eval_le_trans {kind : DataType} (hkind : kind ∈ linear) {a b c : Value}
    (ha : a.datatype = kind) (hb : b.datatype = kind) (hc : c.datatype = kind)
    (hab : eval .le a b = .ok (.boolean true)) (hbc : eval .le b c = .ok (.boolean true)) :
    eval .le a c = .ok (.boolean true) := by
  subst hb
  cases b with
  | boolean b =>
      cases a <;> cases ha
      cases c <;> cases hc
      exact embeds_boolean.eval_le_trans hab hbc
  | int64 b =>
      cases a <;> cases ha
      cases c <;> cases hc
      exact embeds_int64.eval_le_trans hab hbc
  | utf8 b =>
      cases a <;> cases ha
      cases c <;> cases hc
      exact embeds_utf8.eval_le_trans hab hbc
  | _ => simp [linear, Value.datatype] at hkind

/-- The six comparisons agree with each other. Of any two values they are, whichever of the two
stands on the left, all unknown, or all refused, or all answered as one order has it. They are
unknown where there is a null, and refused where there is none but the values have no order. Values
of one of the linear kinds are ordered transitively, and texts by their code points, which is also
the order of their bytes. -/
theorem comparisons_agree :
    (∀ l r : Value, ∃! v : Verdict, v.Given l r) ∧
    (∀ l r : Value, Verdict.unknown.Given l r ↔ l = .null ∨ r = .null) ∧
    (∀ l r : Value, Verdict.refused.Given l r ↔ l ≠ .null ∧ r ≠ .null ∧ ¬ Comparable l r) ∧
    (∀ kind ∈ linear, ∀ a b c : Value,
      a.datatype = kind → b.datatype = kind → c.datatype = kind →
        eval .le a b = .ok (.boolean true) → eval .le b c = .ok (.boolean true) →
          eval .le a c = .ok (.boolean true)) ∧
    ∀ s t : String,
      (eval .le (.utf8 s) (.utf8 t) = .ok (.boolean true) ↔
        s = t ∨ List.Lex (· < ·) (Text.codePoints s) (Text.codePoints t)) ∧
      (List.Lex (· < ·) (Text.codePoints s) (Text.codePoints t) ↔
        List.Lex (· < ·) (Text.bytes s) (Text.bytes t)) := by
  refine ⟨Verdict.existsUnique_given, fun _ _ => Verdict.unknown_given_iff,
    fun _ _ => Verdict.refused_given_iff, fun kind hkind a b c => eval_le_trans hkind, ?_⟩
  intro s t
  rw [Text.lex_bytes_iff, Text.lex_codePoints_iff]
  refine ⟨?_, Iff.rfl⟩
  rw [← Text.lex_codePoints_iff]
  exact eval_le_utf8_iff

/-- A character that is stored in two units of 16 bits is larger than one that fits in one unit,
though its first unit is smaller. -/
theorem comparisons_agree_units :
    DataType.utf8 ∈ linear ∧
      eval .le (.utf8 "z") (.utf8 "～") = .ok (.boolean true) ∧
      eval .le (.utf8 "～") (.utf8 "😀") = .ok (.boolean true) ∧
      eval .le (.utf8 "z") (.utf8 "😀") = .ok (.boolean true) := by
  have hkind : DataType.utf8 ∈ linear := by decide
  have hab : eval .le (.utf8 "z") (.utf8 "～") = .ok (.boolean true) := by decide
  have hbc : eval .le (.utf8 "～") (.utf8 "😀") = .ok (.boolean true) := by decide
  exact ⟨hkind, hab, hbc, comparisons_agree.2.2.2.1 .utf8 hkind _ _ _ rfl rfl rfl hab hbc⟩

end BinaryOperator

end RowQuery
