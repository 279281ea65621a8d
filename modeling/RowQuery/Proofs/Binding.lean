import Std.Data.String.ToNat
import Mathlib.Logic.Function.Basic
import RowQuery.Sql.Parameter

set_option autoImplicit false

/-! # What placeholders stand for

The parameters of a command are named by their places (`Counted`), and unless they are bound by
position no two places have the same name (`nameAt_injective`). So a placeholder can be looked up
among the parameters, and looking it up is not disturbed by parameters that are bound later. What is
found is the value that was bound, or one that agrees with it and was bound before
(`define_value`).
-/

namespace RowQuery

/-- What may be bound to the placeholder of a value: the value itself, or one that agrees with it.
-/
def Value.StandsFor (w v : Value) : Prop := w = v ∨ (w == v) = true

namespace Binder

/-! ## Names by place -/

/-- The characters of a name: the stem, and the digits of the count. -/
theorem toList_nameAt (style : ParameterStyle) (count : Nat) :
    (nameAt style count).toList = match style with
      | .positional => ['?']
      | .named stem => stem.toList ++ Nat.toDigits 10 count
      | .numbered => '$' :: Nat.toDigits 10 (count + 1) := by
  cases style with
  | positional =>
      show "?".toList = ['?']
      decide
  | named stem =>
      show (stem ++ Nat.repr count).toList = _
      rw [String.toList_append, Nat.toList_repr]
  | numbered =>
      show ("$" ++ Nat.repr (count + 1)).toList = _
      rw [String.toList_append, Nat.toList_repr]
      rfl

/-- Places that are not bound by position have names of their own. -/
theorem nameAt_injective {style : ParameterStyle} (h : style ≠ .positional) :
    Function.Injective (nameAt style) := by
  intro i j hij
  cases style with
  | positional => exact absurd rfl h
  | named stem => exact Nat.repr_injective (String.append_right_inj stem |>.mp hij)
  | numbered =>
      have hsucc : i + 1 = j + 1 := Nat.repr_injective (String.append_right_inj "$" |>.mp hij)
      exact Nat.succ.inj hsucc

/-- Every parameter has the name of its place. -/
def Counted (b : Binder) : Prop :=
  ∀ i p, b.parameters[i]? = some p → p.name = nameAt b.style i

theorem counted_new (style : ParameterStyle) : Counted (.new style) := by
  intro i p h
  cases h

/-- What binding a value does: the value gets the placeholder of an earlier one that agrees with it,
or a parameter of its own behind the others. -/
theorem define_eq (b : Binder) (v : Value) :
    (∃ p ∈ b.parameters, b.style ≠ .positional ∧ (p.value == v) = true ∧
      b.define v = (p.name, b)) ∨
    b.define v = (nameAt b.style b.parameters.length,
      ⟨b.style, b.parameters ++ [⟨nameAt b.style b.parameters.length, v⟩]⟩) := by
  rcases hexisting : b.existing? v with _ | p
  · refine .inr ?_
    rw [define, hexisting]
  · refine .inl ⟨p, ?_⟩
    have hdefine : b.define v = (p.name, b) := by rw [define, hexisting]
    rw [existing?] at hexisting
    split at hexisting
    · rename_i hshares
      have hstyle : b.style ≠ .positional := by
        rw [Bool.and_eq_true, shares, decide_eq_true_eq] at hshares
        exact hshares.1
      have hagrees : (p.value == v) = true := by
        have hfound := List.find?_some hexisting
        exact hfound
      exact ⟨List.mem_of_find?_eq_some hexisting, hstyle, hagrees, hdefine⟩
    · cases hexisting

theorem define_style (b : Binder) (v : Value) : (b.define v).2.style = b.style := by
  rcases define_eq b v with ⟨p, -, -, -, h⟩ | h <;> rw [h]

/-- What has been bound stays in front. -/
theorem define_prefix (b : Binder) (v : Value) :
    b.parameters <+: (b.define v).2.parameters := by
  rcases parameters_define b v with h | h
  · exact ⟨[], by rw [List.append_nil, h]⟩
  · exact ⟨_, h.symm⟩

theorem counted_define {b : Binder} (hb : Counted b) (v : Value) : Counted (b.define v).2 := by
  rcases define_eq b v with ⟨p, -, -, -, h⟩ | h
  · rw [h]
    exact hb
  · rw [h]
    intro i p hp
    show p.name = nameAt b.style i
    rw [List.getElem?_append] at hp
    by_cases hi : i < b.parameters.length
    · rw [if_pos hi] at hp
      exact hb i p hp
    · -- the place behind all others is the one that was counted
      rw [if_neg hi, List.getElem?_singleton] at hp
      split at hp
      · cases hp
        have : i = b.parameters.length := by omega
        rw [this]
      · cases hp

/-- A placeholder is always the name of some place. -/
theorem define_name {b : Binder} (hb : Counted b) (v : Value) :
    ∃ i, (b.define v).1 = nameAt b.style i := by
  rcases define_eq b v with ⟨p, hp, -, -, h⟩ | h
  · obtain ⟨i, hi⟩ := List.getElem?_of_mem hp
    refine ⟨i, ?_⟩
    rw [h]
    exact hb i p hi
  · exact ⟨_, by rw [h]⟩

/-! ## Binding one value after the other -/

/-- Binding some values and then others. -/
theorem defineAll_append (b : Binder) (l m : List Value) :
    (b.defineAll (l ++ m)).2 = ((b.defineAll l).2.defineAll m).2 := by
  induction l generalizing b with
  | nil => rfl
  | cons v rest ih => exact ih (b.define v).2

theorem defineAll_prefix (b : Binder) (values : List Value) :
    b.parameters <+: (b.defineAll values).2.parameters := by
  induction values generalizing b with
  | nil => exact List.prefix_refl _
  | cons v rest ih => exact (b.define_prefix v).trans (ih (b.define v).2)

/-! ## Looking placeholders up -/

/-- The value of the first parameter with the given name. -/
def valueOf? (parameters : List BoundParameter) (name : String) : Option Value :=
  (parameters.find? (fun p => p.name = name)).map (·.value)

/-- Parameters that are bound later do not count where there is one already. -/
theorem valueOf?_of_prefix {before after : List BoundParameter} (h : before <+: after)
    {name : String} {v : Value} (hv : valueOf? before name = some v) :
    valueOf? after name = some v := by
  obtain ⟨more, rfl⟩ := h
  obtain ⟨p, hp, hpv⟩ := Option.map_eq_some_iff.mp hv
  rw [valueOf?, List.find?_append, hp]
  exact congrArg some hpv

/-- Under the name of a place stands the value of that place. -/
theorem valueOf?_name {b : Binder} (hb : Counted b) (hstyle : b.style ≠ .positional)
    {p : BoundParameter} (hp : p ∈ b.parameters) :
    valueOf? b.parameters p.name = some p.value := by
  rcases hfind : b.parameters.find? (fun q => q.name = p.name) with _ | q
  · rw [List.find?_eq_none] at hfind
    exact absurd (decide_eq_true rfl) (hfind p hp)
  · -- the one that is found has the same name, so it stands in the same place
    obtain ⟨i, hi⟩ := List.getElem?_of_mem hp
    obtain ⟨j, hj⟩ := List.getElem?_of_mem (List.mem_of_find?_eq_some hfind)
    have hname : q.name = p.name := by
      have hfound := List.find?_some hfind
      exact of_decide_eq_true hfound
    have hij : j = i := by
      apply nameAt_injective hstyle
      rw [← hb i p hi, ← hb j q hj, hname]
    rw [hij, hi] at hj
    cases hj
    rw [valueOf?, hfind]
    rfl

/-- The placeholder of a value is the name of a parameter with that value, or with one that agrees
with it. -/
theorem define_parameter (b : Binder) (v : Value) :
    ∃ p ∈ (b.define v).2.parameters, p.name = (b.define v).1 ∧ p.value.StandsFor v := by
  rcases define_eq b v with ⟨p, hp, -, hagrees, h⟩ | h
  · rw [h]
    exact ⟨p, hp, rfl, .inr hagrees⟩
  · rw [h]
    exact ⟨_, List.mem_append_right _ (List.mem_singleton_self _), rfl, .inl rfl⟩

/-- Under the placeholder of a value stands that value, or an earlier one that agrees with it. -/
theorem define_value {b : Binder} (hb : Counted b) (hstyle : b.style ≠ .positional) (v : Value) :
    ∃ w, valueOf? (b.define v).2.parameters (b.define v).1 = some w ∧ w.StandsFor v := by
  obtain ⟨p, hp, hname, hstands⟩ := define_parameter b v
  refine ⟨p.value, ?_, hstands⟩
  rw [← hname]
  exact valueOf?_name (counted_define hb v) (define_style b v ▸ hstyle) hp

/-- Bound by position, every value gets a parameter of its own. -/
theorem define_positional {b : Binder} (hstyle : b.style = .positional) (v : Value) :
    b.define v = ("?", ⟨.positional, b.parameters ++ [⟨"?", v⟩]⟩) := by
  rcases define_eq b v with ⟨p, -, hother, -⟩ | h
  · exact absurd hstyle hother
  · rw [h, hstyle]
    rfl

end Binder

end RowQuery
