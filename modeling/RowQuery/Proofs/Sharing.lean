import Mathlib.Data.List.Nodup
import Mathlib.Data.List.Range
import RowQuery.Proofs.Binding

set_option autoImplicit false

/-! # Shared placeholders

A binder that shares placeholders looks for a parameter whose value agrees with the one that is to
be bound, and adds a parameter where there is none. Agreement is no equivalence: a NaN does not
agree with itself, and so neither does a value with a NaN inside. Such a value agrees with nothing
at all (`Value.agree_self`) and gets a parameter at every use, as a null does, which is never looked
for.

What one binding preserves (`Binder.Shared`) holds after any number of them: every parameter has
the name of its place, and none could have shared the placeholder of an earlier one. That the
placeholders come in the order of the parameters is said of the names so far and the placeholders to
come together (`Binder.eraseDups_defineAll`).
-/

namespace RowQuery

/-! ## Agreement with itself -/

/-- A number that is equal to some number is equal to itself. -/
theorem Double.beq_self {x y : Float} (h : (x == y) = true) : (y == y) = true := by
  change (x.toModel.unpack.compare y.toModel.unpack == some .eq) = true at h
  change (y.toModel.unpack.compare y.toModel.unpack == some .eq) = true
  generalize x.toModel.unpack = u at h
  generalize y.toModel.unpack = w at h ⊢
  cases w with
  | notANumber => cases u <;> cases h
  | infinity s => cases s <;> rfl
  | zero s => rfl
  | finite s mantissa exponent hpos =>
      have hexponent : compare exponent exponent = .eq := Std.ReflCmp.compare_self
      have hmantissa : compare mantissa mantissa = .eq := Std.ReflCmp.compare_self
      have horder : (compare exponent exponent).then (compare mantissa mantissa) = .eq := by
        rw [hexponent, hmantissa]
        rfl
      cases s with
      | positive => exact congrArg (fun o => some o == some Ordering.eq) horder
      | negative => exact congrArg (fun o => some o.swap == some Ordering.eq) horder

namespace Value

mutual

/-- A value that agrees with some value agrees with itself. -/
theorem agree_self {same : Float → Float → Bool}
    (hsame : ∀ x y, same x y = true → same y y = true) (v w : Value)
    (h : agree same v w = true) : agree same w w = true := by
  match v, w with
  | .null, .null => rfl
  | .boolean a, .boolean b => simp [agree]
  | .int64 a, .int64 b => simp [agree]
  | .float64 a, .float64 b => exact hsame a b h
  | .utf8 a, .utf8 b => simp [agree]
  | .tuple as, .tuple bs => exact agreeAll_self hsame as bs h
  | .struct fs, .struct gs => exact agreeFields_self hsame fs gs h

theorem agreeAll_self {same : Float → Float → Bool}
    (hsame : ∀ x y, same x y = true → same y y = true) (vs ws : List Value)
    (h : agreeAll same vs ws = true) : agreeAll same ws ws = true := by
  match vs, ws with
  | [], [] => rfl
  | v :: vs, w :: ws =>
      rw [agreeAll, Bool.and_eq_true] at h ⊢
      exact ⟨agree_self hsame v w h.1, agreeAll_self hsame vs ws h.2⟩

theorem agreeFields_self {same : Float → Float → Bool}
    (hsame : ∀ x y, same x y = true → same y y = true) (fs gs : List (String × Value))
    (h : agreeFields same fs gs = true) : agreeFields same gs gs = true := by
  match fs, gs with
  | [], [] => rfl
  | (m, v) :: fs, (n, w) :: gs =>
      rw [agreeFields, Bool.and_eq_true, Bool.and_eq_true] at h ⊢
      exact ⟨beq_self_eq_true n, agree_self hsame v w h.2.1, agreeFields_self hsame fs gs h.2.2⟩

end

theorem beq_self {v w : Value} (h : (v == w) = true) : (w == w) = true := by
  have hsame : ∀ x y : Float, (x == y) = true → (y == y) = true := fun _ _ => Double.beq_self
  exact agree_self hsame v w h

end Value

namespace Binder

/-! ## One binding -/

/-- Where placeholders are shared, a null is never found, and other values by agreement. -/
theorem existing?_eq_none_iff {b : Binder} (hstyle : b.style ≠ .positional) {v : Value} :
    b.existing? v = none ↔ v = .null ∨ ∀ p ∈ b.parameters, (p.value == v) = false := by
  have hshares : b.shares = true := decide_eq_true hstyle
  rw [existing?, hshares, Bool.true_and]
  cases hnull : v.isNull with
  | true => simp [Value.isNull_iff.mp hnull]
  | false =>
      have hv : v ≠ .null := by
        intro hv
        rw [hv] at hnull
        cases hnull
      simp [hv]

/-- What agrees with nothing is never found. -/
theorem existing?_of_unlike {b : Binder} (hstyle : b.style ≠ .positional) {v : Value}
    (hv : v = .null ∨ (v == v) = false) : b.existing? v = none := by
  rw [existing?_eq_none_iff hstyle]
  rcases hv with hv | hv
  · exact .inl hv
  · refine .inr ?_
    intro p _
    cases hp : p.value == v with
    | false => rfl
    | true =>
        rw [Value.beq_self hp] at hv
        cases hv

theorem define_of_existing?_eq_none {b : Binder} {v : Value} (h : b.existing? v = none) :
    b.define v = (nameAt b.style b.parameters.length,
      ⟨b.style, b.parameters ++ [⟨nameAt b.style b.parameters.length, v⟩]⟩) := by
  rw [define, h]

/-- A binder that shares placeholders: every parameter has the name of its place, and none of them
could have shared the placeholder of an earlier one. -/
structure Shared (b : Binder) : Prop where
  style : b.style ≠ .positional
  counted : b.Counted
  apart : b.parameters.Pairwise (fun p q => q.value ≠ .null → (p.value == q.value) = false)

theorem shared_new {style : ParameterStyle} (h : style ≠ .positional) : (new style).Shared :=
  ⟨h, counted_new style, .nil⟩

/-- **Binding a value keeps placeholders shared.** -/
theorem Shared.define {b : Binder} (h : b.Shared) (v : Value) : (b.define v).2.Shared := by
  refine ⟨define_style b v ▸ h.style, counted_define h.counted v, ?_⟩
  cases hexisting : b.existing? v with
  | some p =>
      rw [Binder.define, hexisting]
      exact h.apart
  | none =>
      rw [define_of_existing?_eq_none hexisting, List.pairwise_append]
      refine ⟨h.apart, List.pairwise_singleton _ _, ?_⟩
      intro p hp q hq hnull
      obtain rfl := List.mem_singleton.mp hq
      exact ((existing?_eq_none_iff h.style).mp hexisting).resolve_left hnull p hp

/-- The names of the parameters, in order. -/
theorem Counted.names {b : Binder} (h : b.Counted) :
    b.parameters.map (·.name) = (List.range b.parameters.length).map (nameAt b.style) := by
  apply List.ext_getElem
  · simp
  · intro i hi _
    rw [List.length_map] at hi
    simpa using h i _ (List.getElem?_eq_getElem hi)

theorem Shared.nodup {b : Binder} (h : b.Shared) : (b.parameters.map (·.name)).Nodup := by
  rw [h.counted.names]
  exact List.nodup_range.map (nameAt_injective h.style)

/-! ## Binding one value after the other -/

/-- The placeholders of some values and then of others. -/
theorem placeholders_append (b : Binder) (l m : List Value) :
    (b.defineAll (l ++ m)).1 = (b.defineAll l).1 ++ ((b.defineAll l).2.defineAll m).1 := by
  induction l generalizing b with
  | nil => rfl
  | cons v rest ih => exact congrArg ((b.define v).1 :: ·) (ih (b.define v).2)

theorem defineAll_style (b : Binder) (values : List Value) :
    (b.defineAll values).2.style = b.style := by
  induction values generalizing b with
  | nil => rfl
  | cons v rest ih => exact (ih (b.define v).2).trans (b.define_style v)

theorem Shared.defineAll {b : Binder} (h : b.Shared) (values : List Value) :
    (b.defineAll values).2.Shared := by
  induction values generalizing b with
  | nil => exact h
  | cons v rest ih => exact ih (h.define v)

/-- Bound by position, every value has a parameter of its own, in the order of use. -/
theorem defineAll_positional {b : Binder} (h : b.style = .positional) (values : List Value) :
    (b.defineAll values).1 = values.map (fun _ => "?") ∧
      (b.defineAll values).2.parameters = b.parameters ++ values.map (⟨"?", ·⟩) := by
  induction values generalizing b with
  | nil => exact ⟨rfl, (List.append_nil _).symm⟩
  | cons v rest ih =>
      rw [Binder.defineAll, define_positional h]
      obtain ⟨hnames, hparameters⟩ := ih (b := ⟨.positional, b.parameters ++ [⟨"?", v⟩]⟩) rfl
      refine ⟨congrArg ("?" :: ·) hnames, ?_⟩
      rw [hparameters, List.append_assoc]
      rfl

/-- Every placeholder is the name of a parameter that stands for its value. -/
theorem forall₂_defineAll (b : Binder) (values : List Value) :
    List.Forall₂ (fun v name => ∃ p ∈ (b.defineAll values).2.parameters,
        p.name = name ∧ p.value.StandsFor v) values (b.defineAll values).1 := by
  induction values generalizing b with
  | nil => exact .nil
  | cons v rest ih =>
      refine .cons ?_ (ih (b.define v).2)
      obtain ⟨p, hp, hname, hstands⟩ := define_parameter b v
      have hkept := defineAll_prefix (b.define v).2 rest
      exact ⟨p, hkept.mem hp, hname, hstands⟩

/-- What agrees with nothing gets a new parameter at every use. -/
theorem Shared.defineAll_unlike {b : Binder} (h : b.Shared) (earlier : List Value) {v : Value}
    (hv : v = .null ∨ (v == v) = false) :
    ∃ name, (b.defineAll (earlier ++ [v])).1 = (b.defineAll earlier).1 ++ [name] ∧
      (b.defineAll (earlier ++ [v])).2.parameters
        = (b.defineAll earlier).2.parameters ++ [⟨name, v⟩] := by
  rw [placeholders_append, defineAll_append]
  generalize hbetween : (b.defineAll earlier).2 = between
  have hshared : between.Shared := hbetween ▸ h.defineAll earlier
  have hdefine := define_of_existing?_eq_none (existing?_of_unlike hshared.style hv)
  refine ⟨nameAt between.style between.parameters.length, ?_, ?_⟩
  · show _ ++ [(between.define v).1] = _
    rw [hdefine]
  · show (between.define v).2.parameters = _
    rw [hdefine]

/-! ## First occurrences -/

theorem eraseDups_of_nodup {names : List String} (h : names.Nodup) : names.eraseDups = names := by
  induction names with
  | nil => rfl
  | cons name rest ih =>
      obtain ⟨hname, hrest⟩ := List.nodup_cons.mp h
      have hfilter : rest.filter (fun other => !other == name) = rest := by
        rw [List.filter_eq_self]
        intro other hother
        rw [Bool.not_eq_true', beq_eq_false_iff_ne]
        rintro rfl
        exact hname hother
      rw [List.eraseDups_cons, hfilter, ih hrest]

/-- A name that has come before is no first occurrence. -/
theorem eraseDups_append_cons_of_mem {names : List String} {name : String} (h : name ∈ names)
    (rest : List String) : (names ++ name :: rest).eraseDups = (names ++ rest).eraseDups := by
  rw [List.eraseDups_append, List.eraseDups_append, List.cons_removeAll]
  simp [h]

/-- **The first occurrences among the names so far and the placeholders to come are the names in the
end.** -/
theorem Shared.eraseDups_defineAll {b : Binder} (h : b.Shared) (values : List Value) :
    (b.parameters.map (·.name) ++ (b.defineAll values).1).eraseDups
      = (b.defineAll values).2.parameters.map (·.name) := by
  induction values generalizing b with
  | nil =>
      rw [Binder.defineAll, List.append_nil]
      exact eraseDups_of_nodup h.nodup
  | cons v rest ih =>
      show (b.parameters.map (·.name)
          ++ (b.define v).1 :: ((b.define v).2.defineAll rest).1).eraseDups
        = ((b.define v).2.defineAll rest).2.parameters.map (·.name)
      rw [← ih (h.define v)]
      rcases define_eq b v with ⟨p, hp, -, -, hdefine⟩ | hdefine
      · rw [hdefine]
        exact eraseDups_append_cons_of_mem (List.mem_map_of_mem hp) _
      · -- the new name moves from the placeholders to the names so far
        rw [hdefine, List.map_append, List.append_assoc]
        rfl

end Binder

/-- **Placeholders stand for the values that were bound to them.** Whatever values are bound, one
after the other, what has been handed out and bound neither changes nor moves. By position every use
of a value has a question mark and a parameter of its own. Otherwise the parameters are named by
their places, with no name twice; every placeholder is the name of a parameter with the bound value,
or with one that agrees with it; no parameter agrees with a later one that is not null; a null, and
a value that does not agree with itself, gets a new parameter at every use; and the placeholders
come upon the parameters in their order and leave none out. -/
theorem placeholders_stand_for_values {style : ParameterStyle} {values : List Value}
    {placeholders : List String} {after : Binder}
    (hrun : (Binder.new style).defineAll values = (placeholders, after)) :
    (∀ earlier later, values = earlier ++ later →
      ((Binder.new style).defineAll earlier).1 <+: placeholders ∧
      ((Binder.new style).defineAll earlier).2.parameters <+: after.parameters) ∧
    (style = .positional →
      placeholders = values.map (fun _ => "?") ∧ after.parameters = values.map (⟨"?", ·⟩)) ∧
    (style ≠ .positional →
      (∀ k p, after.parameters[k]? = some p →
        (∀ stem, style = .named stem → p.name = stem ++ toString k) ∧
        (style = .numbered → p.name = "$" ++ toString (k + 1))) ∧
      (after.parameters.map (·.name)).Nodup ∧
      List.Forall₂ (fun v name => ∃ p ∈ after.parameters, p.name = name ∧
        (p.value = v ∨ (p.value == v) = true)) values placeholders ∧
      (∀ (i j : Nat) (p q : BoundParameter), i < j → after.parameters[i]? = some p →
        after.parameters[j]? = some q → q.value ≠ .null → (p.value == q.value) = false) ∧
      (∀ earlier v later, values = earlier ++ v :: later → v = .null ∨ (v == v) = false →
        ∃ name, ((Binder.new style).defineAll (earlier ++ [v])).1
            = ((Binder.new style).defineAll earlier).1 ++ [name] ∧
          ((Binder.new style).defineAll (earlier ++ [v])).2.parameters
            = ((Binder.new style).defineAll earlier).2.parameters ++ [⟨name, v⟩]) ∧
      placeholders.eraseDups = after.parameters.map (·.name)) := by
  obtain rfl : placeholders = ((Binder.new style).defineAll values).1 := by rw [hrun]
  obtain rfl : after = ((Binder.new style).defineAll values).2 := by rw [hrun]
  refine ⟨?_, ?_, ?_⟩
  · rintro earlier later rfl
    rw [Binder.placeholders_append, Binder.defineAll_append]
    exact ⟨List.prefix_append _ _, Binder.defineAll_prefix _ _⟩
  · intro hstyle
    exact Binder.defineAll_positional (b := Binder.new style) hstyle values
  · intro hstyle
    have hshared := (Binder.shared_new hstyle).defineAll values
    have hkept : ((Binder.new style).defineAll values).2.style = style :=
      Binder.defineAll_style _ values
    refine ⟨?_, hshared.nodup, Binder.forall₂_defineAll _ values, ?_, ?_, ?_⟩
    · intro k p hp
      have hname := hshared.counted k p hp
      rw [hkept] at hname
      constructor
      · rintro stem rfl
        exact hname
      · rintro rfl
        exact hname
    · intro i j p q hij hp hq
      obtain ⟨hi, rfl⟩ := List.getElem?_eq_some_iff.mp hp
      obtain ⟨hj, rfl⟩ := List.getElem?_eq_some_iff.mp hq
      exact List.pairwise_iff_getElem.mp hshared.apart i j hi hj hij
    · intro earlier v later _ hv
      exact (Binder.shared_new hstyle).defineAll_unlike earlier hv
    · exact (Binder.shared_new hstyle).eraseDups_defineAll values

/-- Nulls and values with a NaN inside are bound anew, the two zeros share a placeholder. -/
theorem placeholders_stand_for_values_unlike :
    (Binder.new .defaultNamed).defineAll [.null, .float64 0.0, .tuple [.float64 (0.0 / 0.0)],
        .float64 (-0.0), .null, .tuple [.float64 (0.0 / 0.0)]]
      = (["@p0", "@p1", "@p2", "@p1", "@p3", "@p4"],
        ⟨.defaultNamed, [⟨"@p0", .null⟩, ⟨"@p1", .float64 0.0⟩,
          ⟨"@p2", .tuple [.float64 (0.0 / 0.0)]⟩, ⟨"@p3", .null⟩,
          ⟨"@p4", .tuple [.float64 (0.0 / 0.0)]⟩]⟩) ∧
    ["@p0", "@p1", "@p2", "@p1", "@p3", "@p4"].eraseDups = ["@p0", "@p1", "@p2", "@p3", "@p4"] := by
  have hrun : (Binder.new .defaultNamed).defineAll [.null, .float64 0.0,
        .tuple [.float64 (0.0 / 0.0)], .float64 (-0.0), .null, .tuple [.float64 (0.0 / 0.0)]]
      = (["@p0", "@p1", "@p2", "@p1", "@p3", "@p4"],
        ⟨.defaultNamed, [⟨"@p0", .null⟩, ⟨"@p1", .float64 0.0⟩,
          ⟨"@p2", .tuple [.float64 (0.0 / 0.0)]⟩, ⟨"@p3", .null⟩,
          ⟨"@p4", .tuple [.float64 (0.0 / 0.0)]⟩]⟩) := by
    rfl
  obtain ⟨-, -, hshared⟩ := placeholders_stand_for_values hrun
  obtain ⟨-, -, -, -, -, hfirst⟩ := hshared (by decide)
  exact ⟨hrun, hfirst⟩

end RowQuery
