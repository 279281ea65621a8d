import Mathlib.Data.List.Induction
import Mathlib.Data.List.Perm.Basic
import RowQuery.Value.Fields

set_option autoImplicit false

/-! # Taking values out of a struct

A struct is read, taken from and added to in any order, always by name, and several of its fields
may have one name. Every value that is ever stored in it has a place, that of its field, which does
not change. The account of a struct says of each place that what has been handed out from there, in
order, and what is there now, are together the value that was stored there and then only nulls
(`Fields.Account`). One access keeps the account (`Fields.Account.next`), and so does any sequence
of them (`Fields.account`).
-/

namespace RowQuery

namespace Fields

/-! ## Accesses -/

/-- The values of the fields, in order. -/
def values (fields : Fields) : List Value := fields.map (·.2)

/-- Something that is done to a struct. -/
inductive Access where
  | get (name : String)
  | take (name : String)
  | append (name : String) (value : Value)

namespace Access

/-- The value that an access answers with, if it answers with one. -/
def result (fields : Fields) : Access → Option Value
  | get name => fields.get? name
  | take name => (fields.take name).1
  | append _ _ => none

/-- The fields after an access. -/
def next (fields : Fields) : Access → Fields
  | get _ => fields
  | take name => (fields.take name).2
  | append name value => fields.append name value

/-- The value that an access takes out of the struct, with the place where it was. -/
def handed (fields : Fields) : Access → List (Nat × Value)
  | take name => (fields.take name).1.toList.map (fun v => (fields.names.idxOf name, v))
  | _ => []

/-- The field that an access adds. -/
def added : Access → Fields
  | append name value => [(name, value)]
  | _ => []

end Access

/-- The fields after several accesses. -/
def after (fields : Fields) (accesses : List Access) : Fields := accesses.foldl Access.next fields

/-- All that is taken out in several accesses, in order. -/
def handed (fields : Fields) : List Access → List (Nat × Value)
  | [] => []
  | a :: rest => a.handed fields ++ handed (a.next fields) rest

/-- The fields that are ever stored: those that are there at first and those that are added. -/
def stored (fields : Fields) (accesses : List Access) : Fields :=
  fields ++ accesses.flatMap Access.added

/-- Those of the values handed out that were at one place. -/
def takenFrom (place : Nat) (handed : List (Nat × Value)) : List Value :=
  (handed.filter (·.1 = place)).map (·.2)

theorem after_append (fields : Fields) (accesses more : List Access) :
    fields.after (accesses ++ more) = (fields.after accesses).after more :=
  List.foldl_append

theorem handed_append (fields : Fields) (accesses more : List Access) :
    fields.handed (accesses ++ more)
      = fields.handed accesses ++ (fields.after accesses).handed more := by
  induction accesses generalizing fields with
  | nil => rfl
  | cons a rest ih =>
      rw [List.cons_append, handed, ih, handed, List.append_assoc]
      rfl

theorem stored_append (fields : Fields) (accesses more : List Access) :
    fields.stored (accesses ++ more) = (fields.stored accesses).stored more := by
  rw [stored, stored, stored, List.flatMap_append, List.append_assoc]

theorem takenFrom_append (place : Nat) (handed more : List (Nat × Value)) :
    takenFrom place (handed ++ more) = takenFrom place handed ++ takenFrom place more := by
  rw [takenFrom, List.filter_append, List.map_append]
  rfl

theorem takenFrom_singleton (place i : Nat) (v : Value) :
    takenFrom i [(place, v)] = if place = i then [v] else [] := by
  by_cases h : place = i
  · simp [takenFrom, h]
  · simp [takenFrom, h]

theorem names_append (fields more : Fields) :
    names (fields ++ more) = fields.names ++ more.names := List.map_append

theorem values_append (fields more : Fields) :
    values (fields ++ more) = fields.values ++ more.values := List.map_append

theorem values_cons (name : String) (v : Value) (fields : Fields) :
    values ((name, v) :: fields) = v :: fields.values := rfl

theorem length_values (fields : Fields) : fields.values.length = fields.length := List.length_map _

/-- Only one place differs where one value is put for another. -/
theorem getElem?_of_ne {l m : List Value} {v w : Value} {i : Nat} (h : l.length ≠ i) :
    (l ++ v :: m)[i]? = (l ++ w :: m)[i]? := by
  rcases Nat.lt_or_gt_of_ne h with hbehind | hbefore
  · obtain ⟨k, hk⟩ : ∃ k, i - l.length = k + 1 := ⟨i - l.length - 1, by omega⟩
    rw [List.getElem?_append_right (Nat.le_of_lt hbehind),
      List.getElem?_append_right (Nat.le_of_lt hbehind), hk, List.getElem?_cons_succ,
      List.getElem?_cons_succ]
  · rw [List.getElem?_append_left hbefore, List.getElem?_append_left hbefore]

/-! ## The first field of a name -/

theorem get?_eq_none_iff {name : String} {fields : Fields} :
    fields.get? name = none ↔ name ∉ fields.names := by
  induction fields with
  | nil => simp [get?, names]
  | cons field rest ih =>
      obtain ⟨n, v⟩ := field
      rw [names, List.map_cons, ← names, List.mem_cons, not_or, ← ih, get?]
      by_cases hn : n = name
      · simp [hn]
      · simp [hn, Ne.symm hn]

/-- The first field of a name is the one that is taken. -/
theorem take_append {name : String} {before : Fields} (h : name ∉ before.names) (v : Value)
    (behind : Fields) :
    take name (before ++ (name, v) :: behind) = (some v, before ++ (name, .null) :: behind) := by
  induction before with
  | nil => simp [take, get?, clear]
  | cons field rest ih =>
      obtain ⟨n, w⟩ := field
      obtain ⟨hn, hrest⟩ := not_or.mp (mt List.mem_cons.mpr h)
      have hne : n ≠ name := Ne.symm hn
      obtain ⟨hget, hclear⟩ := Prod.mk.inj (ih hrest)
      rw [take, List.cons_append, get?, if_neg hne, clear, if_neg hne, hget, hclear,
        List.cons_append]

/-- Either there is no field of a name and nothing happens, or the value of the first one is handed
out and a null is left there. -/
theorem take_cases (name : String) (fields : Fields) :
    (name ∉ fields.names ∧ fields.take name = (none, fields)) ∨
    ∃ (before : Fields) (v : Value) (behind : Fields),
      fields = before ++ (name, v) :: behind ∧ name ∉ before.names ∧
      fields.names.idxOf name = before.length ∧
      fields.take name = (some v, before ++ (name, .null) :: behind) := by
  by_cases hname : name ∈ fields.names
  · right
    obtain ⟨first, last, hnames, hfirst⟩ := List.eq_append_cons_of_mem hname
    -- the names are split at the first one, and the fields are split there too
    obtain ⟨before, rest, rfl, rfl, hrest⟩ := List.map_eq_append_iff.mp hnames
    obtain ⟨⟨n, v⟩, behind, rfl, rfl, -⟩ := List.map_eq_cons_iff.mp hrest
    refine ⟨before, v, behind, rfl, hfirst, ?_, take_append hfirst v behind⟩
    rw [names, List.map_append, List.map_cons, List.idxOf_append_of_notMem hfirst,
      List.idxOf_cons_self, List.length_map, Nat.add_zero]
  · have hnone := get?_eq_none_iff.mpr hname
    exact .inl ⟨hname, by rw [take, hnone, clear_of_get?_eq_none hnone]⟩

/-- A field is found in front of what is added. -/
theorem get?_append_of_some {name : String} {fields : Fields} {v : Value}
    (h : fields.get? name = some v) (more : Fields) : get? name (fields ++ more) = some v := by
  induction fields with
  | nil => cases h
  | cons field rest ih =>
      obtain ⟨n, w⟩ := field
      rw [List.cons_append, get?]
      rw [get?] at h
      by_cases hn : n = name
      · rw [if_pos hn] at h ⊢
        exact h
      · rw [if_neg hn] at h ⊢
        exact ih h

/-- Taking a field of another name leaves a field as it is. -/
theorem get?_clear_of_ne {name other : String} (h : name ≠ other) (fields : Fields) :
    (fields.clear other).get? name = fields.get? name := by
  induction fields with
  | nil => rfl
  | cons field rest ih =>
      obtain ⟨n, v⟩ := field
      rw [clear]
      by_cases hn : n = other
      · have hne : n ≠ name := fun hname => h (hname.symm.trans hn)
        rw [if_pos hn, get?, get?, if_neg hne, if_neg hne]
      · rw [if_neg hn, get?, get?, ih]

/-! ## Nulls stay -/

/-- A field that is null is null after any access. -/
theorem get?_next_of_null {name : String} {fields : Fields} (h : fields.get? name = some .null)
    (a : Access) : (a.next fields).get? name = some .null := by
  cases a with
  | get other => exact h
  | take other =>
      by_cases hname : name = other
      · exact hname ▸ get?_clear_self h
      · exact (get?_clear_of_ne hname fields).trans h
  | append other value => exact get?_append_of_some h _

theorem get?_after_of_null {name : String} {fields : Fields} (h : fields.get? name = some .null)
    (accesses : List Access) : (fields.after accesses).get? name = some .null := by
  induction accesses generalizing fields with
  | nil => exact h
  | cons a rest ih => exact ih (get?_next_of_null h a)

/-! ## The account of a struct -/

/-- From the value that was at a place, to what is there now: the values handed out from there in
the meantime start with it, if there are any, and go on with nulls. -/
def HandsOver (was : Value) (taken : List Value) (now : Value) : Prop :=
  taken ++ [now] = was :: List.replicate taken.length .null

theorem HandsOver.take {was now : Value} {taken : List Value} (h : HandsOver was taken now) :
    HandsOver was (taken ++ [now]) .null := by
  have h' : taken ++ [now] = was :: List.replicate taken.length .null := h
  rw [HandsOver, h', List.length_cons, List.length_replicate, List.replicate_succ',
    List.cons_append]

/-- What has been stored in a struct, what is in it now and what has been handed out agree: fields
keep their places and names, each place has handed over its value, and in all there is one more null
for every value that has been handed out. -/
structure Account (stored now : Fields) (handed : List (Nat × Value)) : Prop where
  names : now.names = stored.names
  places : ∀ entry ∈ handed, entry.1 < now.length
  handsOver : ∀ i v, stored.values[i]? = some v →
    ∃ w, now.values[i]? = some w ∧ HandsOver v (takenFrom i handed) w
  conserves : (handed.map (·.2) ++ now.values).Perm
    (stored.values ++ List.replicate handed.length .null)

namespace Account

variable {stored now : Fields} {handed : List (Nat × Value)}

theorem length_eq (h : Account stored now handed) : now.length = stored.length := by
  have hlength := congrArg List.length h.names
  rwa [Fields.names, Fields.names, List.length_map, List.length_map] at hlength

/-- Before anything is done. -/
theorem refl (fields : Fields) : Account fields fields [] where
  names := rfl
  places := nofun
  handsOver i v hv := ⟨v, hv, rfl⟩
  conserves := by rw [List.length_nil, List.replicate_zero, List.append_nil]; exact .refl _

/-- Nothing has been handed out from a place that there is not. -/
theorem takenFrom_eq_nil (h : Account stored now handed) {i : Nat} (hi : now.length ≤ i) :
    takenFrom i handed = [] := by
  have hnone : ∀ entry ∈ handed, ¬(decide (entry.1 = i) = true) := by
    intro entry hentry heq
    have hplace := h.places entry hentry
    rw [of_decide_eq_true heq] at hplace
    omega
  rw [takenFrom, List.filter_eq_nil_iff.mpr hnone, List.map_nil]

/-- A field is added behind the others. -/
theorem append (h : Account stored now handed) (name : String) (value : Value) :
    Account (stored ++ [(name, value)]) (now.append name value) handed where
  names := by
    rw [Fields.append, names_append, names_append, h.names]
  places entry hentry := by
    have hplace := h.places entry hentry
    rw [Fields.append, List.length_append]
    omega
  handsOver i v hv := by
    have hlength := h.length_eq
    rw [values_append] at hv
    rw [Fields.append, values_append]
    by_cases hi : i < stored.length
    · rw [List.getElem?_append_left (by rwa [length_values])] at hv
      rw [List.getElem?_append_left (by rwa [length_values, hlength])]
      exact h.handsOver i v hv
    · -- the new place has its value and has not handed out anything
      rw [h.takenFrom_eq_nil (by omega)]
      rw [List.getElem?_append_right (by rw [length_values]; omega), length_values] at hv
      rw [List.getElem?_append_right (by rw [length_values]; omega), length_values, hlength]
      exact ⟨v, hv, rfl⟩
  conserves := by
    rw [Fields.append, values_append, values_append, ← List.append_assoc]
    have hcomm : (List.replicate handed.length Value.null ++ [value]).Perm
        ([value] ++ List.replicate handed.length .null) := List.perm_append_comm
    calc (handed.map (·.2) ++ now.values ++ [value]).Perm
          (stored.values ++ List.replicate handed.length .null ++ [value]) :=
          h.conserves.append_right [value]
      _ = stored.values ++ (List.replicate handed.length .null ++ [value]) := List.append_assoc ..
      (_ : List Value).Perm (stored.values ++ ([value] ++ List.replicate handed.length .null)) :=
          hcomm.append_left stored.values
      _ = stored.values ++ [value] ++ List.replicate handed.length .null :=
          (List.append_assoc ..).symm

/-- The value of a field is handed out from its place, and a null is left there. -/
theorem take {name : String} {before behind : Fields} {v : Value}
    (h : Account stored (before ++ (name, v) :: behind) handed) :
    Account stored (before ++ (name, .null) :: behind) (handed ++ [(before.length, v)]) where
  names := by
    rw [← h.names, names_append, names_append]
    rfl
  places entry hentry := by
    rcases List.mem_append.mp hentry with hentry | hentry
    · have hplace := h.places entry hentry
      rw [List.length_append, List.length_cons] at hplace ⊢
      exact hplace
    · rw [List.mem_singleton.mp hentry, List.length_append, List.length_cons]
      omega
  handsOver i u hu := by
    obtain ⟨w, hw, hover⟩ := h.handsOver i u hu
    rw [values_append, values_cons] at hw ⊢
    rw [takenFrom_append, takenFrom_singleton]
    by_cases hi : before.length = i
    · -- this place: what is there now is handed out as well
      subst hi
      have hplace : before.values.length ≤ before.length := Nat.le_of_eq (length_values before)
      rw [List.getElem?_append_right hplace, length_values, Nat.sub_self] at hw ⊢
      cases hw
      rw [if_pos rfl]
      exact ⟨.null, rfl, hover.take⟩
    · rw [if_neg hi, List.append_nil]
      refine ⟨w, ?_, hover⟩
      rw [← hw]
      exact getElem?_of_ne (by rwa [length_values])
  conserves := by
    have hbefore := h.conserves
    rw [values_append, values_cons] at hbefore ⊢
    rw [List.length_append, List.length_singleton, List.replicate_succ, List.map_append,
      List.map_singleton]
    -- the null that is left behind is the one more on the other side
    have hnull : (handed.map (·.2) ++ [v] ++ (before.values ++ .null :: behind.values)).Perm
        (.null :: (handed.map (·.2) ++ [v] ++ (before.values ++ behind.values))) :=
      (List.perm_middle.append_left _).trans List.perm_middle
    have hvalue : (handed.map (·.2) ++ [v] ++ (before.values ++ behind.values)).Perm
        (handed.map (·.2) ++ (before.values ++ v :: behind.values)) := by
      rw [List.append_assoc, List.singleton_append]
      exact List.perm_middle.symm.append_left _
    exact hnull.trans (((hvalue.trans hbefore).cons .null).trans List.perm_middle.symm)

/-- One access keeps the account. -/
theorem next (h : Account stored now handed) (a : Access) :
    Account (stored ++ a.added) (a.next now) (handed ++ a.handed now) := by
  cases a with
  | get name =>
      show Account (stored ++ []) now (handed ++ [])
      rw [List.append_nil, List.append_nil]
      exact h
  | append name value =>
      show Account (stored ++ [(name, value)]) (now.append name value) (handed ++ [])
      rw [List.append_nil]
      exact h.append name value
  | take name =>
      show Account (stored ++ []) (now.take name).2
        (handed ++ (now.take name).1.toList.map (fun v => (now.names.idxOf name, v)))
      rw [List.append_nil]
      rcases take_cases name now with ⟨-, htake⟩ | ⟨before, v, behind, hnow, -, hplace, htake⟩
      · rw [htake, Option.toList_none, List.map_nil, List.append_nil]
        exact h
      · rw [htake, hplace, Option.toList_some, List.map_singleton]
        exact (hnow ▸ h).take

end Account

/-- The account holds after any accesses. -/
theorem account (fields : Fields) (accesses : List Access) :
    Account (fields.stored accesses) (fields.after accesses) (fields.handed accesses) := by
  induction accesses using List.reverseRecOn with
  | nil =>
      show Account (fields ++ []) fields []
      rw [List.append_nil]
      exact .refl fields
  | append_singleton accesses a ih =>
      -- the last access comes on top of all the others
      have hnext := ih.next a
      rw [stored_append, after_append, handed_append]
      show Account (fields.stored accesses ++ (a.added ++ [])) (a.next (fields.after accesses))
        (fields.handed accesses ++ (a.handed (fields.after accesses) ++ []))
      rwa [List.append_nil, List.append_nil]

/-- **Taking fields neither loses nor duplicates values.** Of a struct, whatever has been done to it
before: taking hands out the value of the first field of a name and leaves a null in that one place,
or does nothing if there is no such field; reading changes nothing; and once a field has been taken
its name reads as null, whatever is done later. After any accesses the names are those that were
there and those that were added, in that order. What has been handed out from a place, followed by
what is there now, is the value stored there followed by nulls. In all, what has been handed out and
what is there now are the values stored and one null for each that was handed out. -/
theorem taking_conserves (fields : Fields) (accesses : List Access) :
    (∀ name : String,
      (name ∉ fields.names ∧ fields.take name = (none, fields)) ∨
      ∃ (before : Fields) (v : Value) (behind : Fields),
        fields = before ++ (name, v) :: behind ∧ name ∉ before.names ∧
        fields.names.idxOf name = before.length ∧
        fields.take name = (some v, before ++ (name, .null) :: behind)) ∧
    (∀ name : String, (Access.get name).next fields = fields ∧
      (Access.get name).result fields = (Access.take name).result fields) ∧
    (∀ name : String, name ∈ fields.names →
      (Access.get name).result ((fields.take name).2.after accesses) = some .null ∧
      (Access.take name).result ((fields.take name).2.after accesses) = some .null) ∧
    (fields.after accesses).names = fields.names ++ names (accesses.flatMap Access.added) ∧
    (∀ i v, (fields.stored accesses).values[i]? = some v →
      ∃ now, (fields.after accesses).values[i]? = some now ∧
        takenFrom i (fields.handed accesses) ++ [now]
          = v :: List.replicate (takenFrom i (fields.handed accesses)).length .null) ∧
    ((fields.handed accesses).map (·.2) ++ (fields.after accesses).values).Perm
      ((fields.stored accesses).values
        ++ List.replicate (fields.handed accesses).length .null) := by
  have haccount := account fields accesses
  refine ⟨fun name => take_cases name fields, fun name => ⟨rfl, rfl⟩, ?_, ?_, haccount.handsOver,
    haccount.conserves⟩
  · intro name hname
    obtain ⟨v, hv⟩ : ∃ v, fields.get? name = some v :=
      Option.ne_none_iff_exists'.mp (fun hnone => get?_eq_none_iff.mp hnone hname)
    have hnull := get?_after_of_null (get?_clear_self hv) accesses
    exact ⟨hnull, hnull⟩
  · rw [haccount.names, stored, names_append]

/-- Of two fields of one name only the first one is ever taken. A third one that is added later does
not change this. -/
example : handed [("a", .int64 1), ("a", .int64 2)]
    [.take "a", .append "a" (.int64 3), .take "a"] = [(0, .int64 1), (0, .null)] := by
  rfl

end Fields

end RowQuery
