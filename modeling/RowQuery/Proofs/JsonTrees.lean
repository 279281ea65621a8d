import RowQuery.Json.Reader
import RowQuery.Proofs.JsonText

set_option autoImplicit false

/-! # Trees that are taken apart again

A reader of stored forms is made from the pieces of `RowQuery.Json.Reader`. On a tree that was made
for it, a piece gives what the tree was made of: a string its characters (`toText?_ofString`), a
structure its members (`structure?_ofMembers`).

A reader of a container has one container less to enter inside. So what it gives depends on how deep
the tree nests (`depth`), and it is all or nothing (`granted`): readers of containers follow from
the readers of what is in them by `granted_enter` and `bind_granted`.
-/

namespace RowQuery.Json

/-! ## Depth -/

mutual

/-- How deep arrays and objects nest. -/
def depth : Json → Nat
  | .array items => depthAll items + 1
  | .object members => depthMembers members + 1
  | _ => 0

def depthAll : List Json → Nat
  | [] => 0
  | j :: rest => max (depth j) (depthAll rest)

def depthMembers : List (List Char × Json) → Nat
  | [] => 0
  | (_, j) :: rest => max (depth j) (depthMembers rest)

end

theorem depth_ofMembers (members : List (String × Json)) :
    (ofMembers members).depth = depthAll (members.map (·.2)) + 1 := by
  show depthMembers _ + 1 = _
  congr 1
  induction members with
  | nil => rfl
  | cons m rest ih => exact congrArg (max m.2.depth) ih

theorem depth_member (name : String) (j : Json) : (ofMembers [(name, j)]).depth = j.depth + 1 := by
  rw [depth_ofMembers]
  exact congrArg (· + 1) (Nat.max_zero _)

theorem depth_array (items : List Json) : (array items).depth = depthAll items + 1 := by
  rw [depth]

/-! ## Pieces -/

theorem closes_escape (s : List Char) : Text.Closes (Text.escape s) :=
  fun rest => Text.scan?_escape s rest

theorem legible_ofString (s : String) : (ofString s).Legible := closes_escape s.toList

theorem legible_ofMembers {members : List (String × Json)} (h : ∀ m ∈ members, m.2.Legible) :
    (ofMembers members).Legible := by
  show LegibleMembers _
  induction members with
  | nil => trivial
  | cons m rest ih =>
      exact ⟨closes_escape _, h m (.head _), ih (fun m' hm' => h m' (.tail _ hm'))⟩

theorem legible_member {name : String} {j : Json} (h : j.Legible) :
    (ofMembers [(name, j)]).Legible :=
  legible_ofMembers (fun _ hm => List.mem_singleton.mp hm ▸ h)

theorem toText?_ofString (s : String) : (ofString s).toText? = some s := by
  show (Text.unescape? (Text.escape s.toList)).map String.ofList = some s
  rw [Text.unescape?_escape, Option.map_some, String.ofList_toList]

theorem case?_ofString (s : String) (room : Nat) : case? room (ofString s) = some s :=
  toText?_ofString s

theorem named?_escape (members : List (String × Json)) :
    named? (members.map (fun (name, j) => (Text.escape name.toList, j))) = some members := by
  induction members with
  | nil => rfl
  | cons m rest ih =>
      obtain ⟨name, j⟩ := m
      rw [named?] at ih ⊢
      rw [List.map_cons, List.mapM_cons, ih]
      dsimp only
      rw [Text.unescape?_escape, Option.map_some, String.ofList_toList]
      rfl

/-- Where names are distinct, every member is the only one of its name. -/
theorem filter_name {members : List (String × Json)} (hdistinct : (members.map (·.1)).Nodup)
    {name : String} {j : Json} (h : (name, j) ∈ members) :
    members.filter (fun m => m.1 = name) = [(name, j)] := by
  induction members with
  | nil => cases h
  | cons m rest ih =>
      rw [List.map_cons, List.nodup_cons] at hdistinct
      rcases List.mem_cons.mp h with rfl | h
      · have hrest : rest.filter (fun m => m.1 = name) = [] := by
          rw [List.filter_eq_nil_iff]
          intro m hm hname
          have hmem := List.mem_map_of_mem (f := Prod.fst) hm
          rw [of_decide_eq_true hname] at hmem
          exact hdistinct.1 hmem
        rw [List.filter_cons_of_pos (by simp), hrest]
      · have hother : m.1 ≠ name := by
          intro hname
          have hmem := List.mem_map_of_mem (f := Prod.fst) h
          rw [← hname] at hmem
          exact hdistinct.1 hmem
        rw [List.filter_cons_of_neg (by simpa using hother), ih hdistinct.2 h]

theorem select?_ofMembers (members : List (String × Json)) (h : (members.map (·.1)).Nodup) :
    select? (members.map (·.1)) (members.map (fun (name, j) => (Text.escape name.toList, j)))
      = some (members.map (fun m => some m.2)) := by
  have hall : ∀ part : List (String × Json), (∀ m ∈ part, m ∈ members) →
      (part.map (·.1)).mapM (fun name => unique? name members)
        = some (part.map (fun m => some m.2)) := by
    intro part hpart
    induction part with
    | nil => rfl
    | cons m rest ih =>
        have hunique : unique? m.1 members = some (some m.2) := by
          rw [unique?, filter_name h (hpart m (.head _))]
        rw [List.map_cons, List.mapM_cons, hunique, ih (fun m' hm' => hpart m' (.tail _ hm'))]
        rfl
  rw [select?, named?_escape]
  exact hall members (fun _ hm => hm)

/-- **A structure has the members that it was written with.** -/
theorem structure?_ofMembers (members : List (String × Json)) (h : (members.map (·.1)).Nodup) :
    structure? (members.map (·.1)) (ofMembers members) = some (members.map (·.2)) := by
  show (do (← select? _ _).mapM id) = _
  rw [select?_ofMembers members h]
  show (members.map (fun m => some m.2)).mapM id = _
  induction members with
  | nil => rfl
  | cons m rest ih =>
      rw [List.map_cons, List.nodup_cons] at h
      rw [List.map_cons, List.mapM_cons, ih h.2]
      rfl

/-! ## Room -/

/-- What reading comes to where it takes `depth` containers and there is room for `room` of them. -/
def granted {α : Type} (finite : Bool) (depth room : Nat) (a : α) : Option α :=
  if finite && depth ≤ room then some a else none

section Granted

variable {α β γ : Type} {finite finite' : Bool} {depth depth' room : Nat} {a : α} {b : β}

theorem granted_zero : granted finite (depth + 1) 0 a = none := by
  simp [granted]

theorem granted_succ :
    granted finite (depth + 1) (room + 1) a = granted finite depth room a := by
  simp [granted]

theorem map_granted (f : α → β) :
    (granted finite depth room a).map f = granted finite depth room (f a) :=
  apply_ite (Option.map f) _ _ _

/-- A reader that enters one container to read what is inside. -/
theorem granted_enter (read : Nat → Option α) (hzero : read 0 = none)
    (hsucc : ∀ room, read (room + 1) = granted finite depth room a) (room : Nat) :
    read room = granted finite (depth + 1) room a := by
  cases room with
  | zero => rw [hzero, granted_zero]
  | succ room => rw [hsucc, granted_succ]

theorem granted_member {content : Json} (name : String) (read : Nat → Option α)
    (hzero : read 0 = none) (hsucc : ∀ room, read (room + 1) = granted finite content.depth room a)
    (room : Nat) : read room = granted finite (ofMembers [(name, content)]).depth room a := by
  rw [depth_member]
  exact granted_enter read hzero hsucc room

theorem granted_array {items : List Json} (read : Nat → Option α) (hzero : read 0 = none)
    (hsucc : ∀ room, read (room + 1) = granted finite (depthAll items) room a) (room : Nat) :
    read room = granted finite (array items).depth room a := by
  rw [depth_array]
  exact granted_enter read hzero hsucc room

/-- Two parts are read side by side: there must be room for the deeper one. -/
theorem bind_granted (f : α → β → γ) :
    ((granted finite depth room a).bind fun x =>
        (granted finite' depth' room b).bind fun y => some (f x y))
      = granted (finite && finite') (max depth depth') room (f a b) := by
  have hboth : (finite && finite' && decide (max depth depth' ≤ room))
      = ((finite && decide (depth ≤ room)) && (finite' && decide (depth' ≤ room))) := by
    rw [Bool.eq_iff_iff]
    simp only [Bool.and_eq_true, decide_eq_true_eq, Nat.max_le]
    exact and_and_and_comm
  -- what is left are two conditions, each of which can fail
  rw [granted, granted, granted, hboth]
  cases finite && decide (depth ≤ room) <;> cases finite' && decide (depth' ≤ room) <;> rfl

/-- There must be room for each of several items. -/
theorem mapM_cons_granted {read : Json → Option α} {j : Json} {items : List Json} {as : List α}
    (h : read j = granted finite j.depth room a)
    (hrest : items.mapM read = granted finite' (depthAll items) room as) :
    (j :: items).mapM read
      = granted (finite && finite') (depthAll (j :: items)) room (a :: as) := by
  rw [List.mapM_cons, h, hrest, depthAll]
  exact bind_granted List.cons

end Granted

end RowQuery.Json
