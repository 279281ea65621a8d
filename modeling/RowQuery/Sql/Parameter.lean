import RowQuery.Value.Basic

set_option autoImplicit false

/-! # Parameters of a command

Constants never stand in the text of a command. Each is bound to a placeholder, and a `Binder` hands
out the placeholders: a question mark for every use, or a name that later uses of an agreeing value
share. A null agrees with no value here, so every null gets a placeholder of its own. -/

namespace RowQuery

/-- How a driver spells its placeholders. -/
inductive ParameterStyle where
  /-- A question mark, bound by position. -/
  | positional
  /-- The given stem with a count from zero. -/
  | named (stem : String)
  /-- A dollar sign with a count from one. -/
  | numbered
  deriving DecidableEq, Inhabited

/-- The names that are used where no stem is given. -/
def ParameterStyle.defaultNamed : ParameterStyle := .named "@p"

/-- A value bound to a placeholder. -/
structure BoundParameter where
  name : String
  value : Value
  deriving DecidableEq, Inhabited

/-- The parameters of one command, in the order in which they are bound. -/
structure Binder where
  style : ParameterStyle
  parameters : List BoundParameter

namespace Binder

/-- No parameters yet. -/
def new (style : ParameterStyle) : Binder := ⟨style, []⟩

/-- Whether placeholders are shared between uses of one value. -/
def shares (b : Binder) : Bool := b.style ≠ .positional

/-- The name of the parameter after `count` others. -/
def nameAt (style : ParameterStyle) (count : Nat) : String :=
  match style with
  | .positional => "?"
  | .named stem => stem ++ toString count
  | .numbered => "$" ++ toString (count + 1)

/-- The first parameter whose value agrees with `v`, where placeholders are shared. -/
def existing? (b : Binder) (v : Value) : Option BoundParameter :=
  if b.shares && !v.isNull then b.parameters.find? (fun p => p.value == v) else none

/-- Binds a value: its placeholder, and the binder from then on. -/
def define (b : Binder) (v : Value) : String × Binder :=
  match b.existing? v with
  | some p => (p.name, b)
  | none =>
    let name := nameAt b.style b.parameters.length
    (name, { b with parameters := b.parameters ++ [⟨name, v⟩] })

/-- Binds values one after the other: their placeholders, and the binder at the end. -/
def defineAll (b : Binder) : List Value → List String × Binder
  | [] => ([], b)
  | v :: rest =>
    let (name, b) := b.define v
    let (names, b) := defineAll b rest
    (name :: names, b)

/-- What has been bound stays where it is, and at most one parameter is added. -/
theorem parameters_define (b : Binder) (v : Value) :
    (b.define v).2.parameters = b.parameters ∨
      (b.define v).2.parameters = b.parameters ++ [⟨nameAt b.style b.parameters.length, v⟩] := by
  unfold define
  split
  · exact .inl rfl
  · exact .inr rfl

end Binder

end RowQuery
