import RowQuery.Proofs.Chains
import RowQuery.Proofs.Compilation
import RowQuery.Proofs.Schedule

set_option autoImplicit false

/-! # Expressions over columns

Rendering and compiling walk over the same expression in ways of their own. Rendering stops at a
member access and looks at it as a whole; compiling goes down to every argument. What rendering asks
of an expression can be said of its places one by one (`Place.HasText`): an argument has to be
argument 0 and to have a member taken of it, and a member access has to follow names from there.
Nothing else is asked, so the dialect and the binder have no say in it
(`Expr.exists_toSql_iff_columnar`).

The arguments of such an expression are all argument 0, and this is what compiling asks. A filter
that a table can take over is therefore never refused where it is carried out here.
-/

namespace RowQuery

/-- A place in an expression: the node that stands there and the node that holds it, unless it is
the whole expression. -/
structure Place where
  node : Expr
  holder : Option Expr

/-- What a node needs, where it stands, to be part of the text of a command. -/
def Place.HasText (p : Place) : Prop :=
  match p.node with
  | .constant _ => True
  | .argument i => i = 0 ∧ ∃ name, p.holder = some (.member (.argument i) name)
  | .member base name => ∃ names, Expr.member base name = .members (.argument 0) names
  | .binary op _ _ => op ≠ .mod
  | .tuple _ => False

namespace Expr

mutual

/-- The places of an expression that stands in `holder`, its own one first. -/
def placesIn (holder : Option Expr) : Expr → List Place
  | .constant v => [⟨.constant v, holder⟩]
  | .argument i => [⟨.argument i, holder⟩]
  | .member base name =>
    ⟨.member base name, holder⟩ :: placesIn (some (.member base name)) base
  | .binary op left right =>
    ⟨.binary op left right, holder⟩ ::
      (placesIn (some (.binary op left right)) left
        ++ placesIn (some (.binary op left right)) right)
  | .tuple items => ⟨.tuple items, holder⟩ :: placesInAll (some (.tuple items)) items

/-- The places of the items of a tuple, in order. -/
def placesInAll (holder : Option Expr) : List Expr → List Place
  | [] => []
  | e :: rest => placesIn holder e ++ placesInAll holder rest

end

/-- All places of an expression. -/
def places (e : Expr) : List Place := placesIn none e

/-- An expression over the columns of one table: it has no remainder and no tuple in it, every
argument is argument 0 with a member taken of it, and every member access follows names from there.
-/
def Columnar (e : Expr) : Prop := ∀ p ∈ e.places, p.HasText

/-! ## Rendering -/

/-- Everything on a member path from argument 0 has its place in a text. -/
theorem hasText_of_memberPath? {e : Expr} {names : List String} (holder : Option Expr)
    (h : memberPath? e = some (0, names))
    (hroot : names = [] → ∃ name, holder = some (.member e name)) :
    ∀ p ∈ e.placesIn holder, p.HasText := by
  match e with
  | .argument j =>
      cases h
      intro p hp
      rw [placesIn, List.mem_singleton] at hp
      rw [hp]
      exact ⟨rfl, hroot rfl⟩
  | .member base name =>
      have hpath := eq_members_of_memberPath? _ h
      simp only [memberPath?, Option.map_eq_some_iff, Prod.mk.injEq] at h
      obtain ⟨⟨j, before⟩, hbase, rfl, -⟩ := h
      -- the base is held by this member access, so it may be the argument itself
      have hrest := hasText_of_memberPath? (some (.member base name)) hbase
        (fun _ => ⟨name, rfl⟩)
      intro p hp
      rw [placesIn, List.mem_cons] at hp
      rcases hp with rfl | hp
      · exact ⟨names, hpath⟩
      · exact hrest p hp
  | .constant _ | .binary .. | .tuple _ => cases h

/-- A member access offends unless it follows names from argument 0. -/
theorem offence?_member_eq_none_iff (base : Expr) (name : String) :
    (Expr.member base name).offence? = none
      ↔ ∃ names, memberPath? (.member base name) = some (0, names) := by
  rw [offence?]
  rcases memberPath? (.member base name) with _ | ⟨_ | i, names⟩ <;> simp

/-- No node offends exactly if every place has what it needs, wherever no member is taken of the
expression as a whole. -/
theorem firstOffence?_eq_none_iff (e : Expr) (holder : Option Expr)
    (hholder : ∀ name, holder ≠ some (.member e name)) :
    firstOffence? e.nodes = none ↔ ∀ p ∈ e.placesIn holder, p.HasText := by
  induction e using nodes.induct generalizing holder with
  | case1 op left right ihLeft ihRight =>
      have hleft := ihLeft (some (.binary op left right)) (fun _ h => by cases h)
      have hright := ihRight (some (.binary op left right)) (fun _ h => by cases h)
      have hoperator : (Expr.binary op left right).offence? = none
          ↔ Place.HasText ⟨.binary op left right, holder⟩ := by
        rw [offence?]
        show _ ↔ op ≠ .mod
        split <;> simp_all
      rw [nodes, placesIn, firstOffence?, List.findSome?_eq_none_iff]
      simp only [List.forall_mem_cons, List.forall_mem_append]
      rw [hoperator, ← hleft, ← hright, firstOffence?, firstOffence?,
        List.findSome?_eq_none_iff, List.findSome?_eq_none_iff]
  | case2 e hbinary =>
      have hnodes : e.nodes = [e] := by
        cases e with
        | binary op left right => exact absurd rfl (hbinary op left right)
        | _ => rfl
      have hself : firstOffence? e.nodes = none ↔ e.offence? = none := by
        rw [hnodes, firstOffence?, List.findSome?_singleton]
      rw [hself]
      cases e with
      | constant v => simp [offence?, placesIn, Place.HasText]
      | argument i =>
          -- nothing is taken of an argument that stands alone
          simp only [offence?, placesIn, List.mem_singleton, forall_eq, Place.HasText]
          constructor
          · intro hoffence
            cases hoffence
          · rintro ⟨rfl, name, hname⟩
            exact absurd hname (hholder name)
      | member base name =>
          rw [offence?_member_eq_none_iff]
          constructor
          · rintro ⟨names, hnames⟩
            refine hasText_of_memberPath? holder hnames ?_
            rintro rfl
            simp [memberPath?] at hnames
          · intro hplaces
            obtain ⟨names, hnames⟩ := hplaces _ (by rw [placesIn]; exact List.mem_cons_self)
            exact ⟨names, by rw [hnames, memberPath?_members]⟩
      | binary op left right => exact absurd rfl (hbinary op left right)
      | tuple items =>
          simp only [offence?, placesIn, List.forall_mem_cons]
          constructor
          · intro hoffence
            cases hoffence
          · rintro ⟨htuple, -⟩
            exact absurd htuple id

/-- Whether an expression has a text is a matter of the expression alone. -/
theorem exists_toSql_iff_columnar (d : Dialect) (e : Expr) (b : Binder) :
    (∃ text, (e.toSql d b).1 = .ok text) ↔ e.Columnar := by
  rw [exists_toSql_iff]
  exact firstOffence?_eq_none_iff e none (fun _ h => by cases h)

/-! ## Compiling -/

mutual

/-- Every argument that an expression refers to stands at one of its places. -/
theorem exists_place_of_mem_arguments {i : Nat} (e : Expr) (holder : Option Expr)
    (h : i ∈ e.arguments) : ∃ p ∈ e.placesIn holder, p.node = .argument i := by
  match e with
  | .constant v => cases h
  | .argument j =>
      rw [arguments, List.mem_singleton] at h
      exact ⟨⟨.argument j, holder⟩, List.mem_singleton_self _, by rw [h]⟩
  | .member base name =>
      obtain ⟨p, hp, hnode⟩ := exists_place_of_mem_arguments base (some (.member base name)) h
      exact ⟨p, List.mem_cons_of_mem _ hp, hnode⟩
  | .binary op left right =>
      rw [arguments, List.mem_append] at h
      rcases h with h | h
      · obtain ⟨p, hp, hnode⟩ :=
          exists_place_of_mem_arguments left (some (.binary op left right)) h
        exact ⟨p, List.mem_cons_of_mem _ (List.mem_append_left _ hp), hnode⟩
      · obtain ⟨p, hp, hnode⟩ :=
          exists_place_of_mem_arguments right (some (.binary op left right)) h
        exact ⟨p, List.mem_cons_of_mem _ (List.mem_append_right _ hp), hnode⟩
  | .tuple items =>
      obtain ⟨p, hp, hnode⟩ := exists_place_of_mem_argumentsAll items (some (.tuple items)) h
      exact ⟨p, List.mem_cons_of_mem _ hp, hnode⟩

theorem exists_place_of_mem_argumentsAll {i : Nat} (items : List Expr) (holder : Option Expr)
    (h : i ∈ argumentsAll items) : ∃ p ∈ placesInAll holder items, p.node = .argument i := by
  match items with
  | [] => cases h
  | e :: rest =>
      rw [argumentsAll, List.mem_append] at h
      rcases h with h | h
      · obtain ⟨p, hp, hnode⟩ := exists_place_of_mem_arguments e holder h
        exact ⟨p, List.mem_append_left _ hp, hnode⟩
      · obtain ⟨p, hp, hnode⟩ := exists_place_of_mem_argumentsAll rest holder h
        exact ⟨p, List.mem_append_right _ hp, hnode⟩

end

/-- An expression over columns refers to argument 0 only. -/
theorem Columnar.arguments_lt_one {e : Expr} (h : e.Columnar) : ∀ i ∈ e.arguments, i < 1 := by
  intro i hi
  obtain ⟨p, hp, hnode⟩ := exists_place_of_mem_arguments e none hi
  have htext := h p hp
  rw [Place.HasText, hnode] at htext
  rw [htext.1]
  exact Nat.zero_lt_one

end Expr

/-! ## Evaluating -/

/-- Whether an error says that an argument is not there, or that there are too few or too many. -/
def EvalError.concernsArguments : EvalError → Bool
  | .argumentCount .. => true
  | .unboundArgument .. => true
  | _ => false

/-- Whatever an evaluation may fail for, it is not its arguments. -/
def Served {α : Type} (x : Except EvalError α) : Prop :=
  ∀ err, x = .error err → err.concernsArguments = false

namespace Served

variable {α β : Type}

theorem ok (a : α) : Served (.ok a : Except EvalError α) := by
  intro err herr
  cases herr

theorem error {err : EvalError} (h : err.concernsArguments = false) :
    Served (.error err : Except EvalError α) := by
  intro err' herr
  cases herr
  exact h

theorem bind {x : Except EvalError α} {f : α → Except EvalError β} (h : Served x)
    (hf : ∀ a, Served (f a)) : Served (x >>= f) := by
  cases x with
  | error err => exact error (h err rfl)
  | ok a => exact hf a

end Served

theorem Value.served_member (name : String) (v : Value) : Served (v.member name) := by
  cases v with
  | struct fields =>
      rw [member]
      split
      · exact .ok _
      · exact .error rfl
  | tuple values =>
      rw [member]
      split
      · exact .ok _
      · exact .error rfl
  | _ => exact .error rfl

theorem Value.served_memberAt (names : List String) (v : Value) : Served (v.memberAt names) := by
  induction names generalizing v with
  | nil => exact .ok v
  | cons name rest ih => exact (v.served_member name).bind ih

namespace BinaryOperator

theorem served_truth (op : BinaryOperator) (v : Value) : Served (op.truth v) := by
  cases v with
  | null => exact .ok _
  | boolean b => exact .ok _
  | _ => exact .error rfl

theorem served_integers (op : BinaryOperator) (a b : Int64) : Served (op.integers a b) := by
  unfold integers
  split
  · exact .error rfl
  · split
    · exact .error rfl
    · split
      · exact .ok _
      · exact .error rfl

theorem served_doubles (op : BinaryOperator) (a b : Float) : Served (op.doubles a b) := by
  unfold doubles
  split
  · exact .error rfl
  · exact .ok _

theorem served_computed (op : BinaryOperator) (left right : Value) :
    Served (op.computed left right) := by
  unfold computed
  split
  · exact served_integers op _ _
  · exact served_doubles op _ _
  · exact served_doubles op _ _
  · exact served_doubles op _ _
  · exact .error rfl

/-- An operator has no arguments but its operands. -/
theorem served_eval (op : BinaryOperator) (left right : Value) : Served (op.eval left right) := by
  unfold eval
  split
  · exact (served_truth op left).bind (fun a => (served_truth op right).bind (fun b => .ok _))
  · split
    · exact .ok _
    · split
      · unfold compared
        split
        · exact .ok _
        · exact .error rfl
      · exact served_computed op left right

end BinaryOperator

namespace Code

variable {arity : Nat}

mutual

theorem served_run (row : Vector Value arity) (code : Code arity) : Served (run row code) := by
  match code with
  | .path i names =>
      rw [run]
      exact Value.served_memberAt names _
  | .constant v => exact .ok v
  | .member base name =>
      rw [run]
      exact (served_run row base).bind (Value.served_member name)
  | .binary op left right =>
      rw [run]
      exact (served_run row left).bind
        (fun a => (served_run row right).bind (fun b => op.served_eval a b))
  | .tuple items =>
      rw [run]
      exact (served_runAll row items).bind (fun values => .ok _)

theorem served_runAll (row : Vector Value arity) (items : List (Code arity)) :
    Served (runAll row items) := by
  match items with
  | [] => exact .ok []
  | c :: rest =>
      rw [runAll]
      exact (served_run row c).bind
        (fun v => (served_runAll row rest).bind (fun values => .ok _))

end

end Code

/-- On as many arguments as it was compiled for, code is never short of one. -/
theorem CompiledExpr.served_eval (c : CompiledExpr) {row : List Value}
    (hrow : row.length = c.arity) : Served (c.eval row) := by
  rw [eval, dif_pos hrow]
  exact Code.served_run _ c.code

/-! ## Columns -/

/-- A filter whose predicate compiles opens its input in its first round. -/
theorem Stream.step_filterIdle_of_compile (setting : Setting) (input : Query) {p : Expr}
    {c : CompiledExpr} (h : CompiledExpr.compile p 1 = .ok c) :
    step setting false (.filterIdle input p)
      = ⟨none, .filterOpen c (.cancellable input.stream),
          (setting.compile p 1).2 ++ input.openEvents⟩ := by
  have hc : setting.compile p 1 = (.ok c, (setting.compile p 1).2) :=
    Prod.ext ((setting.compile_fst p 1).trans h) rfl
  rw [step, if_neg Bool.false_ne_true, hc]

/-- **What a table can take over can be carried out here.** Whether an expression has a text is the
same for every dialect, every style of placeholders and everything that has been bound before: it
has one exactly if it is over columns. Then it compiles for one argument, and evaluating it on one
never fails for its arguments, nor comes to a place that is meant to be out of reach. So a filter
that a command can be prepared with opens its input when it is applied to any query here. -/
theorem renders_only_if_runs (e : Expr) :
    (∀ (d : Dialect) (b : Binder), (∃ text, (e.toSql d b).1 = .ok text) ↔ e.Columnar) ∧
    (∀ (d : Dialect) (b : Binder) (text : String), (e.toSql d b).1 = .ok text →
      ∃ c, CompiledExpr.compile e 1 = .ok c ∧
        (∀ v : Value, Served (c.eval [v]) ∧ c.guardedEval [v] = .within (c.eval [v])) ∧
        ∀ (input : Query) (setting : Setting),
          Stream.step setting false (input.applyLocally (.filter e)).stream
            = ⟨none, .filterOpen c (.cancellable input.stream),
                (setting.compile e 1).2 ++ input.openEvents⟩) ∧
    (∀ (connection : Connection) (table : Table) (options : SqlOptions) (filters : List Expr),
      e ∈ filters →
      (∃ prepared,
        (SqlQuery.filtered connection table options filters).prepare = .ok prepared) →
      e.Columnar) := by
  refine ⟨fun d b => e.exists_toSql_iff_columnar d b, ?_, ?_⟩
  · intro d b text htext
    have hcolumnar : e.Columnar := (e.exists_toSql_iff_columnar d b).mp ⟨text, htext⟩
    obtain ⟨c, hc⟩ := (CompiledExpr.compiles_iff e 1).mpr hcolumnar.arguments_lt_one
    refine ⟨c, hc, ?_, fun input setting => Stream.step_filterIdle_of_compile setting input hc⟩
    intro v
    have harity : [v].length = c.arity := (CompiledExpr.arity_of_compile hc).symm
    exact ⟨c.served_eval harity, c.guardedEval_eq [v]⟩
  · intro connection table options filters he hprepared
    have htexts :=
      (SqlQuery.exists_prepare_filtered_iff connection table options filters).mp hprepared
    exact (e.exists_toSql_iff_columnar _ _).mp (htexts e he)

end RowQuery
