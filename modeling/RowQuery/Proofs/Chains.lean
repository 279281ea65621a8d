import RowQuery.Proofs.Reading
import RowQuery.Proofs.Rendering

set_option autoImplicit false

/-! # Chains of filters

A filtered table is a chain with the last filter on top. Its command is rendered from the
conjunction of all filters, which is built from the left. This is the same as rendering the filters
one by one (`Expr.toSqlAll`), in the order in which they were applied and with one binder for all,
and joining the texts from the left (`conjunction`): what has been joined so far is rendered as a
whole before the next filter is looked at (`Expr.render_foldl_and`).

Whether a filter has a text depends on its nodes only, not on what has been bound before. So the
first filter that has no text by itself is the first one that has none in its turn.
-/

namespace RowQuery

/-! ## One filter after the other -/

/-- The texts of some conditions, joined from the left, with parentheses around every two. -/
def conjunction (first : String) (rest : List String) : String :=
  rest.foldl (fun whole text => "(" ++ whole ++ " AND " ++ text ++ ")") first

/-- The clause with the conjunction of some conditions, if there are any. -/
def whereText : List String → String
  | [] => ""
  | first :: rest => " WHERE " ++ conjunction first rest

namespace Expr

/-- The texts of some expressions, each rendered with the binder that those before it have left, up
to the first failure. -/
def toSqlAll (d : Dialect) : List Expr → Binder → Except RenderError (List String) × Binder
  | [], b => (.ok [], b)
  | e :: rest, b =>
    match e.toSql d b with
    | (.error err, b) => (.error err, b)
    | (.ok text, b) =>
      match toSqlAll d rest b with
      | (.error err, b) => (.error err, b)
      | (.ok texts, b) => (.ok (text :: texts), b)

/-- **A conjunction is rendered part by part**, the first one and then the others in their order. -/
theorem render_foldl_and (d : Dialect) (rest : List Expr) (e : Expr) (b : Binder) :
    render d (rest.foldl and e) b = match render d e b with
      | (.error err, b) => (.error err, b)
      | (.ok text, b) =>
        match toSqlAll d rest b with
        | (.error err, b) => (.error err, b)
        | (.ok texts, b) => (.ok (conjunction text texts), b) := by
  -- what has been joined so far is one expression, so the first part grows
  induction rest generalizing e b with
  | nil =>
      rw [List.foldl_nil]
      rcases render d e b with ⟨err | text, after⟩
      · rfl
      · rfl
  | cons next rest ih =>
      have hsign : BinaryOperator.and.sql? = some " AND " := rfl
      rw [List.foldl_cons, ih, and, render, hsign]
      rcases render d e b with ⟨err | text, between⟩
      · rfl
      · simp only [toSqlAll, toSql_eq_render]
        rcases render d next between with ⟨err | joined, after⟩
        · rfl
        · rcases hrest : toSqlAll d rest after with ⟨err | texts, last⟩
          · simp only [hrest]
          · simp only [hrest]
            rfl

/-! ## Failures -/

/-- An expression that has no text has none with any binder. -/
theorem toSql_eq_error_iff (d : Dialect) (e : Expr) (b : Binder) (err : RenderError) :
    (e.toSql d b).1 = .error err ↔ firstOffence? e.nodes = some err := by
  rw [toSql_eq_render]
  exact render_fst d e b err

theorem exists_toSql_iff (d : Dialect) (e : Expr) (b : Binder) :
    (∃ text, (e.toSql d b).1 = .ok text) ↔ firstOffence? e.nodes = none := by
  rw [exists_eq_ok_iff, Option.eq_none_iff_forall_ne_some]
  exact forall_congr' (fun err => not_congr (toSql_eq_error_iff d e b err))

/-- Of several expressions the first one without a text fails, whatever has been bound before. -/
theorem toSqlAll_eq_error_iff (d : Dialect) (es : List Expr) (b : Binder) (err : RenderError) :
    (toSqlAll d es b).1 = .error err
      ↔ es.findSome? (fun e => firstOffence? e.nodes) = some err := by
  induction es generalizing b with
  | nil => simp [toSqlAll]
  | cons e rest ih =>
      rw [toSqlAll, List.findSome?_cons]
      rcases he : e.toSql d b with ⟨err' | text, between⟩
      · have hsome : firstOffence? e.nodes = some err' :=
          (toSql_eq_error_iff d e b err').mp (by rw [he])
        simp only [hsome, Option.some.injEq, Except.error.injEq]
      · have hnone : firstOffence? e.nodes = none :=
          (exists_toSql_iff d e b).mp ⟨text, by rw [he]⟩
        simp only [hnone]
        rw [← ih between]
        rcases toSqlAll d rest between with ⟨err' | texts, after⟩
        · rfl
        · simp

theorem exists_toSqlAll_iff (d : Dialect) (es : List Expr) (b : Binder) :
    (∃ texts, (toSqlAll d es b).1 = .ok texts) ↔ ∀ e ∈ es, ∃ text, (e.toSql d b).1 = .ok text := by
  simp only [exists_toSql_iff]
  rw [exists_eq_ok_iff, ← List.findSome?_eq_none_iff, Option.eq_none_iff_forall_ne_some]
  exact forall_congr' (fun err => not_congr (toSqlAll_eq_error_iff d es b err))

/-- The error is that of the first expression without a text. -/
theorem toSqlAll_of_first {d : Dialect} {before : List Expr} {e : Expr} {b : Binder}
    {err : RenderError} (hbefore : ∀ e ∈ before, ∃ text, (e.toSql d b).1 = .ok text)
    (he : (e.toSql d b).1 = .error err) (after : List Expr) :
    (toSqlAll d (before ++ e :: after) b).1 = .error err := by
  simp only [exists_toSql_iff] at hbefore
  rw [toSql_eq_error_iff] at he
  rw [toSqlAll_eq_error_iff, List.findSome?_append, List.findSome?_eq_none_iff.mpr hbefore,
    Option.none_or, List.findSome?_cons, he]

end Expr

/-! ## The command of a filtered table -/

namespace SqlQuery

/-- A command with a merged filter is rendered filter by filter. -/
theorem prepareFor_andAll? (connection : Connection) (table : Table) (filters : List Expr) :
    prepareFor ⟨connection, table⟩ (Expr.andAll? filters)
      = match Expr.toSqlAll connection.dialect filters (.new connection.style) with
        | (.ok texts, after) =>
          .ok ⟨Clause.text connection.dialect (.select table.columnNames) ++
            Clause.text connection.dialect (.source table) ++ whereText texts, after.parameters⟩
        | (.error err, _) => .error err := by
  cases filters with
  | nil =>
      show Except.ok (PreparedCommand.mk (Clause.command _ [_, _]) []) = Except.ok ⟨_ ++ "", []⟩
      rw [Clause.command_cons, Clause.command_cons, Clause.command_nil, String.append_assoc]
  | cons p rest =>
      rw [Expr.andAll?, prepareFor]
      simp only [Expr.toSqlAll, Expr.toSql_eq_render, Expr.render_foldl_and]
      rcases p.render connection.dialect (.new connection.style) with ⟨err | text, between⟩
      · rfl
      · rcases hrest : Expr.toSqlAll connection.dialect rest between with ⟨err | texts, after⟩
        · simp only [hrest]
        · simp only [hrest, List.cons_append, List.nil_append]
          rw [Clause.command_cons, Clause.command_cons, Clause.command_cons, Clause.command_nil,
            String.append_empty, ← String.append_assoc]
          rfl

theorem prepare_filtered (connection : Connection) (table : Table) (options : SqlOptions)
    (filters : List Expr) :
    (filtered connection table options filters).prepare
      = match Expr.toSqlAll connection.dialect filters (.new connection.style) with
        | (.ok texts, after) =>
          .ok ⟨Clause.text connection.dialect (.select table.columnNames) ++
            Clause.text connection.dialect (.source table) ++ whereText texts, after.parameters⟩
        | (.error err, _) => .error (.rendering err) := by
  rw [prepare_of_root (root_filtered connection table options filters), filtered,
    QueryNode.mergedFilter?, predicates_foldl_filter]
  show (prepareFor ⟨connection, table⟩ (Expr.andAll? filters)).mapError QueryError.rendering = _
  rw [prepareFor_andAll?]
  rcases Expr.toSqlAll connection.dialect filters (.new connection.style) with
    ⟨err | texts, after⟩
  · rfl
  · rfl

/-- A chain has a command exactly if every filter has a text by itself. -/
theorem exists_prepare_filtered_iff (connection : Connection) (table : Table)
    (options : SqlOptions) (filters : List Expr) :
    (∃ prepared, (filtered connection table options filters).prepare = .ok prepared) ↔
      ∀ p ∈ filters, ∃ text, (p.toSql connection.dialect (.new connection.style)).1 = .ok text := by
  rw [prepare_filtered, ← Expr.exists_toSqlAll_iff]
  rcases Expr.toSqlAll connection.dialect filters (.new connection.style) with
    ⟨err | texts, after⟩
  · simp
  · simp

/-- **Filters are rendered in turn.** A chain of filters always has its table at the root, and its
command is the columns and the table followed, if there are filters, by the conjunction of their
texts, each rendered with the binder that the filters before it have left. There is a command
exactly if every filter has a text by itself, and otherwise the error is that of the first one that
has none. -/
theorem filters_rendered_in_turn (connection : Connection) (table : Table) (options : SqlOptions)
    (filters : List Expr) :
    (filtered connection table options filters).node.root = .ok ⟨connection, table⟩ ∧
    (filtered connection table options filters).prepare ≠ .error .malformedChain ∧
    (filtered connection table options filters).prepare
      = (match Expr.toSqlAll connection.dialect filters (.new connection.style) with
        | (.ok texts, after) =>
          .ok ⟨Clause.text connection.dialect (.select table.columnNames) ++
            Clause.text connection.dialect (.source table) ++ whereText texts, after.parameters⟩
        | (.error err, _) => .error (.rendering err)) ∧
    ((∃ prepared, (filtered connection table options filters).prepare = .ok prepared) ↔
      ∀ p ∈ filters, ∃ text, (p.toSql connection.dialect (.new connection.style)).1 = .ok text) ∧
    (∀ before p after err, filters = before ++ p :: after →
      (∀ e ∈ before, ∃ text, (e.toSql connection.dialect (.new connection.style)).1 = .ok text) →
      (p.toSql connection.dialect (.new connection.style)).1 = .error err →
      (filtered connection table options filters).prepare = .error (.rendering err)) := by
  have hprepare := prepare_filtered connection table options filters
  refine ⟨root_filtered connection table options filters, ?_, hprepare, ?_, ?_⟩
  · rw [hprepare]
    rcases Expr.toSqlAll connection.dialect filters (.new connection.style) with
      ⟨err | texts, after⟩
    · simp
    · simp
  · rw [hprepare, ← Expr.exists_toSqlAll_iff]
    rcases Expr.toSqlAll connection.dialect filters (.new connection.style) with
      ⟨err | texts, after⟩
    · simp
    · simp
  · rintro before p after err rfl hbefore hp
    have hfails := Expr.toSqlAll_of_first hbefore hp after
    rcases hall : Expr.toSqlAll connection.dialect (before ++ p :: after)
      (.new connection.style) with ⟨err' | texts, last⟩
    · rw [hall] at hfails hprepare
      cases hfails
      exact hprepare
    · rw [hall] at hfails
      cases hfails

/-- Three filters share the placeholder of a constant; of two filters without a text the first one
is reported. -/
theorem filters_rendered_in_turn_shared :
    (filtered ⟨"c", .mssql, .named "@p"⟩ ⟨none, "t", [⟨"x", .int64⟩]⟩ .default
        [.binary .ge (.column "x") (.constant (.int64 1)),
          .binary .ne (.column "x") (.constant (.int64 7)),
          .binary .or (.column "y") (.binary .eq (.column "z") (.constant (.int64 1)))]).prepare
      = .ok ⟨"SELECT [x] FROM [t] WHERE ((([x] >= @p0) AND ([x] <> @p1)) AND ([y] OR ([z] = @p0)))",
        [⟨"@p0", .int64 1⟩, ⟨"@p1", .int64 7⟩]⟩ ∧
    (filtered ⟨"c", .mssql, .named "@p"⟩ ⟨none, "t", [⟨"x", .int64⟩]⟩ .default
        [.column "x", .binary .and (.argument 1) (.tuple []), .tuple []]).prepare
      = .error (.rendering (.unsupportedNode (.argument 1))) := by
  constructor
  · obtain ⟨-, -, hprepare, -, -⟩ := filters_rendered_in_turn ⟨"c", .mssql, .named "@p"⟩
      ⟨none, "t", [⟨"x", .int64⟩]⟩ .default [.binary .ge (.column "x") (.constant (.int64 1)),
          .binary .ne (.column "x") (.constant (.int64 7)),
          .binary .or (.column "y") (.binary .eq (.column "z") (.constant (.int64 1)))]
    rw [hprepare]
    simp only [Expr.toSqlAll, Expr.toSql_eq_render]
    rfl
  · obtain ⟨-, -, -, -, hfirst⟩ := filters_rendered_in_turn ⟨"c", .mssql, .named "@p"⟩
      ⟨none, "t", [⟨"x", .int64⟩]⟩ .default
      [.column "x", .binary .and (.argument 1) (.tuple []), .tuple []]
    apply hfirst [.column "x"] (.binary .and (.argument 1) (.tuple [])) [.tuple []] _ rfl
    · intro e he
      obtain rfl := List.mem_singleton.mp he
      exact ⟨"[x]", by rw [Expr.toSql_eq_render]; rfl⟩
    · rw [Expr.toSql_eq_render]
      rfl

end SqlQuery

end RowQuery
