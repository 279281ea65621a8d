import RowQuery.Proofs.Chains
import RowQuery.Proofs.Quoting

set_option autoImplicit false

/-! # Selecting and reading

The columns of a table are used twice: the command lists them, and the stream takes the rows apart
by them. Where columns are listed the two agree. A row that fits the list has a value for each
column and is delivered as a struct.

They do not agree about a table without columns. Its command selects `*`, so that a row of any width
fits it, while the stream takes rows of no width only. The first row with a value in it ends the
stream with an error (`delivered_of_width_ne`). The select list is the same `*` in one more case,
that of a single column with this name in a dialect that does not quote
(`text_select_eq_star_iff`).
-/

namespace RowQuery

/-! ## The select list -/

/-- The text of the clause that selects everything. -/
def Clause.star : String := "SELECT *"

/-- A row fits a select list: there are as many values as columns in the list, or the list is a
star. -/
def Row.Selected (d : Dialect) (columns : List String) (row : Row) : Prop :=
  (Clause.select columns).text d = Clause.star ∨ row.length = columns.length

theorem Dialect.quote_eq_star_iff {d : Dialect} {name : String} :
    d.quote name = "*" ↔ d.quotes = none ∧ name = "*" := by
  rcases hquotes : d.quotes with _ | ⟨opening, closing⟩
  · rw [quote, hquotes]
    exact (and_iff_right rfl).symm
  · -- the quotes alone are two characters
    rw [← String.toList_inj, toList_quote hquotes]
    simp [quoted]

/-- A list of two columns or more is longer than a star. -/
theorem Dialect.intercalate_quote_eq_star_iff {d : Dialect} {name : String} {names : List String} :
    ", ".intercalate ((name :: names).map d.quote) = "*"
      ↔ d.quotes = none ∧ name :: names = ["*"] := by
  cases names with
  | nil =>
      rw [List.map_singleton, String.intercalate_singleton, quote_eq_star_iff, List.singleton_inj]
  | cons name' names =>
      constructor
      · intro h
        have hlength := congrArg String.length h
        have hstar : "*".length = 1 := rfl
        have hcomma : ", ".length = 2 := rfl
        rw [List.map_cons, List.map_cons, String.intercalate_cons_cons, String.length_append,
          String.length_append, hstar, hcomma] at hlength
        omega
      · rintro ⟨-, h⟩
        cases h

/-- The select list is a star for a table without columns, and for one with a single column that is
called so and not quoted. -/
theorem Clause.text_select_eq_star_iff {d : Dialect} {columns : List String} :
    (Clause.select columns).text d = star
      ↔ columns = [] ∨ d.quotes = none ∧ columns = ["*"] := by
  cases columns with
  | nil => exact ⟨fun _ => .inl rfl, fun _ => rfl⟩
  | cons name names =>
      have hstar : star = "SELECT " ++ "*" := rfl
      rw [text, hstar, String.append_right_inj, Dialect.intercalate_quote_eq_star_iff]
      · exact (or_iff_right (List.cons_ne_nil name names)).symm
      · exact List.cons_ne_nil name names

/-! ## Rows of the width of a table -/

/-- The answer with a row that has a value for each column. -/
def Row.record (columns : List String) (row : Row) : Answer := .row (.struct (columns.zip row))

/-- A row that has a value for each column is delivered, and another one is the end. -/
theorem delivered_cons_ok (columns : List String) (row : Row)
    (rest : List (Except QueryError Row)) :
    delivered columns (.ok row :: rest)
      = if row.length = columns.length then Row.record columns row :: delivered columns rest
        else [.error (.rowWidth columns.length row.length)] := by
  have hfits : Row.fits columns (.ok row) = true ↔ row.length = columns.length := beq_iff_eq
  split
  · rename_i hwidth
    rw [delivered_cons_of_fits (hfits.mpr hwidth), Row.answer, if_pos hwidth, Row.record]
  · rename_i hwidth
    rw [delivered_cons_of_not_fits (mt hfits.mp hwidth), Row.answer, if_neg hwidth]

/-- All rows are delivered exactly if each has a value for each column. -/
theorem delivered_eq_records_iff {columns : List String} {rows : List Row} :
    delivered columns (rows.map .ok) = rows.map (Row.record columns) ++ [.finished]
      ↔ ∀ row ∈ rows, row.length = columns.length := by
  induction rows with
  | nil => simp [delivered]
  | cons row rest ih =>
      rw [List.map_cons, List.map_cons, List.cons_append, List.forall_mem_cons, delivered_cons_ok]
      by_cases hwidth : row.length = columns.length
      · rw [if_pos hwidth, List.cons_inj_right, ih]
        exact (and_iff_right hwidth).symm
      · rw [if_neg hwidth]
        simp [hwidth, Row.record]

/-- The first row of another width is the last one that is looked at. -/
theorem delivered_of_width_ne {columns : List String} {before : List Row} {row : Row}
    (hbefore : ∀ r ∈ before, r.length = columns.length) (hrow : row.length ≠ columns.length)
    (after : List Row) :
    delivered columns ((before ++ row :: after).map .ok)
      = before.map (Row.record columns) ++ [.error (.rowWidth columns.length row.length)] := by
  induction before with
  | nil => rw [List.nil_append, List.map_cons, delivered_cons_ok, if_neg hrow, List.map_nil,
      List.nil_append]
  | cons r before ih =>
      obtain ⟨hr, hbefore⟩ := List.forall_mem_cons.mp hbefore
      rw [List.cons_append, List.map_cons, delivered_cons_ok, if_pos hr, ih hbefore, List.map_cons,
        List.cons_append]

/-! ## Enumerating a table -/

/-- The reader of a connection answers with these rows, whatever pauses it makes. -/
def Behavior.Reads (b : Behavior) (rows : List Row) : Prop :=
  b.refusal = none ∧
    ∃ entries, b.reply = .reader entries ∧ entries.filterMap Item.result? = rows.map .ok

theorem Behavior.Reads.results_eq {b : Behavior} {rows : List Row} (h : b.Reads rows)
    (columns : List String) : b.results columns = delivered columns (rows.map .ok) := by
  obtain ⟨hrefusal, entries, hreply, hrows⟩ := h
  rw [Behavior.results, hrefusal, hreply]
  exact congrArg (delivered columns) hrows

/-- All connections answer so, and nothing has been compiled. -/
def Setting.answering (b : Behavior) : Setting := ⟨fun _ => b, .empty⟩

/-- Polls bring one list of results only. -/
theorem Brings.unique (setting : Setting) {answers : List Setting → List Answer}
    {results others : List Answer} (h : Brings answers results) (h' : Brings answers others) :
    results = others := by
  obtain ⟨enough, hall⟩ := h
  obtain ⟨enough', hall'⟩ := h'
  -- a run that is long enough for both
  have hlength : (List.replicate (enough + enough') setting).length = enough + enough' :=
    List.length_replicate
  rw [← (hall (List.replicate (enough + enough') setting)).2 (by omega),
    (hall' (List.replicate (enough + enough') setting)).2 (by omega)]

namespace SqlQuery

section

variable {connection : Connection} {table : Table} {options : SqlOptions} {filters : List Expr}
  {prepared : PreparedCommand}
  (hprepare : (filtered connection table options filters).prepare = .ok prepared)

include hprepare

/-- The command of a filtered table begins with its select list. -/
theorem text_of_prepare :
    ∃ rest, prepared.text = (Clause.select table.columnNames).text connection.dialect
      ++ " FROM " ++ rest := by
  rw [prepare_filtered] at hprepare
  rcases htexts : Expr.toSqlAll connection.dialect filters (.new connection.style) with
    ⟨err | texts, after⟩
  · rw [htexts] at hprepare
    cases hprepare
  · rw [htexts] at hprepare
    cases hprepare
    refine ⟨connection.dialect.quotePath table.path ++ whereText texts, ?_⟩
    have hsource : (Clause.source table).text connection.dialect
        = " FROM " ++ connection.dialect.quotePath table.path := rfl
    simp only [hsource, String.append_assoc]

theorem brings_iff {first : Setting} {rows : List Row}
    (hreads : (first.behavior connection.name).Reads rows) (results : List Answer) :
    Brings (fun later => (Query.sql (filtered connection table options filters)).answersUnder
        (first :: later)) results
      ↔ delivered table.columnNames (rows.map .ok) = results := by
  have hbrings := brings_first (root_filtered connection table options filters) first
  rw [hprepare, tableResults, hreads.results_eq] at hbrings
  constructor
  · exact hbrings.unique first
  · rintro rfl
    exact hbrings

/-- **Rows that fit the select list are delivered**, one struct for each, unless the list is a
star. Where it is one, which is so for a table without columns and for one with a single column that
is called so and not quoted, all rows are delivered exactly if each has a value for each column;
otherwise the first one that has not ends the stream with an error that tells the two widths. -/
theorem selected_rows_delivered {first : Setting} {rows : List Row}
    (hreads : (first.behavior connection.name).Reads rows)
    (hselected : ∀ row ∈ rows, Row.Selected connection.dialect table.columnNames row) :
    (∃ rest, prepared.text = (Clause.select table.columnNames).text connection.dialect
      ++ " FROM " ++ rest) ∧
    ((Clause.select table.columnNames).text connection.dialect = Clause.star
      ↔ table.columnNames = [] ∨
        connection.dialect.quotes = none ∧ table.columnNames = ["*"]) ∧
    (Brings (fun later => (Query.sql (filtered connection table options filters)).answersUnder
        (first :: later)) (rows.map (Row.record table.columnNames) ++ [.finished])
      ↔ ((Clause.select table.columnNames).text connection.dialect = Clause.star →
          ∀ row ∈ rows, row.length = table.columnNames.length)) ∧
    ∀ before row after, rows = before ++ row :: after →
      (∀ r ∈ before, r.length = table.columnNames.length) →
      row.length ≠ table.columnNames.length →
      Brings (fun later => (Query.sql (filtered connection table options filters)).answersUnder
        (first :: later)) (before.map (Row.record table.columnNames) ++
          [.error (.rowWidth table.columnNames.length row.length)]) := by
  refine ⟨text_of_prepare hprepare, Clause.text_select_eq_star_iff, ?_, ?_⟩
  · rw [brings_iff hprepare hreads, delivered_eq_records_iff]
    refine ⟨fun hwidths _ => hwidths, ?_⟩
    intro hstar row hrow
    rcases hselected row hrow with hselect | hwidth
    · exact hstar hselect row hrow
    · exact hwidth
  · intro before row after hrows hbefore hrow
    rw [brings_iff hprepare hreads, hrows]
    exact delivered_of_width_ne hbefore hrow after

end

/-- A filtered table with a column, and a reader that pauses. -/
theorem selected_rows_delivered_listed :
    Brings (fun later => (Query.sql (filtered ⟨"c", .ansi, .numbered⟩ ⟨none, "t", [⟨"x", .int64⟩]⟩
          .default [.binary .ge (.column "x") (.constant (.int64 1))])).answersUnder
        (.answering ⟨none, 2, .reader [.pending, .value [.int64 1], .pending, .value [.null]]⟩ ::
          later))
      [.row (.struct [("x", .int64 1)]), .row (.struct [("x", .null)]), .finished] := by
  have hprepare : (filtered ⟨"c", .ansi, .numbered⟩ ⟨none, "t", [⟨"x", .int64⟩]⟩ .default
      [.binary .ge (.column "x") (.constant (.int64 1))]).prepare
        = .ok ⟨"SELECT \"x\" FROM \"t\" WHERE (\"x\" >= $1)", [⟨"$1", .int64 1⟩]⟩ := by
    rw [prepare_filtered]
    simp only [Expr.toSqlAll, Expr.toSql_eq_render]
    rfl
  have hreads : ((Setting.answering ⟨none, 2, .reader [.pending, .value [.int64 1], .pending,
      .value [.null]]⟩).behavior "c").Reads [[.int64 1], [.null]] := ⟨rfl, _, rfl, rfl⟩
  have hselected : ∀ row ∈ [[.int64 1], [.null]], Row.Selected .ansi ["x"] row := by
    simp [Row.Selected]
  have hlisted : ¬ (["x"] = [] ∨ Dialect.ansi.quotes = none ∧ ["x"] = ["*"]) := by simp
  obtain ⟨-, hstar, hdelivered, -⟩ := selected_rows_delivered hprepare hreads hselected
  exact hdelivered.mpr fun h => absurd (hstar.mp h) hlisted

/-- A table without columns selects a star, and the first row that has values is refused. -/
theorem star_row_refused :
    (filtered ⟨"c", .generic, .positional⟩ ⟨none, "t", []⟩ .default []).prepare
        = .ok ⟨"SELECT * FROM t", []⟩ ∧
      (Behavior.rows [[.int64 1, .utf8 "a"]]).Reads [[.int64 1, .utf8 "a"]] ∧
      Row.Selected .generic [] [.int64 1, .utf8 "a"] ∧
      Brings (fun later => (Query.sql (filtered ⟨"c", .generic, .positional⟩ ⟨none, "t", []⟩
          .default [])).answersUnder (.answering (.rows [[.int64 1, .utf8 "a"]]) :: later))
        [.error (.rowWidth 0 2)] ∧
      ∀ fields, ¬ Brings (fun later => (Query.sql (filtered ⟨"c", .generic, .positional⟩
          ⟨none, "t", []⟩ .default [])).answersUnder
            (.answering (.rows [[.int64 1, .utf8 "a"]]) :: later))
        [.row (.struct fields), .finished] := by
  have hprepare : (filtered ⟨"c", .generic, .positional⟩ ⟨none, "t", []⟩ .default []).prepare
      = .ok ⟨"SELECT * FROM t", []⟩ := rfl
  have hreads : ((Setting.answering (.rows [[.int64 1, .utf8 "a"]])).behavior "c").Reads
      [[.int64 1, .utf8 "a"]] := ⟨rfl, _, rfl, rfl⟩
  have hbrings := brings_iff hprepare hreads
  refine ⟨hprepare, hreads, .inl rfl, (hbrings _).mpr rfl, ?_⟩
  intro fields h
  cases (hbrings _).mp h

end SqlQuery

end RowQuery
