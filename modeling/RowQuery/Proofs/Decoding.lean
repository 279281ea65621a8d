import RowQuery.Proofs.Sketch
import RowQuery.Sql.Command

set_option autoImplicit false

/-! # Decoding commands

From the text and the parameters of a command one can tell again what was asked for: the columns,
the table, and the condition with what is bound to its placeholders (`Statement.decode`). No name of
a column or a table, and no constant, can pass for a part of the statement around it, whatever
characters it holds. This needs a dialect that quotes, with characters that stand nowhere else
(`Sketch.Apart`), and placeholders that cannot be taken for anything else
(`ParameterStyle.Legible`).
-/

namespace RowQuery

/-- Double quotes, brackets and back quotes are apart from everything else. -/
theorem Dialect.apart_of_quotes {d : Dialect} (hd : d = .ansi ∨ d = .mssql ∨ d = .mysql) :
    ∃ opening closing, d.quotes = some (opening, closing) ∧ Sketch.Apart opening closing := by
  rcases hd with rfl | rfl | rfl
  · refine ⟨'"', '"', rfl, ?_⟩
    constructor <;> decide
  · refine ⟨'[', ']', rfl, ?_⟩
    constructor <;> decide
  · refine ⟨'\x60', '\x60', rfl, ?_⟩
    constructor <;> decide

/-- A stem holds no blank, no parenthesis and no character that quotes identifiers. -/
def ParameterStyle.Legible (d : Dialect) : ParameterStyle → Prop
  | .named stem => ∀ c ∈ stem.toList, c ∉ [' ', '(', ')'] ∧
      ∀ opening closing, d.quotes = some (opening, closing) → c ≠ opening ∧ c ≠ closing
  | _ => True

/-- No digit is a blank, a parenthesis or a character that opens identifiers. -/
theorem Sketch.notMem_of_isDigit {opening c : Char} (hopening : opening.isDigit = false)
    (hc : c.isDigit = true) : c ∉ [' ', '(', ')', opening] := by
  intro hmem
  simp only [List.mem_cons, List.not_mem_nil, or_false] at hmem
  rcases hmem with rfl | rfl | rfl | rfl
  · cases hc
  · cases hc
  · cases hc
  · rw [hopening] at hc
    cases hc

theorem Sketch.clean_nameAt {d : Dialect} {opening closing : Char}
    (hd : d.quotes = some (opening, closing)) (hapart : Apart opening closing)
    {style : ParameterStyle} (hstyle : style.Legible d) (i : Nat) :
    Clean opening (Binder.nameAt style i) := by
  -- a placeholder is made of the stem, or one sign, and digits
  have hdigits : ∀ n c, c ∈ Nat.toDigits 10 n → c ∉ [' ', '(', ')', opening] := by
    intro n c hc
    exact notMem_of_isDigit hapart.opening_notDigit
      (Nat.isDigit_of_mem_toDigits (by decide) (by decide) hc)
  unfold Clean
  rw [Binder.toList_nameAt]
  cases style with
  | positional =>
      refine ⟨List.cons_ne_nil _ _, ?_⟩
      intro c hc
      rw [List.mem_singleton] at hc
      subst hc
      simp [hapart.opening_ne_mark.symm]
  | named stem =>
      refine ⟨List.append_ne_nil_of_right_ne_nil _ Nat.toDigits_ne_nil, ?_⟩
      intro c hc
      rcases List.mem_append.mp hc with hstem | hdigit
      · obtain ⟨hplain, hquotes⟩ := hstyle c hstem
        have := (hquotes opening closing hd).1
        simp only [List.mem_cons, List.not_mem_nil, or_false, not_or] at hplain ⊢
        exact ⟨hplain.1, hplain.2.1, hplain.2.2, this⟩
      · exact hdigits i c hdigit
  | numbered =>
      refine ⟨List.cons_ne_nil _ _, ?_⟩
      intro c hc
      rcases List.mem_cons.mp hc with rfl | hdigit
      · simp [hapart.opening_ne_dollar.symm]
      · exact hdigits (i + 1) c hdigit

/-- What a command asks for, with a condition of some kind. -/
structure Statement (ε : Type) where
  columns : List String
  schema : Option String
  table : String
  condition : Option ε

namespace Statement

/-! ## Reading a text -/

/-- The word before the columns. -/
def selectWord : List Char := "SELECT ".toList

/-- The word before the table. -/
def fromWord : List Char := " FROM ".toList

/-- The word before the condition. -/
def whereWord : List Char := " WHERE ".toList

/-- Reads the list of columns off the front of a text; a star stands for no columns. -/
def readColumns (opening closing : Char) (text : List Char) : Option (List String × List Char) :=
  match Dialect.strip ['*'] text with
  | some rest => some ([], rest)
  | none => Dialect.readParts opening closing [',', ' '] text

/-- Reads the path of a table off the front of a text. -/
def readTable (opening closing : Char) (text : List Char) :
    Option (Option String × String × List Char) :=
  match Dialect.readParts opening closing ['.'] text with
  | some ([name], rest) => some (none, name, rest)
  | some ([schema, name], rest) => some (some schema, name, rest)
  | _ => none

/-- Reads the condition that a text consists of, if it is not empty. -/
def readCondition (opening closing : Char) (text : List Char) : Option (Option Sketch) :=
  match text with
  | [] => some none
  | _ => do
    let text ← Dialect.strip whereWord text
    let (sketch, rest) ← Sketch.read opening closing text.length text
    if rest = [] then some (some sketch) else none

/-- Reads the text of a command. -/
def read (opening closing : Char) (text : List Char) : Option (Statement Sketch) := do
  let text ← Dialect.strip selectWord text
  let (columns, text) ← readColumns opening closing text
  let text ← Dialect.strip fromWord text
  let (schema, table, text) ← readTable opening closing text
  let condition ← readCondition opening closing text
  return ⟨columns, schema, table, condition⟩

/-- What the text of a command says, in a dialect that quotes. -/
def parse (d : Dialect) (text : String) : Option (Statement Sketch) :=
  d.quotes.bind (fun (opening, closing) => read opening closing text.toList)

/-- What a command asks for. -/
def decode (d : Dialect) (style : ParameterStyle) (text : String)
    (parameters : List BoundParameter) : Option (Statement Expr) := do
  let statement ← parse d text
  match statement.condition with
  | none => return ⟨statement.columns, statement.schema, statement.table, none⟩
  | some sketch =>
    let (condition, _) ← sketch.resolve style parameters
    return ⟨statement.columns, statement.schema, statement.table, some condition⟩

/-! ## Reading what was written -/

/-- The characters of a list of columns. -/
def columnChars (opening closing : Char) (columns : List String) : List Char :=
  if columns = [] then ['*']
  else [',', ' '].intercalate (columns.map (Dialect.quoted opening closing))

/-- The characters of the path of a table. -/
def tableChars (opening closing : Char) (schema : Option String) (table : String) : List Char :=
  ['.'].intercalate ((schema.toList ++ [table]).map (Dialect.quoted opening closing))

/-- The characters of a condition with its keyword. -/
def conditionChars (opening closing : Char) : Option Sketch → List Char
  | none => []
  | some sketch => whereWord ++ sketch.chars opening closing

/-- The characters of a command. -/
def chars (opening closing : Char) (s : Statement Sketch) : List Char :=
  selectWord ++ (columnChars opening closing s.columns ++
    (fromWord ++ (tableChars opening closing s.schema s.table ++
      conditionChars opening closing s.condition)))

theorem readColumns_append {opening closing : Char} (h : Sketch.Apart opening closing)
    (columns : List String) {rest : List Char} (hrest : Sketch.Ends rest) :
    readColumns opening closing (columnChars opening closing columns ++ rest)
      = some (columns, rest) := by
  by_cases hcolumns : columns = []
  · rw [hcolumns, columnChars, if_pos rfl]
    rfl
  · have hparts := hrest.readParts h (.inr rfl) [' '] hcolumns
    obtain ⟨tail, htail⟩ := Dialect.intercalate_quoted opening closing [',', ' '] hcolumns
    -- a quoted column does not begin with a star
    have hstar : Dialect.strip ['*'] (opening :: (tail ++ rest)) = none := by
      rw [Dialect.strip, if_neg h.opening_ne_star.symm]
    rw [columnChars, if_neg hcolumns]
    rw [htail, List.cons_append] at hparts ⊢
    rw [readColumns, hstar]
    exact hparts

theorem readTable_append {opening closing : Char} (h : Sketch.Apart opening closing)
    (schema : Option String) (table : String) {rest : List Char} (hrest : Sketch.Ends rest) :
    readTable opening closing (tableChars opening closing schema table ++ rest)
      = some (schema, table, rest) := by
  have hpath : schema.toList ++ [table] ≠ [] :=
    List.append_ne_nil_of_right_ne_nil _ (List.cons_ne_nil _ _)
  rw [readTable, tableChars, hrest.readParts h (.inl rfl) [] hpath]
  cases schema with
  | none => rfl
  | some schema => rfl

theorem readCondition_chars {opening closing : Char} (h : Sketch.Apart opening closing)
    {condition : Option Sketch} (hlegible : ∀ s ∈ condition, s.Legible opening) :
    readCondition opening closing (conditionChars opening closing condition)
      = some condition := by
  cases condition with
  | none => rfl
  | some s =>
      have hs : s.Legible opening := hlegible s rfl
      have hread := Sketch.read_chars h s hs (s.chars opening closing).length
        (Sketch.depth_le_length s hs) [] Sketch.ends_nil
      rw [List.append_nil] at hread
      show (do
        let text ← Dialect.strip whereWord
          (whereWord ++ s.chars opening closing)
        let (sketch, rest) ← Sketch.read opening closing text.length text
        if rest = [] then some (some sketch) else none) = _
      rw [Dialect.strip_append]
      simp only [Option.bind_eq_bind, Option.bind_some]
      rw [hread]
      rfl

theorem ends_fromWord (rest : List Char) : Sketch.Ends (fromWord ++ rest) := by
  have hword : fromWord = ' ' :: "FROM ".toList := by decide
  rw [hword]
  exact Sketch.ends_blank _

theorem ends_conditionChars (opening closing : Char) (condition : Option Sketch) :
    Sketch.Ends (conditionChars opening closing condition) := by
  have hword : whereWord = ' ' :: "WHERE ".toList := by decide
  cases condition with
  | none => exact Sketch.ends_nil
  | some sketch =>
      rw [conditionChars, hword]
      exact Sketch.ends_blank _

/-- The text of a command is read back, whatever its names are. -/
theorem read_chars {opening closing : Char} (h : Sketch.Apart opening closing)
    (s : Statement Sketch) (hlegible : ∀ sketch ∈ s.condition, sketch.Legible opening) :
    read opening closing (s.chars opening closing) = some s := by
  -- clause by clause: each is read with all of the others behind it
  rw [read, chars, Dialect.strip_append]
  simp only [Option.bind_eq_bind, Option.bind_some]
  rw [readColumns_append h s.columns (ends_fromWord _)]
  simp only [Option.bind_some]
  rw [Dialect.strip_append]
  simp only [Option.bind_some]
  rw [readTable_append h s.schema s.table (ends_conditionChars opening closing s.condition)]
  simp only [Option.bind_some]
  rw [readCondition_chars h hlegible]
  rfl

end Statement

/-! ## Commands -/

namespace SqlQuery

open Statement

/-- A query on a table, as a dialect and a style of placeholders render it. -/
structure Prepares (q : SqlQuery) (d : Dialect) (style : ParameterStyle) (table : Table)
    (prepared : PreparedCommand) : Prop where
  root : ∃ name, q.node.root = .ok ⟨⟨name, d, style⟩, table⟩
  prepare : q.prepare = .ok prepared

theorem toList_command {d : Dialect} {opening closing : Char}
    (hd : d.quotes = some (opening, closing)) (table : Table) (clauses : List Clause) :
    (Clause.command d (.select table.columnNames :: .source table :: clauses)).toList
      = selectWord ++ (columnChars opening closing table.columnNames ++
        (fromWord ++ (tableChars opening closing table.schema table.name ++
          (Clause.command d clauses).toList))) := by
  have hcolumns : (Clause.text d (.select table.columnNames)).toList
      = selectWord ++ columnChars opening closing table.columnNames := by
    cases table.columnNames with
    | nil =>
        rw [columnChars, if_pos rfl]
        show "SELECT *".toList = _
        decide
    | cons name names =>
        show ("SELECT " ++ ", ".intercalate ((name :: names).map d.quote)).toList = _
        rw [String.toList_append, Dialect.toList_intercalate_quote hd, columnChars,
          if_neg (List.cons_ne_nil _ _), show ", ".toList = [',', ' '] by decide]
        rfl
  have htable : (Clause.text d (.source table)).toList
      = fromWord ++ tableChars opening closing table.schema table.name := by
    rw [Clause.text, String.toList_append, Dialect.quotePath, Dialect.toList_intercalate_quote hd]
    rfl
  rw [Clause.command_cons, Clause.command_cons, String.toList_append, String.toList_append,
    hcolumns, htable, List.append_assoc, List.append_assoc]

/-- A command that is prepared without a failure reads as the columns, the table and the sketch of
the condition. -/
theorem Prepares.parse {q : SqlQuery} {d : Dialect} {style : ParameterStyle} {table : Table}
    {prepared : PreparedCommand} (h : q.Prepares d style table prepared)
    (hd : d = .ansi ∨ d = .mssql ∨ d = .mysql) (hstyle : style.Legible d) :
    ∃ sketch, Statement.parse d prepared.text
        = some ⟨table.columnNames, table.schema, table.name, sketch⟩ ∧
      Option.Rel (fun e s => ∃ after : Binder, after.parameters = prepared.parameters ∧
        Sketch.Drawn e (.new style) s after) q.node.mergedFilter? sketch := by
  obtain ⟨opening, closing, hquotes, hapart⟩ := Dialect.apart_of_quotes hd
  obtain ⟨⟨name, hroot⟩, hprepare⟩ := h
  -- it is enough to say which characters the text consists of
  have hparse : ∀ statement : Statement Sketch,
      (∀ sketch ∈ statement.condition, sketch.Legible opening) →
      prepared.text.toList = statement.chars opening closing →
      Statement.parse d prepared.text = some statement := by
    intro statement hlegible htext
    rw [Statement.parse, hquotes, htext]
    exact read_chars hapart statement hlegible
  have hfor : prepareFor ⟨⟨name, d, style⟩, table⟩ q.node.mergedFilter? = .ok prepared := by
    rw [prepare_of_root hroot] at hprepare
    cases hp : prepareFor ⟨⟨name, d, style⟩, table⟩ q.node.mergedFilter? with
    | error err =>
        rw [hp] at hprepare
        cases hprepare
    | ok prepared' =>
        rw [hp] at hprepare
        cases hprepare
        rfl
  cases hfilter : q.node.mergedFilter? with
  | none =>
      rw [hfilter] at hfor
      cases hfor
      refine ⟨none, hparse _ (fun _ h => by cases h) ?_, .none⟩
      rw [chars, toList_command hquotes]
      rfl
  | some e =>
      rw [hfilter, prepareFor, Expr.toSql_eq_render] at hfor
      rcases hrender : e.render d (.new style) with ⟨err | text, after⟩
      · simp only [hrender] at hfor
        cases hfor
      · simp only [hrender] at hfor
        cases hfor
        obtain ⟨sketch, hdrawn, htext⟩ := Sketch.drawn_of_render hquotes hrender
        have hlegible : sketch.Legible opening :=
          hdrawn.legible (Sketch.clean_nameAt hquotes hapart hstyle) (Binder.counted_new style)
        refine ⟨some sketch, hparse _ ?_ ?_, .some ⟨after, rfl, hdrawn⟩⟩
        · intro sketch' hsketch'
          cases hsketch'
          exact hlegible
        · show (Clause.command d [.select table.columnNames, .source table,
            .condition text]).toList = _
          have hcondition : (Clause.command d [.condition text]).toList
              = conditionChars opening closing (some sketch) := by
            rw [Clause.command_cons, Clause.command_nil, String.append_empty, Clause.text,
              String.toList_append, htext]
            rfl
          rw [chars, toList_command hquotes, hcondition]

/-- **Commands can be decoded.** In a dialect that quotes, and with placeholders that cannot be
taken for anything else, one function recovers from the text and the parameters of every command the
columns, the table, and the filter with what is bound to its placeholders. So two queries with one
text have the same columns, the same table, and filters that are the same up to their constants. -/
theorem prepared_decodes (d : Dialect) (hd : d = .ansi ∨ d = .mssql ∨ d = .mysql)
    (style : ParameterStyle) (hstyle : style.Legible d) :
    (∀ (q : SqlQuery) (table : Table) (prepared : PreparedCommand),
      q.Prepares d style table prepared →
      ∃ condition, decode d style prepared.text prepared.parameters
          = some ⟨table.columnNames, table.schema, table.name, condition⟩ ∧
        Option.Rel (Sketch.Recovers style) q.node.mergedFilter? condition) ∧
    (∀ (q q' : SqlQuery) (table table' : Table) (prepared prepared' : PreparedCommand),
      q.Prepares d style table prepared → q'.Prepares d style table' prepared' →
      prepared.text = prepared'.text →
      table.columnNames = table'.columnNames ∧ table.schema = table'.schema ∧
        table.name = table'.name ∧
        Option.Rel (Expr.SameUpTo (fun _ _ => True)) q.node.mergedFilter?
          q'.node.mergedFilter?) := by
  constructor
  · intro q table prepared hprepares
    obtain ⟨sketch, hparse, hdrawn⟩ := hprepares.parse hd hstyle
    unfold decode
    rw [hparse]
    generalize q.node.mergedFilter? = filter at hdrawn ⊢
    cases hdrawn with
    | none => exact ⟨none, rfl, .none⟩
    | some h =>
        obtain ⟨after, hafter, hdrawn⟩ := h
        obtain ⟨e', rest, hresolve, hrecovers⟩ := Sketch.resolve_drawn hdrawn
        rw [hafter] at hresolve
        refine ⟨some e', ?_, .some hrecovers⟩
        simp only [Option.bind_eq_bind, Option.bind_some, hresolve]
        rfl
  · intro q q' table table' prepared prepared' hprepares hprepares' htext
    obtain ⟨sketch, hparse, hdrawn⟩ := hprepares.parse hd hstyle
    obtain ⟨sketch', hparse', hdrawn'⟩ := hprepares'.parse hd hstyle
    -- one text has one reading
    rw [htext, hparse', Option.some.injEq, Statement.mk.injEq] at hparse
    obtain ⟨hcolumns, hschema, hname, hsketch⟩ := hparse
    subst hsketch
    refine ⟨hcolumns.symm, hschema.symm, hname.symm, ?_⟩
    generalize q.node.mergedFilter? = filter at hdrawn ⊢
    generalize q'.node.mergedFilter? = filter' at hdrawn' ⊢
    cases hdrawn with
    | none =>
        cases hdrawn'
        exact .none
    | some h =>
        cases hdrawn' with
        | some h' =>
            obtain ⟨after, -, hdrawn⟩ := h
            obtain ⟨after', -, hdrawn'⟩ := h'
            exact .some (hdrawn.sameUpTo hdrawn')

/-- Names that look like other parts of a command are only names. -/
theorem prepared_decodes_lookalikes :
    ∃ condition, decode .mssql (.named "@p")
        "SELECT []]], [*, ] FROM [a]].[b].[ FROM ] WHERE (([x] < @p0) AND ([x] <= @p0))"
        [⟨"@p0", .int64 1⟩] = some ⟨["]", "*, "], some "a].[b", " FROM ", condition⟩ ∧
      Option.Rel (Sketch.Recovers (.named "@p"))
        (some (Expr.and (.binary .lt (.column "x") (.constant (.int64 1)))
          (.binary .le (.column "x") (.constant (.int64 1))))) condition := by
  have hlegible : ParameterStyle.Legible .mssql (.named "@p") := by
    intro c hc
    have hc' : c = '@' ∨ c = 'p' := by simpa using hc
    rcases hc' with rfl | rfl
    · refine ⟨by decide, ?_⟩
      intro opening closing h
      cases h
      decide
    · refine ⟨by decide, ?_⟩
      intro opening closing h
      cases h
      decide
  refine (prepared_decodes .mssql (.inr (.inl rfl)) (.named "@p") hlegible).1
    ⟨.filter (.filter (.source ⟨⟨"c", .mssql, .named "@p"⟩,
      ⟨some "a].[b", " FROM ", [⟨"]", .int64⟩, ⟨"*, ", .utf8⟩]⟩⟩)
        (.binary .lt (.column "x") (.constant (.int64 1))))
      (.binary .le (.column "x") (.constant (.int64 1))), .default⟩
    ⟨some "a].[b", " FROM ", [⟨"]", .int64⟩, ⟨"*, ", .utf8⟩]⟩
    ⟨"SELECT []]], [*, ] FROM [a]].[b].[ FROM ] WHERE (([x] < @p0) AND ([x] <= @p0))",
      [⟨"@p0", .int64 1⟩]⟩ ⟨⟨"c", rfl⟩, ?_⟩
  rw [prepare_of_root rfl]
  unfold prepareFor
  simp only [QueryNode.mergedFilter?, QueryNode.predicates_filter, QueryNode.predicates_source,
    List.nil_append, List.singleton_append, Expr.andAll?, Expr.toSql_eq_render]
  rfl

end SqlQuery

end RowQuery
