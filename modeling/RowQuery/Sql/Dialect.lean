set_option autoImplicit false

/-! # Dialects

A dialect of SQL says how identifiers are quoted: between an opening and a closing character, where
a closing character inside the identifier is written twice, or not at all. A path of identifiers is
quoted part by part, with a point between the parts. -/

namespace RowQuery

/-- A dialect: the characters that open and close a quoted identifier, if it quotes. -/
structure Dialect where
  quotes : Option (Char × Char)
  deriving DecidableEq

namespace Dialect

/-- Leaves identifiers as they are. -/
def generic : Dialect := ⟨none⟩

/-- Double quotes, as in the SQL standard. -/
def ansi : Dialect := ⟨some ('"', '"')⟩

/-- Square brackets. -/
def mssql : Dialect := ⟨some ('[', ']')⟩

/-- Back quotes. -/
def mysql : Dialect := ⟨some ('\x60', '\x60')⟩

/-- Writes every `closing` character twice. -/
def double (closing : Char) : List Char → List Char
  | [] => []
  | c :: rest => if c = closing then c :: c :: double closing rest else c :: double closing rest

/-- A quoted identifier. -/
def quote (d : Dialect) (identifier : String) : String :=
  match d.quotes with
  | none => identifier
  | some (opening, closing) =>
    String.ofList (opening :: (double closing identifier.toList ++ [closing]))

/-- A quoted path. -/
def quotePath (d : Dialect) (parts : List String) : String :=
  ".".intercalate (parts.map d.quote)

end Dialect

end RowQuery
