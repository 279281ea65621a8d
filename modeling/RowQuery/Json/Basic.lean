import RowQuery.Json.Number
import RowQuery.Json.Text

set_option autoImplicit false

/-! # JSON

A JSON text as a tree, and the way between the two. The leaves are kept as they are written: numbers
by their digits, strings by their bodies. What a leaf is worth is found out only where a value is
made of it (`RowQuery.Json.Reader`), because the parts of a text that nobody asks for are not looked
at more closely than the grammar demands. -/

namespace RowQuery

/-- A JSON text as a tree. -/
inductive Json where
  | null
  | bool (b : Bool)
  | number (n : Json.Number)
  /-- A string, by its body. -/
  | string (body : List Char)
  | array (items : List Json)
  /-- An object: the bodies of the names, and the members, in order. -/
  | object (members : List (List Char × Json))
  deriving Inhabited

namespace Json

/-- A string with the given characters. -/
def ofString (s : String) : Json := .string (Text.escape s.toList)

/-- An object with the given names. -/
def ofMembers (members : List (String × Json)) : Json :=
  .object (members.map (fun (name, j) => (Text.escape name.toList, j)))

/-! ## Writing -/

/-- The characters of a string. -/
def quoted (body : List Char) : List Char := '"' :: (body ++ ['"'])

mutual

/-- The characters of a text, without blanks. -/
def text : Json → List Char
  | .null => "null".toList
  | .bool true => "true".toList
  | .bool false => "false".toList
  | .number n => n.text
  | .string body => quoted body
  | .array items => '[' :: (textItems items ++ [']'])
  | .object members => '\x7b' :: (textMembers members ++ ['\x7d'])

/-- The items of an array, with commas between them. -/
def textItems : List Json → List Char
  | [] => []
  | [j] => text j
  | j :: rest => text j ++ ',' :: textItems rest

/-- The members of an object, with commas between them. -/
def textMembers : List (List Char × Json) → List Char
  | [] => []
  | [(name, j)] => quoted name ++ ':' :: text j
  | (name, j) :: rest => quoted name ++ ':' :: (text j ++ ',' :: textMembers rest)

end

/-! ## Reading -/

/-- The four blanks of the grammar. -/
def isBlank (c : Char) : Bool := c = ' ' || c = '\n' || c = '\t' || c = '\r'

/-- The characters after any blanks in front. -/
def skipBlanks (s : List Char) : List Char := s.dropWhile isBlank

/-- The characters after a word, if they start with it. -/
def word? : List Char → List Char → Option (List Char)
  | [], s => some s
  | _ :: _, [] => none
  | c :: rest, d :: s => if c = d then word? rest s else none

mutual

/-- Reads a text from the front of the characters: the tree, and what follows. Every call takes at
least one character, so the number of characters is fuel enough. -/
def read? : Nat → List Char → Option (Json × List Char)
  | 0, _ => none
  | fuel + 1, s =>
    match skipBlanks s with
    | [] => none
    | c :: rest =>
      if c = 'n' then (word? "ull".toList rest).map (fun after => (.null, after))
      else if c = 't' then (word? "rue".toList rest).map (fun after => (.bool true, after))
      else if c = 'f' then (word? "alse".toList rest).map (fun after => (.bool false, after))
      else if c = '"' then
        (Text.scan? rest).map (fun (body, after) => (.string body, after))
      else if c = '[' then
        match skipBlanks rest with
        | ']' :: after => some (.array [], after)
        | items => (readItems? fuel items).map (fun (js, after) => (.array js, after))
      else if c = '\x7b' then
        match skipBlanks rest with
        | '\x7d' :: after => some (.object [], after)
        | members => (readMembers? fuel members).map (fun (ms, after) => (.object ms, after))
      else (Number.scan? (c :: rest)).map (fun (n, after) => (.number n, after))

/-- Reads the items of an array, of which there is at least one, up to the closing bracket. -/
def readItems? : Nat → List Char → Option (List Json × List Char)
  | 0, _ => none
  | fuel + 1, s => do
    let (j, s) ← read? fuel s
    match skipBlanks s with
    | ']' :: after => some ([j], after)
    | ',' :: rest =>
      let (js, after) ← readItems? fuel rest
      some (j :: js, after)
    | _ => none

/-- Reads the members of an object, of which there is at least one, up to the closing brace. -/
def readMembers? : Nat → List Char → Option (List (List Char × Json) × List Char)
  | 0, _ => none
  | fuel + 1, s => do
    let (name, s) ←
      match skipBlanks s with
      | '"' :: rest => Text.scan? rest
      | _ => none
    let (j, s) ←
      match skipBlanks s with
      | ':' :: rest => read? fuel rest
      | _ => none
    match skipBlanks s with
    | '\x7d' :: after => some ([(name, j)], after)
    | ',' :: rest =>
      let (ms, after) ← readMembers? fuel rest
      some ((name, j) :: ms, after)
    | _ => none

end

/-- Reads a whole text; nothing but blanks may follow it. -/
def ofText? (s : List Char) : Option Json := do
  let (j, after) ← read? (s.length + 1) s
  if skipBlanks after = [] then some j else none

end Json

end RowQuery
