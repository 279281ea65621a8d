import RowQuery.Proofs.JsonLeaves

set_option autoImplicit false

/-! # JSON texts read back

The text of a tree is read as that tree (`read?_text`), if the leaves of the tree are legible: the
bodies of its strings end at the quote behind them, and its numbers have the parts that the grammar
demands. Reading takes a number as fuel; the length of the text is enough.
-/

namespace RowQuery.Json

/-! ## Trees -/

/-- The body goes up to the quote behind it. -/
def Text.Closes (body : List Char) : Prop :=
  ∀ rest, Text.scan? (body ++ '"' :: rest) = some (body, rest)

mutual

/-- The bodies in a tree end where they should, and its numbers are legible. -/
def Legible : Json → Prop
  | .number n => n.Digital ∧ n.isLegible = true
  | .string body => Text.Closes body
  | .array items => LegibleAll items
  | .object members => LegibleMembers members
  | _ => True

def LegibleAll : List Json → Prop
  | [] => True
  | j :: rest => Legible j ∧ LegibleAll rest

def LegibleMembers : List (List Char × Json) → Prop
  | [] => True
  | (name, j) :: rest => Text.Closes name ∧ Legible j ∧ LegibleMembers rest

end

theorem skipBlanks_cons {c : Char} (h : isBlank c = false) (s : List Char) :
    skipBlanks (c :: s) = c :: s :=
  List.dropWhile_cons_of_neg (by simp [h])

namespace Number

/-- Whether numbers are written with the character. -/
def isPart (c : Char) : Bool := c = '-' || c = '+' || c = '.' || c = 'e' || c.isDigit

/-- None of these characters means something else. -/
theorem ne_of_isPart {c d : Char} (hc : isPart c = true) (hd : isPart d = false) : c ≠ d := by
  rintro rfl
  rw [hc] at hd
  cases hd

theorem isBlank_of_isPart {c : Char} (hc : isPart c = true) : isBlank c = false := by
  simp [isBlank, ne_of_isPart hc (d := ' ') rfl, ne_of_isPart hc (d := '\n') rfl,
    ne_of_isPart hc (d := '\t') rfl, ne_of_isPart hc (d := '\r') rfl]

theorem isPart_of_mem_text {n : Number} (h : n.Digital) {c : Char} (hc : c ∈ n.text) :
    isPart c = true := by
  have hdigit : c.isDigit = true → isPart c = true := by
    intro hdigit
    rw [isPart, hdigit, Bool.or_true]
  obtain ⟨negative, whole, fraction, exponent⟩ := n
  rw [text_eq, List.mem_append, List.mem_append, List.mem_append] at hc
  rcases hc with ((hc | hc) | hc) | hc
  · cases negative with
    | true =>
        rw [List.mem_singleton.mp hc]
        rfl
    | false => cases hc
  · exact hdigit (h.whole c hc)
  · cases fraction with
    | none => cases hc
    | some ds =>
        rcases List.mem_cons.mp hc with rfl | hc
        · rfl
        · exact hdigit (h.fraction ds rfl c hc)
  · cases exponent with
    | none => cases hc
    | some e =>
        obtain ⟨minus, ds⟩ := e
        rcases List.mem_cons.mp hc with rfl | hc
        · rfl
        · rcases List.mem_cons.mp hc with rfl | hc
          · cases minus <;> rfl
          · exact hdigit (h.exponent _ rfl c hc)

theorem text_ne_nil {n : Number} (h : n.isLegible = true) : n.text ≠ [] := by
  obtain ⟨negative, whole, fraction, exponent⟩ := n
  cases whole with
  | nil => cases h
  | cons c ds =>
      rw [text_eq]
      simp

end Number

/-- What a text starts with neither is blank nor closes an array. -/
theorem exists_cons {j : Json} (h : j.Legible) :
    ∃ c s, text j = c :: s ∧ isBlank c = false ∧ c ≠ ']' := by
  cases j with
  | null => exact ⟨'n', _, rfl, rfl, by decide⟩
  | bool b =>
      cases b with
      | true => exact ⟨'t', _, rfl, rfl, by decide⟩
      | false => exact ⟨'f', _, rfl, rfl, by decide⟩
  | number n =>
      obtain ⟨c, s, htext⟩ := List.exists_cons_of_ne_nil (Number.text_ne_nil h.2)
      have hc : Number.isPart c = true := Number.isPart_of_mem_text h.1 (htext ▸ .head s)
      exact ⟨c, s, htext, Number.isBlank_of_isPart hc, Number.ne_of_isPart hc rfl⟩
  | string body => exact ⟨'"', _, rfl, rfl, by decide⟩
  | array items => exact ⟨'[', _, rfl, rfl, by decide⟩
  | object members => exact ⟨'\x7b', _, rfl, rfl, by decide⟩

/-! ### By the first character -/

section Dispatch

variable (fuel : Nat) (s : List Char)

theorem read?_null : read? (fuel + 1) ("null".toList ++ s) = some (.null, s) := rfl

theorem read?_true : read? (fuel + 1) ("true".toList ++ s) = some (.bool true, s) := rfl

theorem read?_false : read? (fuel + 1) ("false".toList ++ s) = some (.bool false, s) := rfl

theorem read?_string :
    read? (fuel + 1) ('"' :: s) = (Text.scan? s).map (fun (body, after) => (.string body, after)) :=
  rfl

theorem read?_emptyArray : read? (fuel + 1) ('[' :: ']' :: s) = some (.array [], s) := rfl

theorem read?_emptyObject : read? (fuel + 1) ('\x7b' :: '\x7d' :: s) = some (.object [], s) := rfl

theorem read?_array {c : Char} (hblank : isBlank c = false) (hc : c ≠ ']') :
    read? (fuel + 1) ('[' :: c :: s)
      = (readItems? fuel (c :: s)).map (fun (js, after) => (.array js, after)) := by
  rw [read?, skipBlanks_cons rfl]
  simp only [Char.reduceEq, ↓reduceIte]
  rw [skipBlanks_cons hblank]
  split
  · rename_i heq
    exact absurd (List.cons.inj heq).1 hc
  · rfl

/-- The name of a member comes first in an object. -/
theorem read?_object :
    read? (fuel + 1) ('\x7b' :: '"' :: s)
      = (readMembers? fuel ('"' :: s)).map (fun (ms, after) => (.object ms, after)) := rfl

theorem read?_number {c : Char} (hc : Number.isPart c = true) :
    read? (fuel + 1) (c :: s)
      = (Number.scan? (c :: s)).map (fun (n, after) => (.number n, after)) := by
  rw [read?, skipBlanks_cons (Number.isBlank_of_isPart hc)]
  dsimp only
  rw [if_neg (Number.ne_of_isPart hc rfl), if_neg (Number.ne_of_isPart hc rfl),
    if_neg (Number.ne_of_isPart hc rfl), if_neg (Number.ne_of_isPart hc rfl),
    if_neg (Number.ne_of_isPart hc rfl), if_neg (Number.ne_of_isPart hc rfl)]

end Dispatch

section Lists

variable {fuel : Nat} {s more after : List Char} {j : Json}

theorem readItems?_last (h : read? fuel s = some (j, ']' :: after)) :
    readItems? (fuel + 1) s = some ([j], after) := by
  rw [readItems?, h]
  rfl

theorem readItems?_more (h : read? fuel s = some (j, ',' :: more)) :
    readItems? (fuel + 1) s
      = (readItems? fuel more).map (fun (js, after) => (j :: js, after)) := by
  rw [readItems?, h]
  show (do
    let (js, after) ← readItems? fuel more
    some (j :: js, after)) = _
  cases readItems? fuel more <;> rfl

variable {name value next : List Char}

/-- The parts of a member stand right behind one another. -/
theorem readMembers?_cons (hname : Text.scan? s = some (name, ':' :: value))
    (h : read? fuel value = some (j, next)) :
    readMembers? (fuel + 1) ('"' :: s) = (match skipBlanks next with
      | '\x7d' :: after => some ([(name, j)], after)
      | ',' :: rest => do
        let (ms, after) ← readMembers? fuel rest
        some ((name, j) :: ms, after)
      | _ => none) := by
  have hscan : readMembers? (fuel + 1) ('"' :: s) = (Text.scan? s).bind _ := rfl
  rw [hscan, hname, Option.bind_some]
  show (read? fuel value).bind _ = _
  rw [h]
  rfl

theorem readMembers?_last (hname : Text.scan? s = some (name, ':' :: value))
    (h : read? fuel value = some (j, '\x7d' :: after)) :
    readMembers? (fuel + 1) ('"' :: s) = some ([(name, j)], after) :=
  readMembers?_cons hname h

theorem readMembers?_more (hname : Text.scan? s = some (name, ':' :: value))
    (h : read? fuel value = some (j, ',' :: more)) :
    readMembers? (fuel + 1) ('"' :: s)
      = (readMembers? fuel more).map (fun (ms, after) => ((name, j) :: ms, after)) := by
  refine (readMembers?_cons hname h).trans ?_
  show (do
    let (ms, after) ← readMembers? fuel more
    some ((name, j) :: ms, after)) = _
  cases readMembers? fuel more <;> rfl

end Lists

/-! ### Whole trees -/

theorem textItems_more (j k : Json) (items : List Json) (rest : List Char) :
    textItems (j :: k :: items) ++ rest = text j ++ ',' :: (textItems (k :: items) ++ rest) := by
  rw [textItems, List.append_assoc, List.cons_append]
  exact nofun

theorem exists_cons_textItems {j : Json} (h : j.Legible) (items : List Json) :
    ∃ c s, textItems (j :: items) = c :: s ∧ isBlank c = false ∧ c ≠ ']' := by
  obtain ⟨c, s, htext, hblank, hc⟩ := exists_cons h
  cases items with
  | nil => exact ⟨c, s, htext, hblank, hc⟩
  | cons k items =>
      refine ⟨c, s ++ ',' :: textItems (k :: items), ?_, hblank, hc⟩
      have hmore := textItems_more j k items []
      rw [List.append_nil, List.append_nil, htext] at hmore
      exact hmore

/-- A member is its name, a colon and its value. -/
theorem textMembers_last (name : List Char) (j : Json) (rest : List Char) :
    textMembers [(name, j)] ++ rest = '"' :: (name ++ '"' :: ':' :: (text j ++ rest)) := by
  simp [textMembers, quoted]

theorem textMembers_more (name : List Char) (j : Json) (m : List Char × Json)
    (members : List (List Char × Json)) (rest : List Char) :
    textMembers ((name, j) :: m :: members) ++ rest
      = '"' :: (name ++ '"' :: ':' :: (text j ++ ',' :: (textMembers (m :: members) ++ rest))) := by
  rw [textMembers]
  · simp [quoted]
  · exact nofun

mutual

/-- **A legible tree is read back from its text**, whatever follows the text. -/
theorem read?_text (j : Json) (h : j.Legible) {fuel : Nat} (hfuel : (text j).length ≤ fuel)
    {rest : List Char} (hrest : Number.Ends rest) :
    read? fuel (text j ++ rest) = some (j, rest) := by
  obtain ⟨c, s, hhead, -, -⟩ := exists_cons h
  obtain ⟨fuel, rfl⟩ : ∃ n, fuel = n + 1 := by
    rw [hhead, List.length_cons] at hfuel
    exact ⟨fuel - 1, by omega⟩
  -- a container is entered with one unit less, and its brackets make up for it
  match j with
  | .null => exact read?_null fuel rest
  | .bool true => exact read?_true fuel rest
  | .bool false => exact read?_false fuel rest
  | .number n =>
      obtain ⟨c, s, htext⟩ := List.exists_cons_of_ne_nil (Number.text_ne_nil h.2)
      have hc : Number.isPart c = true := Number.isPart_of_mem_text h.1 (htext ▸ .head s)
      have hscan := Number.scan?_text h.1 hrest
      rw [if_pos h.2, htext, List.cons_append] at hscan
      rw [text, htext, List.cons_append, read?_number fuel _ hc, hscan]
      rfl
  | .string body =>
      have htext : text (.string body) ++ rest = '"' :: (body ++ '"' :: rest) := by
        simp [text, quoted]
      rw [htext, read?_string, h rest]
      rfl
  | .array [] => exact read?_emptyArray fuel rest
  | .array (k :: items) =>
      have htext : text (.array (k :: items)) ++ rest
          = '[' :: (textItems (k :: items) ++ ']' :: rest) := by
        simp [text]
      have hlength : (textItems (k :: items)).length < fuel := by
        simp only [text, List.length_cons, List.length_append, List.length_nil] at hfuel
        omega
      -- the array is not taken for an empty one
      obtain ⟨c, s, hitems, hblank, hc⟩ := exists_cons_textItems h.1 items
      have hread := readItems?_text (k :: items) (List.cons_ne_nil k items) h hlength rest
      rw [hitems, List.cons_append] at hread
      rw [htext, hitems, List.cons_append, read?_array fuel _ hblank hc, hread]
      rfl
  | .object [] => exact read?_emptyObject fuel rest
  | .object ((name, k) :: members) =>
      have htext : text (.object ((name, k) :: members)) ++ rest
          = '\x7b' :: (textMembers ((name, k) :: members) ++ '\x7d' :: rest) := by
        simp [text]
      have hlength : (textMembers ((name, k) :: members)).length < fuel := by
        simp only [text, List.length_cons, List.length_append, List.length_nil] at hfuel
        omega
      obtain ⟨s, hs⟩ : ∃ s, textMembers ((name, k) :: members) ++ '\x7d' :: rest = '"' :: s := by
        cases members with
        | nil => exact ⟨_, textMembers_last name k _⟩
        | cons m members => exact ⟨_, textMembers_more name k m members _⟩
      have hread :=
        readMembers?_text ((name, k) :: members) (List.cons_ne_nil _ members) h hlength rest
      rw [hs] at hread
      rw [htext, hs, read?_object, hread]
      rfl

/-- So are the items of an array, up to its closing bracket. -/
theorem readItems?_text (items : List Json) (hsome : items ≠ []) (h : LegibleAll items) {fuel : Nat}
    (hfuel : (textItems items).length < fuel) (rest : List Char) :
    readItems? fuel (textItems items ++ ']' :: rest) = some (items, rest) := by
  obtain ⟨fuel, rfl⟩ : ∃ n, fuel = n + 1 := ⟨fuel - 1, by omega⟩
  match items with
  | [] => contradiction
  | [j] =>
      have hread := read?_text j h.1 (Nat.le_of_lt_succ hfuel) (Number.ends_bracket rest)
      exact readItems?_last hread
  | j :: k :: items =>
      have hlength := congrArg List.length (textItems_more j k items [])
      simp only [List.length_append, List.length_cons, List.length_nil] at hlength
      have hfirst : (text j).length ≤ fuel := by omega
      have hread := read?_text j h.1 hfirst
        (Number.ends_comma (textItems (k :: items) ++ ']' :: rest))
      rw [textItems_more, readItems?_more hread,
        readItems?_text (k :: items) (List.cons_ne_nil k items) h.2 (by omega) rest]
      rfl

/-- And the members of an object, up to its closing brace. -/
theorem readMembers?_text (members : List (List Char × Json)) (hsome : members ≠ [])
    (h : LegibleMembers members) {fuel : Nat} (hfuel : (textMembers members).length < fuel)
    (rest : List Char) :
    readMembers? fuel (textMembers members ++ '\x7d' :: rest) = some (members, rest) := by
  obtain ⟨fuel, rfl⟩ : ∃ n, fuel = n + 1 := ⟨fuel - 1, by omega⟩
  match members with
  | [] => contradiction
  | [(name, j)] =>
      have hlength := congrArg List.length (textMembers_last name j [])
      simp only [List.length_append, List.length_cons, List.length_nil] at hlength
      have hfirst : (text j).length ≤ fuel := by omega
      have hread := read?_text j h.2.1 hfirst (Number.ends_brace rest)
      rw [textMembers_last, readMembers?_last (h.1 _) hread]
  | (name, j) :: (next, k) :: members =>
      have hlength := congrArg List.length (textMembers_more name j (next, k) members [])
      simp only [List.length_append, List.length_cons, List.length_nil] at hlength
      have hfirst : (text j).length ≤ fuel := by omega
      have hread := read?_text j h.2.1 hfirst
        (Number.ends_comma (textMembers ((next, k) :: members) ++ '\x7d' :: rest))
      rw [textMembers_more, readMembers?_more (h.1 _) hread,
        readMembers?_text ((next, k) :: members) (List.cons_ne_nil _ members) h.2.2 (by omega) rest]
      rfl

end

/-- A whole text is read as the tree that it was made of. -/
theorem ofText?_text {j : Json} (h : j.Legible) : ofText? (text j) = some j := by
  have hread := read?_text j h (Nat.le_succ _) Number.ends_nil
  rw [List.append_nil] at hread
  rw [ofText?, hread]
  rfl

/-- The text of a number that is not legible is no text at all. -/
theorem ofText?_number {n : Number} (h : n.Digital) :
    ofText? n.text = if n.isLegible then some (.number n) else none := by
  by_cases hlegible : n.isLegible = true
  · rw [if_pos hlegible]
    exact ofText?_text (j := .number n) ⟨h, hlegible⟩
  · rw [if_neg hlegible]
    have hread : read? (n.text.length + 1) n.text = none := by
      cases htext : n.text with
      | nil => rfl
      | cons c s =>
          have hc : Number.isPart c = true := Number.isPart_of_mem_text h (htext ▸ .head s)
          have hscan := Number.scan?_text h Number.ends_nil
          rw [if_neg hlegible, List.append_nil, htext] at hscan
          rw [read?_number _ s hc, hscan]
          rfl
    rw [ofText?, hread]
    rfl

end RowQuery.Json
