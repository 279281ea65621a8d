import RowQuery.Sql.Dialect

set_option autoImplicit false

/-! # Reading quoted identifiers back

A quoted identifier ends at its first single closing character: inside it every closing character
has been written twice. So whatever the identifier holds, it can be read off the front of a text, as
long as what follows does not begin with another closing character (`readQuoted_quote`). Several of
them with a separator between them are read one after the other (`readParts_intercalate`), which
covers both the points of a path and the commas of a list of columns.

Reading also accepts nothing else (`readQuoted_eq_some_iff`), so quoting and reading are inverse to
each other. For paths this needs a closing character that is not the point itself: where it is, the
point behind an identifier can be taken for one inside it (`exists_quotePath_eq`).
-/

namespace RowQuery.Dialect

/-! ## One identifier -/

/-- Reads up to the first single closing character; two of them stand for one. -/
def scan (closing : Char) : List Char → Option (List Char × List Char)
  | [] => none
  | [c] => if c = closing then some ([], []) else none
  | c :: c' :: rest =>
    -- the second character decides whether the first one closes
    if c = closing then
      if c' = closing then (scan closing rest).map (fun (s, r) => (closing :: s, r))
      else some ([], c' :: rest)
    else (scan closing (c' :: rest)).map (fun (s, r) => (c :: s, r))

/-- Reads a quoted identifier off the front of a text. -/
def readQuoted (opening closing : Char) : List Char → Option (String × List Char)
  | [] => none
  | c :: rest =>
    if c = opening then (scan closing rest).map (fun (s, r) => (String.ofList s, r)) else none

/-- The characters of a quoted identifier. -/
def quoted (opening closing : Char) (identifier : String) : List Char :=
  opening :: (double closing identifier.toList ++ [closing])

theorem toList_quote {d : Dialect} {opening closing : Char}
    (h : d.quotes = some (opening, closing)) (identifier : String) :
    (d.quote identifier).toList = quoted opening closing identifier := by
  rw [quote, h]
  exact String.toList_ofList

/-- The characters of quoted identifiers with a separator between them. -/
theorem toList_intercalate_quote {d : Dialect} {opening closing : Char}
    (h : d.quotes = some (opening, closing)) (separator : String) (names : List String) :
    (separator.intercalate (names.map d.quote)).toList
      = separator.toList.intercalate (names.map (quoted opening closing)) := by
  rw [String.toList_intercalate, List.map_map]
  congr 1
  apply List.map_congr_left
  intro name _
  exact toList_quote h name

theorem scan_cons_of_ne {closing c : Char} (h : c ≠ closing) (text : List Char) :
    scan closing (c :: text) = (scan closing text).map (fun (s, r) => (c :: s, r)) := by
  cases text with
  | nil =>
      show scan closing [c] = none
      rw [scan, if_neg h]
  | cons c' rest => rw [scan, if_neg h]

/-- What has been doubled is read back, up to the closing character behind it. -/
theorem scan_double (closing : Char) (s rest : List Char) (h : rest.head? ≠ some closing) :
    scan closing (double closing s ++ closing :: rest) = some (s, rest) := by
  induction s with
  | nil =>
      show scan closing (closing :: rest) = _
      cases rest with
      | nil => rw [scan, if_pos rfl]
      | cons c more =>
          -- what follows cannot make the closing character a double one
          have hc : c ≠ closing := by
            intro heq
            exact h (by rw [heq]; rfl)
          rw [scan, if_pos rfl, if_neg hc]
  | cons c s ih =>
      by_cases hc : c = closing
      · subst hc
        rw [double, if_pos rfl, List.cons_append, List.cons_append, scan, if_pos rfl, if_pos rfl,
          ih]
        rfl
      · rw [double, if_neg hc, List.cons_append, scan_cons_of_ne hc, ih]
        rfl

theorem readQuoted_quote (opening closing : Char) (identifier : String) (rest : List Char)
    (h : rest.head? ≠ some closing) :
    readQuoted opening closing (quoted opening closing identifier ++ rest)
      = some (identifier, rest) := by
  rw [quoted, List.cons_append, readQuoted, if_pos rfl, List.append_assoc, List.singleton_append,
    scan_double closing _ rest h]
  show some (String.ofList identifier.toList, rest) = _
  rw [String.ofList_toList]

/-- The scan accepts nothing but what has been doubled, up to a closing character that stands
alone. -/
theorem scan_eq_some_iff {closing : Char} {text s rest : List Char} :
    scan closing text = some (s, rest)
      ↔ text = double closing s ++ closing :: rest ∧ rest.head? ≠ some closing := by
  constructor
  · intro h
    fun_induction scan closing text generalizing s with
    | case1 => cases h
    | case2 =>
        cases h
        simp [double]
    | case3 => cases h
    | case4 more ih =>
        -- two closing characters: the identifier holds one
        obtain ⟨⟨s', r⟩, hscan, heq⟩ := Option.map_eq_some_iff.mp h
        cases heq
        obtain ⟨htext, hrest⟩ := ih hscan
        rw [double, if_pos rfl, htext]
        exact ⟨rfl, hrest⟩
    | case5 c more hc =>
        -- a single one: the identifier is over
        cases h
        simpa [double] using hc
    | case6 c c' more hc ih =>
        obtain ⟨⟨s', r⟩, hscan, heq⟩ := Option.map_eq_some_iff.mp h
        cases heq
        obtain ⟨htext, hrest⟩ := ih hscan
        rw [double, if_neg hc, htext]
        exact ⟨rfl, hrest⟩
  · rintro ⟨rfl, hrest⟩
    exact scan_double closing s rest hrest

/-- An identifier is read off the front of a text exactly if it stands there in quotes, with no
closing character behind it. -/
theorem readQuoted_eq_some_iff {opening closing : Char} {text rest : List Char} {name : String} :
    readQuoted opening closing text = some (name, rest)
      ↔ text = quoted opening closing name ++ rest ∧ rest.head? ≠ some closing := by
  constructor
  · intro h
    cases text with
    | nil => cases h
    | cons c more =>
        rw [readQuoted] at h
        split at h
        · rename_i hc
          obtain ⟨⟨s, r⟩, hscan, heq⟩ := Option.map_eq_some_iff.mp h
          cases heq
          obtain ⟨htext, hrest⟩ := scan_eq_some_iff.mp hscan
          refine ⟨?_, hrest⟩
          rw [hc, htext, quoted, String.toList_ofList]
          simp
        · cases h
  · rintro ⟨rfl, hrest⟩
    exact readQuoted_quote opening closing name rest hrest

/-- Reading takes something off the text. -/
theorem length_scan {closing : Char} {text s rest : List Char}
    (h : scan closing text = some (s, rest)) : rest.length < text.length := by
  fun_induction scan closing text generalizing s with
  | case1 => cases h
  | case2 =>
      cases h
      exact Nat.zero_lt_one
  | case3 => cases h
  | case4 more ih =>
      obtain ⟨⟨s', r⟩, hscan, heq⟩ := Option.map_eq_some_iff.mp h
      cases heq
      have := ih hscan
      simp only [List.length_cons]
      omega
  | case5 c more hc =>
      cases h
      exact Nat.lt_succ_self _
  | case6 c c' more hc ih =>
      obtain ⟨⟨s', r⟩, hscan, heq⟩ := Option.map_eq_some_iff.mp h
      cases heq
      have := ih hscan
      simp only [List.length_cons] at this ⊢
      omega

theorem length_readQuoted {opening closing : Char} {text rest : List Char} {name : String}
    (h : readQuoted opening closing text = some (name, rest)) : rest.length < text.length := by
  cases text with
  | nil => cases h
  | cons c more =>
      rw [readQuoted] at h
      split at h
      · obtain ⟨⟨s, r⟩, hscan, heq⟩ := Option.map_eq_some_iff.mp h
        cases heq
        have := length_scan hscan
        simp only [List.length_cons]
        omega
      · cases h

/-! ## Several identifiers -/

/-- Takes a given text off the front of another one. -/
def strip : List Char → List Char → Option (List Char)
  | [], text => some text
  | _ :: _, [] => none
  | c :: front, c' :: text => if c = c' then strip front text else none

theorem strip_append (front text : List Char) : strip front (front ++ text) = some text := by
  induction front with
  | nil => rfl
  | cons c front ih =>
      rw [List.cons_append, strip, if_pos rfl]
      exact ih

theorem length_strip {front text rest : List Char} (h : strip front text = some rest) :
    rest.length ≤ text.length := by
  fun_induction strip front text with
  | case1 text =>
      cases h
      exact Nat.le_refl _
  | case2 => cases h
  | case3 c front text ih =>
      have := ih h
      simp only [List.length_cons]
      omega
  | case4 => cases h

/-- Reads quoted identifiers for as long as the separator stands between them. -/
def readParts (opening closing : Char) (separator text : List Char) :
    Option (List String × List Char) :=
  match _h : readQuoted opening closing text with
  | none => none
  | some (name, rest) =>
    match _hs : strip separator rest with
    | none => some ([name], rest)
    | some more =>
      (readParts opening closing separator more).map (fun (names, r) => (name :: names, r))
termination_by text.length
decreasing_by
  have hquoted := length_readQuoted _h
  have hstrip := length_strip _hs
  omega

theorem readParts_one {opening closing : Char} {separator text rest : List Char} {name : String}
    (h : readQuoted opening closing text = some (name, rest)) (hs : strip separator rest = none) :
    readParts opening closing separator text = some ([name], rest) := by
  rw [readParts]
  split
  · rename_i h'
    rw [h] at h'
    cases h'
  · rename_i name' rest' h'
    rw [h] at h'
    cases h'
    split
    · rfl
    · rename_i more hs'
      rw [hs] at hs'
      cases hs'

theorem readParts_more {opening closing : Char} {separator text rest more : List Char}
    {name : String} (h : readQuoted opening closing text = some (name, rest))
    (hs : strip separator rest = some more) :
    readParts opening closing separator text
      = (readParts opening closing separator more).map (fun (names, r) => (name :: names, r)) := by
  rw [readParts]
  split
  · rename_i h'
    rw [h] at h'
    cases h'
  · rename_i name' rest' h'
    rw [h] at h'
    cases h'
    split
    · rename_i hs'
      rw [hs] at hs'
      cases hs'
    · rename_i more' hs'
      rw [hs] at hs'
      cases hs'
      rfl

/-- A list of identifiers begins with the character that opens the first one. -/
theorem intercalate_quoted (opening closing : Char) (separator : List Char) {names : List String}
    (hnames : names ≠ []) :
    ∃ tail, separator.intercalate (names.map (quoted opening closing)) = opening :: tail := by
  cases names with
  | nil => exact absurd rfl hnames
  | cons name names =>
      cases names with
      | nil => exact ⟨_, List.intercalate_singleton⟩
      | cons name' names => exact ⟨_, List.intercalate_cons_cons⟩

/-- Identifiers with a separator between them are read back, whatever they hold. -/
theorem readParts_intercalate (opening : Char) {closing first : Char} (hfirst : first ≠ closing)
    (others : List Char) {names : List String} (hnames : names ≠ []) {rest : List Char}
    (hrest : rest.head? ≠ some closing) (hstrip : strip (first :: others) rest = none) :
    readParts opening closing (first :: others)
        ((first :: others).intercalate (names.map (quoted opening closing)) ++ rest)
      = some (names, rest) := by
  -- the last identifier has no separator behind it, so the cases are one and two or more
  induction names with
  | nil => exact absurd rfl hnames
  | cons name names ih =>
      cases names with
      | nil =>
          rw [List.map_singleton, List.intercalate_singleton]
          exact readParts_one (readQuoted_quote opening closing name rest hrest) hstrip
      | cons name' names =>
          rw [List.map_cons, List.map_cons, List.intercalate_cons_cons, List.append_assoc,
            List.append_assoc]
          rw [List.map_cons] at ih
          have hnext : ∀ tail : List Char, (first :: others ++ tail).head? ≠ some closing := by
            intro tail heq
            exact hfirst (Option.some.inj heq)
          rw [readParts_more (readQuoted_quote opening closing name _ (hnext _))
            (strip_append (first :: others) _), ih (List.cons_ne_nil _ _)]
          rfl

/-! ## Paths -/

section Paths

variable {d : Dialect} {opening closing : Char} (hquotes : d.quotes = some (opening, closing))

include hquotes

theorem toList_quotePath (parts : List String) :
    (d.quotePath parts).toList = ['.'].intercalate (parts.map (quoted opening closing)) := by
  rw [quotePath, toList_intercalate_quote hquotes]
  rfl

/-- The parts of a path are read back from its text, whatever they hold. -/
theorem readParts_quotePath (hclosing : closing ≠ '.') {parts : List String} (hparts : parts ≠ []) :
    readParts opening closing ['.'] (d.quotePath parts).toList = some (parts, []) := by
  have hend : ([] : List Char).head? ≠ some closing := by simp
  have hread := readParts_intercalate opening hclosing.symm [] hparts hend rfl
  rwa [List.append_nil, ← toList_quotePath hquotes] at hread

/-- Only the empty path has an empty text. -/
theorem quotePath_eq_empty_iff {parts : List String} : d.quotePath parts = "" ↔ parts = [] := by
  cases parts with
  | nil => exact ⟨fun _ => rfl, fun _ => rfl⟩
  | cons name names =>
      have hne : name :: names ≠ [] := List.cons_ne_nil name names
      obtain ⟨tail, htail⟩ := intercalate_quoted opening closing ['.'] hne
      rw [← toList_quotePath hquotes] at htail
      constructor
      · intro h
        rw [h] at htail
        cases htail
      · intro h
        exact absurd h hne

/-- Where the point closes identifiers, two paths can have one text. -/
theorem exists_quotePath_eq (hclosing : closing = '.') :
    ∃ p q : List String, p ≠ q ∧ d.quotePath p = d.quotePath q := by
  by_cases hopening : opening = '.'
  · -- all is points then, and only their number counts
    refine ⟨[".", ""], ["", "."], by decide, ?_⟩
    rw [← String.toList_inj, toList_quotePath hquotes, toList_quotePath hquotes, hopening, hclosing]
    decide
  · refine ⟨["", ""], [String.ofList ['.', opening]], by simp, ?_⟩
    rw [← String.toList_inj, toList_quotePath hquotes, toList_quotePath hquotes, hclosing]
    simp [quoted, double, hopening]

/-- **Quoting loses nothing.** In a dialect that quotes, two paths with one text are one path,
whatever their parts hold and however many there are, exactly if the character that closes
identifiers is not the point between them. And an identifier is read off the front of a text, up to
its first single closing character, exactly if it stands there in quotes and no closing character
follows. -/
theorem quoting_loses_nothing :
    ((∀ p q : List String, d.quotePath p = d.quotePath q → p = q) ↔ closing ≠ '.') ∧
      ∀ (text : List Char) (identifier : String) (rest : List Char),
        readQuoted opening closing text = some (identifier, rest)
          ↔ text = (d.quote identifier).toList ++ rest ∧ rest.head? ≠ some closing := by
  refine ⟨⟨?_, ?_⟩, ?_⟩
  · intro hinjective hclosing
    obtain ⟨p, q, hne, heq⟩ := exists_quotePath_eq hquotes hclosing
    exact hne (hinjective p q heq)
  · intro hclosing p q heq
    by_cases hp : p = []
    · have hempty : d.quotePath q = "" := by
        rw [← heq, quotePath_eq_empty_iff hquotes, hp]
      rw [hp, (quotePath_eq_empty_iff hquotes).mp hempty]
    · have hq : q ≠ [] := by
        rwa [Ne, ← quotePath_eq_empty_iff hquotes, ← heq, quotePath_eq_empty_iff hquotes]
      -- one text has one reading
      have hread := readParts_quotePath hquotes hclosing hp
      rw [heq, readParts_quotePath hquotes hclosing hq] at hread
      cases hread
      rfl
  · intro text identifier rest
    rw [toList_quote hquotes]
    exact readQuoted_eq_some_iff

omit hquotes in
/-- The point may open identifiers, and stand in them, next to characters that close them. -/
theorem quoting_loses_nothing_points :
    (⟨some ('.', ']')⟩ : Dialect).quotePath ["]", ".]"] ≠ (⟨some ('.', ']')⟩ : Dialect).quotePath
        ["].]", ""] ∧
      readQuoted '.' ']' ".]]]..]]]".toList = some ("]", "..]]]".toList) := by
  have hquotes : (⟨some ('.', ']')⟩ : Dialect).quotes = some ('.', ']') := rfl
  obtain ⟨hpaths, hidentifiers⟩ := quoting_loses_nothing hquotes
  constructor
  · intro heq
    have := hpaths.mpr (by decide) _ _ heq
    revert this
    decide
  · exact (hidentifiers _ _ _).mpr ⟨by decide, by decide⟩

end Paths

end RowQuery.Dialect
