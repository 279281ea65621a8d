import Mathlib.Data.List.Forall2
import RowQuery.Proofs.Binding
import RowQuery.Proofs.Quoting
import RowQuery.Proofs.Rendering

set_option autoImplicit false

/-! # Reading conditions back

A rendered expression is a *sketch* of it: the operators and the columns, with placeholders in place
of the constants (`Drawn`). The sketch can be read off the front of a text (`Sketch.read_chars`).
The first character of an operand says of what kind it is: a parenthesis, the character that opens a
quoted identifier, or neither; and nothing inside the operand looks like its end. With the
parameters at hand the placeholders of a sketch are filled in again (`Sketch.resolve_drawn`).
-/

namespace RowQuery

/-- Two expressions are the same up to their constants, which `R` relates. -/
inductive Expr.SameUpTo (R : Value → Value → Prop) : Expr → Expr → Prop
  | constant {v w : Value} (h : R v w) : SameUpTo R (.constant v) (.constant w)
  | argument (i : Nat) : SameUpTo R (.argument i) (.argument i)
  | member {base base' : Expr} (h : SameUpTo R base base') (name : String) :
    SameUpTo R (.member base name) (.member base' name)
  | binary (op : BinaryOperator) {left left' right right' : Expr} (hleft : SameUpTo R left left')
    (hright : SameUpTo R right right') :
    SameUpTo R (.binary op left right) (.binary op left' right')
  | tuple {items items' : List Expr} (h : List.Forall₂ (SameUpTo R) items items') :
    SameUpTo R (.tuple items) (.tuple items')

/-- Following names from related expressions gives related ones. -/
theorem Expr.sameUpTo_members {R : Value → Value → Prop} {base base' : Expr}
    (h : SameUpTo R base base') (names : List String) :
    SameUpTo R (members base names) (members base' names) := by
  induction names generalizing base base' with
  | nil => exact h
  | cons name names ih => exact ih (.member h name)

/-- A rendered expression: placeholders stand in it for the constants. -/
inductive Sketch where
  | placeholder (name : String)
  /-- The column at the end of a path of names. -/
  | column (names : List String)
  | binary (op : BinaryOperator) (left right : Sketch)

namespace Sketch

/-! ## Sketches of expressions -/

/-- The sketch of an expression whose constants are bound with a binder, and the binder afterwards.
-/
inductive Drawn : Expr → Binder → Sketch → Binder → Prop
  | constant {v : Value} {b after : Binder} {name : String} (h : b.define v = (name, after)) :
    Drawn (.constant v) b (.placeholder name) after
  | column {names : List String} (h : names ≠ []) (b : Binder) :
    Drawn (.members (.argument 0) names) b (.column names) b
  | binary {op : BinaryOperator} (h : op ≠ .mod) {left right : Expr} {b between after : Binder}
    {l r : Sketch} (hleft : Drawn left b l between) (hright : Drawn right between r after) :
    Drawn (.binary op left right) b (.binary op l r) after

/-- Two expressions with one sketch are the same up to their constants. -/
theorem Drawn.sameUpTo {e e' : Expr} {b b' after after' : Binder} {s : Sketch}
    (h : Drawn e b s after) (h' : Drawn e' b' s after') :
    e.SameUpTo (fun _ _ => True) e' := by
  induction h generalizing e' b' after' with
  | constant hdefine =>
      cases h' with
      | constant hdefine' => exact .constant trivial
  | column hnames b =>
      cases h' with
      | column hnames' b' => exact Expr.sameUpTo_members (.argument 0) _
  | binary hop hleft hright ihLeft ihRight =>
      cases h' with
      | binary hop' hleft' hright' => exact .binary _ (ihLeft hleft') (ihRight hright')

/-- Drawing goes on from a binder as binding does. -/
theorem Drawn.binder {e : Expr} {b after : Binder} {s : Sketch} (h : Drawn e b s after) :
    after.style = b.style ∧ b.parameters <+: after.parameters ∧
      (b.Counted → after.Counted) := by
  induction h with
  | @constant v b after name hdefine =>
      have hafter : after = (b.define v).2 := by rw [hdefine]
      rw [hafter]
      exact ⟨b.define_style v, b.define_prefix v, fun hb => Binder.counted_define hb v⟩
  | column hnames b => exact ⟨rfl, List.prefix_refl _, id⟩
  | binary hop hleft hright ihLeft ihRight =>
      obtain ⟨hstyle, hprefix, hcounted⟩ := ihLeft
      obtain ⟨hstyle', hprefix', hcounted'⟩ := ihRight
      refine ⟨hstyle'.trans hstyle, hprefix.trans hprefix', ?_⟩
      intro hb
      exact hcounted' (hcounted hb)

/-- The characters of a rendered expression. -/
def chars (opening closing : Char) : Sketch → List Char
  | .placeholder name => name.toList
  | .column names => ['.'].intercalate (names.map (Dialect.quoted opening closing))
  | .binary op left right =>
    '(' :: (chars opening closing left ++ ((op.sql?.getD "").toList ++
      (chars opening closing right ++ [')'])))

/-- What is rendered is a sketch. -/
theorem drawn_of_render {d : Dialect} {opening closing : Char}
    (hd : d.quotes = some (opening, closing)) {e : Expr} {b after : Binder} {text : String}
    (h : e.render d b = (.ok text, after)) :
    ∃ s, Drawn e b s after ∧ text.toList = s.chars opening closing := by
  fun_induction Expr.render d e b generalizing text after with
  | case1 v b =>
      cases h
      exact ⟨.placeholder (b.define v).1, .constant rfl, rfl⟩
  | case2 base name b t htext =>
      cases h
      rw [Expr.columnText?] at htext
      split at htext
      · rename_i names hpath
        cases htext
        have hnames : names ≠ [] := by
          rw [Expr.memberPath?, Option.map_eq_some_iff] at hpath
          obtain ⟨⟨i, before⟩, -, hbefore⟩ := hpath
          cases hbefore
          exact List.append_ne_nil_of_right_ne_nil _ (List.cons_ne_nil _ _)
        rw [Expr.eq_members_of_memberPath? _ hpath]
        exact ⟨.column names, .column hnames b, Dialect.toList_intercalate_quote hd "." names⟩
      · cases htext
  | case3 base name b htext => cases h
  | case4 op left right b hsign => cases h
  | case5 op left right b sign hsign err after' hleft ih => cases h
  | case6 op left right b sign hsign l between hleft err after' hright ihLeft ihRight => cases h
  | case7 op left right b sign hsign l between hleft r after' hright ihLeft ihRight =>
      cases h
      obtain ⟨sl, hdrawnLeft, hl⟩ := ihLeft hleft
      obtain ⟨sr, hdrawnRight, hr⟩ := ihRight hright
      have hop : op ≠ .mod := by
        intro hmod
        rw [Expr.sql?_eq_none_iff.mpr hmod] at hsign
        cases hsign
      refine ⟨.binary op sl sr, .binary hop hdrawnLeft hdrawnRight, ?_⟩
      simp only [String.toList_append, hl, hr, chars, hsign, Option.getD_some, List.append_assoc]
      rfl
  | case8 i b => cases h
  | case9 items b => cases h

/-! ## Reading a sketch off a text -/

/-- The characters that quote identifiers stand neither around identifiers nor at the beginning of a
placeholder. -/
structure Apart (opening closing : Char) : Prop where
  opening_ne_paren : opening ≠ '('
  opening_ne_star : opening ≠ '*'
  opening_ne_mark : opening ≠ '?'
  opening_ne_dollar : opening ≠ '$'
  opening_notDigit : opening.isDigit = false
  closing_ne_point : closing ≠ '.'
  closing_ne_comma : closing ≠ ','
  closing_ne_blank : closing ≠ ' '
  closing_ne_paren : closing ≠ ')'

/-- Whether a placeholder can be told from everything else, when `opening` opens identifiers. -/
def Clean (opening : Char) (name : String) : Prop :=
  name.toList ≠ [] ∧ ∀ c ∈ name.toList, c ∉ [' ', '(', ')', opening]

/-- Whether the operands of a sketch can be told apart. -/
def Legible (opening : Char) : Sketch → Prop
  | .placeholder name => Clean opening name
  | .column names => names ≠ []
  | .binary op left right => op ≠ .mod ∧ Legible opening left ∧ Legible opening right

/-- How deep the operands of a sketch nest. -/
def depth : Sketch → Nat
  | .binary _ left right => max (depth left) (depth right) + 1
  | _ => 1

/-- Reads the sign of an operator off the front of a text. -/
def readSign (text : List Char) : Option (BinaryOperator × List Char) :=
  BinaryOperator.all.findSome? (fun op =>
    op.sql?.bind (fun sign =>
      (Dialect.strip sign.toList text).map (fun rest => (op, rest))))

/-- Reads an operand off the front of a text, if its operands nest at most so deep. -/
def read (opening closing : Char) : Nat → List Char → Option (Sketch × List Char)
  | 0, _ => none
  | _ + 1, [] => none
  | depth + 1, c :: text =>
    -- an operator with its operands, a column, or a placeholder up to a blank or a parenthesis
    if c = '(' then do
      let (left, text) ← read opening closing depth text
      let (op, text) ← readSign text
      let (right, text) ← read opening closing depth text
      let text ← Dialect.strip [')'] text
      return (.binary op left right, text)
    else if c = opening then
      (Dialect.readParts opening closing ['.'] (c :: text)).map
        (fun (names, rest) => (.column names, rest))
    else
      let inside := fun c => c != ' ' && c != ')'
      some (.placeholder (String.ofList ((c :: text).takeWhile inside)),
        (c :: text).dropWhile inside)

/-- No sign is the beginning of another one. -/
theorem readSign_sign {op : BinaryOperator} (h : op ≠ .mod) (rest : List Char) :
    readSign ((op.sql?.getD "").toList ++ rest) = some (op, rest) := by
  cases op with
  | mod => exact absurd rfl h
  | _ => rfl

/-- What stands behind an operand: nothing, the sign of an operator, or a parenthesis. -/
def Ends (rest : List Char) : Prop := ∀ c ∈ rest.head?, c = ' ' ∨ c = ')'

theorem ends_nil : Ends [] := by
  intro c hc
  cases hc

theorem ends_blank (rest : List Char) : Ends (' ' :: rest) := by
  intro c hc
  cases hc
  exact .inl rfl

theorem ends_sign {op : BinaryOperator} (h : op ≠ .mod) (rest : List Char) :
    Ends ((op.sql?.getD "").toList ++ rest) := by
  cases op with
  | mod => exact absurd rfl h
  | _ =>
      intro c hc
      cases hc
      exact .inl rfl

theorem Ends.head_ne {rest : List Char} (h : Ends rest) {c : Char} (hblank : c ≠ ' ')
    (hparen : c ≠ ')') : rest.head? ≠ some c := by
  intro hc
  rcases h c hc with heq | heq
  · exact hblank heq
  · exact hparen heq

/-- Identifiers with points or commas between them are read up to such an end. -/
theorem Ends.readParts {opening closing first : Char} (hapart : Apart opening closing)
    (hfirst : first = '.' ∨ first = ',') (others : List Char) {names : List String}
    (hnames : names ≠ []) {rest : List Char} (h : Ends rest) :
    Dialect.readParts opening closing (first :: others)
        ((first :: others).intercalate (names.map (Dialect.quoted opening closing)) ++ rest)
      = some (names, rest) := by
  have hne : first ≠ closing ∧ first ≠ ' ' ∧ first ≠ ')' := by
    rcases hfirst with rfl | rfl
    · exact ⟨hapart.closing_ne_point.symm, by decide, by decide⟩
    · exact ⟨hapart.closing_ne_comma.symm, by decide, by decide⟩
  -- what stands behind the last identifier is no separator
  have hstrip : Dialect.strip (first :: others) rest = none := by
    cases rest with
    | nil => rfl
    | cons c more =>
        rw [Dialect.strip, if_neg]
        intro heq
        exact h.head_ne hne.2.1 hne.2.2 (congrArg some heq.symm)
  exact Dialect.readParts_intercalate opening hne.1 others hnames
    (h.head_ne hapart.closing_ne_blank hapart.closing_ne_paren) hstrip

theorem read_placeholder {opening closing : Char} {name : String} (h : Clean opening name) (n : Nat)
    {rest : List Char} (hrest : Ends rest) :
    read opening closing (n + 1) (name.toList ++ rest) = some (.placeholder name, rest) := by
  obtain ⟨hne, hclean⟩ := h
  obtain ⟨c, cs, hname⟩ := List.exists_cons_of_ne_nil hne
  have hfirst : c ≠ '(' ∧ c ≠ opening := by
    have hc := hclean c (by rw [hname]; exact List.mem_cons_self)
    simp only [List.mem_cons, List.not_mem_nil, or_false, not_or] at hc
    exact ⟨hc.2.1, hc.2.2.2⟩
  have hinside : ∀ x ∈ c :: cs, (x != ' ' && x != ')') = true := by
    intro x hx
    have hx' := hclean x (by rwa [hname])
    simp only [List.mem_cons, List.not_mem_nil, or_false, not_or] at hx'
    simp [hx'.1, hx'.2.2.1]
  have hstop : rest.takeWhile (fun c => c != ' ' && c != ')') = [] ∧
      rest.dropWhile (fun c => c != ' ' && c != ')') = rest := by
    cases rest with
    | nil => exact ⟨rfl, rfl⟩
    | cons x more =>
        have hx : (x != ' ' && x != ')') = false := by
          rcases hrest x rfl with rfl | rfl <;> rfl
        constructor
        · rw [List.takeWhile_cons, hx]
          rfl
        · rw [List.dropWhile_cons, hx]
          rfl
  rw [hname, List.cons_append, read, if_neg hfirst.1, if_neg hfirst.2, ← List.cons_append]
  show some (Sketch.placeholder _, _) = _
  rw [List.takeWhile_append_of_pos hinside, List.dropWhile_append_of_pos hinside, hstop.1,
    hstop.2, List.append_nil, ← hname, String.ofList_toList]

theorem read_column {opening closing : Char} (hapart : Apart opening closing) {names : List String}
    (hnames : names ≠ []) (n : Nat) {rest : List Char} (hrest : Ends rest) :
    read opening closing (n + 1)
        (['.'].intercalate (names.map (Dialect.quoted opening closing)) ++ rest)
      = some (.column names, rest) := by
  have hparts := hrest.readParts hapart (.inl rfl) [] hnames
  -- the path begins with the character that opens its first name
  obtain ⟨tail, htail⟩ := Dialect.intercalate_quoted opening closing ['.'] hnames
  rw [htail] at hparts ⊢
  rw [List.cons_append] at hparts ⊢
  rw [read, if_neg hapart.opening_ne_paren, if_pos rfl, hparts]
  rfl

/-- Where every placeholder can be told from the rest, every sketch that is drawn can be read. -/
theorem Drawn.legible {opening : Char} {e : Expr} {b after : Binder} {s : Sketch}
    (h : Drawn e b s after) (hclean : ∀ i, Clean opening (Binder.nameAt b.style i))
    (hb : b.Counted) : s.Legible opening := by
  induction h with
  | @constant v b after name hdefine =>
      obtain ⟨i, hi⟩ := Binder.define_name hb v
      rw [hdefine] at hi
      show Clean opening name
      rw [show name = Binder.nameAt b.style i from hi]
      exact hclean i
  | column hnames b => exact hnames
  | binary hop hleft hright ihLeft ihRight =>
      obtain ⟨hstyle, -, hcounted⟩ := hleft.binder
      refine ⟨hop, ihLeft hclean hb, ihRight ?_ (hcounted hb)⟩
      rw [hstyle]
      exact hclean

/-- A sketch is read back, whatever stands behind it. -/
theorem read_chars {opening closing : Char} (hapart : Apart opening closing) (s : Sketch)
    (hs : s.Legible opening) (n : Nat) (hn : s.depth ≤ n) (rest : List Char) (hrest : Ends rest) :
    read opening closing n (s.chars opening closing ++ rest) = some (s, rest) := by
  induction s generalizing n rest with
  | placeholder name =>
      obtain ⟨m, rfl⟩ := Nat.exists_eq_succ_of_ne_zero (Nat.ne_of_gt hn)
      exact read_placeholder hs m hrest
  | column names =>
      obtain ⟨m, rfl⟩ := Nat.exists_eq_succ_of_ne_zero (Nat.ne_of_gt hn)
      exact read_column hapart hs m hrest
  | binary op left right ihLeft ihRight =>
      obtain ⟨hop, hleft, hright⟩ := hs
      obtain ⟨m, rfl⟩ : ∃ m, n = m + 1 := ⟨n - 1, by rw [depth] at hn; omega⟩
      have hdepth : max left.depth right.depth ≤ m := Nat.le_of_succ_le_succ hn
      have hparen : Ends (')' :: rest) := by
        intro c hc
        cases hc
        exact .inr rfl
      simp only [chars, List.cons_append, List.append_assoc, List.nil_append, read, if_pos]
      -- behind the left operand stands a sign, behind the right one a parenthesis
      rw [ihLeft hleft m (Nat.le_trans (Nat.le_max_left _ _) hdepth) _ (ends_sign hop _)]
      simp only [Option.bind_eq_bind, Option.bind_some]
      rw [readSign_sign hop]
      simp only [Option.bind_some]
      rw [ihRight hright m (Nat.le_trans (Nat.le_max_right _ _) hdepth) _ hparen]
      rfl

/-- The characters of a sketch are more than its operands nest deep. -/
theorem depth_le_length {opening closing : Char} (s : Sketch) (hs : s.Legible opening) :
    s.depth ≤ (s.chars opening closing).length := by
  induction s with
  | placeholder name => exact List.length_pos_iff.mpr hs.1
  | column names =>
      obtain ⟨tail, htail⟩ := Dialect.intercalate_quoted opening closing ['.'] hs
      rw [depth, chars, htail]
      · exact Nat.succ_le_succ (Nat.zero_le _)
      · intro op left right h
        cases h
  | binary op left right ihLeft ihRight =>
      have hleft := ihLeft hs.2.1
      have hright := ihRight hs.2.2
      simp only [depth, chars, List.length_cons, List.length_append]
      omega

/-! ## Filling placeholders in -/

/-- The value of a placeholder, and the parameters that are left for those behind it. -/
def fetch (style : ParameterStyle) (name : String) (parameters : List BoundParameter) :
    Option (Value × List BoundParameter) :=
  if style = .positional then parameters.head?.map (fun p => (p.value, parameters.tail))
  else (Binder.valueOf? parameters name).map (fun v => (v, parameters))

/-- Fills the placeholders in, from left to right: the expression, and the parameters that are left.
-/
def resolve (style : ParameterStyle) :
    Sketch → List BoundParameter → Option (Expr × List BoundParameter)
  | .placeholder name, parameters =>
    (fetch style name parameters).map (fun (v, rest) => (.constant v, rest))
  | .column names, parameters => some (.members (.argument 0) names, parameters)
  | .binary op l r, parameters => do
    let (left, parameters) ← resolve style l parameters
    let (right, parameters) ← resolve style r parameters
    return (.binary op left right, parameters)

/-- Bound by position, the parameters that a sketch adds are the constants of its expression. -/
theorem resolve_positional {e : Expr} {b after : Binder} {s : Sketch} (h : Drawn e b s after)
    (hstyle : b.style = .positional) :
    ∃ added, after.parameters = b.parameters ++ added ∧
      ∀ rest, resolve .positional s (added ++ rest) = some (e, rest) := by
  induction h with
  | @constant v b after name hdefine =>
      rw [Binder.define_positional hstyle v] at hdefine
      cases hdefine
      exact ⟨[⟨"?", v⟩], rfl, fun _ => rfl⟩
  | column hnames b => exact ⟨[], (List.append_nil _).symm, fun _ => rfl⟩
  | @binary op hop left right b between after l r hleft hright ihLeft ihRight =>
      -- the left operand takes its parameters off the front and leaves those of the right one
      obtain ⟨addedLeft, hbetween, hl⟩ := ihLeft hstyle
      obtain ⟨addedRight, hafter, hr⟩ := ihRight (hleft.binder.1.trans hstyle)
      refine ⟨addedLeft ++ addedRight, ?_, ?_⟩
      · rw [hafter, hbetween, List.append_assoc]
      · intro rest
        rw [List.append_assoc, resolve, hl]
        show (do
          let (right, parameters) ← resolve .positional r (addedRight ++ rest)
          return (Expr.binary op left right, parameters)) = _
        rw [hr]
        rfl

/-- Looked up by name, every placeholder is found among the parameters of the whole command. -/
theorem resolve_shared {e : Expr} {b after : Binder} {s : Sketch} (h : Drawn e b s after)
    (hstyle : b.style ≠ .positional) (hb : b.Counted) (parameters : List BoundParameter)
    (hparameters : after.parameters <+: parameters) :
    ∃ e', resolve b.style s parameters = some (e', parameters) ∧
      e.SameUpTo (fun v w => w.StandsFor v) e' := by
  induction h with
  | @constant v b after name hdefine =>
      obtain ⟨w, hw, hstands⟩ := Binder.define_value hb hstyle v
      rw [hdefine] at hw
      refine ⟨.constant w, ?_, .constant hstands⟩
      rw [resolve, fetch, if_neg hstyle, Binder.valueOf?_of_prefix hparameters hw]
      rfl
  | column hnames b => exact ⟨_, rfl, Expr.sameUpTo_members (.argument 0) _⟩
  | @binary op hop left right b between after l r hleft hright ihLeft ihRight =>
      -- what the left operand has bound is still there when the right one has been drawn
      obtain ⟨hsame, -, hbetween⟩ := hleft.binder
      obtain ⟨left', hl, hleftSame⟩ :=
        ihLeft hstyle hb (hright.binder.2.1.trans hparameters)
      rw [hsame] at ihRight
      obtain ⟨right', hr, hrightSame⟩ := ihRight hstyle (hbetween hb) hparameters
      refine ⟨.binary op left' right', ?_, .binary op hleftSame hrightSame⟩
      rw [resolve, hl]
      show (do
        let (right, parameters) ← resolve b.style r parameters
        return (Expr.binary op left' right, parameters)) = _
      rw [hr]
      rfl

/-- What comes back of an expression: itself, or, where placeholders are shared, one with constants
that stand for its own. -/
def Recovers (style : ParameterStyle) (e e' : Expr) : Prop :=
  if style = .positional then e' = e else e.SameUpTo (fun v w => w.StandsFor v) e'

/-- The sketch and the parameters of a rendered expression give the expression again. -/
theorem resolve_drawn {style : ParameterStyle} {e : Expr} {after : Binder} {s : Sketch}
    (h : Drawn e (.new style) s after) :
    ∃ e' rest, resolve style s after.parameters = some (e', rest) ∧ Recovers style e e' := by
  -- by position every parameter is used once, by name each may be used again
  by_cases hstyle : style = .positional
  · subst hstyle
    obtain ⟨added, hafter, hresolve⟩ := resolve_positional h rfl
    have hadded : after.parameters = added ++ [] := by
      rw [hafter, List.append_nil]
      rfl
    rw [hadded]
    refine ⟨e, [], hresolve [], ?_⟩
    rw [Recovers, if_pos rfl]
  · obtain ⟨e', hresolve, hsame⟩ :=
      resolve_shared h hstyle (Binder.counted_new style) _ (List.prefix_refl _)
    refine ⟨e', _, hresolve, ?_⟩
    rw [Recovers, if_neg hstyle]
    exact hsame

end Sketch

end RowQuery
