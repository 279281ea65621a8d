import RowQuery.Json.Basic

set_option autoImplicit false

/-! # The leaves of JSON texts

What is written of a string or a number is read back as the same, whatever follows it: the body of a
string goes up to its closing quote (`Text.scan?_escape`) and stands for the characters that it was
made of (`Text.unescape?_escape`), and the digits of a number go up to a character that separates or
closes (`Number.scan?_text`).

The parts of a number may be missing, or have zeros in front, and then its text is not that of a
number. It is *legible* when it has the parts that the grammar demands.
-/

namespace RowQuery.Json

/-! ## Strings -/

namespace Text

/-- A character is escaped with a letter or by its number, or it stands for itself. -/
theorem escapeChar_cases (c : Char) :
    (∃ l, escapeChar c = ['\\', l] ∧ letter? l = some c ∧ l ≠ 'u') ∨
    (c.toNat < 32 ∧ escapeChar c
      = ['\\', 'u', '0', '0', hexDigit (c.toNat / 16), hexDigit (c.toNat % 16)]) ∨
    c ≠ '"' ∧ c ≠ '\\' ∧ ¬c.toNat < 32 ∧ escapeChar c = [c] := by
  unfold escapeChar
  split
  · exact .inl ⟨'"', by simp_all [letter?]⟩
  split
  · exact .inl ⟨'\\', by simp_all [letter?]⟩
  split
  · exact .inl ⟨'b', by simp_all [letter?]⟩
  split
  · exact .inl ⟨'t', by simp_all [letter?]⟩
  split
  · exact .inl ⟨'n', by simp_all [letter?]⟩
  split
  · exact .inl ⟨'f', by simp_all [letter?]⟩
  split
  · exact .inl ⟨'r', by simp_all [letter?]⟩
  split
  · rename_i hcontrol
    exact .inr (.inl ⟨hcontrol, rfl⟩)
  · rename_i hquote hbackslash _ _ _ _ _ hcontrol
    exact .inr (.inr ⟨hquote, hbackslash, hcontrol, rfl⟩)

/-- A number below thirty-two is written with two zeros and two digits. -/
theorem unit?_hexDigit {n : Nat} (h : n < 32) :
    unit? '0' '0' (hexDigit (n / 16)) (hexDigit (n % 16)) = some n := by
  revert n
  decide

/-! ### Reading -/

theorem unescape?_plain {c : Char} (h : c ≠ '\\') (rest : List Char) :
    unescape? (c :: rest) = (unescape? rest).map (c :: ·) := by
  rw [unescape?]
  · cases unescape? rest <;> rfl
  all_goals
    intros
    contradiction

theorem unescape?_letter {l c : Char} (h : letter? l = some c) (hl : l ≠ 'u') (rest : List Char) :
    unescape? ('\\' :: l :: rest) = (unescape? rest).map (c :: ·) := by
  rw [unescape?]
  · rw [h]
    cases unescape? rest <;> rfl
  all_goals
    intros
    contradiction

theorem unescape?_unit {a b c d : Char} {n : Nat} (h : unit? a b c d = some n) (hn : n < 32)
    (rest : List Char) :
    unescape? ('\\' :: 'u' :: a :: b :: c :: d :: rest)
      = (unescape? rest).map (Char.ofNat n :: ·) := by
  have hhigh : isHigh n = false := by
    simp only [isHigh, Bool.and_eq_false_iff, decide_eq_false_iff_not]
    omega
  have hlow : isLow n = false := by
    simp only [isLow, Bool.and_eq_false_iff, decide_eq_false_iff_not]
    omega
  -- another unit may follow, but it does not belong to this one
  by_cases hnext : ∃ e f g k more, rest = '\\' :: 'u' :: e :: f :: g :: k :: more
  · obtain ⟨e, f, g, k, more, rfl⟩ := hnext
    rw [unescape?, h]
    simp only [Option.bind_eq_bind, Option.bind_some, hhigh, hlow]
    cases unescape? ('\\' :: 'u' :: e :: f :: g :: k :: more) <;> rfl
  · rw [unescape?, h]
    · simp only [Option.bind_eq_bind, Option.bind_some, hhigh, hlow]
      cases unescape? rest <;> rfl
    · intro e f g k more hrest
      exact hnext ⟨e, f, g, k, more, hrest⟩

theorem unescape?_escapeChar (c : Char) (rest : List Char) :
    unescape? (escapeChar c ++ rest) = (unescape? rest).map (c :: ·) := by
  rcases escapeChar_cases c with ⟨l, hc, hletter, hl⟩ | ⟨hcontrol, hc⟩ | ⟨-, hbackslash, -, hc⟩
  · rw [hc]
    exact unescape?_letter hletter hl rest
  · rw [hc]
    refine (unescape?_unit (unit?_hexDigit hcontrol) hcontrol rest).trans ?_
    rw [Char.ofNat_toNat]
  · rw [hc]
    exact unescape?_plain hbackslash rest

/-- **Every row of characters is read back from its body.** -/
theorem unescape?_escape (s : List Char) : unescape? (escape s) = some s := by
  induction s with
  | nil => rfl
  | cons c rest ih =>
      rw [escape, List.flatMap_cons, unescape?_escapeChar, ← escape, ih]
      rfl

/-! ### Scanning -/

theorem scan?_plain {c : Char} (hquote : c ≠ '"') (hbackslash : c ≠ '\\')
    (hcontrol : ¬c.toNat < 32) (rest : List Char) :
    scan? (c :: rest) = (scan? rest).map (fun (body, after) => (c :: body, after)) := by
  have hplain : ¬(c.toNat < 32 ∨ c = '\\') := by
    rintro (h | h)
    · exact hcontrol h
    · exact hbackslash h
  rw [scan?, if_neg hplain]
  · cases scan? rest <;> rfl
  all_goals
    intros
    contradiction

theorem scan?_letter {l c : Char} (h : letter? l = some c) (hl : l ≠ 'u') (rest : List Char) :
    scan? ('\\' :: l :: rest)
      = (scan? rest).map (fun (body, after) => ('\\' :: l :: body, after)) := by
  rw [scan?]
  · rw [h]
    cases scan? rest <;> rfl
  all_goals
    intros
    contradiction

theorem scan?_unit {a b c d : Char} {n : Nat} (h : unit? a b c d = some n) (rest : List Char) :
    scan? ('\\' :: 'u' :: a :: b :: c :: d :: rest)
      = (scan? rest).map
          (fun (body, after) => ('\\' :: 'u' :: a :: b :: c :: d :: body, after)) := by
  rw [scan?, h]
  cases scan? rest <;> rfl

theorem scan?_escapeChar (c : Char) (rest : List Char) :
    scan? (escapeChar c ++ rest)
      = (scan? rest).map (fun (body, after) => (escapeChar c ++ body, after)) := by
  rcases escapeChar_cases c with
    ⟨l, hc, hletter, hl⟩ | ⟨hcontrol, hc⟩ | ⟨hquote, hbackslash, hcontrol, hc⟩
  · rw [hc]
    exact scan?_letter hletter hl rest
  · rw [hc]
    exact scan?_unit (unit?_hexDigit hcontrol) rest
  · rw [hc]
    exact scan?_plain hquote hbackslash hcontrol rest

/-- **A body goes up to its closing quote**, since the quotes in it are escaped. -/
theorem scan?_escape (s rest : List Char) :
    scan? (escape s ++ '"' :: rest) = some (escape s, rest) := by
  induction s with
  | nil => rw [escape, List.flatMap_nil, List.nil_append, scan?]
  | cons c s ih =>
      rw [escape, List.flatMap_cons, List.append_assoc, scan?_escapeChar, ← escape, ih]
      rfl

end Text

/-! ## Numbers -/

namespace Number

/-- The parts of the number are made of digits. -/
structure Digital (n : Number) : Prop where
  whole : ∀ c ∈ n.whole, c.isDigit = true
  fraction : ∀ ds ∈ n.fraction, ∀ c ∈ ds, c.isDigit = true
  exponent : ∀ e ∈ n.exponent, ∀ c ∈ e.2, c.isDigit = true

/-- Whether digits can stand before a point. -/
def isWholePart : List Char → Bool
  | [] => false
  | '0' :: _ :: _ => false
  | _ => true

/-- Whether every part of the number that is there has digits, and no zero stands in front of
others. -/
def isLegible (n : Number) : Bool :=
  isWholePart n.whole && n.fraction.all (fun ds => !ds.isEmpty)
    && n.exponent.all (fun e => !e.2.isEmpty)

/-! ### What follows -/

/-- The first of the characters, if there is one, is not of a kind. -/
def Avoids (p : Char → Bool) (s : List Char) : Prop := ∀ c ∈ s.head?, p c = false

/-- What can follow a number in a text: nothing, or a character that separates or closes. -/
def Ends (rest : List Char) : Prop := ∀ c ∈ rest.head?, c = ',' ∨ c = ']' ∨ c = '\x7d'

theorem ends_nil : Ends [] := nofun

theorem ends_comma (s : List Char) : Ends (',' :: s) := by
  rintro c ⟨⟩
  exact .inl rfl

theorem ends_bracket (s : List Char) : Ends (']' :: s) := by
  rintro c ⟨⟩
  exact .inr (.inl rfl)

theorem ends_brace (s : List Char) : Ends ('\x7d' :: s) := by
  rintro c ⟨⟩
  exact .inr (.inr rfl)

/-- The characters of a fraction. -/
def fractionText : Option (List Char) → List Char
  | some ds => '.' :: ds
  | none => []

/-- The characters of an exponent. -/
def exponentText : Option (Bool × List Char) → List Char
  | some (negative, ds) => 'e' :: (if negative then '-' else '+') :: ds
  | none => []

theorem text_eq (n : Number) : n.text =
    (if n.negative then ['-'] else []) ++ n.whole ++ fractionText n.fraction
      ++ exponentText n.exponent := rfl

section Parts

variable {p : Char → Bool} {rest : List Char}

theorem Ends.avoids (h : Ends rest) (hcomma : p ',' = false) (hbracket : p ']' = false)
    (hbrace : p '\x7d' = false) : Avoids p rest := by
  intro c hc
  rcases h c hc with rfl | rfl | rfl
  · exact hcomma
  · exact hbracket
  · exact hbrace

theorem Avoids.exponentText (h : Avoids p rest) (he : p 'e' = false)
    (exponent : Option (Bool × List Char)) : Avoids p (exponentText exponent ++ rest) := by
  cases exponent with
  | none => exact h
  | some e =>
      rintro c ⟨⟩
      exact he

theorem Avoids.fractionText (h : Avoids p rest) (hpoint : p '.' = false)
    (fraction : Option (List Char)) : Avoids p (fractionText fraction ++ rest) := by
  cases fraction with
  | none => exact h
  | some ds =>
      rintro c ⟨⟩
      exact hpoint

/-- The digits in front of anything else are split off. -/
theorem digits1?_append {ds : List Char} (hds : ∀ c ∈ ds, c.isDigit = true)
    (hrest : Avoids Char.isDigit rest) :
    digits1? (ds ++ rest) = if ds.isEmpty then none else some (ds, rest) := by
  have hsplit : digits (ds ++ rest) = (ds, rest) := by
    have hnone : rest.takeWhile Char.isDigit = [] ∧ rest.dropWhile Char.isDigit = rest := by
      cases rest with
      | nil => exact ⟨rfl, rfl⟩
      | cons c rest =>
          have hc : ¬c.isDigit = true := Bool.not_eq_true _ ▸ hrest c rfl
          exact ⟨List.takeWhile_cons_of_neg hc, List.dropWhile_cons_of_neg hc⟩
    rw [digits, List.takeWhile_append_of_pos hds, List.dropWhile_append_of_pos hds, hnone.1,
      hnone.2, List.append_nil]
  rw [digits1?, hsplit]
  cases ds <;> rfl

theorem scanWhole?_append {ds : List Char} (hds : ∀ c ∈ ds, c.isDigit = true)
    (hrest : Avoids Char.isDigit rest) :
    scanWhole? (ds ++ rest) = if isWholePart ds then some (ds, rest) else none := by
  rw [scanWhole?, digits1?_append hds hrest]
  rcases ds with _ | ⟨c, _ | ⟨d, ds⟩⟩
  · rfl
  · by_cases hc : c = '0'
    · subst hc
      rfl
    · simp [isWholePart]
  · by_cases hc : c = '0'
    · subst hc
      rfl
    · simp [isWholePart, hc]

theorem scanFraction?_append {fraction : Option (List Char)}
    (hds : ∀ ds ∈ fraction, ∀ c ∈ ds, c.isDigit = true) (hrest : Avoids Char.isDigit rest)
    (hpoint : Avoids (· = '.') rest) :
    scanFraction? (Number.fractionText fraction ++ rest)
      = if fraction.all (fun ds => !ds.isEmpty) then some (fraction, rest) else none := by
  cases fraction with
  | none =>
      rw [Number.fractionText, List.nil_append, scanFraction?]
      · rfl
      · rintro after rfl
        cases hpoint '.' rfl
  | some ds =>
      rw [Number.fractionText, List.cons_append, scanFraction?, digits1?_append (hds ds rfl) hrest]
      cases ds <;> rfl

theorem scanExponent?_append {exponent : Option (Bool × List Char)}
    (hds : ∀ e ∈ exponent, ∀ c ∈ e.2, c.isDigit = true) (hrest : Avoids Char.isDigit rest)
    (hletter : Avoids (fun c => c = 'e' || c = 'E') rest) :
    scanExponent? (Number.exponentText exponent ++ rest)
      = if exponent.all (fun e => !e.2.isEmpty) then some (exponent, rest) else none := by
  cases exponent with
  | none =>
      rw [Number.exponentText, List.nil_append]
      cases rest with
      | nil => rfl
      | cons c rest =>
          have hc : ¬(c = 'e' ∨ c = 'E') := by simpa using hletter c rfl
          rw [scanExponent?, if_neg hc]
          rfl
  | some e =>
      obtain ⟨negative, ds⟩ := e
      have hsign : ∀ more,
          scanSign ((if negative then '-' else '+') :: more) = (negative, more) := by
        intro more
        cases negative <;> rfl
      rw [Number.exponentText, List.cons_append, List.cons_append, scanExponent?,
        if_pos (.inl rfl), hsign]
      dsimp only
      rw [digits1?_append (hds _ rfl) hrest]
      cases ds <;> rfl

end Parts

/-- Splits off the parts of a number after its sign. -/
def scanParts? (negative : Bool) (s : List Char) : Option (Number × List Char) := do
  let (whole, s) ← scanWhole? s
  let (fraction, s) ← scanFraction? s
  let (exponent, s) ← scanExponent? s
  return (⟨negative, whole, fraction, exponent⟩, s)

theorem scan?_of_avoids {s : List Char} (h : Avoids (· = '-') s) :
    scan? s = scanParts? false s := by
  cases s with
  | nil => rfl
  | cons c rest =>
      have hc : c ≠ '-' := of_decide_eq_false (h c rfl)
      unfold scan?
      split
      rename_i negative s hsign
      split at hsign
      · rename_i heq
        exact absurd (List.cons.inj heq).1 hc
      · cases hsign
        rfl

/-- **A number is read back if it is legible, and not at all otherwise.** -/
theorem scan?_text {n : Number} (h : n.Digital) {rest : List Char} (hrest : Ends rest) :
    scan? (n.text ++ rest) = if n.isLegible then some (n, rest) else none := by
  obtain ⟨negative, whole, fraction, exponent⟩ := n
  obtain ⟨hwhole, hfraction, hexponent⟩ := h
  let parts := whole ++ (fractionText fraction ++ (exponentText exponent ++ rest))
  have hparts : scanParts? negative parts
      = if isLegible ⟨negative, whole, fraction, exponent⟩
        then some (⟨negative, whole, fraction, exponent⟩, rest) else none := by
    have hdigit : Avoids Char.isDigit (exponentText exponent ++ rest) :=
      (hrest.avoids rfl rfl rfl).exponentText rfl exponent
    have hpoint : Avoids (· = '.') (exponentText exponent ++ rest) :=
      (hrest.avoids rfl rfl rfl).exponentText rfl exponent
    rw [scanParts?, scanWhole?_append hwhole (hdigit.fractionText rfl fraction), isLegible]
    dsimp only
    cases isWholePart whole with
    | false => rfl
    | true =>
        rw [if_pos rfl, Option.bind_eq_bind, Option.bind_some,
          scanFraction?_append hfraction hdigit hpoint]
        cases fraction.all (fun ds => !ds.isEmpty) with
        | false => rfl
        | true =>
            rw [if_pos rfl, Option.bind_eq_bind, Option.bind_some,
              scanExponent?_append hexponent (hrest.avoids rfl rfl rfl) (hrest.avoids rfl rfl rfl)]
            cases exponent.all (fun e => !e.2.isEmpty) <;> rfl
  cases negative with
  | true =>
      rw [← hparts, text_eq, List.append_assoc, List.append_assoc, List.append_assoc]
      rfl
  | false =>
      have hminus : Avoids (· = '-') parts := by
        cases whole with
        | nil =>
            have hexponent : Avoids (· = '-') (exponentText exponent ++ rest) :=
              (hrest.avoids rfl rfl rfl).exponentText rfl exponent
            exact hexponent.fractionText rfl fraction
        | cons c ds =>
            rintro d ⟨⟩
            apply decide_eq_false
            rintro rfl
            cases hwhole '-' (.head _)
      rw [← hparts, ← scan?_of_avoids hminus, text_eq, List.append_assoc, List.append_assoc,
        List.append_assoc]
      rfl

/-! ### Integers -/

theorem isDigit_of_mem_digitsOf {n : Nat} {c : Char} (h : c ∈ Decimal.digitsOf n) :
    c.isDigit = true :=
  Nat.isDigit_of_mem_toDigits (by decide) (by decide) h

/-- The digits of a positive number do not start with a zero. -/
theorem digitsOf_of_pos {n : Nat} (h : 0 < n) :
    ∃ c ds, Decimal.digitsOf n = c :: ds ∧ c ≠ '0' := by
  induction n using Nat.strongRecOn with
  | ind n ih =>
      by_cases hsmall : n < 10
      · refine ⟨n.digitChar, [], Nat.toDigits_of_lt_base hsmall, ?_⟩
        have hchar : ∀ m < 10, 0 < m → Nat.digitChar m ≠ '0' := by decide
        exact hchar n hsmall h
      · obtain ⟨c, ds, hdigits, hc⟩ := ih (n / 10) (by omega) (by omega)
        refine ⟨c, ds ++ [(n % 10).digitChar], ?_, hc⟩
        rw [Decimal.digitsOf, Nat.toDigits_of_base_le (by decide) (by omega), ← Decimal.digitsOf,
          hdigits, List.cons_append]

theorem isWholePart_digitsOf (n : Nat) : isWholePart (Decimal.digitsOf n) = true := by
  by_cases h : 0 < n
  · obtain ⟨c, ds, hdigits, hc⟩ := digitsOf_of_pos h
    rw [hdigits]
    cases ds with
    | nil => simp [isWholePart]
    | cons d ds => simp [isWholePart, hc]
  · obtain rfl : n = 0 := by omega
    rfl

/-- A number without fraction and exponent has all its parts. -/
theorem legible_digitsOf (negative : Bool) (n : Nat) :
    Digital ⟨negative, Decimal.digitsOf n, none, none⟩ ∧
      isLegible ⟨negative, Decimal.digitsOf n, none, none⟩ = true := by
  refine ⟨⟨fun c hc => isDigit_of_mem_digitsOf hc, nofun, nofun⟩, ?_⟩
  rw [isLegible, isWholePart_digitsOf]
  rfl

theorem toWord?_ofNat {n : Nat} (h : n < Nat.pow 2 64) : (ofNat n).toWord? = some n := by
  have hvalue : Decimal.ofDigits (ofNat n).whole = n := Decimal.ofDigits_digitsOf n
  rw [toWord?, hvalue]
  exact if_pos ⟨rfl, Bool.false_ne_true, h⟩

/-- **Every signed 64-bit integer is read back**, those at both ends of the range too. -/
theorem toInt64?_ofInt (n : Int64) : (ofInt n.toInt).toInt64? = some n := by
  have hvalue : Decimal.ofDigits (ofInt n.toInt).whole = n.toInt.natAbs :=
    Decimal.ofDigits_digitsOf _
  have hlower := n.le_toInt
  have hupper := n.toInt_lt
  have hpower : Nat.pow 2 63 = 2 ^ 63 := rfl
  have hwhole : (ofInt n.toInt).isWhole = true := rfl
  rw [toInt64?, hvalue, hpower, if_pos hwhole]
  by_cases hsign : n.toInt < 0
  · -- the least integer has one more than the greatest, and is still in range
    have hrange : 0 < n.toInt.natAbs ∧ n.toInt.natAbs ≤ 2 ^ 63 := by omega
    have hback : -(n.toInt.natAbs : Int) = n.toInt := by omega
    have hnegative : (ofInt n.toInt).negative = true := decide_eq_true hsign
    rw [if_pos hnegative, if_pos hrange, hback, Int64.ofInt_toInt]
  · have hrange : n.toInt.natAbs < 2 ^ 63 := by omega
    have hback : (n.toInt.natAbs : Int) = n.toInt := by omega
    have hnegative : ¬(ofInt n.toInt).negative = true := by simpa [ofInt] using hsign
    rw [if_neg hnegative, if_pos hrange, hback, Int64.ofInt_toInt]

/-! ### Doubles -/

theorem isDigit_of_mem_replicate {k : Nat} {c : Char} (h : c ∈ List.replicate k '0') :
    c.isDigit = true := by
  rw [List.eq_of_mem_replicate h]
  rfl

/-- A decimal is written with digits on both sides of the point. -/
theorem isDigit_of_mem_split (d : Decimal) :
    (∀ c ∈ (Double.split d).1, c.isDigit = true) ∧ ∀ c ∈ (Double.split d).2, c.isDigit = true := by
  have hdigits : ∀ c ∈ Decimal.digitsOf d.digits, c.isDigit = true :=
    fun c hc => isDigit_of_mem_digitsOf hc
  unfold Double.split
  dsimp only
  split
  · refine ⟨?_, nofun⟩
    intro c hc
    rcases List.mem_append.mp hc with hc | hc
    · exact hdigits c hc
    · exact isDigit_of_mem_replicate hc
  split
  · exact ⟨fun c hc => hdigits c (List.mem_of_mem_take hc),
      fun c hc => hdigits c (List.mem_of_mem_drop hc)⟩
  · refine ⟨?_, ?_⟩
    · intro c hc
      rw [List.mem_singleton.mp hc]
      rfl
    · intro c hc
      rcases List.mem_append.mp hc with hc | hc
      · exact isDigit_of_mem_replicate hc
      · exact hdigits c hc

theorem digital_ofDecimal (negative : Bool) (d : Decimal) : (ofDecimal negative d).Digital := by
  obtain ⟨hbefore, hbehind⟩ := isDigit_of_mem_split d
  have hdigits : ∀ c ∈ Decimal.digitsOf d.digits, c.isDigit = true :=
    fun c hc => isDigit_of_mem_digitsOf hc
  -- a part is made of digits where it is there
  have hfraction : ∀ {part : List Char}, (∀ c ∈ part, c.isDigit = true) →
      ∀ ds ∈ some part, ∀ c ∈ ds, c.isDigit = true := by
    rintro part hpart ds ⟨⟩
    exact hpart
  have hexponent : ∀ (minus : Bool) (n : Nat), ∀ e ∈ some (minus, Decimal.digitsOf n),
      ∀ c ∈ e.2, c.isDigit = true := by
    rintro minus n e ⟨⟩ c hc
    exact isDigit_of_mem_digitsOf hc
  unfold ofDecimal
  dsimp only
  split
  · split
    · rename_i whole hsplit
      rw [hsplit] at hbefore
      exact ⟨hbefore, hfraction (fun _ => isDigit_of_mem_replicate (k := 1)), nofun⟩
    · rename_i whole fraction _ hsplit
      rw [hsplit] at hbefore hbehind
      exact ⟨hbefore, hfraction hbehind, nofun⟩
  · split
    · exact ⟨nofun, nofun, hexponent _ _⟩
    · rename_i c hone
      rw [hone] at hdigits
      exact ⟨hdigits, nofun, hexponent _ _⟩
    · rename_i c rest _ hmore
      rw [hmore] at hdigits
      exact ⟨fun c' hc' => hdigits c' (List.mem_singleton.mp hc' ▸ .head rest),
        hfraction (fun c' hc' => hdigits c' (.tail c hc')), hexponent _ _⟩

theorem digital_ofDouble? {x : Float} {n : Number} (h : ofDouble? x = some n) : n.Digital := by
  have hzero : ∀ c ∈ ['0'], c.isDigit = true := fun _ => isDigit_of_mem_replicate (k := 1)
  unfold ofDouble? at h
  split at h
  · cases h
  · cases h
  · cases h
    refine ⟨hzero, ?_, nofun⟩
    rintro ds ⟨⟩
    exact hzero
  · cases h
    exact digital_ofDecimal _ _

end Number

end RowQuery.Json
