import Mathlib.Data.List.Forall2
import RowQuery.Proofs.Pipeline
import RowQuery.Sql.Node

set_option autoImplicit false

/-! # Merged filters

The filters of a table query are merged into one predicate, their conjunction, which the database is
given. Locally they are tested one after the other, and an element on which one is not true is not
tested any further (`acceptedBy`). These are not the same: a conjunction evaluates all of its
operands, so it may fail on an element that successive filters drop before they come to the
predicate that fails. The difference goes one way only. Where the conjunction has a value, all
operands are Booleans or nulls (`eval_foldl_and_iff`), and the successive filters find the same.
-/

namespace RowQuery

open BinaryOperator (Truth)

/-- Tests predicates on an element one after the other, and stops at the first that is not true. -/
def acceptedBy : List CompiledExpr → Value → Except EvalError Bool
  | [], _ => .ok true
  | c :: rest, row => do
    if ← c.evalPredicate [row] then acceptedBy rest row else .ok false

/-- The predicates have these compiled forms, each for one argument. -/
def CompiledFilters (predicates : List Expr) (compiled : List CompiledExpr) : Prop :=
  List.Forall₂ (fun p c => CompiledExpr.compile p 1 = .ok c) predicates compiled

/-- The predicates have these truth values on an element. -/
def TruthsOn (row : Value) (compiled : List CompiledExpr) (truths : List Truth) : Prop :=
  List.Forall₂ (fun (c : CompiledExpr) (a : Truth) => c.eval [row] = .ok a.toValue) compiled truths

/-! ## Truth values -/

namespace BinaryOperator

/-- Whether a truth value is true, rather than false or unknown. -/
def Truth.isTrue : Truth → Bool
  | some true => true
  | _ => false

theorem Truth.toValue_injective {a b : Truth} (h : a.toValue = b.toValue) : a = b := by
  rcases a with _ | a <;> rcases b with _ | b
  · rfl
  · cases h
  · cases h
  · rw [Truth.toValue, Truth.toValue, Value.boolean.injEq] at h
    rw [h]

theorem truth_eq_ok_iff (op : BinaryOperator) (v : Value) (a : Truth) :
    op.truth v = .ok a ↔ v = a.toValue := by
  rcases a with _ | a <;> cases v <;> simp [truth, Truth.toValue]

/-- A logical operator has a value where both operands are truth values. -/
theorem joined_eq_ok_iff (op : BinaryOperator) (v w x : Value) :
    op.joined v w = .ok x ↔ ∃ a b : Truth, v = a.toValue ∧ w = b.toValue ∧
      x = (if op = .and then Truth.and a b else Truth.or a b).toValue := by
  rw [joined]
  simp only [bind_eq_ok_iff, truth_eq_ok_iff, pure, Except.pure, Except.ok.injEq]
  constructor
  · rintro ⟨a, hv, b, hw, hx⟩
    exact ⟨a, b, hv, hw, hx.symm⟩
  · rintro ⟨a, b, hv, hw, hx⟩
    exact ⟨a, hv, b, hw, hx.symm⟩

theorem eval_and_eq_ok_iff (v w x : Value) :
    BinaryOperator.and.eval v w = .ok x ↔
      ∃ a b : Truth, v = a.toValue ∧ w = b.toValue ∧ x = (Truth.and a b).toValue :=
  joined_eq_ok_iff .and v w x

/-- A conjunction of truth values is true if all of them are. -/
theorem Truth.isTrue_foldl_and (a : Truth) (rest : List Truth) :
    (rest.foldl Truth.and a).isTrue = (a :: rest).all Truth.isTrue := by
  induction rest generalizing a with
  | nil => exact (Bool.and_true _).symm
  | cons b rest ih =>
      have hand : (Truth.and a b).isTrue = (a.isTrue && b.isTrue) := by
        rcases a with _ | _ | _ <;> rcases b with _ | _ | _ <;> rfl
      rw [List.foldl_cons, ih, List.all_cons, List.all_cons, List.all_cons, hand, Bool.and_assoc]

end BinaryOperator

/-! ## Evaluating a conjunction -/

namespace CompiledExpr

/-- A conjunction compiles if both operands do, and evaluates both. -/
theorem compile_and_eq_ok_iff (l r : Expr) (arity : Nat) (e : CompiledExpr) :
    compile (.and l r) arity = .ok e ↔ ∃ a b, Code.ofExpr arity l = .ok a ∧
      Code.ofExpr arity r = .ok b ∧ e = ⟨arity, .binary .and a b⟩ := by
  rw [compile_eq_ok_iff, Expr.and, Code.ofExpr]
  cases Code.ofExpr arity l with
  | error err => simp [bind, Except.bind]
  | ok a =>
      cases Code.ofExpr arity r with
      | error err => simp [bind, Except.bind]
      | ok b => simp [bind, Except.bind, pure, Except.pure]

/-- A predicate has a value where it evaluates to a truth value, and unknown counts as false. -/
theorem evalPredicate_eq_ok_iff (c : CompiledExpr) (arguments : List Value) (holds : Bool) :
    c.evalPredicate arguments = .ok holds ↔
      ∃ a : Truth, c.eval arguments = .ok a.toValue ∧ holds = a.isTrue := by
  rw [evalPredicate]
  cases c.eval arguments with
  | error e => simp [bind, Except.bind]
  | ok v =>
      show v.asPredicate = .ok holds ↔ _
      constructor
      · intro h
        cases v with
        | null =>
            cases h
            exact ⟨none, rfl, rfl⟩
        | boolean b =>
            cases h
            exact ⟨some holds, rfl, by cases holds <;> rfl⟩
        | _ => cases h
      · rintro ⟨a, ha, rfl⟩
        cases ha
        rcases a with _ | _ | _ <;> rfl

/-- A conjunction evaluates both operands, the left one first. -/
theorem eval_and {l r : Expr} {arity : Nat} {c d e : CompiledExpr}
    (hc : compile l arity = .ok c) (hd : compile r arity = .ok d)
    (he : compile (.and l r) arity = .ok e) (arguments : List Value) :
    e.eval arguments = (do
      BinaryOperator.and.eval (← c.eval arguments) (← d.eval arguments)) := by
  obtain ⟨a, ha, rfl⟩ := (compile_eq_ok_iff l arity c).mp hc
  obtain ⟨b, hb, rfl⟩ := (compile_eq_ok_iff r arity d).mp hd
  obtain ⟨a', b', ha', hb', rfl⟩ := (compile_and_eq_ok_iff l r arity e).mp he
  cases ha.symm.trans ha'
  cases hb.symm.trans hb'
  by_cases h : arguments.length = arity
  · simp only [eval, dif_pos h, Code.run]
  · simp only [eval, dif_neg h]
    rfl

/-- It has a truth value where both operands have one. -/
theorem eval_and_eq_ok_iff {l r : Expr} {arity : Nat} {c d e : CompiledExpr}
    (hc : compile l arity = .ok c) (hd : compile r arity = .ok d)
    (he : compile (.and l r) arity = .ok e) (arguments : List Value) (x : Truth) :
    e.eval arguments = .ok x.toValue ↔
      ∃ a b : Truth, c.eval arguments = .ok a.toValue ∧ d.eval arguments = .ok b.toValue ∧
        x = Truth.and a b := by
  rw [eval_and hc hd he]
  simp only [bind_eq_ok_iff, BinaryOperator.eval_and_eq_ok_iff]
  constructor
  · rintro ⟨v, hv, w, hw, a, b, rfl, rfl, hx⟩
    exact ⟨a, b, hv, hw, Truth.toValue_injective hx⟩
  · rintro ⟨a, b, ha, hb, rfl⟩
    exact ⟨a.toValue, ha, b.toValue, hb, a, b, rfl, rfl, rfl⟩

/-! ## Conjunctions of several predicates -/

/-- A conjunction compiles if all its operands do. -/
theorem compiles_foldl_and (p : Expr) (rest : List Expr) :
    (∃ c, compile (rest.foldl Expr.and p) 1 = .ok c) ↔
      ∀ e ∈ p :: rest, ∃ c, compile e 1 = .ok c := by
  induction rest generalizing p with
  | nil => simp
  | cons q rest ih =>
      have hand : (∃ c, compile (.and p q) 1 = .ok c) ↔
          (∃ c, compile p 1 = .ok c) ∧ ∃ c, compile q 1 = .ok c := by
        constructor
        · rintro ⟨c, hc⟩
          obtain ⟨a, b, ha, hb, -⟩ := (compile_and_eq_ok_iff p q 1 c).mp hc
          exact ⟨⟨_, (compile_eq_ok_iff p 1 _).mpr ⟨a, ha, rfl⟩⟩,
            ⟨_, (compile_eq_ok_iff q 1 _).mpr ⟨b, hb, rfl⟩⟩⟩
        · rintro ⟨⟨c, hc⟩, ⟨d, hd⟩⟩
          obtain ⟨a, ha, -⟩ := (compile_eq_ok_iff p 1 c).mp hc
          obtain ⟨b, hb, -⟩ := (compile_eq_ok_iff q 1 d).mp hd
          exact ⟨_, (compile_and_eq_ok_iff p q 1 _).mpr ⟨a, b, ha, hb, rfl⟩⟩
      rw [List.foldl_cons, ih]
      simp only [List.forall_mem_cons, hand, and_assoc]

/-- **A conjunction of predicates has a truth value where all of them have one,** and it is their
conjunction. -/
theorem eval_foldl_and_iff {p : Expr} {rest : List Expr} {c merged : CompiledExpr}
    {compiled : List CompiledExpr} (hfilters : CompiledFilters (p :: rest) (c :: compiled))
    (hmerged : compile (rest.foldl Expr.and p) 1 = .ok merged) (row : Value) (x : Truth) :
    merged.eval [row] = .ok x.toValue ↔
      ∃ a truths, TruthsOn row (c :: compiled) (a :: truths) ∧ x = truths.foldl Truth.and a := by
  induction rest generalizing p c compiled with
  | nil =>
      cases hfilters with
      | cons hc hnil =>
          cases hnil
          cases hc.symm.trans hmerged
          constructor
          · intro h
            exact ⟨x, [], .cons h .nil, rfl⟩
          · rintro ⟨a, truths, htruths, rfl⟩
            cases htruths with
            | cons ha hnil =>
                cases hnil
                exact ha
  | cons q rest ih =>
      cases hfilters with
      | cons hc hrest =>
          cases hrest with
          | @cons _ d _ compiled hd hrest =>
              -- the first two operands make one, to which the others are joined
              obtain ⟨e, he⟩ : ∃ e, compile (.and p q) 1 = .ok e := by
                obtain ⟨a, ha, -⟩ := (compile_eq_ok_iff p 1 c).mp hc
                obtain ⟨b, hb, -⟩ := (compile_eq_ok_iff q 1 d).mp hd
                exact ⟨_, (compile_and_eq_ok_iff p q 1 _).mpr ⟨a, b, ha, hb, rfl⟩⟩
              rw [ih (.cons he hrest) hmerged]
              constructor
              · rintro ⟨ab, truths, htruths, rfl⟩
                cases htruths with
                | cons hab htruths =>
                    obtain ⟨a, b, ha, hb, rfl⟩ := (eval_and_eq_ok_iff hc hd he [row] ab).mp hab
                    exact ⟨a, b :: truths, .cons ha (.cons hb htruths), rfl⟩
              · rintro ⟨a, truths, htruths, rfl⟩
                cases htruths with
                | cons ha htruths =>
                    cases htruths with
                    | @cons _ b _ truths hb htruths =>
                        have hab := (eval_and_eq_ok_iff hc hd he [row] _).mpr ⟨a, b, ha, hb, rfl⟩
                        exact ⟨Truth.and a b, truths, .cons hab htruths, rfl⟩

end CompiledExpr

/-! ## Filters one after the other -/

theorem acceptedBy_cons_of_ok {c : CompiledExpr} {row : Value} {holds : Bool}
    (h : c.evalPredicate [row] = .ok holds) (rest : List CompiledExpr) :
    acceptedBy (c :: rest) row = if holds then acceptedBy rest row else .ok false := by
  rw [acceptedBy, h]
  rfl

/-- Where all predicates have truth values, successive filters fail on nothing. -/
theorem TruthsOn.acceptedBy {row : Value} {compiled : List CompiledExpr} {truths : List Truth}
    (h : TruthsOn row compiled truths) :
    acceptedBy compiled row = .ok (truths.all Truth.isTrue) := by
  induction h with
  | nil => rfl
  | @cons c a rest truths ha _ ih =>
      rw [acceptedBy_cons_of_ok ((c.evalPredicate_eq_ok_iff [row] _).mpr ⟨a, ha, rfl⟩), ih,
        List.all_cons]
      cases a.isTrue <;> rfl

/-- What successive filters accept, each of them holds of. -/
theorem exists_truthsOn_of_acceptedBy {row : Value} {compiled : List CompiledExpr}
    (h : acceptedBy compiled row = .ok true) :
    ∃ truths, TruthsOn row compiled truths ∧ truths.all Truth.isTrue = true := by
  induction compiled with
  | nil => exact ⟨[], .nil, rfl⟩
  | cons c rest ih =>
      cases hc : c.evalPredicate [row] with
      | error e =>
          rw [acceptedBy, hc] at h
          cases h
      | ok holds =>
          rw [acceptedBy_cons_of_ok hc] at h
          cases holds with
          | false => cases h
          | true =>
              obtain ⟨truths, htruths, hall⟩ := ih h
              obtain ⟨a, ha, htrue⟩ := (c.evalPredicate_eq_ok_iff [row] true).mp hc
              refine ⟨a :: truths, .cons ha htruths, ?_⟩
              rw [List.all_cons, ← htrue, hall]
              rfl

/-- Predicates that are Booleans or null have truth values. -/
theorem exists_truthsOn {row : Value} {compiled : List CompiledExpr}
    (h : ∀ d ∈ compiled, d.eval [row] = .ok .null ∨ ∃ b, d.eval [row] = .ok (.boolean b)) :
    ∃ truths, TruthsOn row compiled truths := by
  induction compiled with
  | nil => exact ⟨[], .nil⟩
  | cons c rest ih =>
      obtain ⟨truths, htruths⟩ := ih (fun d hd => h d (List.mem_cons_of_mem _ hd))
      rcases h c List.mem_cons_self with hnull | ⟨b, hb⟩
      · exact ⟨none :: truths, .cons hnull htruths⟩
      · exact ⟨some b :: truths, .cons hb htruths⟩

/-- A conjunction has a value where all its operands have truth values. -/
theorem evalPredicate_foldl_and {p : Expr} {rest : List Expr} {merged : CompiledExpr}
    {compiled : List CompiledExpr} (hfilters : CompiledFilters (p :: rest) compiled)
    (hmerged : CompiledExpr.compile (rest.foldl Expr.and p) 1 = .ok merged) (row : Value)
    (holds : Bool) :
    merged.evalPredicate [row] = .ok holds ↔
      ∃ truths, TruthsOn row compiled truths ∧ holds = truths.all Truth.isTrue := by
  cases hfilters with
  | @cons _ c _ compiled hc hrest =>
      have hvalue := fun x => CompiledExpr.eval_foldl_and_iff (.cons hc hrest) hmerged row x
      rw [CompiledExpr.evalPredicate_eq_ok_iff]
      constructor
      · rintro ⟨x, hx, rfl⟩
        obtain ⟨a, truths, htruths, rfl⟩ := (hvalue x).mp hx
        exact ⟨a :: truths, htruths, Truth.isTrue_foldl_and a truths⟩
      · rintro ⟨truths, htruths, rfl⟩
        cases htruths with
        | @cons _ a _ truths ha hrest =>
            exact ⟨_, (hvalue _).mpr ⟨a, truths, .cons ha hrest, rfl⟩,
              (Truth.isTrue_foldl_and a truths).symm⟩

/-! ## Streams of filters -/

/-- The element itself, if successive filters accept it. -/
def Listing.keptBy (compiled : List CompiledExpr) (v : Value) : Listing Value :=
  given (acceptedBy compiled v) (fun holds => if holds then single v else .finished)

/-- The first filter is tested first, and the others on what it keeps. -/
theorem Listing.keptBy_cons (c : CompiledExpr) (rest : List CompiledExpr) (v : Value) :
    (kept c v).ready.forEachReady (fun w => (keptBy rest w).ready)
      = (keptBy (c :: rest) v).ready := by
  cases hc : c.evalPredicate [v] with
  | error e =>
      rw [kept, keptBy, acceptedBy, hc]
      rfl
  | ok holds =>
      rw [kept, keptBy, acceptedBy_cons_of_ok hc, hc, given_ok]
      cases holds with
      | false => rfl
      | true =>
          show (keptBy rest v).ready.append .finished = (keptBy rest v).ready
          rw [keptBy]
          cases acceptedBy rest v with
          | error e => rfl
          | ok holds => cases holds <;> rfl

namespace Pipeline

theorem trace_filter {p : Expr} {c : CompiledExpr} (h : CompiledExpr.compile p 1 = .ok c)
    (t : Pipeline) : (Pipeline.filter t p).query.trace
      = t.query.trace.forEachReady (fun v => (Listing.kept c v).ready) := by
  rw [query_filter, Query.trace, h, Listing.given_ok]

/-- Filters on top of each other keep what they accept one after the other. -/
theorem trace_foldl_filter {predicates : List Expr} {compiled : List CompiledExpr}
    (h : CompiledFilters predicates compiled) (t : Pipeline) :
    (predicates.foldl Pipeline.filter t).query.trace
      = t.query.trace.forEachReady (fun v => (Listing.keptBy compiled v).ready) := by
  induction h generalizing t with
  | nil => exact (Listing.forEachReady_single t.query.trace).symm
  | @cons p c rest compiled hc _ ih =>
      rw [List.foldl_cons, ih, trace_filter hc, Listing.forEachReady_forEachReady]
      simp only [Listing.keptBy_cons]

theorem isOperator_foldl_filter (predicates : List Expr) {t : Pipeline}
    (h : t.isOperator = true) : (predicates.foldl Pipeline.filter t).isOperator = true := by
  induction predicates generalizing t with
  | nil => exact h
  | cons p rest ih => exact ih rfl

/-- Two pipelines that end in an operator and have the same trace answer the same. -/
theorem answersUnder_congr {t u : Pipeline} (ht : t.isOperator = true) (hu : u.isOperator = true)
    (h : t.query.trace = u.query.trace) (settings : List Setting) :
    t.query.answersUnder settings = u.query.answersUnder settings := by
  rw [Query.answersUnder, Query.answersUnder,
    Stream.answers_pollAll settings (Stream.replays_stream t.replays_query)
      (.inl (isLocal_stream_query ht)),
    Stream.answers_pollAll settings (Stream.replays_stream u.replays_query)
      (.inl (isLocal_stream_query hu)),
    Stream.trace_stream, Stream.trace_stream, h]

end Pipeline

/-! ## The merged filter of a table query -/

theorem exists_compiledFilters {predicates : List Expr}
    (h : ∀ e ∈ predicates, ∃ c, CompiledExpr.compile e 1 = .ok c) :
    ∃ compiled, CompiledFilters predicates compiled := by
  induction predicates with
  | nil => exact ⟨[], .nil⟩
  | cons p rest ih =>
      obtain ⟨c, hc⟩ := h p List.mem_cons_self
      obtain ⟨compiled, hrest⟩ := ih (fun e he => h e (List.mem_cons_of_mem _ he))
      exact ⟨c :: compiled, .cons hc hrest⟩

/-- **The merged filter of a table selects what the filters select one after the other.** It
compiles where all of them do. Where it has a value on an element, the successive filters find the
same value and fail on nothing; it holds of everything that they accept; and it fails on no element
on which all of them are Booleans or null. So as a local filter it answers, poll by poll, what the
filters answer on top of each other, from any source that has no element on which it fails. -/
theorem merged_filter_selects (s : TableSource) (p : Expr) (rest : List Expr) :
    ∃ merged, ((p :: rest).foldl QueryNode.filter (.source s)).mergedFilter? = some merged ∧
      ((∃ c, CompiledExpr.compile merged 1 = .ok c) ↔
        ∀ e ∈ p :: rest, ∃ c, CompiledExpr.compile e 1 = .ok c) ∧
      ∀ c, CompiledExpr.compile merged 1 = .ok c →
        ∃ compiled, CompiledFilters (p :: rest) compiled ∧
          (∀ row holds, c.evalPredicate [row] = .ok holds → acceptedBy compiled row = .ok holds) ∧
          (∀ row, acceptedBy compiled row = .ok true → c.evalPredicate [row] = .ok true) ∧
          (∀ row,
            (∀ d ∈ compiled, d.eval [row] = .ok .null ∨ ∃ b, d.eval [row] = .ok (.boolean b)) →
            ∃ holds, c.evalPredicate [row] = .ok holds) ∧
          ∀ source : ScriptedSource,
            (∀ row, .value row ∈ source.script → ∃ holds, c.evalPredicate [row] = .ok holds) →
            ∀ settings,
              (Pipeline.filter (.source source) merged).query.answersUnder settings
                = ((p :: rest).foldl Pipeline.filter (.source source)).query.answersUnder
                    settings := by
  refine ⟨rest.foldl Expr.and p, ?_, CompiledExpr.compiles_foldl_and p rest, ?_⟩
  · rw [QueryNode.mergedFilter?, QueryNode.predicates_foldl_filter]
    rfl
  · intro c hc
    obtain ⟨compiled, hcompiled⟩ :=
      exists_compiledFilters ((CompiledExpr.compiles_foldl_and p rest).mp ⟨c, hc⟩)
    have hvalue := evalPredicate_foldl_and hcompiled hc
    have hsame : ∀ row holds, c.evalPredicate [row] = .ok holds →
        acceptedBy compiled row = .ok holds := by
      intro row holds h
      obtain ⟨truths, htruths, rfl⟩ := (hvalue row holds).mp h
      exact htruths.acceptedBy
    refine ⟨compiled, hcompiled, hsame, ?_, ?_, ?_⟩
    · intro row h
      obtain ⟨truths, htruths, hall⟩ := exists_truthsOn_of_acceptedBy h
      exact (hvalue row true).mpr ⟨truths, htruths, hall.symm⟩
    · intro row h
      obtain ⟨truths, htruths⟩ := exists_truthsOn h
      exact ⟨_, (hvalue row _).mpr ⟨truths, htruths, rfl⟩⟩
    · intro source hsource settings
      apply Pipeline.answersUnder_congr rfl (Pipeline.isOperator_foldl_filter rest rfl)
      refine (Pipeline.trace_filter hc (.source source)).trans
        (.trans ?_ (Pipeline.trace_foldl_filter hcompiled (.source source)).symm)
      rw [Pipeline.query, (Query.trace_of_script? source.follows).2]
      -- on the elements of the source the two keep the same
      apply Listing.forEachReady_replay_congr
      intro row hrow
      obtain ⟨holds, hholds⟩ := hsource row hrow
      rw [Listing.kept, Listing.keptBy, hsame row holds hholds, hholds]

end RowQuery
