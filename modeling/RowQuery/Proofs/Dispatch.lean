import Mathlib.Data.List.Basic
import Mathlib.Data.List.TakeWhile
import RowQuery.Proofs.Confinement
import RowQuery.Proofs.Conjunction
import RowQuery.Proofs.Journal

set_option autoImplicit false

/-! # Dispatch

Where an operator is carried out depends on the query that it is applied to: in the source, if the
source advertises the kind of the operator and takes it over, and otherwise here. What has been
carried out here advertises nothing, so once one operator of a sequence stays here, all later ones
do. The operators that a source is handed are therefore the longest front of the sequence whose
kinds it advertises (`SourceFamily.Absorbs.dispatch`); a filter is never moved past a projection or
a join.

This has nothing to do with what the sources are. It is proved for any family of sources, with the
queries of the library as one of them (`Query.family`), and then read for tables: the condition of
the command that a table executes is made of the filters that were applied before the first
projection or join.
-/

namespace RowQuery

/-! ## Families of sources -/

/-- Sources, and operators that can be applied to them. -/
structure SourceFamily (σ ω : Type) where
  kind : ω → PushDown
  /-- Whether a source advertises that it can carry out operators of a kind. -/
  supports : σ → PushDown → Bool
  /-- Hands an operator to a source: the source with the operator absorbed, or its refusal. -/
  pushDown : σ → ω → Except QueryError σ
  /-- The operator carried out here, on the results of the source. -/
  applyLocally : σ → ω → σ
  supports_applyLocally : ∀ q op k, supports (applyLocally q op) k = false

namespace SourceFamily

variable {σ ω : Type} (S : SourceFamily σ ω)

/-- Hands an operator to a source, on record. -/
def handOver (q : σ) (op : ω) : Handing σ ω (Except QueryError σ) := ⟨S.pushDown q op, [(q, op)]⟩

/-- Applies an operator: in the source, if it advertises the kind and does not refuse, otherwise
here. -/
def dispatch (q : σ) (op : ω) : Handing σ ω σ :=
  if S.supports q (S.kind op) then do
    match ← S.handOver q op with
    | .ok absorbed => return absorbed
    | .error _ => return S.applyLocally q op
  else return S.applyLocally q op

/-- Applies operators in order. -/
def dispatchAll (q : σ) (ops : List ω) : Handing σ ω σ := ops.foldlM S.dispatch q

/-- What comes of applying an operator. -/
def apply (q : σ) (op : ω) : σ := (S.dispatch q op).value

/-- What comes of applying operators in order. -/
def applyAll (q : σ) (ops : List ω) : σ := (S.dispatchAll q ops).value

/-- The operators that are handed over when one is applied. -/
def handed (q : σ) (op : ω) : List ω := (S.dispatch q op).calls.map (·.2)

/-- The operators that are handed over when some are applied in order, each with the source that it
is handed to. -/
def calls (q : σ) (ops : List ω) : List (σ × ω) := (S.dispatchAll q ops).calls

/-- Hands operators to a source, one after the other. -/
def absorb (q : σ) (ops : List ω) : Except QueryError σ := ops.foldlM S.pushDown q

/-- The source advertises these kinds of operator, absorbs every operator of one of them, and so
does the source that comes of it. -/
def Absorbs (kinds : PushDown → Bool) (q : σ) : Prop :=
  ∀ ops : List ω, (∀ op ∈ ops, kinds (S.kind op) = true) →
    ∃ q', S.absorb q ops = .ok q' ∧ ∀ k, S.supports q' k = kinds k

/-- The operators in front that are of some kinds. -/
def front (kinds : PushDown → Bool) (ops : List ω) : List ω :=
  ops.takeWhile (fun op => kinds (S.kind op))

/-- The operators from the first one on that is of another kind. -/
def rest (kinds : PushDown → Bool) (ops : List ω) : List ω :=
  ops.dropWhile (fun op => kinds (S.kind op))

variable {S}

theorem kinds_of_mem_front {kinds : PushDown → Bool} {ops : List ω} {op : ω}
    (h : op ∈ S.front kinds ops) : kinds (S.kind op) = true :=
  List.mem_takeWhile_imp (p := fun op => kinds (S.kind op)) h

/-! ## One operator -/

theorem dispatch_of_ok {q q' : σ} {op : ω} (hsupports : S.supports q (S.kind op) = true)
    (h : S.pushDown q op = .ok q') : S.dispatch q op = ⟨q', [(q, op)]⟩ := by
  rw [dispatch, if_pos hsupports, handOver, h]
  rfl

theorem dispatch_of_error {q : σ} {op : ω} {e : QueryError}
    (hsupports : S.supports q (S.kind op) = true) (h : S.pushDown q op = .error e) :
    S.dispatch q op = ⟨S.applyLocally q op, [(q, op)]⟩ := by
  rw [dispatch, if_pos hsupports, handOver, h]
  rfl

theorem dispatch_of_not_supports {q : σ} {op : ω} (h : S.supports q (S.kind op) = false) :
    S.dispatch q op = ⟨S.applyLocally q op, []⟩ := by
  rw [dispatch, if_neg (Bool.eq_false_iff.mp h), Handing.pure_eq]

/-- An operator is handed over once if its kind is advertised, and not at all otherwise. -/
theorem calls_dispatch (q : σ) (op : ω) :
    (S.dispatch q op).calls = if S.supports q (S.kind op) then [(q, op)] else [] := by
  by_cases hsupports : S.supports q (S.kind op) = true
  · rw [if_pos hsupports]
    cases hpush : S.pushDown q op with
    | ok q' => rw [dispatch_of_ok hsupports hpush]
    | error e => rw [dispatch_of_error hsupports hpush]
  · rw [if_neg hsupports, dispatch_of_not_supports (Bool.eq_false_iff.mpr hsupports)]

theorem calls_cons (q : σ) (op : ω) (rest : List ω) :
    S.calls q (op :: rest) = (S.dispatch q op).calls ++ S.calls (S.apply q op) rest := by
  rw [calls, dispatchAll, List.foldlM_cons, Handing.bind_eq]
  rfl

theorem applyAll_cons (q : σ) (op : ω) (rest : List ω) :
    S.applyAll q (op :: rest) = S.applyAll (S.apply q op) rest := by
  rw [applyAll, dispatchAll, List.foldlM_cons, Handing.bind_eq]
  rfl

theorem applyAll_eq_foldl (q : σ) (ops : List ω) : S.applyAll q ops = ops.foldl S.apply q := by
  induction ops generalizing q with
  | nil => rfl
  | cons op rest ih => rw [applyAll_cons, ih, List.foldl_cons]

/-! ## Operators that stay here -/

theorem apply_of_not_supports {q : σ} {op : ω} (h : S.supports q (S.kind op) = false) :
    S.apply q op = S.applyLocally q op := by
  rw [apply, dispatch_of_not_supports h]

/-- No operator is handed to a source that does not advertise its kind. -/
theorem supports_of_mem_calls {q : σ} {ops : List ω} {call : σ × ω} (h : call ∈ S.calls q ops) :
    S.supports call.1 (S.kind call.2) = true := by
  induction ops generalizing q with
  | nil => cases h
  | cons op rest ih =>
      rw [calls_cons, calls_dispatch] at h
      rcases List.mem_append.mp h with h | h
      · by_cases hsupports : S.supports q (S.kind op) = true
        · rw [if_pos hsupports, List.mem_singleton] at h
          rw [h]
          exact hsupports
        · rw [if_neg hsupports] at h
          cases h
      · exact ih h

/-- A source that advertises nothing is handed nothing, and neither is what stands on top of it. -/
theorem calls_of_silent {q : σ} (h : ∀ k, S.supports q k = false) (ops : List ω) :
    S.calls q ops = [] ∧ S.applyAll q ops = ops.foldl S.applyLocally q := by
  induction ops generalizing q with
  | nil => exact ⟨rfl, rfl⟩
  | cons op rest ih =>
      obtain ⟨hcalls, happly⟩ := ih (S.supports_applyLocally q op)
      rw [calls_cons, applyAll_cons, dispatch_of_not_supports (h (S.kind op)),
        apply_of_not_supports (h (S.kind op)), hcalls, happly]
      exact ⟨rfl, rfl⟩

theorem supports_foldl_applyLocally (q : σ) {ops : List ω} (h : ops ≠ []) (k : PushDown) :
    S.supports (ops.foldl S.applyLocally q) k = false := by
  obtain ⟨before, op, rfl⟩ := (List.eq_nil_or_concat ops).resolve_left h
  rw [List.concat_eq_append, List.foldl_concat]
  exact S.supports_applyLocally _ op k

/-! ## Sources that absorb -/

namespace Absorbs

variable {kinds : PushDown → Bool} {q : σ}

theorem supports (h : S.Absorbs kinds q) (k : PushDown) : S.supports q k = kinds k := by
  obtain ⟨q', hq', hk⟩ := h [] nofun
  cases hq'
  exact hk k

/-- A source of which this holds absorbs an operator, and it holds of what comes of it. -/
theorem pushDown (h : S.Absorbs kinds q) {op : ω} (hop : kinds (S.kind op) = true) :
    ∃ q', S.pushDown q op = .ok q' ∧ S.Absorbs kinds q' := by
  have hcons : ∀ ops, S.absorb q (op :: ops) = (S.pushDown q op).bind (S.absorb · ops) :=
    fun ops => List.foldlM_cons
  obtain ⟨last, hlast, -⟩ := h [op] (by simpa using hop)
  cases hpush : S.pushDown q op with
  | error e =>
      rw [hcons, hpush] at hlast
      cases hlast
  | ok q' =>
      refine ⟨q', rfl, ?_⟩
      intro ops hops
      obtain ⟨q'', hq'', hk⟩ := h (op :: ops) (by simpa [hop] using hops)
      rw [hcons, hpush] at hq''
      exact ⟨q'', hq'', hk⟩

/-- **A source is handed the longest front of the operators whose kinds it advertises.** Each of
them is handed over once and in order, to the source that has absorbed the ones before it. The
others are carried out here, in order, on the results of the source that has absorbed this front. -/
theorem dispatch (h : S.Absorbs kinds q) (ops : List ω) :
    (S.calls q ops).map (·.2) = S.front kinds ops ∧
      (∀ (before after : List (σ × ω)) (call : σ × ω), S.calls q ops = before ++ call :: after →
        S.absorb q (before.map (·.2)) = .ok call.1) ∧
      ∃ q', S.absorb q (S.front kinds ops) = .ok q' ∧
        S.applyAll q ops = (S.rest kinds ops).foldl S.applyLocally q' := by
  induction ops generalizing q with
  | nil =>
      refine ⟨rfl, ?_, q, rfl, rfl⟩
      intro before after call hnone
      cases before <;> cases hnone
  | cons op ops ih =>
      by_cases hop : kinds (S.kind op) = true
      · -- the operator is handed over and absorbed
        obtain ⟨q', hpush, hq'⟩ := h.pushDown hop
        obtain ⟨hhanded, hcalls, last, habsorb, happly⟩ := ih hq'
        have hsupports : S.supports q (S.kind op) = true := (h.supports _).trans hop
        have hone := dispatch_of_ok hsupports hpush
        have happlyOne : S.apply q op = q' := by rw [SourceFamily.apply, hone]
        have hfront : S.front kinds (op :: ops) = op :: S.front kinds ops :=
          List.takeWhile_cons_of_pos hop
        have hrest : S.rest kinds (op :: ops) = S.rest kinds ops := List.dropWhile_cons_of_pos hop
        have hcons : ∀ more, S.absorb q (op :: more) = S.absorb q' more := by
          intro more
          show List.foldlM _ _ _ = _
          rw [List.foldlM_cons, hpush]
          rfl
        have hall : S.calls q (op :: ops) = (q, op) :: S.calls q' ops := by
          rw [calls_cons, hone, happlyOne]
          rfl
        rw [hfront, hrest, hall]
        refine ⟨by rw [List.map_cons, hhanded], ?_, last, by rw [hcons, habsorb], ?_⟩
        · intro before after call hsplit
          cases before with
          | nil =>
              cases hsplit
              rfl
          | cons first before =>
              rw [List.cons_append, List.cons.injEq] at hsplit
              rw [List.map_cons, ← hsplit.1, hcons]
              exact hcalls before after call hsplit.2
        · rw [applyAll_cons, happlyOne, happly]
      · -- the operator stays here, and so do all that follow
        have hsupports : S.supports q (S.kind op) = false := by
          rw [h.supports]
          simpa using hop
        have hone := dispatch_of_not_supports hsupports
        have hlocal := apply_of_not_supports hsupports
        obtain ⟨hcalls, happly⟩ := calls_of_silent (S.supports_applyLocally q op) ops
        have hfront : S.front kinds (op :: ops) = [] := List.takeWhile_cons_of_neg hop
        have hrest : S.rest kinds (op :: ops) = op :: ops := List.dropWhile_cons_of_neg hop
        rw [hfront, hrest, calls_cons, hone, hlocal, hcalls]
        refine ⟨rfl, ?_, q, rfl, ?_⟩
        · intro before after call hsplit
          simp at hsplit
        · rw [applyAll_cons, hlocal, happly]
          rfl

/-- Behind an operator of another kind everything is carried out here. -/
theorem apply_after (h : S.Absorbs kinds q) {before : List ω}
    (hother : ∃ op ∈ before, kinds (S.kind op) = false) (op : ω) :
    S.applyAll q (before ++ [op]) = S.applyLocally (S.applyAll q before) op := by
  obtain ⟨-, -, q', -, happly⟩ := h.dispatch before
  have hrest : S.rest kinds before ≠ [] := by
    obtain ⟨op', hop', hkind⟩ := hother
    intro hnil
    have hall := List.dropWhile_eq_nil_iff.mp hnil op' hop'
    rw [hkind] at hall
    cases hall
  have hsilent : S.supports (S.applyAll q before) (S.kind op) = false := by
    rw [happly]
    exact supports_foldl_applyLocally q' hrest _
  rw [applyAll_eq_foldl, List.foldl_concat, ← applyAll_eq_foldl]
  exact apply_of_not_supports hsilent

end Absorbs

end SourceFamily

/-! ## Queries -/

/-- The queries of the library, with their operators. -/
def Query.family : SourceFamily Query Operator where
  kind := Operator.kind
  supports := Query.supports
  pushDown := Query.pushDown
  applyLocally := Query.applyLocally
  supports_applyLocally := Query.supports_applyLocally

namespace Query

/-- The three operators of the library are applied like those of any family, although each of them
checks for its own kind. -/
theorem dispatch_eq (q : Query) (op : Operator) : q.dispatch op = Query.family.dispatch q op := by
  by_cases hsupports : q.supports op.kind = true
  · rw [dispatch_of_supports hsupports]
    cases hpush : q.pushDown op with
    | ok q' =>
        rw [pushDownOrLocal_of_ok hpush]
        exact (SourceFamily.dispatch_of_ok (S := Query.family) hsupports hpush).symm
    | error e =>
        rw [pushDownOrLocal_of_error hpush]
        exact (SourceFamily.dispatch_of_error (S := Query.family) hsupports hpush).symm
  · have hnot : q.supports op.kind = false := Bool.eq_false_iff.mpr hsupports
    rw [dispatch_of_not_supports hnot]
    exact (SourceFamily.dispatch_of_not_supports (S := Query.family) hnot).symm

theorem apply_eq (q : Query) (op : Operator) : q.apply op = Query.family.apply q op :=
  congrArg Handing.value (q.dispatch_eq op)

theorem handed_eq (q : Query) (op : Operator) : q.handed op = Query.family.handed q op :=
  congrArg (fun d => d.calls.map (·.2)) (q.dispatch_eq op)

theorem foldl_apply (q : Query) (ops : List Operator) :
    ops.foldl Query.apply q = Query.family.applyAll q ops := by
  have happly : Query.apply = Query.family.apply := by
    funext q op
    exact apply_eq q op
  rw [happly, SourceFamily.applyAll_eq_foldl]

/-- Whatever a source of that kind is handed, it stays the same. -/
theorem absorb_absorbing (name : String) (supported : List PushDown) (input : Query)
    (ops : List Operator) :
    Query.family.absorb (.absorbing name supported none input) ops
      = .ok (.absorbing name supported none input) := by
  induction ops with
  | nil => rfl
  | cons op rest ih => exact ih

theorem absorbs_absorbing (name : String) (supported : List PushDown) (input : Query) :
    Query.family.Absorbs supported.contains (.absorbing name supported none input) := by
  intro ops _
  exact ⟨_, absorb_absorbing name supported input ops, fun k => rfl⟩

/-- The predicates of the filters among some operators. -/
def predicatesOf (ops : List Operator) : List Expr :=
  ops.filterMap (fun op => match op with
    | .filter p => some p
    | _ => none)

/-- Whether a kind is that of filters. -/
def isFilter (k : PushDown) : Bool := k = .filter

/-- A table absorbs filters. -/
theorem absorb_sql (q : SqlQuery) {ops : List Operator}
    (h : ∀ op ∈ ops, isFilter op.kind = true) :
    Query.family.absorb (.sql q) ops = .ok (.sql ((predicatesOf ops).foldl SqlQuery.filter q)) := by
  induction ops generalizing q with
  | nil => rfl
  | cons op rest ih =>
      have hrest := fun op' hop' => h op' (.tail _ hop')
      cases op with
      | filter p => exact ih (q.filter p) hrest
      | project e => simpa [isFilter, Operator.kind] using h _ List.mem_cons_self
      | innerJoin inner c d => simpa [isFilter, Operator.kind] using h _ List.mem_cons_self

theorem absorbs_sql (q : SqlQuery) : Query.family.Absorbs isFilter (.sql q) := by
  intro ops hops
  exact ⟨_, absorb_sql q hops, fun k => rfl⟩

end Query

/-! ## Tables -/

/-- The tables at the leaves of the inner query of a join. -/
def Operator.tables : Operator → List SqlQuery
  | .innerJoin inner _ _ => inner.tables
  | _ => []

theorem Query.tables_foldl_applyLocally (q : Query) (ops : List Operator) :
    (ops.foldl Query.applyLocally q).tables = q.tables ++ ops.flatMap Operator.tables := by
  induction ops generalizing q with
  | nil => exact (List.append_nil _).symm
  | cons op rest ih =>
      have hone : (q.applyLocally op).tables = q.tables ++ op.tables := by
        cases op with
        | innerJoin inner condition combine => rfl
        | _ => exact (List.append_nil _).symm
      rw [List.foldl_cons, ih, hone, List.flatMap_cons, List.append_assoc]

namespace SqlQuery

/-- What is issued for a filtered table is the command with the conjunction of its filters. -/
theorem prepareFor_of_command {q : SqlQuery} {filters : List Expr} {c : Connection}
    {issued : IssuedCommand} (h : (filters.foldl SqlQuery.filter q).command = .ok (c, issued)) :
    ∃ source, q.node.root = .ok source ∧ source.connection = c ∧
      prepareFor source (Expr.andAll? (q.node.predicates ++ filters))
        = .ok ⟨issued.text, issued.parameters⟩ := by
  obtain ⟨source, hsource⟩ := q.node.exists_root
  have hroot : (filters.foldl SqlQuery.filter q).node.root = .ok source := by
    rw [root_foldl_filter, hsource]
  have hmerged : (filters.foldl SqlQuery.filter q).node.mergedFilter?
      = Expr.andAll? (q.node.predicates ++ filters) := by
    rw [QueryNode.mergedFilter?, predicates_foldl_filter]
  rw [command_of_root hroot, hmerged] at h
  refine ⟨source, hsource, ?_⟩
  cases hprepare : prepareFor source (Expr.andAll? (q.node.predicates ++ filters)) with
  | error e =>
      rw [hprepare] at h
      cases h
  | ok prepared =>
      rw [hprepare] at h
      cases h
      exact ⟨rfl, rfl⟩

end SqlQuery

/-! ## The journal -/

/-- The plan with one more operator, whose inner query has been built before. -/
def Plan.applied (plan : Plan) : Operator → Plan
  | .filter p => .filter plan p
  | .project e => .project plan e
  | .innerJoin inner condition combine => .innerJoin plan (.source inner) condition combine

namespace Session

theorem journal_acquaint (s : Session) (q : Query) : (s.acquaint q).journal = s.journal := by
  obtain ⟨polled, absorbers, hnames⟩ := s.acquaint_eq q
  rw [hnames]

/-- To apply an operator is to apply it to what has been built so far, and to note what is handed
over. -/
theorem build_applied {s between : Session} {plan : Plan} {q : Query}
    (h : s.build plan = some (q, between)) (op : Operator) :
    ∃ s', s.build (plan.applied op) = some (q.apply op, s') ∧
      s'.journal = between.journal ++ (q.dispatch op).calls.filterMap noted := by
  cases op with
  | filter p =>
      refine ⟨between.noteCalls (q.dispatch (.filter p)).calls, ?_, rfl⟩
      simp [Plan.applied, build, h, heed, Query.apply]
  | project e =>
      refine ⟨between.noteCalls (q.dispatch (.project e)).calls, ?_, rfl⟩
      simp [Plan.applied, build, h, heed, Query.apply]
  | innerJoin inner condition combine =>
      refine ⟨(between.acquaint inner).noteCalls
        (q.dispatch (.innerJoin inner condition combine)).calls, ?_, ?_⟩
      · simp [Plan.applied, build, h, heed, Query.apply]
      · rw [noteCalls, journal_record, journal_acquaint]

theorem build_foldl_applied {s between : Session} {plan : Plan} {q : Query}
    (h : s.build plan = some (q, between)) (ops : List Operator) :
    ∃ s', s.build (ops.foldl Plan.applied plan) = some (ops.foldl Query.apply q, s') ∧
      s'.journal = between.journal ++ (Query.family.calls q ops).filterMap noted := by
  induction ops generalizing plan q between with
  | nil => exact ⟨between, h, (List.append_nil _).symm⟩
  | cons op rest ih =>
      obtain ⟨first, hfirst, hjournal⟩ := build_applied h op
      obtain ⟨last, hlast, hlater⟩ := ih hfirst
      refine ⟨last, hlast, ?_⟩
      rw [hlater, hjournal, SourceFamily.calls_cons, List.filterMap_append, Query.dispatch_eq,
        Query.apply_eq, List.append_assoc]

/-- The record that a source keeps says which operators it was handed, if no other source has been
handed any. -/
theorem handed_foldl_applied {s between : Session} {plan : Plan} {q : Query} {name : String}
    (h : s.build plan = some (q, between)) {ops : List Operator}
    (hto : ∀ call ∈ Query.family.calls q ops, ∃ supported refusal input,
      call.1 = .absorbing name supported refusal input) :
    ∃ s', s.build (ops.foldl Plan.applied plan) = some (ops.foldl Query.apply q, s') ∧
      s'.handed name = between.handed name ++ (Query.family.calls q ops).map (·.2) := by
  obtain ⟨s', hbuild, hjournal⟩ := build_foldl_applied h ops
  refine ⟨s', hbuild, ?_⟩
  have hnoted : ∀ call ∈ Query.family.calls q ops,
      (noted call).bind (handedTo? name) = some call.2 := by
    rintro ⟨source, op⟩ hcall
    obtain ⟨supported, refusal, input, rfl⟩ := hto _ hcall
    exact if_pos rfl
  rw [handed, hjournal, List.filterMap_append, List.filterMap_filterMap,
    List.filterMap_congr hnoted, ← List.filterMap_eq_map]
  rfl

/-- A source that absorbs is handed the front of the operators. -/
theorem handed_absorbing (s : Session) (name : String) (supported : List PushDown)
    (input : Query) (ops : List Operator) :
    ∃ s', s.build (ops.foldl Plan.applied (.source (.absorbing name supported none input)))
        = some (ops.foldl Query.apply (.absorbing name supported none input), s') ∧
      s'.handed name = s.handed name ++ Query.family.front supported.contains ops := by
  obtain ⟨hcalls, hto, -⟩ := (Query.absorbs_absorbing name supported input).dispatch ops
  have hsource : s.build (.source (.absorbing name supported none input))
      = some (.absorbing name supported none input,
          s.acquaint (.absorbing name supported none input)) := rfl
  have hsame : ∀ call ∈ Query.family.calls (.absorbing name supported none input) ops,
      ∃ supported refusal input, call.1 = .absorbing name supported refusal input := by
    intro call hcall
    obtain ⟨before, after, hsplit⟩ := List.append_of_mem hcall
    have habsorb := hto before after call hsplit
    rw [Query.absorb_absorbing, Except.ok.injEq] at habsorb
    exact ⟨supported, none, input, habsorb.symm⟩
  obtain ⟨s', hbuild, hhanded⟩ := handed_foldl_applied hsource hsame
  refine ⟨s', hbuild, ?_⟩
  rw [hhanded, hcalls, handed, handed, journal_acquaint]

end Session

/-! ## The law -/

/-- A pipeline on a table executes the command of the table with the filters in front as its
condition, and otherwise commands of the inner queries of its joins only. -/
theorem executed_of_pipeline {q : SqlQuery} {filters : List Expr} {later : List Operator}
    {pipeline : Query}
    (h : pipeline = later.foldl Query.applyLocally (.sql (filters.foldl SqlQuery.filter q)))
    (occasions : List Occasion) {name : String} {issued : IssuedCommand}
    (hissued : issued ∈ executedIn name (pipeline.stream.pollAll occasions).events) :
    (∃ source, q.node.root = .ok source ∧ source.connection.name = name ∧
        SqlQuery.prepareFor source (Expr.andAll? (q.node.predicates ++ filters))
          = .ok ⟨issued.text, issued.parameters⟩) ∨
      ∃ inner ∈ later.flatMap Operator.tables, ∃ c : Connection,
        c.name = name ∧ inner.command = .ok (c, issued) := by
  have hconfined := Stream.confined_pollAll occasions pipeline.stream name issued hissued
  rw [Stream.tables_stream, h, Query.tables_foldl_applyLocally] at hconfined
  obtain ⟨table, htable, c, hname, hcommand⟩ := hconfined
  rcases List.mem_append.mp htable with htable | htable
  · rw [List.mem_singleton.mp htable] at hcommand
    obtain ⟨source, hsource, rfl, hprepare⟩ := SqlQuery.prepareFor_of_command hcommand
    exact .inl ⟨source, hsource, hname, hprepare⟩
  · exact .inr ⟨table, htable, c, hname, hcommand⟩

/-- **A source is handed the longest front of the operators whose kinds it advertises.** No source
is handed an operator of a kind that it does not advertise, or one that is applied on top of an
operator carried out here. A source that absorbs what it advertises is handed every operator in
front once and in order, with the ones before it absorbed, and the others are carried out here, in
order. This is so of the queries of the library, whose sources note what they are handed. For a
table it says that the filters before the first projection or join, and no others, are the
condition of the command that a pipeline executes; a later filter stays on the results of the
operators before it. -/
theorem operators_dispatched :
    (∀ {σ ω : Type} (S : SourceFamily σ ω) (q : σ) (ops : List ω),
      (∀ call ∈ S.calls q ops, S.supports call.1 (S.kind call.2) = true) ∧
      (∀ op, S.calls (S.applyLocally q op) ops = []) ∧
      ∀ kinds : PushDown → Bool, S.Absorbs kinds q →
        (S.calls q ops).map (·.2) = S.front kinds ops ∧
        (∀ (before after : List (σ × ω)) (call : σ × ω), S.calls q ops = before ++ call :: after →
          S.absorb q (before.map (·.2)) = .ok call.1) ∧
        ∃ q', S.absorb q (S.front kinds ops) = .ok q' ∧
          S.applyAll q ops = (S.rest kinds ops).foldl S.applyLocally q') ∧
    (∀ (q : Query) (op : Operator),
      q.apply op = Query.family.apply q op ∧ q.handed op = Query.family.handed q op) ∧
    (∀ (s : Session) (name : String) (supported : List PushDown) (input : Query)
        (ops : List Operator),
      let source : Query := .absorbing name supported none input
      ∃ s', s.build (ops.foldl Plan.applied (.source source))
          = some ((Query.family.rest supported.contains ops).foldl Query.applyLocally source, s') ∧
        s'.handed name = s.handed name ++ Query.family.front supported.contains ops) ∧
    ∀ (q : SqlQuery) (ops : List Operator),
      let filters := Query.predicatesOf (Query.family.front Query.isFilter ops)
      let later := Query.family.rest Query.isFilter ops
      let pipeline := ops.foldl Query.apply (.sql q)
      pipeline = later.foldl Query.applyLocally (.sql (filters.foldl SqlQuery.filter q)) ∧
      (∀ (occasions : List Occasion) (name : String),
        ∀ issued ∈ executedIn name (pipeline.stream.pollAll occasions).events,
          (∃ source, q.node.root = .ok source ∧ source.connection.name = name ∧
            SqlQuery.prepareFor source (Expr.andAll? (q.node.predicates ++ filters))
              = .ok ⟨issued.text, issued.parameters⟩) ∨
          ∃ inner ∈ later.flatMap Operator.tables, ∃ c : Connection,
            c.name = name ∧ inner.command = .ok (c, issued)) ∧
      ∀ p : Expr, (∃ op ∈ ops, op.kind ≠ PushDown.filter) →
        (ops ++ [Operator.filter p]).foldl Query.apply (.sql q)
          = .localFilter pipeline p := by
  refine ⟨?_, fun q op => ⟨q.apply_eq op, q.handed_eq op⟩, ?_, ?_⟩
  · intro σ ω S q ops
    refine ⟨fun call hcall => SourceFamily.supports_of_mem_calls hcall, ?_, ?_⟩
    · intro op
      exact (SourceFamily.calls_of_silent (S.supports_applyLocally q op) ops).1
    · intro kinds h
      exact h.dispatch ops
  · intro s name supported input ops source
    obtain ⟨s', hbuild, hhanded⟩ := s.handed_absorbing name supported input ops
    obtain ⟨-, -, q', habsorb, happly⟩ :=
      (Query.absorbs_absorbing name supported input).dispatch ops
    rw [Query.absorb_absorbing, Except.ok.injEq] at habsorb
    refine ⟨s', ?_, hhanded⟩
    rw [hbuild, Query.foldl_apply, happly, ← habsorb]
    rfl
  · intro q ops filters later pipeline
    obtain ⟨-, -, q', habsorb, happly⟩ := (Query.absorbs_sql q).dispatch ops
    rw [Query.absorb_sql q (fun op hop => SourceFamily.kinds_of_mem_front hop), Except.ok.injEq]
      at habsorb
    have hpipeline : pipeline
        = later.foldl Query.applyLocally (.sql (filters.foldl SqlQuery.filter q)) := by
      show ops.foldl Query.apply (.sql q) = _
      rw [Query.foldl_apply, happly, ← habsorb]
      rfl
    refine ⟨hpipeline, ?_, ?_⟩
    · intro occasions name issued hissued
      exact executed_of_pipeline hpipeline occasions hissued
    · intro p hother
      have hkinds : ∃ op ∈ ops, Query.isFilter (Query.family.kind op) = false := by
        obtain ⟨op, hop, hkind⟩ := hother
        exact ⟨op, hop, decide_eq_false hkind⟩
      show (ops ++ [Operator.filter p]).foldl Query.apply (.sql q)
        = .localFilter (ops.foldl Query.apply (.sql q)) p
      rw [Query.foldl_apply, Query.foldl_apply]
      exact (Query.absorbs_sql q).apply_after hkinds (.filter p)

/-- Of two filters around a projection, the source is handed the one in front, and a table has it in
its command. -/
theorem operators_dispatched_projected :
    Query.family.Absorbs [PushDown.filter].contains
        (.absorbing "source" [.filter] none (.values [])) ∧
      (Query.family.calls (.absorbing "source" [.filter] none (.values []))
        [.filter (.column "a"), .project (.column "b"), .filter (.column "c")]).map (·.2)
          = [.filter (.column "a")] ∧
      [Operator.filter (.column "a"), .project (.column "b"), .filter (.column "c")].foldl
          Query.apply (.sql (.new ⟨"connection", .ansi, .positional⟩ ⟨none, "t", []⟩ .default))
        = .localFilter (.localProject (.sql ((SqlQuery.new
            ⟨"connection", .ansi, .positional⟩ ⟨none, "t", []⟩ .default).filter
              (.column "a"))) (.column "b")) (.column "c") := by
  have habsorbs := Query.absorbs_absorbing "source" [.filter] (.values [])
  have hcalls := ((operators_dispatched.1 Query.family
    (.absorbing "source" [.filter] none (.values []))
    [.filter (.column "a"), .project (.column "b"), .filter (.column "c")]).2.2 _ habsorbs).1
  have hlast := (operators_dispatched.2.2.2
    (.new ⟨"connection", .ansi, .positional⟩ ⟨none, "t", []⟩ .default)
    [.filter (.column "a"), .project (.column "b")]).2.2 (.column "c")
    ⟨.project (.column "b"), .tail _ (.head _), by decide⟩
  exact ⟨habsorbs, hcalls, hlast⟩

end RowQuery
