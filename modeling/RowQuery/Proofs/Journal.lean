import RowQuery.Session.Run

set_option autoImplicit false

/-! # Sessions over time

A session is reached from the one in which nothing has happened by actions in any order
(`Session.Reached`), so what every action keeps holds of it. Most actions compose queries first, and
composing is harmless: no stream is touched, and the journal only takes note of operators that
sources are handed (`Session.composed_build`).
-/

namespace RowQuery

/-! ## Things by name -/

namespace Named

variable {α : Type}

theorem erase_of_notMem {entries : Named α} {name : String} (h : name ∉ entries.map (·.1)) :
    entries.erase name = entries := by
  apply List.filter_eq_self.mpr
  intro e he
  rw [decide_eq_true_eq]
  intro hname
  apply h
  rw [← hname]
  exact List.mem_map_of_mem he

theorem get?_eq_none_iff {entries : Named α} {name : String} :
    entries.get? name = none ↔ name ∉ entries.map (·.1) := by
  rw [get?, List.lookup_eq_none_iff]
  constructor
  · intro h hmem
    obtain ⟨e, he, hname⟩ := List.mem_map.mp hmem
    exact bne_iff_ne.mp (h e he) hname.symm
  · intro h e he
    rw [bne_iff_ne]
    intro hname
    apply h
    rw [hname]
    exact List.mem_map_of_mem he

theorem mem_of_get? {entries : Named α} {name : String} {a : α} (h : entries.get? name = some a) :
    (name, a) ∈ entries := by
  obtain ⟨before, after, rfl, -⟩ := List.lookup_eq_some_iff.mp h
  exact List.mem_append_right before List.mem_cons_self

theorem of_mem_erase {entries : Named α} {name : String} {e : String × α}
    (h : e ∈ entries.erase name) : e ∈ entries :=
  (List.mem_filter.mp h).1

theorem of_mem_set {entries : Named α} {name : String} {a : α} {e : String × α}
    (h : e ∈ entries.set name a) : e = (name, a) ∨ e ∈ entries :=
  (List.mem_cons.mp h).imp_right of_mem_erase

/-- Where names are distinct, the entry of a name can be told from the others. -/
theorem perm_of_get? {entries : Named α} (hdistinct : (entries.map (·.1)).Nodup) {name : String}
    {a : α} (h : entries.get? name = some a) : entries.Perm ((name, a) :: entries.erase name) := by
  induction entries with
  | nil => cases h
  | cons e rest ih =>
      obtain ⟨n, b⟩ := e
      rw [List.map_cons, List.nodup_cons] at hdistinct
      rw [get?, List.lookup_cons] at h
      by_cases hn : n = name
      · subst hn
        rw [beq_self_eq_true] at h
        cases h
        have herase : Named.erase ((n, a) :: rest) n = rest := by
          rw [erase, List.filter_cons_of_neg (by simp)]
          exact erase_of_notMem hdistinct.1
        rw [herase]
      · rw [beq_eq_false_iff_ne.mpr (Ne.symm hn)] at h
        have herase : Named.erase ((n, b) :: rest) name = (n, b) :: Named.erase rest name := by
          rw [erase, List.filter_cons_of_pos (by simpa using hn)]
          rfl
        rw [herase]
        exact ((ih hdistinct.2 h).cons _).trans (List.Perm.swap _ _ _)

theorem nodup_erase {entries : Named α} (hdistinct : (entries.map (·.1)).Nodup) (name : String) :
    ((entries.erase name).map (·.1)).Nodup :=
  hdistinct.sublist (List.filter_sublist.map _)

/-- What is done with one name does not show under another. -/
theorem get?_erase_of_ne {entries : Named α} {name other : String} (h : other ≠ name) :
    (entries.erase other).get? name = entries.get? name := by
  induction entries with
  | nil => rfl
  | cons e rest ih =>
      obtain ⟨n, a⟩ := e
      by_cases hn : n = other
      · have hname : (name == n) = false := by
          rw [beq_eq_false_iff_ne, hn]
          exact h.symm
        rw [erase, List.filter_cons_of_neg (by simpa using hn), ← erase, ih]
        rw [get?, get?, List.lookup_cons, hname]
      · rw [erase, List.filter_cons_of_pos (by simpa using hn), ← erase]
        have hrest : List.lookup name (erase rest other) = List.lookup name rest := ih
        rw [get?, get?, List.lookup_cons, List.lookup_cons, hrest]

theorem get?_set_of_ne {entries : Named α} {name other : String} (h : other ≠ name) (a : α) :
    (entries.set other a).get? name = entries.get? name := by
  have hname : (name == other) = false := beq_eq_false_iff_ne.mpr h.symm
  rw [set, get?, List.lookup_cons, hname]
  exact get?_erase_of_ne h

/-- To set a name is to erase it first. -/
theorem set_erase (entries : Named α) (name : String) (a : α) :
    (entries.erase name).set name a = entries.set name a := by
  have hname : name ∉ (entries.erase name).map (·.1) :=
    get?_eq_none_iff.mp (get?_erase_self entries name)
  rw [set, erase_of_notMem hname, set]

theorem nodup_set {entries : Named α} (hdistinct : (entries.map (·.1)).Nodup) (name : String)
    (a : α) : ((entries.set name a).map (·.1)).Nodup := by
  rw [set, List.map_cons, List.nodup_cons]
  exact ⟨get?_eq_none_iff.mp (get?_erase_self entries name), nodup_erase hdistinct name⟩

end Named

namespace Session

/-! ## Actions -/

/-- One action, whatever it comes to. -/
inductive Acts : Session → Session → Prop
  | define {s s' : Session} {name : String} {plan : Plan} {q : Query}
    (h : s.define name plan = some (q, s')) : Acts s s'
  | openStream {s s' : Session} {name token : String} {plan : Plan} {q : Query}
    (h : s.openStream name plan token = some (q, s')) : Acts s s'
  | next {s s' : Session} {name : String} {answer : Answer}
    (h : s.next name = some (answer, s')) : Acts s s'
  | drain {s s' : Session} {name : String} {answers : List Answer}
    (h : s.drain name = some (answers, s')) : Acts s s'
  | dropStream (s : Session) (name : String) : Acts s (s.dropStream name).2
  | cancel (s : Session) (token : String) : Acts s (s.cancel token)
  /-- All elements of a query, or the records of them. -/
  | gather {s s' : Session} {α : Type} {make : Value → Except QueryError α} {plan : Plan}
    {outcome : Outcome α} (h : s.gather make plan = some (outcome, s')) : Acts s s'
  | setBehavior {s s' : Session} {connection : String} {behavior : Behavior}
    (h : s.setBehavior connection behavior = some s') : Acts s s'
  | command {s s' : Session} {connection : String} {issued : IssuedCommand}
    {result : CommandResult} (h : s.command connection issued = some (result, s')) : Acts s s'
  | supports {s s' : Session} {plan : Plan} {kinds : List Bool}
    (h : s.supports plan = some (kinds, s')) : Acts s s'
  | pushDown {s s' : Session} {plan : Plan} {op : PlannedOperator} {name : String}
    {result : Except QueryError Query} (h : s.pushDown plan op name = some (result, s')) : Acts s s'

/-- A session after any number of actions. -/
inductive Reached (connections : Named Attached) : Session → Prop
  | new : Reached connections (.new connections)
  | act {s s' : Session} (h : Reached connections s) (hact : Acts s s') : Reached connections s'

/-! ## Composing queries -/

/-- No stream is touched and no connection changes how it answers; the journal only says what
sources have been handed. -/
structure Composed (s s' : Session) : Prop where
  streams : s'.streams = s.streams
  connections : s'.connections = s.connections
  journal : ∃ events, s'.journal = s.journal ++ events ∧
    ∀ e ∈ events, ∃ source op, e = .handed source op

theorem Composed.refl (s : Session) : Composed s s := by
  refine ⟨rfl, rfl, [], (List.append_nil _).symm, ?_⟩
  intro e he
  cases he

theorem Composed.trans {s s' s'' : Session} (h : Composed s s') (h' : Composed s' s'') :
    Composed s s'' := by
  obtain ⟨hstreams, hconnections, events, hjournal, hevents⟩ := h
  obtain ⟨hstreams', hconnections', more, hjournal', hmore⟩ := h'
  refine ⟨hstreams'.trans hstreams, hconnections'.trans hconnections, events ++ more, ?_, ?_⟩
  · rw [hjournal', hjournal, List.append_assoc]
  · intro e he
    rcases List.mem_append.mp he with he | he
    · exact hevents e he
    · exact hmore e he

theorem composed_acquaint (s : Session) (q : Query) : Composed s (s.acquaint q) := by
  obtain ⟨polled, absorbers, hnames⟩ := s.acquaint_eq q
  rw [hnames]
  refine ⟨rfl, rfl, [], (List.append_nil _).symm, ?_⟩
  intro e he
  cases he

/-- Calls are noted, and nothing else. -/
theorem composed_noteCalls (s : Session) (calls : List (Query × Operator)) :
    Composed s (s.noteCalls calls) := by
  refine ⟨rfl, rfl, calls.filterMap noted, rfl, ?_⟩
  intro e he
  obtain ⟨⟨q, op⟩, -, hnoted⟩ := List.mem_filterMap.mp he
  unfold noted at hnoted
  split at hnoted
  · exact ⟨_, _, (Option.some.inj hnoted).symm⟩
  · cases hnoted

/-- What the parts of composing a query keep is kept when a whole plan is built. -/
theorem build_keeps {P : Session → Prop} (hacquaint : ∀ s q, P s → P (s.acquaint q))
    (hcounters : ∀ s counters n, P s → P { s with counters := counters, counterCount := n })
    (hnoteCalls : ∀ s calls, P s → P (s.noteCalls calls))
    {s s' : Session} {plan : Plan} {q : Query} (h : s.build plan = some (q, s')) (hs : P s) :
    P s' := by
  induction plan generalizing s s' q with
  | defined name =>
      obtain ⟨q', -, heq⟩ := Option.map_eq_some_iff.mp h
      cases heq
      exact hs
  | source q' =>
      cases h
      exact hacquaint s q' hs
  | counting name input ih =>
      obtain ⟨⟨q', between⟩, hinput, heq⟩ := Option.bind_eq_some_iff.mp h
      cases heq
      exact hcounters between _ _ (ih hinput hs)
  | table connection table timeout =>
      obtain ⟨attached, -, heq⟩ := Option.bind_eq_some_iff.mp h
      cases heq
      exact hs
  | filter input p ih =>
      obtain ⟨⟨q', between⟩, hinput, heq⟩ := Option.bind_eq_some_iff.mp h
      cases heq
      exact hnoteCalls between _ (ih hinput hs)
  | project input e ih =>
      obtain ⟨⟨q', between⟩, hinput, heq⟩ := Option.bind_eq_some_iff.mp h
      cases heq
      exact hnoteCalls between _ (ih hinput hs)
  | innerJoin outer inner condition combine ihOuter ihInner =>
      obtain ⟨⟨q', first⟩, houter, hrest⟩ := Option.bind_eq_some_iff.mp h
      obtain ⟨⟨q'', second⟩, hinner, heq⟩ := Option.bind_eq_some_iff.mp hrest
      cases heq
      exact hnoteCalls second _ (ihInner hinner (ihOuter houter hs))

theorem composed_build {s s' : Session} {plan : Plan} {q : Query}
    (h : s.build plan = some (q, s')) : Composed s s' := by
  refine build_keeps (P := Composed s) ?_ ?_ ?_ h (.refl s)
  · intro between q' hbetween
    exact hbetween.trans (composed_acquaint between q')
  · intro between counters n hbetween
    -- the new counter is neither a stream nor an event
    exact ⟨hbetween.streams, hbetween.connections, hbetween.journal⟩
  · intro between calls hbetween
    exact hbetween.trans (composed_noteCalls between calls)

theorem composed_buildOperator {s s' : Session} {planned : PlannedOperator} {op : Operator}
    (h : s.buildOperator planned = some (op, s')) : Composed s s' := by
  cases planned with
  | filter p =>
      cases h
      exact .refl s
  | project e =>
      cases h
      exact .refl s
  | innerJoin inner condition combine =>
      obtain ⟨⟨q, between⟩, hinner, heq⟩ := Option.bind_eq_some_iff.mp h
      cases heq
      exact composed_build hinner

end Session

end RowQuery
