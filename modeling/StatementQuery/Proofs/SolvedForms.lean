import StatementQuery.Proofs.PatternMatching
import StatementQuery.Proofs.UnifierCompleteness

/-
  The form of what the solver returns.

  Bindings are in solved form when no variable that they bind
  is left in a value, so that applying them twice does no more
  than applying them once.  Every binding that the solver
  records is recorded once, under a name of the equations, and
  the values recorded before it are brought up to date.

  Key definitions include:
    * `Unify.Recorded`
    * `Bindings.SolvedForm`

  Main declarations:
    * `Unify.recorded_bind`
    * `Unify.recorded_unify`
    * `unify_solvedForm`
-/

------------------------------------------------------------
-- Recorded Bindings
------------------------------------------------------------

namespace StatementQuery

/- Bindings of different variables are found in their union. -/
theorem Bindings.functional_union
    {θ σ : Bindings}
    (hθ : θ.Functional)
    (hσ : σ.Functional)
    (hApart : ∀ v s, θ.get? v = some s → σ.get? v = none) :
    (θ.union σ).Functional := by
  intro entry hEntry
  rw [Bindings.get?_union hσ]
  rcases mem_union hEntry with hOld | hNew
  · have hGet := hθ entry hOld
    rw [hApart entry.1 entry.2 hGet, hGet]
    rfl
  · rw [hσ entry hNew]
    rfl

namespace Unify

/- Values that are brought up to date are found as before. -/
theorem functional_substituteValues
    {σ : Bindings}
    {entries entries' : List (Variable × Side)}
    (hEntries : Bindings.Functional ⟨entries⟩)
    (h : substituteValues σ entries = .ok entries') :
    Bindings.Functional ⟨entries'⟩ := by
  intro entry' hEntry'
  rcases exists_of_mem_substituteValues h hEntry' with
    ⟨s, hOld, hSubst⟩
  rcases (get?_substituteValues h entry'.1).1 s
      (hEntries (entry'.1, s) hOld) with
    ⟨s', hSubst', hGet⟩
  rw [hSubst] at hSubst'
  cases hSubst'
  exact hGet

/-
  Bindings that are each found under their variable, which has
  one of the given names.
-/
structure Recorded
    (ns : List String)
    (θ : Bindings) :
    Prop where
  functional : θ.Functional
  keys : ∀ v s, θ.get? v = some s → v.name ∈ ns

/- Before any variable is bound, nothing is recorded. -/
theorem recorded_empty
    (ns : List String) :
    Recorded ns .empty := by
  refine ⟨?_, ?_⟩
  · intro entry hEntry
    simp [Bindings.empty] at hEntry
  · intro v s hv
    cases hv

/- Recording bindings of variables in scope. -/
theorem recorded_bind
    {ns : List String}
    {P : Variable → Prop}
    {σ : Bindings}
    {κ : Kinding}
    {state next : State}
    (hNames : ∀ v, P v → v.name ∈ ns)
    (hMoves : Moves P σ κ)
    (hScoped : Scoped P state)
    (hRecorded : Recorded ns state.solved)
    (h : bind state σ = .ok next) :
    Recorded ns next.solved := by
  rcases bind_ok h with ⟨_, values, hValues, hSolved⟩
  constructor
  · rw [hSolved]
    refine
      Bindings.functional_union
        (functional_substituteValues hRecorded.functional hValues)
        hMoves.functional ?_
    intro v s hv
    cases hOld : state.solved.get? v with
    | some s' => exact unbound_of_solved hMoves hScoped hOld
    | none =>
        rw [(get?_substituteValues hValues v).2 hOld] at hv
        cases hv
  · intro v s hv
    rcases get?_bind_cases hMoves.functional h hv with
      hNew | ⟨s', hOld, _⟩
    · exact hNames v (hMoves.keys v s hNew).1
    · exact hRecorded.keys v s' hOld

/- Narrower kinds are of the same names. -/
theorem Narrows.mem_names
    {ns : List String}
    {P : Variable → Prop}
    {κ : Kinding}
    (h : Narrows κ P)
    (hNames : ∀ v, P v → v.name ∈ ns)
    {v : Variable}
    (hv : κ.Has v) :
    v.name ∈ ns := by
  rcases h v.name v.kind hv with ⟨w, hw, hName, _⟩
  rw [← hName]
  exact hNames w hw

/- A run ends in bindings that are recorded. -/
theorem recorded_solve
    {ns : List String}
    {count : Nat}
    {κ : Kinding}
    {state : State}
    {θ : Bindings}
    (hNames : ∀ v, κ.Has v → v.name ∈ ns)
    (hScoped : Scoped κ.Has state)
    (hRecorded : Recorded ns state.solved)
    (h : solve count state = .ok θ) :
    Recorded ns θ := by
  induction count using Nat.strong_induction_on
    generalizing κ state with
  | _ count ih =>
      rcases solve_cases h with
        ⟨_, rfl⟩ |
          ⟨σ, rest, next, count', rfl, hReduce, hBind, hRun⟩
      · exact hRecorded
      · rcases reduce_some hScoped.pending hReduce with
          ⟨⟨κ', hMoves⟩, hRest, _⟩
        have hScoped' : Scoped κ.Has ⟨rest, state.solved⟩ :=
          ⟨hRest, hScoped.solved, hScoped.keys⟩
        have hNames' : ∀ v, κ'.Has v → v.name ∈ ns :=
          fun v hv =>
            Narrows.mem_names hMoves.narrows hNames hv
        exact ih count' (Nat.lt_succ_self count') hNames'
          (scoped_bind hMoves hScoped' hBind)
          (recorded_bind hNames hMoves hScoped' hRecorded hBind)
          hRun

/- What is recorded before the first equation is taken. -/
theorem recorded_start
    {eqs : List Equation}
    {state : State}
    (hWithin : Within (· ∈ Equation.occurrences eqs) eqs)
    (h : start eqs = .ok state) :
    Recorded (names eqs) state.solved := by
  rcases start_eq_ok h with ⟨table, hMoves, ⟨rfl, _⟩ | hBind⟩
  · exact recorded_empty (names eqs)
  · refine
      recorded_bind ?_ hMoves (scoped_of_within hWithin)
        (recorded_empty (names eqs)) hBind
    intro v hv
    exact List.mem_map.mpr ⟨v, hv, rfl⟩

/-
  What unification returns is recorded, and its values are
  over narrower kinds of the names of the equations.
-/
theorem recorded_unify
    {eqs : List Equation}
    {θ : Bindings}
    (hWithin : Within (· ∈ Equation.occurrences eqs) eqs)
    (h : unify eqs = .ok θ) :
    Recorded (names eqs) θ ∧
      ∃ κ, Settled κ θ ∧ ∀ v, κ.Has v → v.name ∈ names eqs := by
  have hNames :
      ∀ v, v ∈ Equation.occurrences eqs → v.name ∈ names eqs :=
    fun v hv => List.mem_map.mpr ⟨v, hv, rfl⟩
  rcases solves_of_unify hWithin h with
    ⟨κ', _, hNarrows', hSettled⟩
  rcases exists_of_bind_eq_ok h with ⟨state, hStart, hSolve⟩
  rcases start_ok hWithin hStart with ⟨κ, hScoped, hNarrows, _⟩
  constructor
  · exact recorded_solve
      (fun v hv => hNarrows.mem_names hNames hv) hScoped
      (recorded_start hWithin hStart) hSolve
  · exact
      ⟨κ', hSettled, fun v hv => hNarrows'.mem_names hNames hv⟩

end Unify

end StatementQuery

------------------------------------------------------------
-- Solved Forms
------------------------------------------------------------

namespace StatementQuery

/-
  Bindings over the given names that are applied in one go:
  no variable that is bound is left in a value, every value is
  of the kind of its variable, and each name that is left has
  one kind.
-/
structure Bindings.SolvedForm
    (ns : List String)
    (θ : Bindings) :
    Prop where
  apart :
    ∀ entry ∈ θ.entries,
      ∀ w ∈ Side.occurrences entry.2, w ∉ θ.vars
  fixed :
    ∀ v t, (v, some t) ∈ θ.entries →
      ∀ mode, t.instantiateWith mode θ = .ok (some t)
  kinds :
    ∀ v t, (v, some t) ∈ θ.entries → t.kind ≤ v.kind
  names :
    ∀ entry ∈ θ.entries,
      entry.1.name ∈ ns ∧
        ∀ w ∈ Side.occurrences entry.2, w.name ∈ ns
  oneKind :
    Variable.OneKind
      (θ.entries.flatMap fun entry => Side.occurrences entry.2)

/- Recorded bindings over kinds of names are in solved form. -/
theorem Unify.Recorded.solvedForm
    {ns : List String}
    {κ : Kinding}
    {θ : Bindings}
    (h : Recorded ns θ)
    (hSettled : Settled κ θ)
    (hNames : ∀ v, κ.Has v → v.name ∈ ns) :
    θ.SolvedForm ns := by
  have hScope :
      ∀ entry ∈ θ.entries,
        ∀ w ∈ Side.occurrences entry.2, κ.Has w := by
    intro entry hEntry w hw
    have hGet := h.functional entry hEntry
    exact (hSettled.solved entry.1 entry.2 hGet).1.occurrences hw
  constructor
  · intro entry hEntry w hw hBound
    rcases List.mem_map.mp hBound with ⟨bound, hMem, rfl⟩
    have hGet := h.functional bound hMem
    rw [hSettled.unbound (hScope entry hEntry bound.1 hw)] at hGet
    cases hGet
  · intro v t hEntry mode
    apply Term.instantiateWith_of_unbound mode
    intro w hw
    exact hSettled.unbound (hScope (v, some t) hEntry w hw)
  · intro v t hEntry
    exact (hSettled.solved v (some t)
      (h.functional (v, some t) hEntry)).2 t rfl
  · intro entry hEntry
    refine ⟨h.keys entry.1 entry.2 (h.functional entry hEntry), ?_⟩
    intro w hw
    exact hNames w (hScope entry hEntry w hw)
  · intro v hv w hw hName
    rcases List.mem_flatMap.mp hv with ⟨entry, hEntry, hv⟩
    rcases List.mem_flatMap.mp hw with ⟨other, hOther, hw⟩
    have hEq :=
      eq_of_has (hScope entry hEntry v hv)
        (hScope other hOther w hw) hName
    rw [hEq]

/-
  A unifier is in solved form, over the names of the equations
  that it solves.
-/
theorem unify_solvedForm
    {eqs : List Equation}
    {θ : Bindings}
    (hEqs : ∀ e ∈ eqs, Equation.WellFormed e)
    (h : unify eqs = .ok θ) :
    θ.SolvedForm (Unify.names eqs) := by
  rcases Unify.recorded_unify
      (Equation.within_of_wellFormed hEqs) h with
    ⟨hRecorded, κ, hSettled, hNames⟩
  exact hRecorded.solvedForm hSettled hNames

/-
  Two statements, the subject of one of which is declared
  narrower elsewhere, and a unit that is absent.
-/
def narrowedEquations : List Equation :=
  [(some
      (.app .statement
        [some (.var ⟨"s", .entity⟩),
          some
            (.app .valueSnak
              [some (.var ⟨"p", .property⟩),
                some (.var ⟨"v", .value⟩)])]),
    some
      (.app .statement
        [some (.var ⟨"x", .item⟩),
          some
            (.app .valueSnak
              [some (.var ⟨"q", .property⟩),
                some
                  (.app .quantity
                    [some (.var ⟨"n", .quantity⟩),
                      some (.var ⟨"u", .item⟩), none, none])])])),
  (some (.var ⟨"s", .item⟩), some (.var ⟨"y", .entity⟩)),
  (some (.var ⟨"u", .item⟩), none)]

/- The subjects become one item, under all their kinds. -/
def narrowedUnifier : Bindings :=
  ⟨[(⟨"p", .property⟩, some (.var ⟨"q", .property⟩)),
    (⟨"s", .entity⟩, some (.var ⟨"y", .item⟩)),
    (⟨"s", .item⟩, some (.var ⟨"y", .item⟩)),
    (⟨"u", .item⟩, none),
    (⟨"v", .value⟩,
      some
        (.app .quantity
          [some (.var ⟨"n", .quantity⟩), none, none, none])),
    (⟨"x", .item⟩, some (.var ⟨"y", .item⟩)),
    (⟨"y", .entity⟩, some (.var ⟨"y", .item⟩))]⟩

theorem unify_solvedForm_narrowedEquations :
    unify narrowedEquations = .ok narrowedUnifier ∧
      narrowedUnifier.SolvedForm
        (Unify.names narrowedEquations) := by
  have hUnify :
      unify narrowedEquations = .ok narrowedUnifier := by
    rw [Unify.unify_eq_unifyFor]
    rfl
  refine ⟨hUnify, unify_solvedForm ?_ hUnify⟩
  intro e he
  simp only [narrowedEquations, List.mem_cons, List.not_mem_nil,
    or_false] at he
  rcases he with rfl | rfl | rfl
  · rintro t (ht | ht) <;> cases ht <;> decide
  · rintro t (ht | ht) <;> cases ht <;> decide
  · rintro t (ht | ht)
    · cases ht
      decide
    · cases ht

end StatementQuery
