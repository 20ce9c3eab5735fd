import StatementQuery.Proofs.SolverEvaluation
import StatementQuery.Proofs.SolverSteps

/-
  What the solver returns is a unifier.

  A run is followed backwards: the bindings it ends with solve
  the last state, and a solution of one state is a solution of
  the state before it.  Under a solution of the first state
  the two sides of every equation are instantiated to the same
  term, or are both absent, or both fail.

  Key definitions include:
    * `SameOutcome`
    * `Equation.WellFormed`

  Main declarations:
    * `Unify.start_eq_ok`
    * `Unify.solves_of_solve`
    * `Unify.solves_of_unify`
    * `unify_sound`
-/

------------------------------------------------------------
-- Runs Of The Solver
------------------------------------------------------------

namespace StatementQuery

namespace Unify

/- Kinds that lie below those of a scope, name by name. -/
def Narrows (κ : Kinding) (P : Variable → Prop) : Prop :=
  ∀ n k, κ n = some k → ∃ w, P w ∧ w.name = n ∧ k ≤ w.kind

/- Narrower kinds of narrower kinds are narrower. -/
theorem Narrows.trans
    {P : Variable → Prop}
    {κ κ' : Kinding}
    (h : Narrows κ' κ.Has)
    (h' : Narrows κ P) :
    Narrows κ' P := by
  intro n k hk
  rcases h n k hk with ⟨v, hv, hvName, hLe⟩
  rcases h' v.name v.kind hv with ⟨w, hw, hwName, hLe'⟩
  exact ⟨w, hw, hwName.trans hvName, le_trans hLe hLe'⟩

/- A variable in scope is not bound. -/
theorem Scoped.unbound
    {P : Variable → Prop}
    {state : State}
    (hScoped : Scoped P state)
    {v : Variable}
    (hv : P v) :
    state.solved.get? v = none := by
  cases hGet : state.solved.get? v with
  | none => rfl
  | some s =>
      exact absurd (hScoped.keys v s hGet v hv rfl)
        (lt_irrefl v.kind)

/-
  Bindings whose values fit their variables and are over
  variables that are not bound.
-/
def Settled (κ : Kinding) (θ : Bindings) : Prop :=
  Scoped κ.Has ⟨[], θ⟩

/- The bindings of a state without equations solve it. -/
theorem solves_of_done
    {κ : Kinding}
    {state : State}
    (hScoped : Scoped κ.Has state)
    (h : reduce state.pending = .ok none) :
    Solves κ κ.Has state state.solved := by
  constructor
  · rintro v (hv | ⟨s, hs⟩)
    · rw [Bindings.value_of_get?_none (hScoped.unbound hv)]
      exact Side.fits_some (Term.wellKinded_var hv)
    · rw [Bindings.value_of_get? hs]
      rcases hScoped.solved v s hs with ⟨hWithin, hKind⟩
      intro t ht
      exact ⟨hKind t ht, (hWithin t ht).1, (hWithin t ht).2⟩
  · exact agrees_of_reduce_none hScoped.pending h _
  · -- No bound variable is left in a value.
    intro v s hs
    rw [Bindings.value_of_get? hs]
    cases s with
    | none => rfl
    | some t =>
        rcases (hScoped.solved v (some t) hs).1 t rfl with
          ⟨hShaped, hScope⟩
        rw [Side.subst, Term.subst_eq_self hShaped]
        intro w hw
        exact Bindings.value_of_get?_none
          (hScoped.unbound (hScope w hw))

/- A run is over, or records bindings and goes on. -/
theorem solve_cases
    {names : Nat}
    {state : State}
    {θ : Bindings}
    (h : solve names state = .ok θ) :
    (reduce state.pending = .ok none ∧ θ = state.solved) ∨
      ∃ σ rest next names',
        names = names' + 1 ∧
          reduce state.pending = .ok (some (σ, rest)) ∧
          bind ⟨rest, state.solved⟩ σ = .ok next ∧
          solve names' next = .ok θ := by
  unfold solve at h
  cases hReduce : reduce state.pending with
  | error e => simp [hReduce] at h
  | ok found =>
      cases found with
      | none =>
          simp only [hReduce] at h
          cases h
          exact Or.inl ⟨rfl, rfl⟩
      | some found =>
          rcases found with ⟨σ, rest⟩
          simp only [hReduce] at h
          cases hBind : bind ⟨rest, state.solved⟩ σ with
          | error e => simp [hBind] at h
          | ok next =>
              simp only [hBind] at h
              cases names with
              | zero => cases h
              | succ names' =>
                  exact Or.inr
                    ⟨σ, rest, next, names', rfl, rfl, hBind, h⟩

/- What a run ends with solves the state it starts from. -/
theorem solves_of_solve
    {names : Nat}
    {κ : Kinding}
    {state : State}
    {θ : Bindings}
    (hScoped : Scoped κ.Has state)
    (h : solve names state = .ok θ) :
    ∃ κ',
      Solves κ' κ.Has state θ ∧ Narrows κ' κ.Has ∧
        Settled κ' θ := by
  induction names using Nat.strong_induction_on
    generalizing κ state with
  | _ names ih =>
      rcases solve_cases h with
        ⟨hDone, rfl⟩ |
          ⟨σ, rest, next, names', rfl, hReduce, hBind, hRun⟩
      · refine ⟨κ, solves_of_done hScoped hDone, ?_, ?_⟩
        · intro n k hk
          exact ⟨⟨n, k⟩, hk, rfl, le_refl k⟩
        · exact ⟨by simp, hScoped.solved, hScoped.keys⟩
      · rcases reduce_some hScoped.pending hReduce with
          ⟨⟨κ', hMoves⟩, hRest, hAgrees⟩
        have hScoped' : Scoped κ.Has ⟨rest, state.solved⟩ :=
          ⟨hRest, hScoped.solved, hScoped.keys⟩
        have hNext := scoped_bind hMoves hScoped' hBind
        rcases ih names' (Nat.lt_succ_self names') hNext hRun with
          ⟨κ'', hSolves, hNarrows, hSettled⟩
        -- The solution has absorbed the bindings of this step.
        have hAbsorbs :=
          absorbs_of_solves hMoves.functional hBind hSolves
        have hBefore :=
          solves_of_bind hMoves hScoped' hBind hSolves
        refine
          ⟨κ'', ⟨hBefore.fits, ?_, hBefore.solved⟩,
            hNarrows.trans hMoves.narrows, hSettled⟩
        exact hAgrees θ.value hAbsorbs hBefore.pending

end Unify

end StatementQuery

------------------------------------------------------------
-- The First State
------------------------------------------------------------

namespace StatementQuery

namespace Unify

/- The kinds that a table holds. -/
def tableKinds (table : List (String × Kind)) : Kinding :=
  fun n => table.lookup n

/- What a variable is narrowed to depends on it alone. -/
theorem functional_narrowing
    (table : List (String × Kind))
    (vs : List Variable) :
    (narrowing table vs).Functional := by
  apply Bindings.functional_of_eq
    fun w => some (.var (Variable.narrow table w))
  intro entry hEntry
  rcases List.mem_map.mp hEntry with ⟨w, _, rfl⟩
  rfl

/- Narrowing takes every variable to its least kind. -/
theorem value_narrowing
    (table : List (String × Kind))
    {vs : List Variable}
    {v : Variable}
    (hv : v ∈ vs) :
    (narrowing table vs).value v =
      some (.var (Variable.narrow table v)) := by
  by_cases hSame : Variable.narrow table v = v
  · have hUnbound : (narrowing table vs).get? v = none := by
      cases hGet : (narrowing table vs).get? v with
      | none => rfl
      | some s =>
          rcases List.mem_map.mp (Bindings.exists_entry hGet)
            with ⟨w, hw, hEntry⟩
          cases hEntry
          have hNarrow := (List.mem_filter.mp hw).2
          simp [hSame] at hNarrow
    rw [Bindings.value_of_get?_none hUnbound, hSame]
  · apply Bindings.value_of_get?
    refine
      functional_narrowing table vs
        (v, some (.var (Variable.narrow table v))) ?_
    refine List.mem_map.mpr ⟨v, ?_, rfl⟩
    exact List.mem_filter.mpr ⟨hv, by simpa using hSame⟩

/- Narrowing moves the scope of equations to the least kinds. -/
theorem moves_narrowing
    {vs : List Variable}
    {table : List (String × Kind)}
    (h : Variable.leastKinds vs = .ok table) :
    Moves (· ∈ vs) (narrowing table vs) (tableKinds table) := by
  rcases Variable.leastKinds_ok vs table h with ⟨hVars, hFrom⟩
  have hHas :
      ∀ v ∈ vs,
        (tableKinds table).Has (Variable.narrow table v) := by
    intro v hv
    rcases hVars v hv with ⟨l, hLookup, _⟩
    simp [Kinding.Has, tableKinds, Variable.narrow,
      Variable.withKind, hLookup]
  constructor
  · exact functional_narrowing table vs
  · intro v hv
    rw [value_narrowing table hv]
    have hFits :=
      Side.fits_some (Term.wellKinded_var (hHas v hv))
    exact hFits.mono (Variable.narrow_kind_le h hv)
  · intro v s hBound
    rcases List.mem_map.mp (Bindings.exists_entry hBound) with
      ⟨w, hw, hEntry⟩
    cases hEntry
    have hv : v ∈ vs := (List.mem_filter.mp hw).1
    have hDiffer : Variable.narrow table v ≠ v := by
      simpa using (List.mem_filter.mp hw).2
    refine ⟨hv, ?_⟩
    intro k hk
    have hLookup : table.lookup v.name = some k := hk
    have hKind : (Variable.narrow table v).kind = k := by
      simp [Variable.narrow, Variable.withKind, hLookup]
    refine lt_of_le_of_ne ?_ ?_
    · rw [← hKind]
      exact Variable.narrow_kind_le h hv
    · intro hEq
      apply hDiffer
      refine Variable.eq_of_name_of_kind rfl ?_
      rw [hKind, hEq]
  · intro n k hk
    rcases hFrom n k hk with ⟨w, hw, hName, hKind⟩
    exact ⟨w, hw, hName, le_of_eq hKind.symm⟩

/- Narrowing leaves all other variables as they are. -/
theorem value_narrowing_of_notMem
    (table : List (String × Kind))
    {vs : List Variable}
    {v : Variable}
    (hv : v ∉ vs) :
    (narrowing table vs).value v = some (.var v) := by
  apply Bindings.value_of_get?_none
  cases hGet : (narrowing table vs).get? v with
  | none => rfl
  | some s =>
      rcases List.mem_map.mp (Bindings.exists_entry hGet) with
        ⟨w, hw, hEntry⟩
      cases hEntry
      exact absurd (List.mem_filter.mp hw).1 hv

/- With none to narrow, all variables are at their least kinds. -/
theorem has_of_isEmpty_narrowing
    {vs : List Variable}
    {table : List (String × Kind)}
    (h : Variable.leastKinds vs = .ok table)
    (hEmpty : (narrowing table vs).entries.isEmpty = true) :
    ∀ v ∈ vs, (tableKinds table).Has v := by
  intro v hv
  apply (moves_narrowing h).has_of_unbound hv
  have hNil : (narrowing table vs).entries = [] := by
    simpa using hEmpty
  simp [Bindings.get?, hNil]

/-
  The first state is the equations themselves, if all variables
  are at their least kinds, or what narrowing them comes to.
-/
theorem start_eq_ok
    {eqs : List Equation}
    {state : State}
    (h : start eqs = .ok state) :
    ∃ table,
      Moves (· ∈ Equation.occurrences eqs)
          (narrowing table
            (Variable.sorted (Equation.occurrences eqs)))
          (tableKinds table) ∧
        (state = ⟨eqs, .empty⟩ ∧
            (∀ v ∈ Equation.occurrences eqs,
              (tableKinds table).Has v) ∨
          bind ⟨eqs, .empty⟩
              (narrowing table
                (Variable.sorted (Equation.occurrences eqs))) =
            .ok state) := by
  have hSame :
      (fun v => v ∈ Equation.occurrences eqs) =
        (· ∈ Variable.sorted (Equation.occurrences eqs)) := by
    funext v
    exact propext (Variable.mem_sorted v _).symm
  unfold start at h
  cases hTable :
      Variable.leastKinds
        (Variable.sorted (Equation.occurrences eqs)) with
  | error e => simp [hTable] at h
  | ok table =>
      simp only [hTable] at h
      refine ⟨table, hSame ▸ moves_narrowing hTable, ?_⟩
      split at h
      · rename_i hEmpty
        cases h
        refine Or.inl ⟨rfl, fun v hv => ?_⟩
        exact has_of_isEmpty_narrowing hTable hEmpty v
          ((Variable.mem_sorted v _).mpr hv)
      · exact Or.inr h

/- Where each name has one kind, the equations stay. -/
theorem start_of_atKinds
    {κ : Kinding}
    {eqs : List Equation}
    (h : Variable.AtKinds κ (Equation.occurrences eqs)) :
    start eqs = .ok ⟨eqs, .empty⟩ := by
  let vs := Variable.sorted (Equation.occurrences eqs)
  have hSorted : Variable.AtKinds κ vs := by
    intro v hv
    exact h v
      ((Variable.mem_sorted v (Equation.occurrences eqs)).mp hv)
  rcases Variable.exists_leastKinds_of_atKinds hSorted with
    ⟨table, hTable, hNarrow⟩
  have hNone : (narrowing table vs).entries.isEmpty = true := by
    simp only [narrowing, List.isEmpty_iff, List.map_eq_nil_iff,
      List.filter_eq_nil_iff]
    intro v hv
    simp [hNarrow v hv]
  simp only [start]
  rw [show Variable.sorted (Equation.occurrences eqs) = vs from rfl,
    hTable]
  simp [hNone]

/- Equations in a scope are in every wider scope. -/
theorem Within.mono
    {P Q : Variable → Prop}
    {eqs : List Equation}
    (h : Within P eqs)
    (hPQ : ∀ v, P v → Q v) :
    Within Q eqs := by
  intro e he
  constructor
  · intro t ht
    rcases (h e he).1 t ht with ⟨hShaped, hScope⟩
    exact ⟨hShaped, fun v hv => hPQ v (hScope v hv)⟩
  · intro t ht
    rcases (h e he).2 t ht with ⟨hShaped, hScope⟩
    exact ⟨hShaped, fun v hv => hPQ v (hScope v hv)⟩

/- Before any variable is bound, a state is its equations. -/
theorem scoped_of_within
    {P : Variable → Prop}
    {eqs : List Equation}
    (h : Within P eqs) :
    Scoped P ⟨eqs, .empty⟩ := by
  constructor
  · exact h
  · intro v s hv
    cases hv
  · intro v s hv
    cases hv

/-
  The first state has one kind for each name, and a solution
  of it is a solution of the equations.
-/
theorem start_ok
    {eqs : List Equation}
    {state : State}
    (hWithin : Within (· ∈ Equation.occurrences eqs) eqs)
    (h : start eqs = .ok state) :
    ∃ κ,
      Scoped κ.Has state ∧
        Narrows κ (· ∈ Equation.occurrences eqs) ∧
        ∀ κ' θ, Solves κ' κ.Has state θ →
          Solves κ' (· ∈ Equation.occurrences eqs)
            ⟨eqs, .empty⟩ θ := by
  rcases start_eq_ok h with ⟨table, hMoves, ⟨rfl, hHas⟩ | hBind⟩
  · -- Every variable is at its least kind already.
    refine
      ⟨tableKinds table, scoped_of_within (hWithin.mono hHas),
        hMoves.narrows, ?_⟩
    intro κ' θ hSolves
    refine ⟨?_, hSolves.pending, hSolves.solved⟩
    rintro v (hv | hBound)
    · exact hSolves.fits v (Or.inl (hHas v hv))
    · exact hSolves.fits v (Or.inr hBound)
  · have hScoped := scoped_of_within hWithin
    refine
      ⟨tableKinds table, scoped_bind hMoves hScoped hBind,
        hMoves.narrows, ?_⟩
    intro κ' θ hSolves
    exact solves_of_bind hMoves hScoped hBind hSolves

/- What unification returns solves the equations. -/
theorem solves_of_unify
    {eqs : List Equation}
    {θ : Bindings}
    (hWithin : Within (· ∈ Equation.occurrences eqs) eqs)
    (h : unify eqs = .ok θ) :
    ∃ κ,
      Solves κ (· ∈ Equation.occurrences eqs)
          ⟨eqs, .empty⟩ θ ∧
        Narrows κ (· ∈ Equation.occurrences eqs) ∧
        Settled κ θ := by
  rcases exists_of_bind_eq_ok h with ⟨state, hStart, hSolve⟩
  rcases start_ok hWithin hStart with
    ⟨κ, hScoped, hNarrows, hSolves⟩
  rcases solves_of_solve hScoped hSolve with
    ⟨κ', hRun, hNarrows', hSettled⟩
  exact
    ⟨κ', hSolves κ' θ hRun, hNarrows'.trans hNarrows, hSettled⟩

end Unify

end StatementQuery

------------------------------------------------------------
-- Soundness
------------------------------------------------------------

namespace StatementQuery

/-
  Two instantiations agree: both fail, or both succeed with
  sides that are the same.
-/
def SameOutcome :
    Except TermError Side → Except TermError Side → Prop
| .ok s, .ok t => Term.sameOption s t = true
| .error _, .error _ => True
| _, _ => False

instance : DecidableRel SameOutcome
| .ok s, .ok t =>
    inferInstanceAs (Decidable (Term.sameOption s t = true))
| .error _, .error _ => inferInstanceAs (Decidable True)
| .ok _, .error _ => inferInstanceAs (Decidable False)
| .error _, .ok _ => inferInstanceAs (Decidable False)

/- Instantiations agree when their outcomes do. -/
theorem sameOutcome_iff
    (x y : Except TermError Side) :
    SameOutcome x y ↔
      outcome x.toOption = outcome y.toOption := by
  cases x with
  | error e =>
      cases y with
      | error e' => simp [SameOutcome, Except.toOption]
      | ok t => simp [SameOutcome, Except.toOption, outcome]
  | ok s =>
      cases y with
      | error e => simp [SameOutcome, Except.toOption, outcome]
      | ok t =>
          simp [SameOutcome, Except.toOption, outcome,
            Term.sameOption_iff]

/- An equation whose present sides are well formed. -/
def Equation.WellFormed (e : Equation) : Prop :=
  ∀ t, e.1 = some t ∨ e.2 = some t → t.WellFormed

/- Well-formed equations are over their own variables. -/
theorem Equation.within_of_wellFormed
    {eqs : List Equation}
    (h : ∀ e ∈ eqs, Equation.WellFormed e) :
    Unify.Within (· ∈ Equation.occurrences eqs) eqs := by
  intro e he
  have hMem :
      ∀ v, v ∈ Side.occurrences e.1 ++ Side.occurrences e.2 →
        v ∈ Equation.occurrences eqs := by
    intro v hv
    exact List.mem_flatMap.mpr ⟨e, he, hv⟩
  constructor
  · intro t ht
    refine ⟨(h e he t (Or.inl ht)).shaped, ?_⟩
    intro v hv
    apply hMem
    simp [ht, Side.occurrences, hv]
  · intro t ht
    refine ⟨(h e he t (Or.inr ht)).shaped, ?_⟩
    intro v hv
    apply hMem
    simp [ht, Side.occurrences, hv]

/- Under a solution the sides of an equation agree. -/
theorem Unify.sameOutcome_of_solves
    {κ : Kinding}
    {eqs : List Equation}
    {θ : Bindings}
    (hWithin : Within (· ∈ Equation.occurrences eqs) eqs)
    (hSolves :
      Solves κ (· ∈ Equation.occurrences eqs) ⟨eqs, .empty⟩ θ)
    {e : Equation}
    (he : e ∈ eqs) :
    SameOutcome
      (Term.instantiateSide .lenient θ e.1)
      (Term.instantiateSide .lenient θ e.2) := by
  have hInstance :
      ∀ s, Side.Within (· ∈ Equation.occurrences eqs) s →
        (Term.instantiateSide .lenient θ s).toOption =
          Side.subst θ.value s := by
    intro s hs
    apply Term.instantiateSide_eq_subst rfl
    · intro t ht
      exact (hs t ht).1
    · intro v hv
      exact hSolves.fits v (Or.inl (hs.occurrences hv))
  rw [sameOutcome_iff, hInstance e.1 (hWithin e he).1,
    hInstance e.2 (hWithin e he).2]
  exact hSolves.pending e he

/-
  A unifier equates the two sides of every equation: their
  instances both fail, or are the same.
-/
theorem unify_sound
    {eqs : List Equation}
    {θ : Bindings}
    (hEqs : ∀ e ∈ eqs, Equation.WellFormed e)
    (h : unify eqs = .ok θ) :
    ∀ e ∈ eqs,
      SameOutcome
        (Term.instantiateSide .lenient θ e.1)
        (Term.instantiateSide .lenient θ e.2) := by
  have hWithin := Equation.within_of_wellFormed hEqs
  rcases Unify.solves_of_unify hWithin h with ⟨κ, hSolves, _⟩
  intro e he
  exact Unify.sameOutcome_of_solves hWithin hSolves he

/- One and a half, with a digit more than it needs. -/
def oneAndAHalf : Ground :=
  .value (.quantity ⟨⟨150, 2⟩, none, none, none⟩)

/-
  A quantity whose unit turns out to be absent, and a name at
  two kinds that meets the same number in another spelling.
-/
def quantityEquations : List Equation :=
  [(some
      (.app .quantity
        [some (.var ⟨"n", .quantity⟩),
          some (.var ⟨"unit", .item⟩), none, none]),
    some (.ground oneAndAHalf)),
  (some (.var ⟨"n", .value⟩),
    some
      (.ground (.value (.quantity ⟨⟨15, 1⟩, none, none, none⟩))))]

/- The bindings under which these equations agree. -/
def quantityUnifier : Bindings :=
  ⟨[(⟨"n", .value⟩, some (.ground oneAndAHalf)),
    (⟨"n", .quantity⟩, some (.ground oneAndAHalf)),
    (⟨"unit", .item⟩, none)]⟩

theorem unify_sound_quantityEquations :
    unify quantityEquations = .ok quantityUnifier ∧
      ∀ e ∈ quantityEquations,
        SameOutcome
          (Term.instantiateSide .lenient quantityUnifier e.1)
          (Term.instantiateSide .lenient quantityUnifier e.2) := by
  have hUnify : unify quantityEquations = .ok quantityUnifier := by
    rw [Unify.unify_eq_unifyFor]
    rfl
  refine ⟨hUnify, unify_sound ?_ hUnify⟩
  intro e he
  rcases List.mem_pair.mp he with rfl | rfl
  · rintro t (ht | ht) <;> cases ht <;> decide
  · rintro t (ht | ht) <;> cases ht <;> decide

end StatementQuery
