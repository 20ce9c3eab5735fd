import StatementQuery.Unify

/-
  The solver by structural recursion.

  Reducing a work list ends because its weight goes down.
  Counting down from the weight instead gives the same
  results, and lets closed instances be computed.

  Key definitions include:
    * `Unify.reduceFor`
    * `Unify.solveFor`
    * `Unify.unifyFor`

  Main declarations:
    * `Unify.unify_eq_unifyFor`
-/

------------------------------------------------------------
-- Reducing In A Number Of Steps
------------------------------------------------------------

namespace StatementQuery

namespace Unify

/- Reduce a work list in at most `n` steps. -/
def reduceFor :
    Nat → List Equation →
      Except UnifyFailure (Option (Bindings × List Equation))
| _, [] => .ok none
| 0, _ :: _ => .error .noProgress
| n + 1, (s, t) :: rest =>
    match step s t with
    | .error e => .error e
    | .ok .drop => reduceFor n rest
    | .ok (.replaceBy parts) => reduceFor n (parts ++ rest)
    | .ok (.bindTo θ) => .ok (some (θ, rest))

/- As many steps as a work list weighs are enough. -/
theorem reduce_eq_reduceFor
    {n : Nat}
    {eqs : List Equation}
    (h : Equation.weight eqs ≤ n) :
    reduce eqs = reduceFor n eqs := by
  fun_induction reduce eqs generalizing n with
  | case1 => simp [reduceFor]
  | case2 s t rest e hStep =>
      cases n with
      | zero => simp [Equation.weight] at h
      | succ n => simp [reduceFor, hStep]
  | case3 s t rest hStep ih =>
      cases n with
      | zero => simp [Equation.weight] at h
      | succ n =>
          have hRest : Equation.weight rest ≤ n := by
            simp only [Equation.weight] at h
            omega
          simp [reduceFor, hStep, ih hRest]
  | case4 s t rest parts hStep ih =>
      cases n with
      | zero => simp [Equation.weight] at h
      | succ n =>
          have hParts := weight_step s t parts hStep
          have hRest : Equation.weight (parts ++ rest) ≤ n := by
            simp only [Equation.weight] at h
            rw [Equation.weight_append]
            omega
          simp [reduceFor, hStep, ih hRest]
  | case5 s t rest θ hStep =>
      cases n with
      | zero => simp [Equation.weight] at h
      | succ n => simp [reduceFor, hStep]

end Unify

end StatementQuery

------------------------------------------------------------
-- Solving
------------------------------------------------------------

namespace StatementQuery

namespace Unify

/- Solve a work list, reducing it in a number of steps. -/
def solveFor
    (names : Nat)
    (state : State) :
    Except UnifyFailure Bindings :=
  match
    reduceFor (Equation.weight state.pending) state.pending
  with
  | .error e => .error e
  | .ok none => .ok state.solved
  | .ok (some (θ, rest)) =>
      match bind ⟨rest, state.solved⟩ θ with
      | .error e => .error e
      | .ok next =>
          match names with
          | 0 => .error .noProgress
          | names + 1 => solveFor names next

/- Both ways of reducing solve a work list alike. -/
theorem solve_eq_solveFor
    (names : Nat)
    (state : State) :
    solve names state = solveFor names state := by
  induction names generalizing state with
  | zero =>
      have hReduce :
          reduce state.pending =
            reduceFor (Equation.weight state.pending)
              state.pending :=
        reduce_eq_reduceFor (Nat.le_refl _)
      unfold solve solveFor
      exact hReduce ▸ rfl
  | succ names ih =>
      unfold solve solveFor
      rw [reduce_eq_reduceFor (Nat.le_refl _)]
      match reduceFor (Equation.weight state.pending)
          state.pending with
      | .error e => rfl
      | .ok none => rfl
      | .ok (some (θ, rest)) =>
          dsimp only
          cases bind ⟨rest, state.solved⟩ θ with
          | error e => rfl
          | ok next => exact ih next

/- Unify equations, reducing them in a number of steps. -/
def unifyFor (eqs : List Equation) : Except UnifyFailure Bindings := do
  let state ← start eqs
  solveFor (Equation.nameCount state.pending) state

/- Both ways of reducing unify equations alike. -/
theorem unify_eq_unifyFor
    (eqs : List Equation) :
    unify eqs = unifyFor eqs := by
  simp only [unify, unifyFor, solve_eq_solveFor]

end Unify

end StatementQuery
