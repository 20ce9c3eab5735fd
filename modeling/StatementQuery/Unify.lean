import StatementQuery.Term.Instantiate

/-
  Unification of terms with typed variables and absent
  arguments.

  An equation has two sides, each a term or absent.  Before
  solving, every name is narrowed to the least kind it occurs
  with, so that one name stands for one variable.  Solving
  takes the first equation of the work list:

    * equal sides are dropped;
    * two variables are merged into one of them, at the meet
      of their kinds;
    * a variable and anything else bind the variable, unless
      it occurs in that term;
    * two terms of one constructor are decomposed into
      equations between their arguments.

  Dropping and decomposing make the work list lighter, so an
  equation that asks for a binding is reached, if there is one.
  Binding a variable takes its name out of the work list, so
  there are at most as many bindings as names.

  Key definitions include:
    * `Equation`
    * `UnifyFailure`
    * `Unify.State`
    * `Unify.step`
    * `Unify.reduce`
    * `Unify.solve`
    * `unify`

  `Unify.weight_step` is what makes reducing end.
-/

------------------------------------------------------------
-- Equations And Failures
------------------------------------------------------------

namespace StatementQuery

/- One side of an equation; `none` is the absent value. -/
abbrev Side := Option Term

/- Two sides to be made equal. -/
abbrev Equation := Side × Side

/- Why equations have no unifier. -/
inductive UnifyFailure where
| clash (s t : Side)
| occurs (v : Variable) (t : Term)
| homonym (h : Homonym)
| term (e : TermError)
| noProgress

namespace UnifyFailure

/- The text of a failure. -/
def message : UnifyFailure → String
| .clash s t =>
    "cannot unify " ++ Term.renderSide s ++ " with " ++
      Term.renderSide t
| .occurs v t => v.render ++ " occurs in " ++ t.render
| .homonym h =>
    "?" ++ h.name ++ " is used as both " ++ h.first.name ++
      " and " ++ h.second.name
| .term e => e.message
| .noProgress => "no progress"

end UnifyFailure

end StatementQuery

------------------------------------------------------------
-- Measures Of A Work List
------------------------------------------------------------

namespace StatementQuery

namespace Term

mutual

/-
  The weight of a term: one for each constructor application
  and one for each of its present arguments.
-/
def weight : Term → Nat
| .ground _ => 0
| .var _ => 0
| .app _ args => 1 + weightArgs args

/- The weight of arguments. -/
def weightArgs : List (Option Term) → Nat
| [] => 0
| none :: args => weightArgs args
| some t :: args => 1 + t.weight + weightArgs args

end

end Term

namespace Side

/- The variables of a side, once for each occurrence. -/
def occurrences : Side → List Variable
| none => []
| some t => t.occurrences

/- The weight of a side. -/
def weight : Side → Nat
| none => 0
| some t => t.weight

end Side

namespace Equation

/- The variables of equations, once for each occurrence. -/
def occurrences (eqs : List Equation) : List Variable :=
  eqs.flatMap fun (s, t) => Side.occurrences s ++ Side.occurrences t

/- The number of distinct names in equations. -/
def nameCount (eqs : List Equation) : Nat :=
  ((occurrences eqs).map Variable.name).eraseDups.length

/- The weight of equations, each of which counts for one. -/
def weight : List Equation → Nat
| [] => 0
| (s, t) :: eqs =>
    1 + Side.weight s + Side.weight t + weight eqs

end Equation

end StatementQuery

------------------------------------------------------------
-- Binding And Decomposition
------------------------------------------------------------

namespace StatementQuery

namespace Unify

/- Equations still to solve, and the bindings found so far. -/
structure State where
  pending : List Equation
  solved : Bindings

/- Apply bindings to a side. -/
def substitute
    (θ : Bindings)
    (s : Side) :
    Except UnifyFailure Side :=
  (Term.instantiateSide .plain θ s).mapError .term

/- Apply bindings to equations, the last one first. -/
def substituteAll
    (θ : Bindings) :
    List Equation → Except UnifyFailure (List Equation)
| [] => .ok []
| (s, t) :: eqs => do
    let eqs' ← substituteAll θ eqs
    let s' ← substitute θ s
    let t' ← substitute θ t
    .ok ((s', t') :: eqs')

/- Apply bindings to bound values. -/
def substituteValues
    (θ : Bindings) :
    List (Variable × Option Term) →
      Except UnifyFailure (List (Variable × Option Term))
| [] => .ok []
| (v, value) :: entries => do
    let value' ← substitute θ value
    let entries' ← substituteValues θ entries
    .ok ((v, value') :: entries')

/-
  Apply bindings to the work list and to the values found so
  far, then record them.
-/
def bind
    (state : State)
    (θ : Bindings) :
    Except UnifyFailure State := do
  let pending ← substituteAll θ state.pending
  let values ← substituteValues θ state.solved.entries
  .ok ⟨pending, Bindings.union ⟨values⟩ θ⟩

/-
  The bindings that merge two variables.  The narrower one, or
  the left one, is bound to the other at the meet of both
  kinds.
-/
def merge (x y : Variable) : Except UnifyFailure Bindings :=
  let (gone, kept) := if y.kind < x.kind then (y, x) else (x, y)
  match gone.kind.meet kept.kind with
  | none => .error (.clash (some (.var gone)) (some (.var kept)))
  | some k =>
      let survivor := some (Term.var (kept.withKind k))
      let θ :=
        if kept.kind = k then Bindings.empty
        else Bindings.singleton kept survivor
      .ok (θ.insert gone survivor)

/- The binding of a variable to something else. -/
def eliminate (x : Variable) : Side → Except UnifyFailure Bindings
| none => .ok (.singleton x none)
| some t =>
    if ¬ t.kind ≤ x.kind then
      .error (.clash (some (.var x)) (some t))
    else if (t.occurrences.map Variable.name).contains x.name then
      .error (.occurs x t)
    else .ok (.singleton x (some t))

/-
  The equations between two lists of arguments, or nothing if
  an absent argument meets one that is not a variable.
-/
def pairArgs? :
    List (Option Term) → List (Option Term) →
      Option (List Equation)
| none :: as, none :: bs => pairArgs? as bs
| none :: as, some t :: bs =>
    if t.isVariable then
      (pairArgs? as bs).map ((none, some t) :: ·)
    else none
| some t :: as, none :: bs =>
    if t.isVariable then
      (pairArgs? as bs).map ((some t, none) :: ·)
    else none
| some t :: as, some u :: bs =>
    (pairArgs? as bs).map ((some t, some u) :: ·)
| _, _ => some []

/- The equations between the arguments of two terms. -/
def decompose? : Side → Side → Option (List Equation)
| some s, some t =>
    if s.kind ≠ t.kind || (s.isGround && t.isGround) then none
    else
      match s.args?, t.args? with
      | some as, some bs => pairArgs? as bs
      | _, _ => none
| _, _ => none

/- Paired arguments weigh no more than the arguments do. -/
theorem weight_pairArgs?
    (as bs : List (Option Term))
    (eqs : List Equation)
    (h : pairArgs? as bs = some eqs) :
    Equation.weight eqs ≤
      Term.weightArgs as + Term.weightArgs bs := by
  fun_induction pairArgs? as bs generalizing eqs with
  | case1 as bs ih =>
      simpa [Term.weightArgs] using ih eqs h
  | case2 as t bs hVar ih =>
      rcases Option.map_eq_some_iff.mp h with ⟨rest, hRest, rfl⟩
      have := ih rest hRest
      simp [Term.weightArgs, Equation.weight, Side.weight]
      omega
  | case3 => simp at h
  | case4 t as bs hVar ih =>
      rcases Option.map_eq_some_iff.mp h with ⟨rest, hRest, rfl⟩
      have := ih rest hRest
      simp [Term.weightArgs, Equation.weight, Side.weight]
      omega
  | case5 => simp at h
  | case6 t as u bs ih =>
      rcases Option.map_eq_some_iff.mp h with ⟨rest, hRest, rfl⟩
      have := ih rest hRest
      simp [Term.weightArgs, Equation.weight, Side.weight]
      omega
  | case7 =>
      cases h
      simp [Equation.weight]

/- Ground arguments on the left add no weight. -/
theorem weight_pairArgs?_ground_left
    (gs : List (Option Ground))
    (bs : List (Option Term))
    (eqs : List Equation)
    (h :
      pairArgs? (gs.map (Option.map Term.ground)) bs =
        some eqs) :
    Equation.weight eqs ≤ Term.weightArgs bs := by
  induction gs generalizing bs eqs with
  | nil =>
      cases h
      exact Nat.zero_le _
  | cons g gs ih =>
      cases bs with
      | nil =>
          cases g <;> cases h <;> exact Nat.zero_le _
      | cons b bs =>
          rcases g with _ | g <;> rcases b with _ | u
          · simpa [Term.weightArgs] using ih bs eqs h
          · simp only [List.map_cons, Option.map_none, pairArgs?]
              at h
            split at h
            · rcases Option.map_eq_some_iff.mp h with
                ⟨rest, hRest, rfl⟩
              have := ih bs rest hRest
              simp [Term.weightArgs, Equation.weight, Side.weight]
              omega
            · simp at h
          · simp [pairArgs?, Term.isVariable] at h
          · rcases Option.map_eq_some_iff.mp h with
              ⟨rest, hRest, rfl⟩
            have := ih bs rest hRest
            simp [Term.weightArgs, Equation.weight, Side.weight,
              Term.weight]
            omega

/- Ground arguments on the right add no weight. -/
theorem weight_pairArgs?_ground_right
    (as : List (Option Term))
    (gs : List (Option Ground))
    (eqs : List Equation)
    (h :
      pairArgs? as (gs.map (Option.map Term.ground)) =
        some eqs) :
    Equation.weight eqs ≤ Term.weightArgs as := by
  induction gs generalizing as eqs with
  | nil =>
      cases as with
      | nil =>
          cases h
          exact Nat.zero_le _
      | cons a as =>
          cases a <;> cases h <;> exact Nat.zero_le _
  | cons g gs ih =>
      cases as with
      | nil =>
          cases h
          exact Nat.zero_le _
      | cons a as =>
          rcases g with _ | g <;> rcases a with _ | u
          · simpa [Term.weightArgs] using ih as eqs h
          · simp only [List.map_cons, Option.map_none, pairArgs?]
              at h
            split at h
            · rcases Option.map_eq_some_iff.mp h with
                ⟨rest, hRest, rfl⟩
              have := ih as rest hRest
              simp [Term.weightArgs, Equation.weight, Side.weight]
              omega
            · simp at h
          · simp [pairArgs?, Term.isVariable] at h
          · rcases Option.map_eq_some_iff.mp h with
              ⟨rest, hRest, rfl⟩
            have := ih as rest hRest
            simp [Term.weightArgs, Equation.weight, Side.weight,
              Term.weight]
            omega

/- Decomposition makes equations lighter. -/
theorem weight_decompose?
    (s t : Side)
    (eqs : List Equation)
    (h : decompose? s t = some eqs) :
    Equation.weight eqs < 1 + Side.weight s + Side.weight t := by
  rcases s with _ | s <;> rcases t with _ | t
  · simp [decompose?] at h
  · simp [decompose?] at h
  · simp [decompose?] at h
  · simp only [decompose?] at h
    split at h
    · simp at h
    · rename_i hOpen
      cases s with
      | var x => simp [Term.args?] at h
      | ground g =>
          cases t with
          | var y => simp [Term.args?] at h
          | ground g' => simp [Term.isGround] at hOpen
          | app c bs =>
              cases hArgs : g.args? with
              | none => simp [Term.args?, hArgs] at h
              | some gs =>
                  simp only [Term.args?, hArgs, Option.map_some]
                    at h
                  have :=
                    weight_pairArgs?_ground_left gs bs eqs h
                  simp only [Side.weight, Term.weight]
                  omega
      | app c as =>
          cases t with
          | var y => simp [Term.args?] at h
          | ground g =>
              cases hArgs : g.args? with
              | none => simp [Term.args?, hArgs] at h
              | some gs =>
                  simp only [Term.args?, hArgs, Option.map_some]
                    at h
                  have :=
                    weight_pairArgs?_ground_right as gs eqs h
                  simp only [Side.weight, Term.weight]
                  omega
          | app d bs =>
              have := weight_pairArgs? as bs eqs h
              simp only [Side.weight, Term.weight]
              omega

end Unify

end StatementQuery

------------------------------------------------------------
-- Solving
------------------------------------------------------------

namespace StatementQuery

namespace Equation

/- The weights of two lists of equations add up. -/
theorem weight_append
    (xs ys : List Equation) :
    weight (xs ++ ys) = weight xs + weight ys := by
  induction xs with
  | nil => simp [weight]
  | cons x xs ih =>
      simp [weight, ih]
      omega

end Equation

namespace Unify

/- What the first equation of a work list asks for. -/
inductive Step where
| drop
| bindTo (θ : Bindings)
| replaceBy (eqs : List Equation)

/- The bindings or equations that an equation asks for. -/
def step (s t : Side) : Except UnifyFailure Step :=
  if Term.sameOption s t then .ok .drop
  else
    match s, t with
    | some (.var x), some (.var y) => (merge x y).map .bindTo
    | some (.var x), t => (eliminate x t).map .bindTo
    | s, some (.var x) => (eliminate x s).map .bindTo
    | s, t =>
        match decompose? s t with
        | some eqs => .ok (.replaceBy eqs)
        | none => .error (.clash s t)

/- An equation is only replaced by lighter ones. -/
theorem weight_step
    (s t : Side)
    (eqs : List Equation)
    (h : step s t = .ok (.replaceBy eqs)) :
    Equation.weight eqs < 1 + Side.weight s + Side.weight t := by
  unfold step at h
  split at h
  · simp at h
  · split at h
    · rename_i x y _
      cases hM : merge x y <;> simp [hM, Except.map] at h
    · rename_i x _ _
      cases hE : eliminate x t <;> simp [hE, Except.map] at h
    · rename_i x _ _
      cases hE : eliminate x s <;> simp [hE, Except.map] at h
    · split at h
      · rename_i parts hParts
        cases h
        exact weight_decompose? _ _ _ hParts
      · simp at h

set_option linter.unusedVariables false in
/-
  Drop and decompose equations up to the first that asks for
  bindings, and return those with the equations after it.
-/
def reduce
    (eqs : List Equation) :
    Except UnifyFailure (Option (Bindings × List Equation)) :=
  match eqs with
  | [] => .ok none
  | (s, t) :: rest =>
      match hStep : step s t with
      | .error e => .error e
      | .ok .drop => reduce rest
      | .ok (.replaceBy parts) => reduce (parts ++ rest)
      | .ok (.bindTo θ) => .ok (some (θ, rest))
termination_by Equation.weight eqs
decreasing_by
  · simp only [Equation.weight]
    omega
  · have := weight_step s t parts hStep
    simp only [Equation.weight, Equation.weight_append]
    omega

/-
  Solve a work list in which at most `names` distinct names
  occur.  Each binding takes one of them out, so there are
  names enough whenever the terms are well formed.
-/
def solve
    (names : Nat)
    (state : State) :
    Except UnifyFailure Bindings :=
  match reduce state.pending with
  | .error e => .error e
  | .ok none => .ok state.solved
  | .ok (some (θ, rest)) =>
      match bind ⟨rest, state.solved⟩ θ with
      | .error e => .error e
      | .ok next =>
          match names with
          | 0 => .error .noProgress
          | names + 1 => solve names next

end Unify

end StatementQuery

------------------------------------------------------------
-- Unification
------------------------------------------------------------

namespace StatementQuery

namespace Unify

/-
  The bindings that declare each variable at the least kind
  its name occurs with, for variables declared wider.
-/
def narrowing
    (table : List (String × Kind))
    (vs : List Variable) :
    Bindings :=
  ⟨(vs.filter fun v => Variable.narrow table v ≠ v).map fun v =>
    (v, some (.var (Variable.narrow table v)))⟩

/- The state in which every name has one kind. -/
def start (eqs : List Equation) : Except UnifyFailure State :=
  let vs := Variable.sorted (Equation.occurrences eqs)
  match Variable.leastKinds vs with
  | .error h => .error (.homonym h)
  | .ok table =>
      let θ := narrowing table vs
      if θ.entries.isEmpty then .ok ⟨eqs, .empty⟩
      else bind ⟨eqs, .empty⟩ θ

end Unify

/- Bindings under which both sides of each equation agree. -/
def unify (eqs : List Equation) : Except UnifyFailure Bindings := do
  let state ← Unify.start eqs
  Unify.solve (Equation.nameCount state.pending) state

/- Bindings under which two terms agree, if there are any. -/
def Term.matchWith? (t u : Term) : Option Bindings :=
  (unify [(some t, some u)]).toOption

end StatementQuery
