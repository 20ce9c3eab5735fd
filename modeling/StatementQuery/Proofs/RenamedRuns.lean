import StatementQuery.Proofs.MirroredRuns
import StatementQuery.Proofs.SolvedForms

/-
  Runs of the solver under other names.

  Where the names of equations are permuted, each step of the
  solver does to the renamed equations what it does to the
  equations, and what it records is recorded under the new
  names.  So the unifier of renamed equations is the unifier
  of the equations, renamed.

  Key definitions include:
    * `Bindings.Copies`
    * `Equation.renamed`
    * `Unify.State.Copies`

  Main declarations:
    * `exists_perm_of_pairs`
    * `Unify.reduce_renamed`
    * `Unify.copies_bind`
    * `Unify.exists_solve_of_copies`
    * `Unify.exists_unify_of_renamed`
-/

------------------------------------------------------------
-- Permutations Of Names
------------------------------------------------------------

namespace StatementQuery

/- Names that differ are taken to names that differ. -/
theorem exists_perm_of_pairs
    (pairs : List (String × String))
    (hFrom : (pairs.map Prod.fst).Nodup)
    (hTo : (pairs.map Prod.snd).Nodup) :
    ∃ π : Equiv.Perm String, ∀ pair ∈ pairs, π pair.1 = pair.2 := by
  induction pairs with
  | nil => exact ⟨Equiv.refl String, by simp⟩
  | cons pair pairs ih =>
      rw [List.map_cons, List.nodup_cons] at hFrom hTo
      rcases ih hFrom.2 hTo.2 with ⟨π, hπ⟩
      -- Where the first name goes now and where it has to go
      -- are exchanged, and the other names are at neither.
      refine ⟨π.trans (Equiv.swap (π pair.1) pair.2), ?_⟩
      intro other hOther
      rcases List.mem_cons.mp hOther with rfl | hRest
      · simp
      · rw [Equiv.trans_apply, hπ other hRest]
        apply Equiv.swap_apply_of_ne_of_ne
        · rw [← hπ other hRest]
          intro hEq
          apply hFrom.1
          rw [← π.injective hEq]
          exact List.mem_map_of_mem hRest
        · intro hEq
          apply hTo.1
          rw [← hEq]
          exact List.mem_map_of_mem hRest

end StatementQuery

------------------------------------------------------------
-- Copies Of Bindings
------------------------------------------------------------

namespace StatementQuery

namespace Variable

/- A permutation of names can be undone. -/
theorem renamed_symm_renamed
    (ρ : Equiv.Perm String)
    (v : Variable) :
    (v.renamed ρ.symm).renamed ρ = v :=
  eq_of_name_of_kind (ρ.apply_symm_apply v.name) rfl

end Variable

namespace Bindings

/- Bindings of the renamed variables to the renamed sides. -/
structure Copies
    (ρ : Equiv.Perm String)
    (θ θ' : Bindings) :
    Prop where
  get?_renamed :
    ∀ v, θ'.get? (v.renamed ρ) = (θ.get? v).map (Side.renamed ρ)
  functional : θ'.Functional

variable {ρ : Equiv.Perm String} {θ θ' : Bindings}

/- A renamed variable has the renamed value. -/
theorem Copies.value
    (h : Copies ρ θ θ')
    (v : Variable) :
    θ'.value (v.renamed ρ) = Side.renamed ρ (θ.value v) := by
  have hGet := h.get?_renamed v
  cases hValue : θ.get? v with
  | none =>
      rw [hValue] at hGet
      rw [value_of_get?_none hValue, value_of_get?_none hGet]
      rfl
  | some s =>
      rw [hValue] at hGet
      rw [value_of_get? hValue, value_of_get? hGet]

/- Copies are twins whose names stay permuted as they are. -/
theorem Copies.twins
    (h : Copies ρ θ θ')
    (P : Variable → Prop) :
    Unify.Twins P ρ ρ θ θ' := by
  refine ⟨fun v _ => h.value v, ?_⟩
  intro entry' hEntry
  have hGet := h.get?_renamed (entry'.1.renamed ρ.symm)
  rw [Variable.renamed_symm_renamed, h.functional entry' hEntry]
    at hGet
  rcases Option.map_eq_some_iff.mp hGet.symm with ⟨s, hs, hEq⟩
  exact ⟨_, s, hs, hEq.symm⟩

theorem copies_empty
    (ρ : Equiv.Perm String) :
    Copies ρ .empty .empty := by
  refine ⟨fun v => rfl, ?_⟩
  intro entry hEntry
  cases hEntry

theorem copies_singleton
    (ρ : Equiv.Perm String)
    (x : Variable)
    (u : Side) :
    Copies ρ (.singleton x u)
      (.singleton (x.renamed ρ) (Side.renamed ρ u)) := by
  constructor
  · intro v
    by_cases hv : v = x
    · simp [hv]
    · simp [(Variable.renamed_injective ρ).eq_iff, hv]
  · intro entry hEntry
    cases List.mem_singleton.mp hEntry
    simp

end Bindings

namespace Unify

/- Renamed variables are merged into the renamed survivor. -/
theorem copies_mergeInto
    (ρ : Equiv.Perm String)
    (gone kept : Variable) :
    Bindings.Copies ρ (mergeInto gone kept)
      (mergeInto (gone.renamed ρ) (kept.renamed ρ)) := by
  constructor
  · intro v
    simp only [get?_mergeInto,
      (Variable.renamed_injective ρ).eq_iff]
    have hKinds :
        (kept.renamed ρ).kind ≠ (gone.renamed ρ).kind ↔
          kept.kind ≠ gone.kind := Iff.rfl
    simp only [hKinds]
    split
    · rfl
    · rfl
  · apply Bindings.functional_of_eq
      fun _ => some (.var (survivor (gone.renamed ρ) (kept.renamed ρ)))
    intro entry hEntry
    exact snd_of_mem_mergeInto hEntry

end Unify

end StatementQuery

------------------------------------------------------------
-- Renamed Equations
------------------------------------------------------------

namespace StatementQuery

/- An equation between renamed sides. -/
def Equation.renamed
    (ρ : Equiv.Perm String)
    (e : Equation) :
    Equation :=
  (Side.renamed ρ e.1, Side.renamed ρ e.2)

namespace Unify

variable {ρ : Equiv.Perm String}

/- Renamed equations are mirrored with their sides in place. -/
theorem mirrors_renamed
    (ρ : Equiv.Perm String)
    (eqs : List Equation) :
    List.Forall₂ (Mirrors ρ) eqs (eqs.map (Equation.renamed ρ)) := by
  rw [List.forall₂_map_right_iff]
  exact List.forall₂_same.mpr fun e _ => .upright e.1 e.2

/- A renamed equation is replaced by the renamed parts. -/
theorem replaceBy_renamed
    (ρ : Equiv.Perm String)
    {s t : Side}
    {parts : List Equation}
    (h : step s t = .ok (.replaceBy parts)) :
    step (Side.renamed ρ s) (Side.renamed ρ t) =
      .ok (.replaceBy (parts.map (Equation.renamed ρ))) := by
  apply step_of_decompose?
  · rw [Side.sameOption_renamed]
    exact differ_of_step h (by simp)
  · rw [decompose?_renamed, decompose?_of_step h]
    rfl

/- Merging renamed variables binds copies. -/
theorem merge_renamed
    (ρ : Equiv.Perm String)
    {x y : Variable}
    {τ : Bindings}
    (h : merge x y = .ok τ) :
    ∃ τ', merge (x.renamed ρ) (y.renamed ρ) = .ok τ' ∧
      Bindings.Copies ρ τ τ' := by
  rcases merge_ok h with
    ⟨gone, kept, ⟨rfl, rfl, _⟩ | ⟨rfl, rfl, hLt⟩, hLe, rfl⟩
  · exact ⟨_, merge_of_le hLe, copies_mergeInto ρ gone kept⟩
  · exact ⟨_, merge_of_lt hLt, copies_mergeInto ρ gone kept⟩

/- A renamed equation binds copies. -/
theorem bindTo_renamed
    (ρ : Equiv.Perm String)
    {s t : Side}
    {τ : Bindings}
    (h : step s t = .ok (.bindTo τ)) :
    ∃ τ',
      step (Side.renamed ρ s) (Side.renamed ρ t) =
          .ok (.bindTo τ') ∧
        Bindings.Copies ρ τ τ' := by
  rcases bindTo_cases h with
    ⟨x, y, rfl, rfl, hNe, hMerge⟩ |
      ⟨x, u, hSides, hu, hEliminate⟩
  · rcases merge_renamed ρ hMerge with ⟨τ', hMerge', hCopies⟩
    refine ⟨τ', ?_, hCopies⟩
    simp only [Side.renamed_var]
    rw [step_of_vars ((Variable.renamed_injective ρ).ne hNe),
      hMerge']
    rfl
  · have hu' : ∀ y, Side.renamed ρ u ≠ some (.var y) := by
      intro y hy
      rcases u with _ | (g | w | ⟨c, args⟩)
      · cases hy
      · cases hy
      · exact hu w rfl
      · cases hy
    have hCopy := eliminate_renamed ρ hEliminate
    rcases eliminate_ok hEliminate with ⟨rfl, _, _⟩
    refine ⟨_, ?_, Bindings.copies_singleton ρ x u⟩
    rcases hSides with ⟨rfl, rfl⟩ | ⟨rfl, rfl⟩
    · simp only [Side.renamed_var]
      rw [step_of_var_left hu', hCopy]
      rfl
    · simp only [Side.renamed_var]
      rw [step_of_var_right hu', hCopy]
      rfl

/- A renamed work list asks for copies. -/
theorem reduce_renamed
    (ρ : Equiv.Perm String)
    {eqs rest : List Equation}
    {τ : Bindings}
    (h : reduce eqs = .ok (some (τ, rest))) :
    ∃ τ',
      reduce (eqs.map (Equation.renamed ρ)) =
          .ok (some (τ', rest.map (Equation.renamed ρ))) ∧
        Bindings.Copies ρ τ τ' := by
  fun_induction reduce eqs with
  | case1 => cases h
  | case2 s t rest' e hStep => cases h
  | case3 s t rest' hStep ih =>
      rcases ih h with ⟨τ', hReduce, hCopies⟩
      refine ⟨τ', ?_, hCopies⟩
      rw [List.map_cons, Equation.renamed,
        reduce_of_drop ((Mirrors.upright s t).drop hStep)]
      exact hReduce
  | case4 s t rest' parts hStep ih =>
      rcases ih h with ⟨τ', hReduce, hCopies⟩
      refine ⟨τ', ?_, hCopies⟩
      rw [List.map_cons, Equation.renamed,
        reduce_of_replace (replaceBy_renamed ρ hStep),
        ← List.map_append]
      exact hReduce
  | case5 s t rest' σ hStep =>
      cases h
      rcases bindTo_renamed ρ hStep with ⟨τ', hStep', hCopies⟩
      exact ⟨τ', reduce_of_bindTo hStep' _, hCopies⟩

end Unify

end StatementQuery

------------------------------------------------------------
-- Renamed Runs
------------------------------------------------------------

namespace StatementQuery

namespace Unify

variable {ρ : Equiv.Perm String}

/- Copies are applied to renamed equations. -/
theorem substituteAll_renamed
    {P : Variable → Prop}
    {κ : Kinding}
    {τ τ' : Bindings}
    (h : Bindings.Copies ρ τ τ')
    (hMoves : Moves P τ κ)
    {eqs next : List Equation}
    (hWithin : Within P eqs)
    (hSubst : substituteAll τ eqs = .ok next) :
    substituteAll τ' (eqs.map (Equation.renamed ρ)) =
      .ok (next.map (Equation.renamed ρ)) := by
  induction eqs generalizing next with
  | nil =>
      cases hSubst
      rfl
  | cons e eqs ih =>
      rcases e with ⟨s, t⟩
      rcases hWithin (s, t) (by simp) with ⟨hs, ht⟩
      rcases exists_of_bind_eq_ok hSubst with
        ⟨rest, hRest, hSubst⟩
      rcases exists_of_bind_eq_ok hSubst with ⟨p, hp, hSubst⟩
      rcases exists_of_bind_eq_ok hSubst with ⟨q, hq, hSubst⟩
      cases hSubst
      have hRest' :=
        ih (fun e he => hWithin e (by simp [he])) hRest
      have hp' := (h.twins P).substitute hMoves hs hp
      have hq' := (h.twins P).substitute hMoves ht hq
      simp only [List.map_cons, substituteAll, hRest',
        Equation.renamed, hp', hq']
      rfl

/- A state with the renamed equations and copies of the bindings. -/
structure State.Copies
    (ρ : Equiv.Perm String)
    (state state' : State) :
    Prop where
  pending :
    state'.pending = state.pending.map (Equation.renamed ρ)
  solved : Bindings.Copies ρ state.solved state'.solved

/- So both are reduced to nothing. -/
theorem State.Copies.reduce_none
    {state state' : State}
    (h : State.Copies ρ state state')
    (hDone : reduce state.pending = .ok none) :
    reduce state'.pending = .ok none := by
  rw [h.pending]
  exact
    reduce_none_of_mirrors (mirrors_renamed ρ state.pending) hDone

/- What is bound neither now nor before is not bound. -/
theorem get?_bind_of_none
    {state next : State}
    {σ : Bindings}
    (hσ : σ.Functional)
    (h : bind state σ = .ok next)
    {v : Variable}
    (hNew : σ.get? v = none)
    (hOld : state.solved.get? v = none) :
    next.solved.get? v = none := by
  cases hGet : next.solved.get? v with
  | none => rfl
  | some s =>
      rcases get?_bind_cases hσ h hGet with hs | ⟨r, hr, _⟩
      · rw [hNew] at hs
        cases hs
      · rw [hOld] at hr
        cases hr

section Recording

variable {P : Variable → Prop}
variable {κ : Kinding}
variable {τ τ' : Bindings}
variable {state state' next next' : State}

/- Recording copies records copies. -/
theorem get?_bind_renamed
    (h : Bindings.Copies ρ τ τ')
    (hMoves : Moves P τ κ)
    (hScoped : Scoped P state)
    (hState : State.Copies ρ state state')
    (hBind : bind state τ = .ok next)
    (hBind' : bind state' τ' = .ok next')
    (v : Variable) :
    next'.solved.get? (v.renamed ρ) =
      (next.solved.get? v).map (Side.renamed ρ) := by
  have hNew := h.get?_renamed v
  have hOld := hState.solved.get?_renamed v
  cases hBound : τ.get? v with
  | some s =>
      rw [hBound] at hNew
      rw [get?_bind_of_bound hMoves.functional hBind hBound,
        get?_bind_of_bound h.functional hBind' hNew]
      rfl
  | none =>
      rw [hBound] at hNew
      cases hSolved : state.solved.get? v with
      | some s =>
          rw [hSolved] at hOld
          rcases get?_bind_of_unbound hMoves.functional hBind
              hBound hSolved with ⟨r, hSubst, hGet⟩
          rcases get?_bind_of_unbound h.functional hBind'
              hNew hOld with ⟨r', hSubst', hGet'⟩
          have hCopy :=
            (h.twins P).substitute hMoves
              (hScoped.solved v s hSolved).1 hSubst
          rw [hGet, hGet']
          rw [hCopy] at hSubst'
          cases hSubst'
          rfl
      | none =>
          rw [hSolved] at hOld
          rw [get?_bind_of_none hMoves.functional hBind hBound
              hSolved,
            get?_bind_of_none h.functional hBind' hNew hOld]
          rfl

/- A variable that is bound already is not bound again. -/
theorem functional_bind_of_copies
    (h : Bindings.Copies ρ τ τ')
    (hMoves : Moves P τ κ)
    (hScoped : Scoped P state)
    (hState : State.Copies ρ state state')
    (hBind' : bind state' τ' = .ok next') :
    next'.solved.Functional := by
  rcases bind_ok hBind' with ⟨_, values', hValues', hSolved'⟩
  rw [hSolved']
  apply Bindings.functional_union
    (functional_substituteValues hState.solved.functional hValues')
    h.functional
  intro w s hw
  -- The copies bind what the bindings do, under other names.
  have hNew := h.get?_renamed (w.renamed ρ.symm)
  have hOld := hState.solved.get?_renamed (w.renamed ρ.symm)
  rw [Variable.renamed_symm_renamed] at hNew hOld
  cases hSolved : state.solved.get? (w.renamed ρ.symm) with
  | none =>
      rw [hSolved] at hOld
      rw [(get?_substituteValues hValues' w).2 hOld] at hw
      cases hw
  | some s =>
      rw [hNew, unbound_of_solved hMoves hScoped hSolved]
      rfl

/- Recording copies keeps the states alike. -/
theorem copies_bind
    (h : Bindings.Copies ρ τ τ')
    (hMoves : Moves P τ κ)
    (hScoped : Scoped P state)
    (hState : State.Copies ρ state state')
    (hBind : bind state τ = .ok next) :
    ∃ next', bind state' τ' = .ok next' ∧
      State.Copies ρ next next' := by
  have hFollows : Follows ρ state state' := by
    refine ⟨?_, (hState.solved.twins P).entries⟩
    rw [hState.pending]
    exact mirrors_renamed ρ state.pending
  rcases follows_bind (h.twins P) hMoves hScoped hFollows hBind with
    ⟨next', hBind', _⟩
  have hPending := (bind_ok hBind').1
  rw [hState.pending,
    substituteAll_renamed h hMoves hScoped.pending
      (bind_ok hBind).1] at hPending
  exact
    ⟨next', hBind', (Except.ok.inj hPending).symm,
      get?_bind_renamed h hMoves hScoped hState hBind hBind',
      functional_bind_of_copies h hMoves hScoped hState hBind'⟩

end Recording

/- A run with copies ends with copies. -/
theorem exists_solve_of_copies
    {names : Nat}
    {κ : Kinding}
    {state state' : State}
    {θ : Bindings}
    (hScoped : Scoped κ.Has state)
    (hState : State.Copies ρ state state')
    (h : solve names state = .ok θ) :
    ∃ θ', solve names state' = .ok θ' ∧
      Bindings.Copies ρ θ θ' := by
  induction names using Nat.strong_induction_on
    generalizing κ state state' with
  | _ names ih =>
      rcases solve_cases h with
        ⟨hDone, rfl⟩ |
          ⟨τ, rest, next, names', rfl, hReduce, hBind, hRun⟩
      · refine ⟨state'.solved, ?_, hState.solved⟩
        unfold solve
        simp only [hState.reduce_none hDone]
      · rcases reduce_some hScoped.pending hReduce with
          ⟨⟨κ', hMoves⟩, hRest, _⟩
        rcases reduce_renamed ρ hReduce with
          ⟨τ', hReduce', hCopies⟩
        have hScoped' : Scoped κ.Has ⟨rest, state.solved⟩ :=
          ⟨hRest, hScoped.solved, hScoped.keys⟩
        have hState' :
            State.Copies ρ ⟨rest, state.solved⟩
              ⟨rest.map (Equation.renamed ρ), state'.solved⟩ :=
          ⟨rfl, hState.solved⟩
        rcases copies_bind hCopies hMoves hScoped' hState' hBind
          with ⟨next', hBind', hNext⟩
        rcases ih names' (Nat.lt_succ_self names')
            (scoped_bind hMoves hScoped' hBind) hNext hRun with
          ⟨θ', hRun', hCopies'⟩
        refine ⟨θ', ?_, hCopies'⟩
        rw [← hState.pending] at hReduce'
        unfold solve
        simp only [hReduce', hBind']
        exact hRun'

/- The variables of renamed equations are the renamed ones. -/
theorem mem_occurrences_renamed
    (ρ : Equiv.Perm String)
    (eqs : List Equation)
    (w : Variable) :
    w ∈ Equation.occurrences (eqs.map (Equation.renamed ρ)) ↔
      ∃ v ∈ Equation.occurrences eqs, v.renamed ρ = w := by
  have hSide :
      ∀ s, w ∈ Side.occurrences (Side.renamed ρ s) ↔
        ∃ v ∈ Side.occurrences s, v.renamed ρ = w := by
    intro s
    cases s with
    | none => simp [Side.occurrences]
    | some t => exact Term.mem_occurrences_mapVariables _ t w
  simp only [Equation.occurrences, List.flatMap_map,
    List.mem_flatMap, Equation.renamed, List.mem_append, hSide]
  constructor
  · rintro ⟨e, he, ⟨v, hv, rfl⟩ | ⟨v, hv, rfl⟩⟩
    · exact ⟨v, ⟨e, he, Or.inl hv⟩, rfl⟩
    · exact ⟨v, ⟨e, he, Or.inr hv⟩, rfl⟩
  · rintro ⟨v, ⟨e, he, hv | hv⟩, rfl⟩
    · exact ⟨e, he, Or.inl ⟨v, hv, rfl⟩⟩
    · exact ⟨e, he, Or.inr ⟨v, hv, rfl⟩⟩

/- Renamed equations have as many names. -/
theorem nameCount_renamed
    (ρ : Equiv.Perm String)
    (eqs : List Equation) :
    Equation.nameCount (eqs.map (Equation.renamed ρ)) =
      Equation.nameCount eqs := by
  have hPerm :
      (names (eqs.map (Equation.renamed ρ))).eraseDups.Perm
        ((names eqs).eraseDups.map ρ) := by
    refine
      (List.perm_ext_iff_of_nodup (nodup_eraseDups _)
        ((nodup_eraseDups _).map ρ.injective)).mpr ?_
    intro n
    simp only [List.mem_eraseDups, List.mem_map, names,
      mem_occurrences_renamed]
    constructor
    · rintro ⟨_, ⟨v, hv, rfl⟩, rfl⟩
      exact ⟨v.name, ⟨v, hv, rfl⟩, rfl⟩
    · rintro ⟨_, ⟨v, hv, rfl⟩, rfl⟩
      exact ⟨v.renamed ρ, ⟨v, hv, rfl⟩, rfl⟩
  have hLength := hPerm.length_eq
  rw [List.length_map] at hLength
  exact hLength

/-
  Equations in which each name has one kind have, under other
  names, the same unifier under these names.
-/
theorem exists_unify_of_renamed
    {eqs : List Equation}
    (hEqs : ∀ e ∈ eqs, Equation.WellFormed e)
    (hOneKind : Variable.OneKind (Equation.occurrences eqs))
    {θ : Bindings}
    (h : unify eqs = .ok θ)
    (ρ : Equiv.Perm String) :
    ∃ θ', unify (eqs.map (Equation.renamed ρ)) = .ok θ' ∧
      Bindings.Copies ρ θ θ' := by
  let κ := Variable.kinding (Equation.occurrences eqs)
  have hKinds : Variable.AtKinds κ (Equation.occurrences eqs) :=
    Variable.atKinds_kinding hOneKind
  have hKinds' :
      Variable.AtKinds (κ.renamed ρ)
        (Equation.occurrences (eqs.map (Equation.renamed ρ))) := by
    intro w hw
    rcases (mem_occurrences_renamed ρ eqs w).mp hw with
      ⟨v, hv, rfl⟩
    simpa [Kinding.renamed] using hKinds v hv
  have hScoped : Scoped κ.Has ⟨eqs, .empty⟩ := by
    refine
      ⟨(Equation.within_of_wellFormed hEqs).mono hKinds, ?_, ?_⟩
    · intro v s hv
      cases hv
    · intro v s hv
      cases hv
  rcases exists_of_bind_eq_ok h with ⟨state, hStart, hSolve⟩
  rw [start_of_atKinds hKinds] at hStart
  cases hStart
  have hState :
      State.Copies ρ ⟨eqs, .empty⟩
        ⟨eqs.map (Equation.renamed ρ), .empty⟩ :=
    ⟨rfl, Bindings.copies_empty ρ⟩
  rcases exists_solve_of_copies hScoped hState hSolve with
    ⟨θ', hSolve', hCopies⟩
  refine ⟨θ', ?_, hCopies⟩
  simp only [unify, start_of_atKinds hKinds']
  rw [← nameCount_renamed ρ eqs] at hSolve'
  exact hSolve'

end Unify

end StatementQuery
