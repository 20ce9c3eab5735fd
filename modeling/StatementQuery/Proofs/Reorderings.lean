import StatementQuery.Proofs.UnifierCompleteness

/-
  The order of the equations.

  Over the faithful constructors, equations have a unifier
  exactly if some assignment makes their sides the same.  One
  direction is completeness.  For the other a run that succeeds
  is followed backwards: when it is over any values do for the
  variables that are left, and what the bindings of a step
  refer to has a value from the steps after it.  An assignment
  knows nothing of the order of the equations, so their order
  does not matter.

  With any other constructor it does.  A string, an amount or
  a point in time is read from a larger term when a term is
  built, and whether the larger term or what is left of it is
  compared depends on which equation comes first.

  Key definitions include:
    * `Kind.sample`
    * `Unify.AllPlain`
    * `Unify.Replaces`
    * `partEquations`

  Main declarations:
    * `Unify.exists_solvable_of_solve`
    * `Unify.exists_unifier_iff`
    * `unify_perm_iff`
-/

------------------------------------------------------------
-- Values For What Is Left
------------------------------------------------------------

namespace StatementQuery

/- A ground term of every kind. -/
def Kind.sample : Kind → Ground
| .string => .value (.string "")
| .externalId => .value (.externalId "")
| .text => .value (.text "" "")
| .deepDataValue | .quantity =>
    .value (.quantity ⟨⟨0, 0⟩, none, none, none⟩)
| .time => .value (.time ⟨⟨1, 1, 1, 0, 0, 0⟩, none, none, none⟩)
| .dataValue | .shallowDataValue | .iri => .value (.iri ⟨""⟩)
| .property => .value (.property ⟨""⟩)
| .lexeme => .value (.entity ⟨.lexeme, ⟨""⟩⟩)
| .value | .entity | .item => .value (.item ⟨""⟩)
| .snak | .someValueSnak => .snak (.someValue ⟨""⟩)
| .noValueSnak => .snak (.noValue ⟨""⟩)
| .valueSnak => .snak (.value ⟨""⟩ (.iri ⟨""⟩))
| .term | .statement =>
    .statement ⟨⟨.item, ⟨""⟩⟩, .someValue ⟨""⟩⟩

theorem Kind.kind_sample_le
    (k : Kind) :
    k.sample.kind ≤ k := by
  cases k <;> decide

end StatementQuery

------------------------------------------------------------
-- Steps Over Faithful Constructors
------------------------------------------------------------

namespace StatementQuery

/- The arguments of a faithful term are present. -/
theorem Term.exists_args_of_plain
    {P : Variable → Prop}
    {c : Constructor}
    {t : Term}
    {args : List (Option Term)}
    (hc : c.isFaithful = true)
    (ht : Side.Plain P (some t))
    (hKind : t.kind = c.kind)
    (hArgs : t.args? = some args) :
    ∃ ts : List Term, args = ts.map some := by
  cases t with
  | var v => cases hArgs
  | ground g =>
      rcases Ground.exists_args? hc hKind with ⟨gs, hgs⟩
      simp only [args?, hgs, Option.map_some, List.map_map,
        Option.some.injEq] at hArgs
      exact ⟨gs.map .ground, by simp [← hArgs]⟩
  | app d brgs =>
      cases hArgs
      have hEq : d = c := Constructor.kind_injective hKind
      rw [← hEq] at hc
      rcases Side.plain_some_iff.mp ht with ⟨hShaped, _, _⟩
      rcases hShaped with _ | _ | ⟨hSlots, _, _⟩
      exact exists_args_of_faithful hc hSlots

namespace Unify

/- Equations between plain sides. -/
def AllPlain (P : Variable → Prop) (eqs : List Equation) : Prop :=
  ∀ e ∈ eqs, Side.Plain P e.1 ∧ Side.Plain P e.2

/- Plain equations are in scope. -/
theorem AllPlain.within
    {P : Variable → Prop}
    {eqs : List Equation}
    (h : AllPlain P eqs) :
    Within P eqs := by
  intro e he
  exact ⟨(h e he).1.within, (h e he).2.within⟩

/- Plain terms are decomposed into plain equations. -/
theorem allPlain_of_decompose?
    {P : Variable → Prop}
    {s t : Side}
    {parts : List Equation}
    (hs : Side.Plain P s)
    (ht : Side.Plain P t)
    (h : decompose? s t = some parts) :
    AllPlain P parts := by
  rcases decompose?_eq_some h with
    ⟨u, w, as, bs, rfl, rfl, hKind, hAs, hBs, hOpen, hPairs⟩
  have hVar :
      ∀ (t : Term) (args : List (Option Term)),
        t.args? = some args → t.isVariable = false := by
    intro t args hArgs
    cases t with
    | var v => cases hArgs
    | ground g => rfl
    | app c args => rfl
  rcases exists_faithful_constructor
      (Side.plain_some_iff.mp hs).2.1
      (Side.plain_some_iff.mp ht).2.1
      (hVar u as hAs) (hVar w bs hBs) hKind hOpen with
    ⟨c, hc, huKind, hwKind⟩
  rcases Term.exists_args_of_plain hc hs huKind hAs with ⟨ts, rfl⟩
  rcases Term.exists_args_of_plain hc ht hwKind hBs with ⟨us, rfl⟩
  intro e he
  rcases mem_of_mem_pairArgs? hPairs he with ⟨ha, hb⟩
  rcases e with ⟨a, b⟩
  rcases List.mem_map.mp ha with ⟨x, hx, rfl⟩
  rcases List.mem_map.mp hb with ⟨y, hy, rfl⟩
  exact ⟨Term.plain_args hs hAs hx, Term.plain_args ht hBs hy⟩

/-
  Bindings of present terms under which a name that stays
  stands for itself.
-/
structure Replaces
    (κ : Kinding)
    (τ : Bindings)
    (κ' : Kinding) :
    Prop where
  moves : Moves κ.Has τ κ'
  present :
    ∀ v, κ.Has v → ∃ u, τ.value v = some u ∧ u.Faithful
  keeps :
    ∀ v w, κ.Has v → κ'.Has w → w.name = v.name →
      τ.value v = some (.var w)

/- Merging two variables replaces both by the survivor. -/
theorem replaces_mergeInto
    {κ : Kinding}
    {gone kept : Variable}
    (hGone : κ.Has gone)
    (hKept : κ.Has kept)
    (hNe : gone ≠ kept)
    (hLe : gone.kind ≤ kept.kind) :
    Replaces κ (mergeInto gone kept)
      (mergedKinds κ gone kept) := by
  refine ⟨moves_mergeInto hGone hKept hNe hLe, ?_, ?_⟩
  · intro v _
    by_cases hMerged : v = gone ∨ v = kept
    · exact ⟨_, value_mergeInto hMerged, .var _⟩
    · exact ⟨_, value_mergeInto_of_not hMerged, .var _⟩
  · intro v w hv hw hName
    have hwGone : w.name ≠ gone.name := by
      intro hEq
      simp [Kinding.Has, mergedKinds, hEq] at hw
    by_cases hMerged : v = gone ∨ v = kept
    · rw [value_mergeInto hMerged]
      rcases hMerged with rfl | rfl
      · exact absurd hName hwGone
      · -- The survivor has the name that stays.
        have hKind : gone.kind = w.kind := by
          rw [hName] at hwGone
          simpa [Kinding.Has, mergedKinds, hName, hwGone] using hw
        have hEq : survivor gone v = w :=
          Variable.eq_of_name_of_kind hName.symm hKind
        rw [hEq]
    · have hwKept : w.name ≠ kept.name := by
        intro hEq
        exact (not_or.mp hMerged).2
          (eq_of_has hv hKept (hName.symm.trans hEq))
      have hwOld : κ.Has w := by
        simpa [Kinding.Has, mergedKinds, hwGone, hwKept] using hw
      rw [value_mergeInto_of_not hMerged,
        eq_of_has hv hwOld hName.symm]

/- Eliminating a variable replaces it by a present term. -/
theorem replaces_eliminate
    {κ : Kinding}
    {x : Variable}
    {s : Side}
    {τ : Bindings}
    (hx : κ.Has x)
    (hs : Side.Plain κ.Has s)
    (h : eliminate x s = .ok τ) :
    Replaces κ τ (dropName κ x.name) := by
  have hMoves := moves_eliminate hx hs.within h
  rcases eliminate_ok h with ⟨rfl, _, _⟩
  refine ⟨hMoves, ?_, ?_⟩
  · intro v _
    by_cases hv : v = x
    · rcases hs with ⟨t, rfl, _, hFaithful, _⟩
      rw [hv, Bindings.value_singleton_self]
      exact ⟨t, rfl, hFaithful⟩
    · exact ⟨_, Bindings.value_singleton_of_ne hv s, .var v⟩
  · intro v w hv hw hName
    have hwx : w.name ≠ x.name := by
      intro hEq
      simp [Kinding.Has, dropName, hEq] at hw
    have hvx : v ≠ x := by
      rintro rfl
      exact hwx hName
    have hwOld : κ.Has w := by
      simpa [Kinding.Has, dropName, hwx] using hw
    rw [Bindings.value_singleton_of_ne hvx,
      eq_of_has hv hwOld hName.symm]

/- What an equation between plain sides is replaced by. -/
theorem replaces_of_step
    {κ : Kinding}
    {s t : Side}
    {τ : Bindings}
    (hs : Side.Plain κ.Has s)
    (ht : Side.Plain κ.Has t)
    (h : step s t = .ok (.bindTo τ)) :
    ∃ κ', Replaces κ τ κ' := by
  rcases bindTo_cases h with
    ⟨x, y, rfl, rfl, hNe, hMerge⟩ |
      ⟨x, u, hSides, _, hEliminate⟩
  · rcases merge_ok hMerge with ⟨gone, kept, hCase, hLe, rfl⟩
    rcases hCase with ⟨rfl, rfl, _⟩ | ⟨rfl, rfl, _⟩
    · exact
        ⟨_, replaces_mergeInto hs.within.var ht.within.var hNe
          hLe⟩
    · exact
        ⟨_, replaces_mergeInto ht.within.var hs.within.var
          hNe.symm hLe⟩
  · rcases hSides with ⟨rfl, rfl⟩ | ⟨rfl, rfl⟩
    · exact ⟨_, replaces_eliminate hs.within.var ht hEliminate⟩
    · exact ⟨_, replaces_eliminate ht.within.var hs hEliminate⟩

/- Plain equations reduce to plain equations. -/
theorem replaces_of_reduce
    {κ : Kinding}
    {eqs rest : List Equation}
    {τ : Bindings}
    (hPlain : AllPlain κ.Has eqs)
    (h : reduce eqs = .ok (some (τ, rest))) :
    AllPlain κ.Has rest ∧ ∃ κ', Replaces κ τ κ' := by
  fun_induction reduce eqs with
  | case1 => cases h
  | case2 s t rest' e hStep => cases h
  | case3 s t rest' hStep ih =>
      exact ih (fun e he => hPlain e (by simp [he])) h
  | case4 s t rest' parts hStep ih =>
      apply ih _ h
      have hHead := hPlain (s, t) (by simp)
      intro e he
      rcases List.mem_append.mp he with hPart | hRest
      · exact allPlain_of_decompose? hHead.1 hHead.2
          (decompose?_of_step hStep) e hPart
      · exact hPlain e (by simp [hRest])
  | case5 s t rest' σ hStep =>
      cases h
      have hHead := hPlain (s, t) (by simp)
      refine ⟨?_, replaces_of_step hHead.1 hHead.2 hStep⟩
      intro e he
      exact hPlain e (by simp [he])

end Unify

end StatementQuery

------------------------------------------------------------
-- Assignments From Runs
------------------------------------------------------------

namespace StatementQuery

namespace Unify

/- Bindings of present terms keep equations plain. -/
theorem allPlain_of_substituteAll
    {P : Variable → Prop}
    {τ : Bindings}
    {κ : Kinding}
    (hMoves : Moves P τ κ)
    (hPresent :
      ∀ v, P v → ∃ u, τ.value v = some u ∧ u.Faithful)
    {eqs eqs' : List Equation}
    (hPlain : AllPlain P eqs)
    (h : substituteAll τ eqs = .ok eqs') :
    AllPlain κ.Has eqs' := by
  intro e' he'
  rcases exists_of_mem_substituteAll h he' with
    ⟨e, he, hLeft, hRight⟩
  rcases hPlain e he with ⟨hs, ht⟩
  exact
    ⟨(plain_of_substitute hMoves hPresent hs hLeft).1,
      (plain_of_substitute hMoves hPresent ht hRight).1⟩

/- Equations agree where they agree after bindings. -/
theorem agrees_of_substituteAll
    {P : Variable → Prop}
    {τ : Bindings}
    {κ κ' : Kinding}
    (hMoves : Moves P τ κ)
    {f : Variable → Side}
    (hFits : ∀ v, P v → Side.Fits κ' v.kind (f v))
    (hAbsorbs : Absorbs f τ)
    {eqs eqs' : List Equation}
    (hWithin : Within P eqs)
    (h : substituteAll τ eqs = .ok eqs')
    (hAgrees : ∀ e' ∈ eqs', Equation.Agrees f e') :
    ∀ e ∈ eqs, Equation.Agrees f e := by
  intro e he
  rcases exists_of_mem_pending h he with
    ⟨e', he', hLeft, hRight⟩
  unfold Equation.Agrees
  rw [← outcome_of_absorbs hMoves hFits hAbsorbs
      (hWithin e he).1 hLeft,
    ← outcome_of_absorbs hMoves hFits hAbsorbs
      (hWithin e he).2 hRight]
  exact hAgrees e' he'

/-
  An assignment after bindings is one before them, which gives
  the variables that leave the values of what replaces them.
-/
theorem Replaces.exists_assignment
    {κ κ' : Kinding}
    {τ : Bindings}
    (h : Replaces κ τ κ')
    {σ' : Assignment}
    (hσ' : σ'.Suits κ'.Has) :
    ∃ σ : Assignment,
      σ.Suits κ.Has ∧ Absorbs σ.value τ ∧
        ∀ w, κ'.Has w → σ w.name = σ' w.name := by
  -- The value of each variable in scope, name by name.
  have hEach :
      ∀ n, ∃ g : Ground, ∀ v, κ.Has v → v.name = n →
        g.kind ≤ v.kind ∧
          Side.subst σ'.value (τ.value v) =
            some (some (.ground g)) := by
    intro n
    cases hn : κ n with
    | none =>
        refine ⟨Kind.sample .term, ?_⟩
        rintro v hv rfl
        rw [Kinding.Has, hn] at hv
        cases hv
    | some k =>
        have hk : κ.Has ⟨n, k⟩ := hn
        rcases h.present _ hk with ⟨u, hu, huFaithful⟩
        have huFits := h.moves.fits _ hk u hu
        rcases Term.exists_ground_subst hσ' huFits.2.shaped
            huFaithful huFits.2.atKinds with
          ⟨g, hg, hgKind⟩
        refine ⟨g, ?_⟩
        intro v hv hName
        have hEq : v = ⟨n, k⟩ := eq_of_has hv hk hName
        rw [hEq, hu]
        exact ⟨le_trans hgKind huFits.1, hg⟩
  rcases Classical.skolem.mp hEach with ⟨(σ : Assignment), hσ⟩
  have hSame : ∀ w, κ'.Has w → σ w.name = σ' w.name := by
    intro w hw
    rcases h.moves.narrows w.name w.kind hw with
      ⟨v, hv, hName, _⟩
    have hValue := (hσ w.name v hv hName).2
    rw [h.keeps v w hv hw hName.symm] at hValue
    simpa [Side.subst, Term.subst, Assignment.value] using
      hValue.symm
  refine ⟨σ, fun v hv => (hσ v.name v hv rfl).1, ?_, hSame⟩
  intro v
  cases hv : τ.get? v with
  | none =>
      rw [Bindings.value_of_get?_none hv]
      rfl
  | some s =>
      have hScope := (h.moves.keys v s hv).1
      rcases h.present v hScope with ⟨u, hu, _⟩
      have huFits := h.moves.fits v hScope u hu
      have hCongr : u.subst σ.value = u.subst σ'.value := by
        apply Term.subst_congr
        intro w hw
        rw [Assignment.value, Assignment.value,
          hSame w (huFits.2.atKinds w hw)]
      have hValue := (hσ v.name v hScope rfl).2
      rw [hu] at hValue ⊢
      rw [Side.subst, hCongr]
      exact congrArg outcome hValue

/- A run that succeeds has an assignment. -/
theorem exists_solvable_of_solve
    {names : Nat}
    {κ : Kinding}
    {state : State}
    {θ : Bindings}
    (hPlain : AllPlain κ.Has state.pending)
    (h : solve names state = .ok θ) :
    ∃ σ : Assignment,
      σ.Suits κ.Has ∧
        ∀ e ∈ state.pending, Equation.Agrees σ.value e := by
  induction names using Nat.strong_induction_on
    generalizing κ state with
  | _ names ih =>
      rcases solve_cases h with
        ⟨hDone, rfl⟩ |
          ⟨τ, rest, next, names', rfl, hReduce, hBind, hRun⟩
      · let σ : Assignment := fun n => ((κ n).getD .term).sample
        refine
          ⟨σ, ?_, agrees_of_reduce_none hPlain.within hDone _⟩
        intro v hv
        have hKind : κ v.name = some v.kind := hv
        simp only [σ, hKind, Option.getD_some]
        exact v.kind.kind_sample_le
      · rcases replaces_of_reduce hPlain hReduce with
          ⟨hRest, κ', hReplaces⟩
        have hPending := (bind_ok hBind).1
        have hNext :=
          allPlain_of_substituteAll hReplaces.moves
            hReplaces.present hRest hPending
        rcases ih names' (Nat.lt_succ_self names') hNext hRun with
          ⟨σ', hSuits', hAgrees'⟩
        rcases hReplaces.exists_assignment hSuits' with
          ⟨σ, hSuits, hAbsorbs, hSame⟩
        refine ⟨σ, hSuits, ?_⟩
        have hNextAgrees :
            ∀ e ∈ next.pending, Equation.Agrees σ.value e := by
          intro e he
          have hCongr :
              ∀ s, Side.Plain κ'.Has s →
                Side.subst σ.value s =
                  Side.subst σ'.value s := by
            rintro s ⟨t, rfl, _, _, hScope⟩
            apply Term.subst_congr
            intro w hw
            rw [Assignment.value, Assignment.value,
              hSame w (hScope w hw)]
          unfold Equation.Agrees
          rw [hCongr e.1 (hNext e he).1,
            hCongr e.2 (hNext e he).2]
          exact hAgrees' e he
        apply (reduce_some hPlain.within hReduce).2.2 σ.value
          hAbsorbs
        exact agrees_of_substituteAll hReplaces.moves
          (fun v hv => hSuits.fits κ hv) hAbsorbs hRest.within
          hPending hNextAgrees

/- A value of the least kind of a name is of all its kinds. -/
theorem suits_of_tableKinds
    {vs ws : List Variable}
    {table : List (String × Kind)}
    (hMoves :
      Moves (· ∈ vs) (narrowing table ws) (tableKinds table))
    (hSub : vs ⊆ ws)
    {σ : Assignment}
    (hσ : σ.Suits (tableKinds table).Has) :
    σ.Suits (· ∈ vs) := by
  intro v hv
  have hFits :=
    hMoves.fits v hv _ (value_narrowing table (hSub hv))
  have hHas :=
    hFits.2.atKinds (Variable.narrow table v)
      (by simp [Term.occurrences])
  have hKind : (σ v.name).kind ≤ _ :=
    hσ (Variable.narrow table v) hHas
  exact le_trans hKind hFits.1

/- Equations with a unifier have an assignment. -/
theorem exists_solvable_of_unify
    {eqs : List Equation}
    {θ : Bindings}
    (hPlain : AllPlain (· ∈ Equation.occurrences eqs) eqs)
    (h : unify eqs = .ok θ) :
    ∃ σ : Assignment,
      σ.Suits (· ∈ Equation.occurrences eqs) ∧
        ∀ e ∈ eqs, Equation.Agrees σ.value e := by
  rcases exists_of_bind_eq_ok h with ⟨state, hStart, hSolve⟩
  have hSub :
      Equation.occurrences eqs ⊆
        Variable.sorted (Equation.occurrences eqs) :=
    fun v hv => (Variable.mem_sorted v _).mpr hv
  rcases start_eq_ok hStart with
    ⟨table, hMoves, ⟨rfl, hHas⟩ | hBind⟩
  · have hPlain' : AllPlain (tableKinds table).Has eqs := by
      intro e he
      exact
        ⟨(hPlain e he).1.mono hHas, (hPlain e he).2.mono hHas⟩
    rcases exists_solvable_of_solve hPlain' hSolve with
      ⟨σ, hσ, hAgrees⟩
    exact ⟨σ, suits_of_tableKinds hMoves hSub hσ, hAgrees⟩
  · have hPending := (bind_ok hBind).1
    have hNext :=
      allPlain_of_substituteAll hMoves
        (fun v hv => present_narrowing table v (hSub hv)) hPlain
        hPending
    rcases exists_solvable_of_solve hNext hSolve with
      ⟨σ, hσ, hAgrees⟩
    have hSuits := suits_of_tableKinds hMoves hSub hσ
    refine ⟨σ, hSuits, ?_⟩
    exact agrees_of_substituteAll hMoves
      (fun v hv => hSuits.fits (fun _ => none) hv)
      (absorbs_narrowing σ table _) hPlain.within hPending
      hAgrees

/-
  Equations between plain sides have a unifier exactly if some
  assignment makes their sides the same.
-/
theorem exists_unifier_iff
    {eqs : List Equation}
    (hPlain : AllPlain (· ∈ Equation.occurrences eqs) eqs) :
    (∃ θ, unify eqs = .ok θ) ↔
      ∃ σ : Assignment,
        σ.Suits (· ∈ Equation.occurrences eqs) ∧
          ∀ e ∈ eqs, Equation.Agrees σ.value e := by
  constructor
  · rintro ⟨θ, h⟩
    exact exists_solvable_of_unify hPlain h
  · rintro ⟨σ, hσ, hAgrees⟩
    have hSolvable :
        Solvable σ (· ∈ Equation.occurrences eqs) eqs := by
      intro e he
      exact ⟨(hPlain e he).1, (hPlain e he).2, hAgrees e he⟩
    rcases start_of_solvable hσ hSolvable with
      ⟨state, κ, hStart, hSuits, hReaches⟩
    rcases solve_of_reaches hSuits hReaches (le_refl _) with
      ⟨θ, κ', hSolve, _⟩
    refine ⟨θ, ?_⟩
    simp only [unify, hStart]
    exact hSolve

end Unify

end StatementQuery

------------------------------------------------------------
-- Order
------------------------------------------------------------

namespace StatementQuery

/- Equations over faithful constructors are plain. -/
theorem Equation.allPlain_allBetween
    {eqs : List (Term × Term)}
    (hWellFormed :
      ∀ e ∈ eqs, e.1.WellFormed ∧ e.2.WellFormed)
    (hFaithful : ∀ e ∈ eqs, e.1.Faithful ∧ e.2.Faithful) :
    Unify.AllPlain
      (· ∈ Equation.occurrences (Equation.allBetween eqs))
      (Equation.allBetween eqs) := by
  intro e' he'
  rcases List.mem_map.mp he' with ⟨e, he, rfl⟩
  have hScope :
      ∀ v ∈ e.1.occurrences ++ e.2.occurrences,
        v ∈ Equation.occurrences (Equation.allBetween eqs) := by
    intro v hv
    exact (Equation.mem_allBetween eqs v).mpr ⟨e, he, hv⟩
  constructor
  · refine Side.plain_some_iff.mpr
      ⟨(hWellFormed e he).1.shaped, (hFaithful e he).1, ?_⟩
    intro v hv
    exact hScope v (List.mem_append.mpr (Or.inl hv))
  · refine Side.plain_some_iff.mpr
      ⟨(hWellFormed e he).2.shaped, (hFaithful e he).2, ?_⟩
    intro v hv
    exact hScope v (List.mem_append.mpr (Or.inr hv))

/- An assignment is one whatever the order. -/
theorem exists_unifier_of_perm
    {eqs eqs' : List (Term × Term)}
    (hPerm : eqs.Perm eqs')
    (hWellFormed :
      ∀ e ∈ eqs, e.1.WellFormed ∧ e.2.WellFormed)
    (hFaithful : ∀ e ∈ eqs, e.1.Faithful ∧ e.2.Faithful)
    (h : ∃ θ, unify (Equation.allBetween eqs) = .ok θ) :
    ∃ θ, unify (Equation.allBetween eqs') = .ok θ := by
  have hPlain := Equation.allPlain_allBetween hWellFormed hFaithful
  have hPlain' :=
    Equation.allPlain_allBetween
      (fun e he => hWellFormed e (hPerm.mem_iff.mpr he))
      (fun e he => hFaithful e (hPerm.mem_iff.mpr he))
  rcases (Unify.exists_unifier_iff hPlain).mp h with
    ⟨σ, hσ, hAgrees⟩
  refine (Unify.exists_unifier_iff hPlain').mpr ⟨σ, ?_, ?_⟩
  · intro v hv
    apply hσ v
    rcases (Equation.mem_allBetween eqs' v).mp hv with
      ⟨e, he, hv⟩
    exact (Equation.mem_allBetween eqs v).mpr
      ⟨e, hPerm.mem_iff.mpr he, hv⟩
  · intro e he
    exact hAgrees e ((hPerm.map Equation.between).mem_iff.mpr he)

/-
  A term made from `?a`, the term that it should be, and a
  value for `?a` of which only a part goes into that term.
-/
def partEquations
    (c : Constructor)
    (k : Kind)
    (others : List (Option Term))
    (whole value : Ground) :
    List (Term × Term) :=
  [(.app c (some (.var ⟨"a", k⟩) :: others), .ground whole),
    (.var ⟨"a", k⟩, .ground value)]

/-
  What a constructor that is not faithful leaves out of its
  first argument: that a string is an external identifier, the
  unit of a quantity, the precision of a time.
-/
def Constructor.lossyEquations : Constructor → List (Term × Term)
| .iri =>
    partEquations .iri .string [] (.value (.iri ⟨"x"⟩))
      (.value (.externalId "x"))
| .text =>
    partEquations .text .string
      [some (.ground (.value (.string "en")))]
      (.value (.text "x" "en")) (.value (.externalId "x"))
| .quantity =>
    partEquations .quantity .quantity [none, none, none]
      (.value (.quantity ⟨⟨5, 0⟩, none, none, none⟩))
      (.value (.quantity ⟨⟨5, 0⟩, some ⟨"kg"⟩, none, none⟩))
| .time =>
    partEquations .time .time [none, none, none]
      (.value (.time ⟨⟨2020, 1, 1, 0, 0, 0⟩, none, none, none⟩))
      (.value
        (.time ⟨⟨2020, 1, 1, 0, 0, 0⟩, some .day, none, none⟩))
| _ => []

/- Only the second equation first leaves out the rest in time. -/
theorem Constructor.lossyEquations_order
    {c : Constructor}
    (h : c.isFaithful = false) :
    (unify (Equation.allBetween c.lossyEquations)).isOk = false ∧
      (unify
        (Equation.allBetween c.lossyEquations.reverse)).isOk =
          true := by
  cases c with
  | iri => decide +kernel
  | text => decide +kernel
  | quantity => decide +kernel
  | time => decide +kernel
  | _ => all_goals cases h

/- These equations are well formed and over the constructor. -/
theorem Constructor.wellFormed_lossyEquations
    (c : Constructor) :
    ∀ e ∈ c.lossyEquations,
      (e.1.WellFormed ∧ e.2.WellFormed) ∧
        e.1.Over (· = c) ∧ e.2.Over (· = c) := by
  have hOver :
      ∀ (k : Kind) (others : List (Option Term)) (g h : Ground),
        (∀ t, some t ∈ others → t.Over (· = c)) →
          ∀ e ∈ partEquations c k others g h,
            e.1.Over (· = c) ∧ e.2.Over (· = c) := by
    intro k others g h hOthers e he
    rcases List.mem_pair.mp he with rfl | rfl
    · refine ⟨.app rfl ?_, .ground g⟩
      intro t ht
      rcases List.mem_cons.mp ht with hEq | hRest
      · cases hEq
        exact .var _
      · exact hOthers t hRest
    · exact ⟨.var _, .ground h⟩
  cases c with
  | iri =>
      intro e he
      refine ⟨?_, hOver _ _ _ _ (by simp) e he⟩
      revert e
      decide
  | text =>
      intro e he
      refine ⟨?_, hOver _ _ _ _ ?_ e he⟩
      · revert e
        decide
      · intro t ht
        have hEq : t = .ground (.value (.string "en")) := by
          simpa using ht
        rw [hEq]
        exact .ground _
  | quantity =>
      intro e he
      refine ⟨?_, hOver _ _ _ _ (by simp) e he⟩
      revert e
      decide
  | time =>
      intro e he
      refine ⟨?_, hOver _ _ _ _ (by simp) e he⟩
      revert e
      decide
  | _ => all_goals simp [lossyEquations]

/-
  Whether equations between terms over some constructors have a
  unifier is the same in every order exactly if all of these
  constructors are faithful.
-/
theorem unify_perm_iff
    (P : Constructor → Prop) :
    (∀ c, P c → c.isFaithful = true) ↔
      ∀ eqs eqs' : List (Term × Term),
        eqs.Perm eqs' →
          (∀ e ∈ eqs, e.1.WellFormed ∧ e.2.WellFormed) →
          (∀ e ∈ eqs, e.1.Over P ∧ e.2.Over P) →
          ((∃ θ, unify (Equation.allBetween eqs) = .ok θ) ↔
            ∃ θ, unify (Equation.allBetween eqs') = .ok θ) := by
  constructor
  · intro hP eqs eqs' hPerm hWellFormed hOver
    have hFaithful :
        ∀ e ∈ eqs, e.1.Faithful ∧ e.2.Faithful := by
      intro e he
      exact ⟨(hOver e he).1.imp hP, (hOver e he).2.imp hP⟩
    constructor
    · exact exists_unifier_of_perm hPerm hWellFormed hFaithful
    · exact exists_unifier_of_perm hPerm.symm
        (fun e he => hWellFormed e (hPerm.mem_iff.mpr he))
        (fun e he => hFaithful e (hPerm.mem_iff.mpr he))
  · intro hOrder c hc
    by_contra hLossy
    rcases Constructor.lossyEquations_order
        (Bool.eq_false_iff.mpr hLossy) with
      ⟨hFails, hSucceeds⟩
    have hEqs := c.wellFormed_lossyEquations
    have hSame :=
      hOrder c.lossyEquations c.lossyEquations.reverse
        (List.reverse_perm _).symm
        (fun e he => (hEqs e he).1)
        (fun e he =>
          ⟨(hEqs e he).2.1.imp (fun d hd => hd ▸ hc),
            (hEqs e he).2.2.imp (fun d hd => hd ▸ hc)⟩)
    have hReversed :
        ∃ θ,
          unify (Equation.allBetween c.lossyEquations.reverse) =
            .ok θ := by
      cases hRun :
          unify (Equation.allBetween c.lossyEquations.reverse) with
      | error e =>
          rw [hRun] at hSucceeds
          cases hSucceeds
      | ok θ => exact ⟨θ, rfl⟩
    rcases hSame.mpr hReversed with ⟨θ, hθ⟩
    rw [hθ] at hFails
    cases hFails

end StatementQuery
