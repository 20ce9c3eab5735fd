import StatementQuery.Proofs.Binding

/-
  What the steps of the solver do.

  A step drops an equation whose sides are the same, replaces
  it by equations between arguments, or binds a variable.  An
  equation agrees wherever those that replace it agree, and
  wherever the bindings it asks for are absorbed.

  Key definitions include:
    * `Unify.mergeInto`

  Main declarations:
    * `Unify.step_cases`
    * `Unify.bindTo_cases`
    * `Unify.agrees_of_decompose?`
    * `Unify.moves_mergeInto`
    * `Unify.moves_eliminate`
    * `Unify.agrees_of_reduce_none`
    * `Unify.reduce_some`
-/

------------------------------------------------------------
-- Steps
------------------------------------------------------------

namespace StatementQuery

namespace Unify

/- What an equation asks for, and why. -/
theorem step_cases
    {s t : Side}
    {r : Step}
    (h : step s t = .ok r) :
    (r = .drop ∧ Term.sameOption s t = true) ∨
      (∃ x y σ,
        s = some (.var x) ∧ t = some (.var y) ∧ x ≠ y ∧
          merge x y = .ok σ ∧ r = .bindTo σ) ∨
      (∃ x u σ,
        (s = some (.var x) ∧ t = u ∨
          s = u ∧ t = some (.var x)) ∧
          eliminate x u = .ok σ ∧ r = .bindTo σ) ∨
      ∃ eqs, decompose? s t = some eqs ∧
        r = .replaceBy eqs := by
  unfold step at h
  split at h
  · rename_i hSame
    cases h
    exact Or.inl ⟨rfl, hSame⟩
  · rename_i hDiffer
    right
    split at h
    · rename_i x y
      cases hMerge : merge x y with
      | error e => simp [hMerge, Except.map] at h
      | ok σ =>
          rw [hMerge] at h
          cases h
          refine Or.inl ⟨x, y, σ, rfl, rfl, ?_, hMerge, rfl⟩
          rintro rfl
          simp [Term.sameOption, Term.same] at hDiffer
    · rename_i x _
      cases hEliminate : eliminate x t with
      | error e => simp [hEliminate, Except.map] at h
      | ok σ =>
          rw [hEliminate] at h
          cases h
          exact Or.inr (Or.inl
            ⟨x, t, σ, Or.inl ⟨rfl, rfl⟩, hEliminate, rfl⟩)
    · rename_i x _
      cases hEliminate : eliminate x s with
      | error e => simp [hEliminate, Except.map] at h
      | ok σ =>
          rw [hEliminate] at h
          cases h
          exact Or.inr (Or.inl
            ⟨x, s, σ, Or.inr ⟨rfl, rfl⟩, hEliminate, rfl⟩)
    · split at h
      · rename_i eqs hParts
        cases h
        exact Or.inr (Or.inr ⟨eqs, hParts, rfl⟩)
      · cases h

/- Two variables are merged. -/
theorem step_of_vars
    {x y : Variable}
    (hNe : x ≠ y) :
    step (some (.var x)) (some (.var y)) =
      (merge x y).map .bindTo := by
  simp [step, Term.sameOption, Term.same, hNe]

/- A variable on the left is eliminated. -/
theorem step_of_var_left
    {x : Variable}
    {u : Side}
    (hu : ∀ y, u ≠ some (.var y)) :
    step (some (.var x)) u = (eliminate x u).map .bindTo := by
  rcases u with _ | (g | y | ⟨c, args⟩)
  · simp [step, Term.sameOption]
  · simp [step, Term.sameOption, Term.same]
  · exact absurd rfl (hu y)
  · simp [step, Term.sameOption, Term.same]

/- A variable on the right is eliminated. -/
theorem step_of_var_right
    {x : Variable}
    {u : Side}
    (hu : ∀ y, u ≠ some (.var y)) :
    step u (some (.var x)) = (eliminate x u).map .bindTo := by
  rcases u with _ | (g | y | ⟨c, args⟩)
  · simp [step, Term.sameOption]
  · simp [step, Term.sameOption, Term.same]
  · exact absurd rfl (hu y)
  · simp [step, Term.sameOption, Term.same]

/- Only sides that differ ask for something. -/
theorem differ_of_step
    {s t : Side}
    {r : Step}
    (h : step s t = .ok r)
    (hr : r ≠ .drop) :
    Term.sameOption s t = false := by
  cases hSame : Term.sameOption s t with
  | false => rfl
  | true =>
      simp only [step, hSame, if_true, Except.ok.injEq] at h
      exact absurd h.symm hr

/- Bindings merge two variables, or eliminate the only one. -/
theorem bindTo_cases
    {s t : Side}
    {τ : Bindings}
    (h : step s t = .ok (.bindTo τ)) :
    (∃ x y,
      s = some (.var x) ∧ t = some (.var y) ∧ x ≠ y ∧
        merge x y = .ok τ) ∨
      ∃ x u,
        (s = some (.var x) ∧ t = u ∨
          s = u ∧ t = some (.var x)) ∧
          (∀ y, u ≠ some (.var y)) ∧
          eliminate x u = .ok τ := by
  have hDiffer := differ_of_step h (by simp)
  have hMap :
      ∀ r : Except UnifyFailure Bindings,
        r.map Step.bindTo = .ok (.bindTo τ) → r = .ok τ := by
    intro r hr
    cases r with
    | error e => cases hr
    | ok σ =>
        cases hr
        rfl
  by_cases hs : ∃ x, s = some (.var x)
  · rcases hs with ⟨x, rfl⟩
    by_cases ht : ∃ y, t = some (.var y)
    · rcases ht with ⟨y, rfl⟩
      have hNe : x ≠ y := by
        rintro rfl
        simp [Term.sameOption, Term.same] at hDiffer
      rw [step_of_vars hNe] at h
      exact Or.inl ⟨x, y, rfl, rfl, hNe, hMap _ h⟩
    · have hVar := not_exists.mp ht
      rw [step_of_var_left hVar] at h
      exact Or.inr
        ⟨x, t, Or.inl ⟨rfl, rfl⟩, hVar, hMap _ h⟩
  · have hVar := not_exists.mp hs
    by_cases ht : ∃ y, t = some (.var y)
    · rcases ht with ⟨y, rfl⟩
      rw [step_of_var_right hVar] at h
      exact Or.inr
        ⟨y, s, Or.inr ⟨rfl, rfl⟩, hVar, hMap _ h⟩
    · -- Neither side is a variable.
      rcases step_cases h with
        ⟨hDrop, _⟩ | ⟨x, _, _, hEq, _⟩ |
          ⟨x, _, _, ⟨hEq, _⟩ | ⟨_, hEq⟩, _, _⟩ | ⟨_, _, hEq⟩
      · cases hDrop
      · exact absurd ⟨x, hEq⟩ hs
      · exact absurd ⟨x, hEq⟩ hs
      · exact absurd ⟨x, hEq⟩ ht
      · cases hEq

end Unify

end StatementQuery

------------------------------------------------------------
-- Decomposition
------------------------------------------------------------

namespace StatementQuery

namespace Term

/- A term is rebuilt from its arguments. -/
theorem subst_of_args?
    (f : Variable → Side)
    {c : Constructor}
    {t : Term}
    {args : List (Option Term)}
    (hShaped : t.WellShaped)
    (hKind : t.kind = c.kind)
    (hArgs : t.args? = some args) :
    t.subst f = combine c (args.map (Side.subst f)) ∧
      args.length = c.slots.length := by
  cases hShaped with
  | var v => cases hArgs
  | @app d args' hSlots hOpen hRest =>
      cases hArgs
      have hEq : d = c := Constructor.kind_injective hKind
      subst hEq
      exact ⟨subst_app f d args, hSlots.length_eq.symm⟩
  | ground g =>
      rcases Option.map_eq_some_iff.mp hArgs with
        ⟨gs, hgs, rfl⟩
      rcases Ground.args?_spec hKind hgs with
        ⟨hBuild, hSlots⟩
      have hClosed :
          (gs.map (Option.map Term.ground)).any isOpenArg =
            false := by
        rw [List.any_eq_false]
        intro arg hArg
        rcases List.mem_map.mp hArg with ⟨g', _, rfl⟩
        cases g' <;> simp [isOpenArg, isGround]
      have hGround :
          (gs.map (Option.map Term.ground)).map groundArg =
            gs := by
        rw [List.map_map]
        refine Eq.trans ?_ (List.map_id gs)
        apply List.map_congr_left
        intro g' _
        cases g' <;> rfl
      have hFills :
          List.Forall₂ Fills c.slots
            (gs.map (Option.map Term.ground)) := by
        refine hSlots.imp ?_
        rintro slot arg hAdmits rfl
        exact hAdmits
      refine ⟨?_, hSlots.length_eq.symm⟩
      rw [map_subst_of_closed f hClosed, combine,
        gather_of_fills hFills]
      simp [assemble?, hClosed, hGround, hBuild,
        Except.toOption, subst]

/- The arguments of a side in scope are in scope. -/
theorem within_args
    {P : Variable → Prop}
    {t : Term}
    {args : List (Option Term)}
    (h : Side.Within P (some t))
    (hArgs : t.args? = some args)
    {arg : Option Term}
    (hArg : arg ∈ args) :
    Side.Within P arg := by
  rcases h t rfl with ⟨hShaped, hScope⟩
  rintro u rfl
  cases hShaped with
  | var v => cases hArgs
  | @app d args' hSlots hOpen hRest =>
      cases hArgs
      refine ⟨hRest u hArg, ?_⟩
      intro v hv
      apply hScope
      exact (mem_occurrences_app v d args).mpr ⟨u, hArg, hv⟩
  | ground g =>
      rcases Option.map_eq_some_iff.mp hArgs with
        ⟨gs, _, rfl⟩
      rcases List.mem_map.mp hArg with ⟨g', _, hg'⟩
      rcases Option.map_eq_some_iff.mp hg' with ⟨x, _, rfl⟩
      exact ⟨.ground x, by simp [occurrences]⟩

end Term

namespace Unify

/- Arguments are paired one by one, unless both are absent. -/
theorem pairArgs?_eq_some
    {as bs : List (Option Term)}
    {eqs : List Equation}
    (h : pairArgs? as bs = some eqs) :
    eqs =
      (as.zip bs).filter fun e => e.1.isSome || e.2.isSome := by
  fun_induction pairArgs? as bs generalizing eqs with
  | case1 as bs ih => simpa using ih h
  | case2 as t bs hVar ih =>
      rcases Option.map_eq_some_iff.mp h with ⟨rest, hRest, rfl⟩
      simp [ih hRest]
  | case3 => cases h
  | case4 t as bs hVar ih =>
      rcases Option.map_eq_some_iff.mp h with ⟨rest, hRest, rfl⟩
      simp [ih hRest]
  | case5 => cases h
  | case6 t as u bs ih =>
      rcases Option.map_eq_some_iff.mp h with ⟨rest, hRest, rfl⟩
      simp [ih hRest]
  | case7 as bs h1 h2 h3 h4 =>
      cases h
      rcases as with _ | ⟨_ | t, as⟩
      · simp
      · rcases bs with _ | ⟨_ | u, bs⟩
        · simp
        · exact absurd rfl (h1 as bs rfl)
        · exact absurd rfl (h2 as u bs rfl)
      · rcases bs with _ | ⟨_ | u, bs⟩
        · simp
        · exact absurd rfl (h3 t as bs rfl)
        · exact absurd rfl (h4 t as u bs rfl)

/- Paired arguments are arguments. -/
theorem mem_of_mem_pairArgs?
    {as bs : List (Option Term)}
    {eqs : List Equation}
    (h : pairArgs? as bs = some eqs)
    {e : Equation}
    (he : e ∈ eqs) :
    e.1 ∈ as ∧ e.2 ∈ bs := by
  rw [pairArgs?_eq_some h] at he
  exact List.of_mem_zip (List.mem_filter.mp he).1

/- Arguments agree where their pairs do. -/
theorem outcomes_of_pairArgs?
    {f : Variable → Side}
    {as bs : List (Option Term)}
    {eqs : List Equation}
    (hLength : as.length = bs.length)
    (h : pairArgs? as bs = some eqs)
    (hAgrees : ∀ e ∈ eqs, e.Agrees f) :
    (as.map (Side.subst f)).map outcome =
      (bs.map (Side.subst f)).map outcome := by
  have hPairs :
      List.Forall₂
        (fun a b =>
          outcome (Side.subst f a) = outcome (Side.subst f b))
        as bs := by
    refine List.forall₂_iff_zip.mpr ⟨hLength, ?_⟩
    intro a b hab
    by_cases hPresent : a.isSome || b.isSome
    · apply hAgrees (a, b)
      rw [pairArgs?_eq_some h]
      exact List.mem_filter.mpr ⟨hab, hPresent⟩
    · have hAbsent : a = none ∧ b = none := by
        simpa using hPresent
      rw [hAbsent.1, hAbsent.2]
  rw [List.map_map, List.map_map, ← List.forall₂_eq_eq_eq]
  exact List.forall₂_map_left_iff.mpr
    (List.forall₂_map_right_iff.mpr hPairs)

/- Two terms of one constructor, and their arguments. -/
theorem decompose?_eq_some
    {s t : Side}
    {eqs : List Equation}
    (h : decompose? s t = some eqs) :
    ∃ u w as bs,
      s = some u ∧ t = some w ∧ u.kind = w.kind ∧
        u.args? = some as ∧ w.args? = some bs ∧
        (u.isGround && w.isGround) = false ∧
        pairArgs? as bs = some eqs := by
  rcases s with _ | u
  · simp [decompose?] at h
  · rcases t with _ | w
    · simp [decompose?] at h
    · simp only [decompose?] at h
      split at h
      · cases h
      · rename_i hKinds
        simp only [Bool.or_eq_true, not_or, decide_eq_true_eq,
          not_not, ne_eq] at hKinds
        split at h
        · rename_i as bs hAs hBs
          exact
            ⟨u, w, as, bs, rfl, rfl, hKinds.1, hAs, hBs,
              by simpa using hKinds.2, h⟩
        · cases h

/- Terms that differ are decomposed. -/
theorem step_of_decompose?
    {s t : Side}
    {parts : List Equation}
    (hDiffer : Term.sameOption s t = false)
    (h : decompose? s t = some parts) :
    step s t = .ok (.replaceBy parts) := by
  rcases decompose?_eq_some h with
    ⟨u, w, as, bs, rfl, rfl, _, hAs, hBs, _, _⟩
  cases u with
  | var x => cases hAs
  | _ =>
      all_goals
        cases w with
        | var y => cases hBs
        | _ => all_goals simp [step, hDiffer, h]

/- Terms that are not both ground have a constructor. -/
theorem exists_constructor
    {u w : Term}
    {as bs : List (Option Term)}
    (hKind : u.kind = w.kind)
    (hAs : u.args? = some as)
    (hBs : w.args? = some bs)
    (hOpen : (u.isGround && w.isGround) = false) :
    ∃ c : Constructor, u.kind = c.kind ∧ w.kind = c.kind := by
  cases u with
  | var v => cases hAs
  | app c args => exact ⟨c, rfl, hKind.symm⟩
  | ground g =>
      cases w with
      | var v => cases hBs
      | app c args => exact ⟨c, hKind, rfl⟩
      | ground g' => simp [Term.isGround] at hOpen

/- Terms agree where the equations between arguments do. -/
theorem agrees_of_decompose?
    {P : Variable → Prop}
    {f : Variable → Side}
    {s t : Side}
    {eqs : List Equation}
    (hs : Side.Within P s)
    (ht : Side.Within P t)
    (h : decompose? s t = some eqs)
    (hAgrees : ∀ e ∈ eqs, e.Agrees f) :
    Equation.Agrees f (s, t) := by
  rcases decompose?_eq_some h with
    ⟨u, w, as, bs, rfl, rfl, hKind, hAs, hBs, hOpen, hPairs⟩
  rcases exists_constructor hKind hAs hBs hOpen with
    ⟨c, hu, hw⟩
  rcases Term.subst_of_args? f (hs u rfl).1 hu hAs with
    ⟨hLeft, hLeftLength⟩
  rcases Term.subst_of_args? f (ht w rfl).1 hw hBs with
    ⟨hRight, hRightLength⟩
  have hLength : as.length = bs.length := by
    rw [hLeftLength, hRightLength]
  unfold Equation.Agrees
  simp only [Side.subst, hLeft, hRight]
  apply Term.outcome_combine_congr
  exact outcomes_of_pairArgs? hLength hPairs hAgrees

/- The variables of the arguments are those of a term. -/
theorem occurrences_args
    {t : Term}
    {args : List (Option Term)}
    (h : t.args? = some args)
    {arg : Option Term}
    (hArg : arg ∈ args)
    {v : Variable}
    (hv : v ∈ Side.occurrences arg) :
    v ∈ t.occurrences := by
  cases arg with
  | none => simp [Side.occurrences] at hv
  | some u =>
      cases t with
      | var w => cases h
      | app c args' =>
          cases h
          exact (Term.mem_occurrences_app v c args).mpr
            ⟨u, hArg, hv⟩
      | ground g =>
          rcases Option.map_eq_some_iff.mp h with ⟨gs, _, rfl⟩
          rcases List.mem_map.mp hArg with ⟨g', _, hg'⟩
          rcases Option.map_eq_some_iff.mp hg' with ⟨x, _, rfl⟩
          simp [Side.occurrences, Term.occurrences] at hv

/- The sides of the parts of an equation are among its own. -/
theorem occurrences_of_mem_decompose?
    {s t : Side}
    {parts : List Equation}
    (h : decompose? s t = some parts)
    {e : Equation}
    (he : e ∈ parts) :
    Side.occurrences e.1 ⊆ Side.occurrences s ∧
      Side.occurrences e.2 ⊆ Side.occurrences t := by
  rcases decompose?_eq_some h with
    ⟨u, w, as, bs, rfl, rfl, _, hAs, hBs, _, hPairs⟩
  rcases mem_of_mem_pairArgs? hPairs he with ⟨hLeft, hRight⟩
  exact
    ⟨fun v hv => occurrences_args hAs hLeft hv,
      fun v hv => occurrences_args hBs hRight hv⟩

/- Decomposition brings in no variable. -/
theorem occurrences_decompose?
    {s t : Side}
    {parts : List Equation}
    (h : decompose? s t = some parts)
    (rest : List Equation) :
    Equation.occurrences (parts ++ rest) ⊆
      Equation.occurrences ((s, t) :: rest) := by
  intro v hv
  rcases List.mem_flatMap.mp hv with ⟨e, he, hv⟩
  rcases List.mem_append.mp he with hPart | hRest
  · rcases occurrences_of_mem_decompose? h hPart with
      ⟨hLeft, hRight⟩
    refine List.mem_flatMap.mpr ⟨(s, t), by simp, ?_⟩
    rcases List.mem_append.mp hv with hv | hv
    · exact List.mem_append_left _ (hLeft hv)
    · exact List.mem_append_right _ (hRight hv)
  · exact List.mem_flatMap.mpr ⟨e, by simp [hRest], hv⟩

/- Equations between arguments stay in scope. -/
theorem within_of_decompose?
    {P : Variable → Prop}
    {s t : Side}
    {eqs : List Equation}
    (hs : Side.Within P s)
    (ht : Side.Within P t)
    (h : decompose? s t = some eqs)
    {e : Equation}
    (he : e ∈ eqs) :
    Side.Within P e.1 ∧ Side.Within P e.2 := by
  rcases decompose?_eq_some h with
    ⟨u, w, as, bs, rfl, rfl, _, hAs, hBs, _, hPairs⟩
  rcases mem_of_mem_pairArgs? hPairs he with ⟨hLeft, hRight⟩
  exact
    ⟨Term.within_args hs hAs hLeft,
      Term.within_args ht hBs hRight⟩

end Unify

end StatementQuery

------------------------------------------------------------
-- Merging Two Variables
------------------------------------------------------------

namespace StatementQuery

namespace Bindings

/- Values that depend on the variable only are all found. -/
theorem functional_of_eq
    {θ : Bindings}
    (F : Variable → Side)
    (h : ∀ entry ∈ θ.entries, entry.2 = F entry.1) :
    θ.Functional := by
  rcases θ with ⟨entries⟩
  rintro ⟨v, value⟩ hEntry
  have hValue : value = F v := h (v, value) hEntry
  rw [hValue]
  simp only [get?] at h hEntry ⊢
  induction entries with
  | nil => simp at hEntry
  | cons first entries ih =>
      rcases first with ⟨w, other⟩
      rw [lookup_cons_ite]
      by_cases hv : v = w
      · have hOther : other = F w := h (w, other) (by simp)
        rw [if_pos hv, hOther, hv]
      · rw [if_neg hv]
        apply ih
        · intro entry hMem
          exact h entry (List.mem_cons_of_mem _ hMem)
        · rcases List.mem_cons.mp hEntry with hFirst | hRest
          · cases hFirst
            exact absurd rfl hv
          · exact hRest

/- A variable of a table stands for what the table says. -/
theorem value_table
    (f : Variable → Side)
    {vs : List Variable}
    {v : Variable}
    (hv : v ∈ vs) :
    value ⟨vs.map fun w => (w, f w)⟩ v = f v := by
  have hFunctional :
      Functional ⟨vs.map fun w => (w, f w)⟩ := by
    apply functional_of_eq f
    intro entry hEntry
    rcases List.mem_map.mp hEntry with ⟨w, _, rfl⟩
    rfl
  apply value_of_get?
  exact hFunctional (v, f v) (List.mem_map.mpr ⟨v, hv, rfl⟩)

end Bindings

namespace Unify

/- The variable that two merged variables become. -/
def survivor (gone kept : Variable) : Variable :=
  kept.withKind gone.kind

/- The bindings that take one variable into another. -/
def mergeInto (gone kept : Variable) : Bindings :=
  let value := some (Term.var (survivor gone kept))
  let θ :=
    if kept.kind = gone.kind then Bindings.empty
    else Bindings.singleton kept value
  θ.insert gone value

/- The left one of two variables is taken into a wider one. -/
theorem merge_of_le
    {x y : Variable}
    (h : x.kind ≤ y.kind) :
    merge x y = .ok (mergeInto x y) := by
  have hNot : ¬ y.kind < x.kind := not_lt_of_ge h
  have hMeet : x.kind.meet y.kind = some x.kind :=
    Kind.meet_eq_some_iff.mpr (Or.inl ⟨h, rfl⟩)
  simp [merge, hNot, hMeet, mergeInto, survivor]

/- The right one of two variables is taken into a wider one. -/
theorem merge_of_lt
    {x y : Variable}
    (h : y.kind < x.kind) :
    merge x y = .ok (mergeInto y x) := by
  have hMeet : y.kind.meet x.kind = some y.kind :=
    Kind.meet_eq_some_iff.mpr (Or.inl ⟨le_of_lt h, rfl⟩)
  simp [merge, h, hMeet, mergeInto, survivor]

/- Merging takes the narrower variable into the other. -/
theorem merge_ok
    {x y : Variable}
    {σ : Bindings}
    (h : merge x y = .ok σ) :
    ∃ gone kept,
      (gone = x ∧ kept = y ∧ ¬ y.kind < x.kind ∨
          gone = y ∧ kept = x ∧ y.kind < x.kind) ∧
        gone.kind ≤ kept.kind ∧ σ = mergeInto gone kept := by
  have hInto :
      ∀ gone kept : Variable, ¬ kept.kind < gone.kind →
        ∀ k, gone.kind.meet kept.kind = some k →
          k = gone.kind ∧ gone.kind ≤ kept.kind := by
    intro gone kept hNot k hMeet
    rcases Kind.meet_eq_some_iff.mp hMeet with
      ⟨hLe, rfl⟩ | ⟨hLe, rfl⟩
    · exact ⟨rfl, hLe⟩
    · by_cases hEq : kept.kind = gone.kind
      · exact ⟨hEq, le_of_eq hEq.symm⟩
      · exact absurd (lt_of_le_of_ne hLe hEq) hNot
  unfold merge at h
  by_cases hLt : y.kind < x.kind
  · have hNot : ¬ x.kind < y.kind := lt_asymm hLt
    simp only [hLt, if_true] at h
    cases hMeet : y.kind.meet x.kind with
    | none => simp [hMeet] at h
    | some k =>
        rcases hInto y x hNot k hMeet with ⟨rfl, hLe⟩
        simp only [hMeet] at h
        cases h
        exact ⟨y, x, Or.inr ⟨rfl, rfl, hLt⟩, hLe, rfl⟩
  · simp only [hLt, if_false] at h
    cases hMeet : x.kind.meet y.kind with
    | none => simp [hMeet] at h
    | some k =>
        rcases hInto x y hLt k hMeet with ⟨rfl, hLe⟩
        simp only [hMeet] at h
        cases h
        exact ⟨x, y, Or.inl ⟨rfl, rfl, hLt⟩, hLe, rfl⟩

/- Only the two variables are bound, both to the survivor. -/
theorem get?_mergeInto
    (gone kept v : Variable) :
    (mergeInto gone kept).get? v =
      if v = gone ∨ v = kept ∧ kept.kind ≠ gone.kind then
        some (some (.var (survivor gone kept)))
      else none := by
  unfold mergeInto
  simp only [Bindings.get?_insert]
  by_cases hGone : v = gone
  · simp [hGone]
  · by_cases hKind : kept.kind = gone.kind
    · simp [hGone, hKind]
    · simp [hGone, hKind]

/- Whatever is bound is bound to the survivor. -/
theorem snd_of_mem_mergeInto
    {gone kept : Variable}
    {entry : Variable × Side}
    (h : entry ∈ (mergeInto gone kept).entries) :
    entry.2 = some (.var (survivor gone kept)) := by
  unfold mergeInto at h
  rcases Bindings.mem_insertEntry h with rfl | hOld
  · rfl
  · split at hOld
    · simp [Bindings.empty] at hOld
    · simp only [Bindings.singleton, List.mem_singleton] at hOld
      rw [hOld]

/- Both variables stand for the survivor. -/
theorem value_mergeInto
    {gone kept v : Variable}
    (h : v = gone ∨ v = kept) :
    (mergeInto gone kept).value v =
      some (.var (survivor gone kept)) := by
  unfold Bindings.value
  rw [get?_mergeInto]
  split
  · rfl
  · rename_i hNot
    rcases h with rfl | rfl
    · exact absurd (Or.inl rfl) hNot
    · -- The survivor is the kept variable, of the same kind.
      have hKind : v.kind = gone.kind := by
        by_contra hKind
        exact hNot (Or.inr ⟨rfl, hKind⟩)
      have hSame : survivor gone v = v :=
        Variable.eq_of_name_of_kind rfl hKind.symm
      rw [hSame]
      rfl

/- All other variables stand for themselves. -/
theorem value_mergeInto_of_not
    {gone kept v : Variable}
    (h : ¬ (v = gone ∨ v = kept)) :
    (mergeInto gone kept).value v = some (.var v) := by
  apply Bindings.value_of_get?_none
  rw [get?_mergeInto]
  simp [not_or.mp h]

/- The kinds after a name has left and another is narrowed. -/
def mergedKinds
    (κ : Kinding)
    (gone kept : Variable) :
    Kinding := fun n =>
  if n = gone.name then none
  else if n = kept.name then some gone.kind
  else κ n

/- Variables of one name and in scope are one variable. -/
theorem eq_of_has
    {κ : Kinding}
    {v w : Variable}
    (hv : κ.Has v)
    (hw : κ.Has w)
    (hName : v.name = w.name) :
    v = w := by
  refine Variable.eq_of_name_of_kind hName ?_
  have hEq : some v.kind = some w.kind := by
    rw [← hv, ← hw, hName]
  exact Option.some.inj hEq

/- Merging moves a scope to the merged kinds. -/
theorem moves_mergeInto
    {κ : Kinding}
    {gone kept : Variable}
    (hGone : κ.Has gone)
    (hKept : κ.Has kept)
    (hNe : gone ≠ kept)
    (hLe : gone.kind ≤ kept.kind) :
    Moves κ.Has (mergeInto gone kept)
      (mergedKinds κ gone kept) := by
  have hNames : kept.name ≠ gone.name := by
    intro hName
    exact hNe (eq_of_has hGone hKept hName.symm)
  have hSurvivor :
      (mergedKinds κ gone kept).Has (survivor gone kept) := by
    simp [Kinding.Has, mergedKinds, survivor,
      Variable.withKind, hNames]
  have hOther :
      ∀ v, κ.Has v → v ≠ gone → v ≠ kept →
        (mergedKinds κ gone kept).Has v := by
    intro v hv hvGone hvKept
    have hGoneName : v.name ≠ gone.name := by
      intro hName
      exact hvGone (eq_of_has hv hGone hName)
    have hKeptName : v.name ≠ kept.name := by
      intro hName
      exact hvKept (eq_of_has hv hKept hName)
    simp only [Kinding.Has, mergedKinds, hGoneName, hKeptName,
      if_false]
    exact hv
  constructor
  · -- All values are the survivor.
    apply Bindings.functional_of_eq
      fun _ => some (.var (survivor gone kept))
    intro entry hEntry
    exact snd_of_mem_mergeInto hEntry
  · intro v hv
    by_cases hMerged : v = gone ∨ v = kept
    · rw [value_mergeInto hMerged]
      have hKind : gone.kind ≤ v.kind := by
        rcases hMerged with rfl | rfl
        · exact le_refl v.kind
        · exact hLe
      have hFits :=
        Side.fits_some (Term.wellKinded_var hSurvivor)
      exact hFits.mono hKind
    · have hNot := not_or.mp hMerged
      rw [value_mergeInto_of_not hMerged]
      exact Side.fits_some
        (Term.wellKinded_var (hOther v hv hNot.1 hNot.2))
  · intro v s hBound
    rw [get?_mergeInto] at hBound
    split at hBound
    · rename_i hCase
      rcases hCase with rfl | ⟨rfl, hKind⟩
      · refine ⟨hGone, ?_⟩
        intro k hk
        simp [mergedKinds] at hk
      · refine ⟨hKept, ?_⟩
        intro k hk
        simp only [mergedKinds, hNames, if_false, if_true,
          Option.some.injEq] at hk
        rw [← hk]
        exact lt_of_le_of_ne hLe (Ne.symm hKind)
    · cases hBound
  · intro n k hk
    unfold mergedKinds at hk
    split at hk
    · cases hk
    · split at hk
      · rename_i hName
        cases hk
        exact ⟨kept, hKept, hName.symm, hLe⟩
      · exact ⟨⟨n, k⟩, hk, rfl, le_refl k⟩

end Unify

end StatementQuery

------------------------------------------------------------
-- Eliminating A Variable
------------------------------------------------------------

namespace StatementQuery

namespace Unify

/- A variable is bound to a side of its kind without its name. -/
theorem eliminate_ok
    {x : Variable}
    {s : Side}
    {σ : Bindings}
    (h : eliminate x s = .ok σ) :
    σ = .singleton x s ∧
      (∀ t, s = some t → t.kind ≤ x.kind) ∧
      ∀ v ∈ Side.occurrences s, v.name ≠ x.name := by
  cases s with
  | none =>
      cases h
      simp [Side.occurrences]
  | some t =>
      simp only [eliminate] at h
      split at h
      · cases h
      · rename_i hKind
        split at h
        · cases h
        · rename_i hOccurs
          cases h
          refine ⟨rfl, ?_, ?_⟩
          · intro u hu
            cases hu
            simpa using hKind
          · intro v hv hName
            apply hOccurs
            rw [List.contains_eq_mem, decide_eq_true_eq]
            exact List.mem_map.mpr ⟨v, hv, hName⟩

/- The kinds after a name has left. -/
def dropName (κ : Kinding) (name : String) : Kinding := fun n =>
  if n = name then none else κ n

/- Eliminating a variable takes its name out of the scope. -/
theorem moves_eliminate
    {κ : Kinding}
    {x : Variable}
    {s : Side}
    {σ : Bindings}
    (hx : κ.Has x)
    (hs : Side.Within κ.Has s)
    (h : eliminate x s = .ok σ) :
    Moves κ.Has σ (dropName κ x.name) := by
  rcases eliminate_ok h with ⟨rfl, hKind, hNames⟩
  have hOther :
      ∀ v, κ.Has v → v.name ≠ x.name →
        (dropName κ x.name).Has v := by
    intro v hv hName
    simp only [Kinding.Has, dropName, hName, if_false]
    exact hv
  constructor
  · apply Bindings.functional_of_eq fun _ => s
    intro entry hEntry
    simp only [Bindings.singleton, List.mem_singleton] at hEntry
    rw [hEntry]
  · intro v hv
    by_cases hvx : v = x
    · rw [hvx, Bindings.value_singleton_self]
      intro t ht
      refine ⟨hKind t ht, (hs t ht).1, ?_⟩
      intro w hw
      apply hOther w ((hs t ht).2 w hw)
      apply hNames
      simpa [ht, Side.occurrences] using hw
    · rw [Bindings.value_singleton_of_ne hvx]
      refine
        Side.fits_some (Term.wellKinded_var (hOther v hv ?_))
      intro hName
      exact hvx (eq_of_has hv hx hName)
  · intro v s' hBound
    rw [Bindings.get?_singleton] at hBound
    split at hBound
    · rename_i hvx
      rw [hvx]
      refine ⟨hx, ?_⟩
      intro k hk
      simp [dropName] at hk
    · cases hBound
  · intro n k hk
    unfold dropName at hk
    split at hk
    · cases hk
    · exact ⟨⟨n, k⟩, hk, rfl, le_refl k⟩

end Unify

end StatementQuery

------------------------------------------------------------
-- Reducing A Work List
------------------------------------------------------------

namespace StatementQuery

namespace Unify

/- Bindings that an equation asks for move its scope. -/
theorem moves_of_step
    {κ : Kinding}
    {s t : Side}
    {σ : Bindings}
    (hs : Side.Within κ.Has s)
    (ht : Side.Within κ.Has t)
    (h : step s t = .ok (.bindTo σ)) :
    ∃ κ', Moves κ.Has σ κ' := by
  rcases bindTo_cases h with
    ⟨x, y, rfl, rfl, hNe, hMerge⟩ |
      ⟨x, u, hSides, _, hEliminate⟩
  · rcases merge_ok hMerge with ⟨gone, kept, hCase, hLe, rfl⟩
    rcases hCase with ⟨rfl, rfl, _⟩ | ⟨rfl, rfl, _⟩
    · exact ⟨_, moves_mergeInto hs.var ht.var hNe hLe⟩
    · exact ⟨_, moves_mergeInto ht.var hs.var hNe.symm hLe⟩
  · rcases hSides with ⟨rfl, rfl⟩ | ⟨rfl, rfl⟩
    · exact ⟨_, moves_eliminate hs.var ht hEliminate⟩
    · exact ⟨_, moves_eliminate ht.var hs hEliminate⟩

/- An equation agrees where its bindings are absorbed. -/
theorem agrees_of_step
    {f : Variable → Side}
    {s t : Side}
    {σ : Bindings}
    (h : step s t = .ok (.bindTo σ))
    (hAbsorbs : Absorbs f σ) :
    Equation.Agrees f (s, t) := by
  unfold Equation.Agrees
  rcases bindTo_cases h with
    ⟨x, y, rfl, rfl, hNe, hMerge⟩ |
      ⟨x, u, hSides, _, hEliminate⟩
  · rcases merge_ok hMerge with ⟨gone, kept, hCase, _, rfl⟩
    have hGone := hAbsorbs gone
    have hKept := hAbsorbs kept
    rw [value_mergeInto (Or.inl rfl)] at hGone
    rw [value_mergeInto (Or.inr rfl)] at hKept
    have hBoth : outcome (some (f gone)) = outcome (some (f kept)) :=
      hGone.symm.trans hKept
    rcases hCase with ⟨rfl, rfl, _⟩ | ⟨rfl, rfl, _⟩
    · exact hBoth
    · exact hBoth.symm
  · rcases eliminate_ok hEliminate with ⟨rfl, _, _⟩
    have hx := hAbsorbs x
    rw [Bindings.value_singleton_self] at hx
    rcases hSides with ⟨rfl, rfl⟩ | ⟨rfl, rfl⟩
    · exact hx.symm
    · exact hx

/- Equations in scope. -/
def Within (P : Variable → Prop) (eqs : List Equation) : Prop :=
  ∀ e ∈ eqs, Side.Within P e.1 ∧ Side.Within P e.2

/- An equation is replaced by those between arguments. -/
theorem decompose?_of_step
    {s t : Side}
    {parts : List Equation}
    (h : step s t = .ok (.replaceBy parts)) :
    decompose? s t = some parts := by
  rcases step_cases h with
    ⟨hEq, _⟩ | ⟨_, _, _, _, _, _, _, hEq⟩ |
      ⟨_, _, _, _, _, hEq⟩ | ⟨eqs, hParts, hEq⟩
  · cases hEq
  · cases hEq
  · cases hEq
  · cases hEq
    exact hParts

/- What replaces the first equation stays in scope. -/
theorem within_of_replace
    {P : Variable → Prop}
    {s t : Side}
    {parts rest : List Equation}
    (hWithin : Within P ((s, t) :: rest))
    (h : step s t = .ok (.replaceBy parts)) :
    Within P (parts ++ rest) := by
  have hHead := hWithin (s, t) (by simp)
  intro e he
  rcases List.mem_append.mp he with hPart | hRest
  · exact within_of_decompose? hHead.1 hHead.2
      (decompose?_of_step h) hPart
  · exact hWithin e (by simp [hRest])

/- What replaces the first equation makes it agree. -/
theorem agrees_of_replace
    {P : Variable → Prop}
    {f : Variable → Side}
    {s t : Side}
    {parts rest : List Equation}
    (hWithin : Within P ((s, t) :: rest))
    (h : step s t = .ok (.replaceBy parts))
    (hAgrees : ∀ e ∈ parts ++ rest, Equation.Agrees f e) :
    ∀ e ∈ (s, t) :: rest, Equation.Agrees f e := by
  have hHead := hWithin (s, t) (by simp)
  intro e he
  rcases List.mem_cons.mp he with rfl | hRest
  · apply agrees_of_decompose? hHead.1 hHead.2
      (decompose?_of_step h)
    intro part hPart
    exact hAgrees part (by simp [hPart])
  · exact hAgrees e (by simp [hRest])

/- A dropped equation has the same sides. -/
theorem same_of_drop
    {s t : Side}
    (h : step s t = .ok .drop) :
    Term.sameOption s t = true := by
  rcases step_cases h with
    ⟨_, hSame⟩ | ⟨_, _, _, _, _, _, _, hEq⟩ |
      ⟨_, _, _, _, _, hEq⟩ | ⟨_, _, hEq⟩
  · exact hSame
  · cases hEq
  · cases hEq
  · cases hEq

/- A dropped equation agrees everywhere. -/
theorem agrees_of_drop
    {f : Variable → Side}
    {s t : Side}
    {rest : List Equation}
    (h : step s t = .ok .drop)
    (hAgrees : ∀ e ∈ rest, Equation.Agrees f e) :
    ∀ e ∈ (s, t) :: rest, Equation.Agrees f e := by
  intro e he
  rcases List.mem_cons.mp he with rfl | hRest
  · exact Term.outcome_subst_congr f (same_of_drop h)
  · exact hAgrees e hRest

/- A dropped equation makes way for the rest. -/
theorem reduce_of_drop
    {s t : Side}
    (h : step s t = .ok .drop)
    (rest : List Equation) :
    reduce ((s, t) :: rest) = reduce rest := by
  rw [reduce]
  split <;> simp_all

/- An equation that is replaced makes way for its parts. -/
theorem reduce_of_replace
    {s t : Side}
    {parts : List Equation}
    (h : step s t = .ok (.replaceBy parts))
    (rest : List Equation) :
    reduce ((s, t) :: rest) = reduce (parts ++ rest) := by
  rw [reduce]
  split <;> simp_all

/- An equation that asks for bindings is the one reached. -/
theorem reduce_of_bindTo
    {s t : Side}
    {σ : Bindings}
    (h : step s t = .ok (.bindTo σ))
    (rest : List Equation) :
    reduce ((s, t) :: rest) = .ok (some (σ, rest)) := by
  rw [reduce]
  split <;> simp_all

/- An equation that fails is the end. -/
theorem reduce_of_error
    {s t : Side}
    {e : UnifyFailure}
    (h : step s t = .error e)
    (rest : List Equation) :
    reduce ((s, t) :: rest) = .error e := by
  rw [reduce]
  split <;> simp_all

/- A work list that reduces to nothing agrees everywhere. -/
theorem agrees_of_reduce_none
    {P : Variable → Prop}
    {eqs : List Equation}
    (hWithin : Within P eqs)
    (h : reduce eqs = .ok none)
    (f : Variable → Side) :
    ∀ e ∈ eqs, Equation.Agrees f e := by
  fun_induction reduce eqs with
  | case1 => simp
  | case2 s t rest e hStep => cases h
  | case3 s t rest hStep ih =>
      apply agrees_of_drop hStep
      apply ih _ h
      intro e he
      exact hWithin e (by simp [he])
  | case4 s t rest parts hStep ih =>
      apply agrees_of_replace hWithin hStep
      exact ih (within_of_replace hWithin hStep) h
  | case5 s t rest σ hStep => cases h

/-
  The bindings that a work list asks for move its scope, and
  where they are absorbed it agrees if the rest does.
-/
theorem reduce_some
    {κ : Kinding}
    {eqs rest : List Equation}
    {σ : Bindings}
    (hWithin : Within κ.Has eqs)
    (h : reduce eqs = .ok (some (σ, rest))) :
    (∃ κ', Moves κ.Has σ κ') ∧
      Within κ.Has rest ∧
      ∀ f, Absorbs f σ →
        (∀ e ∈ rest, Equation.Agrees f e) →
          ∀ e ∈ eqs, Equation.Agrees f e := by
  fun_induction reduce eqs with
  | case1 => cases h
  | case2 s t rest' e hStep => cases h
  | case3 s t rest' hStep ih =>
      have hRest : Within κ.Has rest' := by
        intro e he
        exact hWithin e (by simp [he])
      rcases ih hRest h with ⟨hMoves, hWithin', hAgrees⟩
      refine ⟨hMoves, hWithin', ?_⟩
      intro f hAbsorbs hf
      exact agrees_of_drop hStep (hAgrees f hAbsorbs hf)
  | case4 s t rest' parts hStep ih =>
      rcases ih (within_of_replace hWithin hStep) h with
        ⟨hMoves, hWithin', hAgrees⟩
      refine ⟨hMoves, hWithin', ?_⟩
      intro f hAbsorbs hf
      exact agrees_of_replace hWithin hStep
        (hAgrees f hAbsorbs hf)
  | case5 s t rest' σ' hStep =>
      cases h
      have hHead := hWithin (s, t) (by simp)
      refine ⟨moves_of_step hHead.1 hHead.2 hStep, ?_, ?_⟩
      · intro e he
        exact hWithin e (by simp [he])
      · intro f hAbsorbs hf e he
        rcases List.mem_cons.mp he with rfl | hRest
        · exact agrees_of_step hStep hAbsorbs
        · exact hf e hRest

end Unify

end StatementQuery
