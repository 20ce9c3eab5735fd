import StatementQuery.Proofs.FaithfulTerms
import StatementQuery.Proofs.PatternMatching

/-
  Instances of the template of a match.

  The template of a match is an instance of its pattern, and
  what the template becomes under further values is again one.
  The values of the pattern's variables are those of the match
  followed by the further ones.

  Key definitions include:
    * `Side.after`
    * `Bindings.Closed`

  Main declarations:
    * `Term.outcome_subst_after`
    * `Term.instantiateWith_plain`
    * `Term.exists_instantiate`
    * `Entry.spec_after`
    * `Entry.exists_values`
-/

------------------------------------------------------------
-- Substituting Twice
------------------------------------------------------------

namespace StatementQuery

namespace Term

/- Replacing renamed variables is replacing variables. -/
theorem subst_renaming
    (f : Variable → Side)
    (g : Variable → Variable)
    (t : Term) :
    (t.mapVariables g).subst f = t.subst fun v => f (g v) := by
  induction t with
  | ground h => rfl
  | var v => rfl
  | app c args ih =>
      rw [mapVariables, mapVariablesArgs_eq_map, subst_app,
        subst_app, List.map_map]
      congr 1
      apply List.map_congr_left
      intro arg hArg
      cases arg with
      | none => rfl
      | some t => exact ih t hArg

end Term

/-
  Replace what variables stand for in turn.  What cannot be
  replaced is left absent.
-/
def Side.after
    (f g : Variable → Side)
    (v : Variable) :
    Side :=
  (Side.subst f (g v)).getD none

namespace Term

/-
  Of arguments that are replaced twice, those in required
  slots are present both times.
-/
theorem exists_slot_of_replaced
    {φ ψ : Option Term → Option Side}
    {slots : List Slot}
    {args values results : List (Option Term)}
    (hSlots : List.Forall₂ Slot.Admits slots args)
    (hValues : args.map φ = values.map some)
    (hFills : List.Forall₂ Fills slots values)
    (hResults : values.map ψ = results.map some)
    (hFills' : List.Forall₂ Fills slots results)
    {t : Term}
    (ht : some t ∈ args) :
    ∃ slot ∈ slots, t.kind ≤ slot.kind ∧
      (slot.isOptional = true ∨
        ∃ u q, φ (some t) = some (some u) ∧
          ψ (some u) = some (some q)) := by
  induction hSlots generalizing values results with
  | nil => cases ht
  | @cons slot arg slots args hAdmits hSlots ih =>
      rcases values with _ | ⟨value, values⟩
      · cases hValues
      rcases results with _ | ⟨result, results⟩
      · cases hResults
      simp only [List.map_cons, List.cons.injEq]
        at hValues hResults
      rcases hValues with ⟨hValue, hValues⟩
      rcases hResults with ⟨hResult, hResults⟩
      rcases List.forall₂_cons.mp hFills with ⟨hFill, hFills⟩
      rcases List.forall₂_cons.mp hFills' with
        ⟨hFill', hFills'⟩
      rcases List.mem_cons.mp ht with rfl | ht
      · refine ⟨slot, List.mem_cons_self, hAdmits, ?_⟩
        by_cases hOptional : slot.isOptional = true
        · exact Or.inl hOptional
        · right
          cases value with
          | none => exact absurd (hFill rfl) hOptional
          | some u =>
              cases result with
              | none => exact absurd (hFill' rfl) hOptional
              | some q => exact ⟨u, q, hValue, hResult⟩
      · rcases ih hValues hFills hResults hFills' ht with
          ⟨slot', hMem, hRest⟩
        exact ⟨slot', List.mem_cons_of_mem _ hMem, hRest⟩

section

variable {κ : Kinding} {f g : Variable → Side}

/- What a value of a timeless kind stands for is replaced. -/
theorem subst_ne_none_of_timeless
    (hf : ∀ w, κ.Has w → Side.Fits κ w.kind (f w))
    {k : Kind}
    (hk : k.Timeless)
    {s : Side}
    (hFits : Side.Fits κ k s) :
    Side.subst f s ≠ none := by
  cases s with
  | none => simp [Side.subst]
  | some t =>
      rcases hFits t rfl with ⟨hLe, hKinded⟩
      apply subst_ne_none hKinded.shaped
        (over_of_timeless hKinded.shaped (hk.mono hLe))
      intro w hw
      exact hf w (hKinded.atKinds w hw)

/-
  If a term is replaced twice, so is what each of its
  variables stands for.  An argument that is dropped stands in
  an optional slot, so no time is in it.
-/
theorem subst_values_ne_none
    (hf : ∀ w, κ.Has w → Side.Fits κ w.kind (f w))
    {t u q : Term}
    (hShaped : t.WellShaped)
    (hg : ∀ v ∈ t.occurrences, Side.Fits κ v.kind (g v))
    (h : t.subst g = some (some u))
    (h' : u.subst f = some (some q)) :
    ∀ v ∈ t.occurrences, Side.subst f (g v) ≠ none := by
  induction t generalizing u q with
  | ground g => simp [occurrences]
  | var v =>
      intro w hw
      cases List.mem_singleton.mp hw
      have hv : g v = some u := Option.some.inj h
      rw [hv, Side.subst, h']
      simp
  | app c args ih =>
      rcases hShaped with _ | _ | ⟨hSlots, hOpen, hArgs⟩
      rw [subst_app] at h
      have hLength :
          c.slots.length =
            (args.map (Side.subst g)).length := by
        rw [List.length_map, hSlots.length_eq]
      rcases combine_eq_some hLength h with
        ⟨hAbsent, _⟩ | ⟨values, t, hValues, hFills, hBuilt, hEq⟩
      · cases hAbsent
      cases hEq
      obtain ⟨results, hResults, hFills'⟩ :
          ∃ results : List Side,
            values.map (Side.subst f) = results.map some ∧
              List.Forall₂ Fills c.slots results := by
        rcases assemble?_eq_some hBuilt with
          ⟨_, rfl⟩ | ⟨_, hClosed, _, _⟩
        · rw [subst_app] at h'
          have hLength' :
              c.slots.length =
                (values.map (Side.subst f)).length := by
            rw [List.length_map, hFills.length_eq]
          rcases combine_eq_some hLength' h' with
            ⟨hAbsent, _⟩ | ⟨results, _, hResults, hFills', _⟩
          · cases hAbsent
          · exact ⟨results, hResults, hFills'⟩
        · exact ⟨values, map_subst_of_closed f hClosed, hFills⟩
      intro v hv
      rcases (mem_occurrences_app v c args).mp hv with
        ⟨s, hs, hv⟩
      have hFitsArg :
          ∀ w ∈ s.occurrences, Side.Fits κ w.kind (g w) := by
        intro w hw
        exact hg w
          ((mem_occurrences_app w c args).mpr ⟨s, hs, hw⟩)
      rcases exists_slot_of_replaced hSlots hValues hFills
          hResults hFills' hs with
        ⟨slot, hSlot, hKind, hOptional | ⟨u, q, hu, hq⟩⟩
      · have hTimeless : s.kind.Timeless :=
          (Constructor.timeless_of_isOptional hSlot
            hOptional).mono hKind
        exact subst_ne_none_of_timeless hf
          (timeless_of_mem_occurrences (hArgs s hs) hTimeless hv)
          (hFitsArg v hv)
      · exact ih s hs (hArgs s hs) hFitsArg hu hq v hv

/-
  Replacing twice is replacing what the variables stand for,
  if the first values are over variables that stand for
  themselves.
-/
theorem outcome_subst_after
    (hSettled : ∀ w, κ.Has w → g w = some (.var w))
    (hf : ∀ w, κ.Has w → Side.Fits κ w.kind (f w))
    {t u q : Term}
    (hShaped : t.WellShaped)
    (hg : ∀ v ∈ t.occurrences, Side.Fits κ v.kind (g v))
    (h : t.subst g = some (some u))
    (h' : u.subst f = some (some q)) :
    (∀ v ∈ t.occurrences,
        Side.Fits κ v.kind (Side.after f g v)) ∧
      outcome (t.subst (Side.after f g)) =
        outcome (some (some q)) := by
  have hDefined :
      ∀ v ∈ t.occurrences,
        Side.subst f (g v) = some (Side.after f g v) := by
    intro v hv
    have hSome := subst_values_ne_none hf hShaped hg h h' v hv
    rcases Option.ne_none_iff_exists'.mp hSome with ⟨s, hs⟩
    rw [Side.after, hs]
    rfl
  have hSelf :
      ∀ w, κ.Has w → Side.after f g w = f w := by
    intro w hw
    rw [Side.after, hSettled w hw]
    rfl
  have hOver :
      ∀ s k, Side.Fits κ k s →
        Side.subst (Side.after f g) s = Side.subst f s := by
    intro s k hFits
    cases s with
    | none => rfl
    | some t =>
        apply subst_congr
        intro w hw
        exact hSelf w ((hFits t rfl).2.atKinds w hw)
  have hFits :
      ∀ v ∈ t.occurrences,
        Side.Fits κ v.kind (Side.after f g v) := by
    intro v hv
    cases hgv : g v with
    | none =>
        rw [Side.after, hgv]
        exact Side.fits_none κ v.kind
    | some s =>
        rcases hg v hv s hgv with ⟨hLe, hKinded⟩
        have hs := hDefined v hv
        rw [hgv] at hs
        exact
          (fits_subst hKinded.shaped
            (fun w hw => hf w (hKinded.atKinds w hw)) hs).mono
            hLe
  refine ⟨hFits, ?_⟩
  have hu : Side.Fits κ t.kind (some u) :=
    fits_subst hShaped hg h
  have hAbsorb :=
    outcome_subst_absorb (f := Side.after f g) hShaped hFits
      (by
        intro v hv
        rw [hOver _ _ (hg v hv), hDefined v hv]) h
  rw [← hAbsorb, hOver _ _ hu, Side.subst, h']

end

end Term

end StatementQuery

------------------------------------------------------------
-- Strict Instances
------------------------------------------------------------

namespace StatementQuery

namespace Term

/- Arguments that are replaced strictly are replaced. -/
theorem instantiateArgs_plain
    {θ : Bindings}
    (c : Constructor)
    (position : Nat)
    (slots : List Slot)
    {args : List (Option Term)}
    {values : Option (List (Option Term))}
    (hArgs :
      ∀ t, some t ∈ args → ∀ r,
        t.instantiateWith .exact θ = .ok r →
          t.instantiateWith .plain θ = .ok r)
    (h :
      instantiateArgs .exact θ c position slots args =
        .ok values) :
    instantiateArgs .plain θ c position slots args =
      .ok values := by
  induction args generalizing position slots values with
  | nil => cases slots <;> exact h
  | cons arg args ih =>
      cases slots with
      | nil => exact h
      | cons slot slots =>
          rw [instantiateArgs] at h ⊢
          cases hArg : instantiateArg .exact θ arg with
          | error e => simp [hArg] at h
          | ok value =>
              have hPlain :
                  instantiateArg .plain θ arg = .ok value := by
                cases arg with
                | none => exact hArg
                | some t => exact hArgs t (by simp) value hArg
              simp only [hArg] at h
              simp only [hPlain]
              split at h
              · simp [InstantiateMode.exact] at h
              · rename_i hPresent
                rw [if_neg hPresent]
                cases hRest :
                    instantiateArgs .exact θ c (position + 1)
                      slots args with
                | error e => simp [hRest] at h
                | ok found =>
                    have hFound :=
                      ih (position + 1) slots
                        (fun t ht => hArgs t (by simp [ht]))
                        hRest
                    rw [hRest] at h
                    rw [hFound]
                    exact h

/- A strict instance of a term is an instance. -/
theorem instantiateWith_plain
    {θ : Bindings}
    {t : Term}
    {r : Side}
    (h : t.instantiateWith .exact θ = .ok r) :
    t.instantiateWith .plain θ = .ok r := by
  induction t generalizing r with
  | ground g => exact h
  | var v => exact h
  | app c args ih =>
      rw [instantiateWith] at h ⊢
      split at h
      · rename_i hTouched
        rw [if_pos hTouched]
        cases hGather :
            instantiateArgs .exact θ c 0 c.slots args with
        | error e => simp [hGather] at h
        | ok values =>
            have hPlain :=
              instantiateArgs_plain c 0 c.slots
                (fun t ht r hr => ih t ht hr) hGather
            rw [hGather] at h
            rw [hPlain]
            exact h
      · rename_i hUntouched
        rw [if_neg hUntouched]
        exact h

/- What has the outcome of a term is a term like it. -/
theorem exists_of_outcome
    {r : Option Side}
    {t : Term}
    (h : outcome r = outcome (some (some t))) :
    ∃ u, r = some (some u) ∧ u.canonical = t.canonical := by
  rcases r with _ | (_ | u)
  · cases h
  · cases h
  · exact ⟨u, rfl, by simpa [outcome] using h⟩

/- What has the outcome of a ground term is a ground term. -/
theorem exists_ground_of_outcome
    {r : Option Side}
    {g : Ground}
    (h : outcome r = outcome (some (some (.ground g)))) :
    ∃ g', r = some (some (.ground g')) ∧ g'.same g = true := by
  rcases exists_of_outcome h with ⟨u, rfl, hu⟩
  cases u with
  | ground g' =>
      refine ⟨g', rfl, (Ground.same_iff g' g).mpr ?_⟩
      simpa [canonical] using hu
  | var v => simp [canonical] at hu
  | app c args => simp [canonical] at hu

/- Terms that are the same become the same ground term. -/
theorem exists_subst_of_canonical
    {f : Variable → Side}
    {t u : Term}
    {g : Ground}
    (hSame : t.canonical = u.canonical)
    (h : u.subst f = some (some (.ground g))) :
    ∃ g', t.subst f = some (some (.ground g')) ∧
      g'.same g = true := by
  apply exists_ground_of_outcome
  rw [← h]
  apply outcome_subst_congr f (s := some t) (t := some u)
  exact (same_iff t u).mpr hSame

end Term

/- Bindings to ground terms of the kinds of their variables. -/
def Bindings.Closed (τ : Bindings) : Prop :=
  ∀ v t, τ.get? v = some (some t) →
    (∃ g, t = .ground g) ∧ t.kind ≤ v.kind

/- A variable of closed bindings is ground, absent, or open. -/
theorem Bindings.Closed.fits
    {τ : Bindings}
    (h : τ.Closed)
    {κ : Kinding}
    {v : Variable}
    (hv : κ.Has v) :
    Side.Fits κ v.kind (τ.value v) := by
  cases hGet : τ.get? v with
  | none =>
      rw [Bindings.value_of_get?_none hGet]
      rintro t ⟨⟩
      exact ⟨le_refl v.kind, Term.wellKinded_var hv⟩
  | some s =>
      rw [Bindings.value_of_get? hGet]
      rintro t rfl
      rcases h v t hGet with ⟨⟨g, rfl⟩, hKind⟩
      exact ⟨hKind, Term.wellKinded_ground κ g⟩

end StatementQuery

------------------------------------------------------------
-- Instances Of A Match
------------------------------------------------------------

namespace StatementQuery

namespace Term

/- A strict instance under closed bindings is an instance. -/
theorem subst_of_closed
    {κ : Kinding}
    {t : Term}
    (hShaped : t.WellShaped)
    (hVars : ∀ v ∈ t.occurrences, κ.Has v)
    {τ : Bindings}
    (hτ : τ.Closed)
    {r : Side}
    (h : t.instantiateWith .exact τ = .ok r) :
    t.subst τ.value = some r := by
  have hEq :
      (t.instantiateWith .plain τ).toOption = t.subst τ.value :=
    instantiateWith_eq_subst rfl hShaped fun v hv =>
      hτ.fits (hVars v hv)
  rw [← hEq, instantiateWith_plain h]
  rfl

/- What a term settles to is its instance. -/
theorem subst_of_settle?
    {κ : Kinding}
    {θ : Bindings}
    (hSettled : Unify.Settled κ θ)
    {t u : Term}
    (hShaped : t.WellShaped)
    (hFits :
      ∀ v ∈ t.occurrences, Side.Fits κ v.kind (θ.value v))
    (h : settle? θ t = some (some u)) :
    ∃ w, t.subst θ.value = some (some w) ∧
      w.canonical = u.canonical ∧ u.WellShaped := by
  have hInstance :
      (t.instantiate θ).toOption = t.subst θ.value :=
    instantiateWith_eq_subst rfl hShaped hFits
  cases hSubst : t.subst θ.value with
  | none =>
      rw [hSubst] at hInstance
      cases hRun : t.instantiate θ with
      | error e => simp [settle?, settleFor, hRun] at h
      | ok r => simp [hRun, Except.toOption] at hInstance
  | some r =>
      rw [hSubst] at hInstance
      cases r with
      | none =>
          have hRun := eq_ok_of_toOption hInstance
          simp [settle?, settleFor, hRun] at h
      | some w =>
          rw [settle?_of_subst hSettled hShaped hFits hSubst]
            at h
          have hw := (fits_subst hShaped hFits hSubst w rfl).2
          refine ⟨w, rfl, ?_⟩
          split at h
          · rename_i hSame
            cases h
            exact ⟨(same_iff w t).mp hSame, hShaped⟩
          · cases h
            exact ⟨rfl, hw.shaped⟩

/- What a renamed pattern becomes is an instance of it. -/
theorem exists_instantiate
    {p : Term}
    (hp : p.WellFormed)
    {ρ : String → String}
    {κ : Kinding}
    {f : Variable → Side}
    (hf :
      ∀ v ∈ (p.mapVariables (Variable.renamed ρ)).occurrences,
        Side.Fits κ v.kind (f v))
    {g : Ground}
    (h :
      outcome ((p.mapVariables (Variable.renamed ρ)).subst f) =
        outcome (some (some (.ground g)))) :
    ∃ θ g',
      p.instantiate θ = .ok (some (.ground g')) ∧
        g'.same g = true := by
  obtain ⟨θ, hθ⟩ :
      ∃ θ : Bindings, ∀ v ∈ p.occurrences,
        θ.value v = f (v.renamed ρ) := by
    refine ⟨⟨p.occurrences.map fun v => (v, f (v.renamed ρ))⟩, ?_⟩
    intro v hv
    exact Bindings.value_table (fun v => f (v.renamed ρ)) hv
  have hFits :
      ∀ v ∈ p.occurrences, Side.Fits κ v.kind (θ.value v) := by
    intro v hv
    rw [hθ v hv]
    exact hf (v.renamed ρ)
      ((mem_occurrences_mapVariables _ p _).mpr
        ⟨v, hv, rfl⟩)
  rcases exists_ground_of_outcome h with ⟨g', hg', hSame⟩
  refine ⟨θ, g', eq_ok_of_toOption ?_, hSame⟩
  have hSubst :
      (p.instantiate θ).toOption = p.subst θ.value :=
    instantiateWith_eq_subst rfl hp.shaped hFits
  rw [hSubst, subst_congr hθ, ← hg', subst_renaming]

end Term

namespace Entry

/- The template of a match is what its pattern settles to. -/
theorem settle?_of_matchPattern?
    {p goal : Term}
    {used : List String}
    {found : PatternMatch}
    (h : matchPattern? p goal used = some found) :
    Term.settle? found.bindings found.pattern =
      some (some found.template) := by
  simp only [matchPattern?] at h
  split at h
  · split at h
    · split at h
      · rename_i hSettle
        cases h
        exact hSettle
      · cases h
    · cases h
  · cases h

/-
  If the template of a match becomes a ground term, its pattern
  and the statement it matches become the same, with the
  bindings of the match first.
-/
theorem spec_after
    {p goal : Term}
    {used : List String}
    {found : PatternMatch}
    (hPattern : found.pattern.WellFormed)
    (hGoal : goal.WellFormed)
    (hUnify :
      unify [(some found.pattern, some goal)] =
        .ok found.bindings)
    (h : matchPattern? p goal used = some found)
    {τ : Bindings}
    (hτ : τ.Closed)
    {g : Ground}
    (hg :
      found.template.instantiateWith .exact τ =
        .ok (some (.ground g))) :
    ∃ κ,
      ∀ t, t = found.pattern ∨ t = goal →
        (∀ v ∈ t.occurrences,
          Side.Fits κ v.kind
            (Side.after τ.value found.bindings.value v)) ∧
          outcome
              (t.subst
                (Side.after τ.value found.bindings.value)) =
            outcome (some (some (.ground g))) := by
  rcases Term.solves_of_unify hPattern hGoal hUnify with
    ⟨κ, hSolves, _, hSettled⟩
  have hAgrees :
      outcome (found.pattern.subst found.bindings.value) =
        outcome (goal.subst found.bindings.value) :=
    hSolves.pending (some found.pattern, some goal) (by simp)
  have hSelf :
      ∀ w, κ.Has w → found.bindings.value w = some (.var w) := by
    intro w hw
    exact Bindings.value_of_get?_none (hSettled.unbound hw)
  have hFits :
      ∀ v ∈ found.pattern.occurrences,
        Side.Fits κ v.kind (found.bindings.value v) :=
    fun v hv => hSolves.fits v (Or.inl (Or.inl hv))
  rcases Term.subst_of_settle? hSettled hPattern.shaped hFits
      (settle?_of_matchPattern? h) with
    ⟨u, hu, hSame, hShaped⟩
  have hTemplate :
      found.template.subst τ.value =
        some (some (.ground g)) := by
    have hKinded :=
      (Term.fits_subst hPattern.shaped hFits hu u rfl).2
    have hVars : ∀ v ∈ found.template.occurrences, κ.Has v := by
      intro v hv
      apply hKinded.atKinds
      rwa [← Term.occurrences_canonical, hSame,
        Term.occurrences_canonical]
    exact Term.subst_of_closed hShaped hVars hτ hg
  refine ⟨κ, ?_⟩
  intro t ht
  have hFormed : t.WellFormed := by
    rcases ht with rfl | rfl
    · exact hPattern
    · exact hGoal
  have hFitsTerm :
      ∀ v ∈ t.occurrences,
        Side.Fits κ v.kind (found.bindings.value v) := by
    intro v hv
    apply hSolves.fits
    rcases ht with rfl | rfl
    · exact Or.inl (Or.inl hv)
    · exact Or.inl (Or.inr hv)
  -- Both terms have the template as their instance.
  have hInstance :
      outcome (t.subst found.bindings.value) =
        outcome (some (some u)) := by
    rcases ht with rfl | rfl
    · rw [hu]
    · rw [← hAgrees, hu]
  rcases Term.exists_of_outcome hInstance with ⟨w, hw, hwSame⟩
  rcases Term.exists_subst_of_canonical (hwSame.trans hSame)
      hTemplate with ⟨q, hq, hqSame⟩
  rcases Term.outcome_subst_after hSelf (fun w hw => hτ.fits hw)
      hFormed.shaped hFitsTerm hw hq with
    ⟨hAfter, hOutcome⟩
  refine ⟨hAfter, hOutcome.trans ?_⟩
  simpa [outcome, Term.canonical] using
    (Ground.same_iff q g).mp hqSame

/-
  If the template of a match becomes a ground term, there are
  values under which its pattern and the statement it matches
  become the same.
-/
theorem exists_values
    {p goal : Term}
    {used : List String}
    {found : PatternMatch}
    (hPattern : found.pattern.WellFormed)
    (hGoal : goal.WellFormed)
    (hUnify :
      unify [(some found.pattern, some goal)] =
        .ok found.bindings)
    (h : matchPattern? p goal used = some found)
    {τ : Bindings}
    (hτ : τ.Closed)
    {g : Ground}
    (hg :
      found.template.instantiateWith .exact τ =
        .ok (some (.ground g))) :
    ∃ κ f,
      ∀ t, t = found.pattern ∨ t = goal →
        (∀ v ∈ t.occurrences, Side.Fits κ v.kind (f v)) ∧
          outcome (t.subst f) =
            outcome (some (some (.ground g))) := by
  rcases spec_after hPattern hGoal hUnify h hτ hg with ⟨κ, hValues⟩
  exact ⟨κ, _, hValues⟩

end Entry

end StatementQuery
