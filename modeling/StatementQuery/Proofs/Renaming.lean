import Mathlib.Data.List.Perm.Subperm
import StatementQuery.Proofs.SolverSteps
import StatementQuery.Term.Rename

/-
  Renaming apart.

  A supply has more names than any list, so a fresh name is
  one that is not taken.  Renaming a term gives each of its
  names a fresh one, and no two names the same one; the term
  keeps its shape and the kinds of its variables.

  Key definitions include:
    * `Variable.renamed`
    * `Renames`

  Main declarations:
    * `NameSupply.fresh_notMem`
    * `Term.exists_renaming`
    * `Term.instantiateWith_renaming`
-/

------------------------------------------------------------
-- Fresh Names
------------------------------------------------------------

namespace StatementQuery

namespace NameSupply

/- Different numbers make different names. -/
theorem numbered_injective
    (base : String) :
    Function.Injective (numbered base) := by
  intro i j h
  have hRepr : i.repr = j.repr :=
    (String.append_right_inj (stem base)).mp h
  have hDigits : Numeral.digits i = Numeral.digits j :=
    String.ofList_injective hRepr
  rw [← Numeral.value_digits i, hDigits, Numeral.value_digits]

/- The numbered names of a supply are all different. -/
theorem nodup_take
    (base : String)
    (count : Nat) :
    (take base count).Nodup :=
  List.nodup_range.map (numbered_injective base)

/- One of the candidates is not taken. -/
theorem exists_candidate
    (supply : NameSupply)
    (taken : List String) :
    ∃ name ∈ supply.candidates taken, name ∉ taken := by
  by_contra hAll
  push Not at hAll
  have hSubset :
      take supply.base (taken.length + 1) ⊆ taken := by
    intro name hName
    exact hAll name (List.mem_append_right _ hName)
  have hLength :=
    ((nodup_take supply.base (taken.length + 1)).subperm
      hSubset).length_le
  simp [take] at hLength

/- A fresh name is not taken. -/
theorem fresh_notMem
    (supply : NameSupply)
    (taken : List String) :
    supply.fresh taken ∉ taken := by
  unfold fresh
  cases hFind :
      (supply.candidates taken).find? fun name =>
        !taken.contains name with
  | none =>
      rcases exists_candidate supply taken with
        ⟨name, hName, hFree⟩
      have hTaken := List.find?_eq_none.mp hFind name hName
      simp [hFree] at hTaken
  | some name =>
      simpa using List.find?_some hFind

end NameSupply

end StatementQuery

------------------------------------------------------------
-- Fresh Variables
------------------------------------------------------------

namespace StatementQuery

/- The variable under the new name of its name. -/
def Variable.renamed
    (ρ : String → String)
    (v : Variable) :
    Variable :=
  v.withName (ρ v.name)

/-
  New names for the names of some variables: none is to be
  avoided, and different names get different ones.
-/
structure Renames
    (ρ : String → String)
    (vs : List Variable)
    (avoid : List String) :
    Prop where
  fresh : ∀ v ∈ vs, ρ v.name ∉ avoid
  injective :
    ∀ v ∈ vs, ∀ w ∈ vs, ρ v.name = ρ w.name → v.name = w.name

namespace Term

/- What a renaming binds each variable to. -/
def renamingEntry
    (ρ : String → String)
    (v : Variable) :
    Variable × Option Term :=
  (v, some (.var (v.renamed ρ)))

/- What has no name yet is of the name chosen last, or has none. -/
theorem name_eq_or_mem_unchosen
    {chosen : List (String × String)}
    {v w : Variable}
    {vs : List Variable}
    (name : String)
    (hw :
      w ∈ (v :: vs).filter fun v =>
        (chosen.lookup v.name).isNone) :
    w.name = v.name ∨
      w ∈ vs.filter fun w =>
        (((v.name, name) :: chosen).lookup w.name).isNone := by
  rcases List.mem_filter.mp hw with ⟨hMem, hNone⟩
  by_cases hSame : w.name = v.name
  · exact Or.inl hSame
  · right
    have hTail : w ∈ vs := by
      rcases List.mem_cons.mp hMem with rfl | hTail
      · exact absurd rfl hSame
      · exact hTail
    simp only [List.mem_filter, lookup_cons_ite, hSame, if_false]
    exact ⟨hTail, hNone⟩

/-
  A renaming keeps the names chosen before, and gives the
  other names new ones that are not taken.
-/
theorem exists_renamingFrom
    (supply : String → NameSupply)
    (taken : List String)
    (chosen : List (String × String))
    (vs : List Variable) :
    ∃ ρ : String → String,
      renamingFrom supply taken chosen vs =
          vs.map (renamingEntry ρ) ∧
        (∀ n m, chosen.lookup n = some m → ρ n = m) ∧
        Renames ρ
          (vs.filter fun v => (chosen.lookup v.name).isNone)
          taken := by
  induction vs generalizing taken chosen with
  | nil =>
      refine ⟨fun n => (chosen.lookup n).getD n, rfl, ?_, ?_⟩
      · intro n m hLookup
        simp [hLookup]
      · constructor <;> simp
  | cons v vs ih =>
      cases hLookup : chosen.lookup v.name with
      | some name =>
          rcases ih taken chosen with ⟨ρ, hEntries, hKeep, hNew⟩
          refine ⟨ρ, ?_, hKeep, ?_⟩
          · simp [renamingFrom, hLookup, hEntries, renamingEntry,
              Variable.renamed, hKeep v.name name hLookup]
          · simpa [hLookup] using hNew
      | none =>
          let name := (supply v.name).fresh taken
          have hFree : name ∉ taken :=
            NameSupply.fresh_notMem (supply v.name) taken
          rcases ih (name :: taken) ((v.name, name) :: chosen)
            with ⟨ρ, hEntries, hKeep, hNew⟩
          have hName : ρ v.name = name := by
            apply hKeep
            simp
          refine ⟨ρ, ?_, ?_, ?_, ?_⟩
          · have hHead :
                renamingFrom supply taken chosen (v :: vs) =
                  renamingEntry ρ v ::
                    renamingFrom supply (name :: taken)
                      ((v.name, name) :: chosen) vs := by
              simp [renamingFrom, hLookup, renamingEntry,
                Variable.renamed, hName, name]
            rw [hHead, hEntries, List.map_cons]
          · intro n m hm
            apply hKeep
            rw [lookup_cons_ite, if_neg]
            · exact hm
            · rintro rfl
              rw [hLookup] at hm
              cases hm
          · intro w hw
            rcases name_eq_or_mem_unchosen name hw with hSame | hTail
            · rw [hSame, hName]
              exact hFree
            · intro hMem
              exact hNew.fresh w hTail
                (List.mem_cons_of_mem _ hMem)
          · intro w hw x hx hEq
            have hApart :
                ∀ y ∈ vs.filter fun w =>
                    (((v.name, name) :: chosen).lookup
                      w.name).isNone,
                  ρ y.name ≠ name := by
              intro y hy hy'
              exact hNew.fresh y hy (by simp [hy'])
            rcases name_eq_or_mem_unchosen name hw with hSame | hTail
            · rcases name_eq_or_mem_unchosen name hx with hSame' | hTail'
              · rw [hSame, hSame']
              · rw [hSame, hName] at hEq
                exact absurd hEq.symm (hApart x hTail')
            · rcases name_eq_or_mem_unchosen name hx with hSame' | hTail'
              · rw [hSame', hName] at hEq
                exact absurd hEq (hApart w hTail)
              · exact hNew.injective w hTail x hTail' hEq

/- Renaming a term gives its names new ones. -/
theorem exists_renaming
    (t : Term)
    (avoid : List String)
    (supply : String → NameSupply) :
    ∃ ρ : String → String,
      t.renamingBindings avoid supply =
          ⟨t.vars.map (renamingEntry ρ)⟩ ∧
        Renames ρ t.occurrences avoid := by
  rcases exists_renamingFrom supply avoid [] t.vars with
    ⟨ρ, hEntries, _, hNew⟩
  have hMem :
      ∀ v ∈ t.occurrences,
        v ∈ t.vars.filter fun w =>
          (([] : List (String × String)).lookup
            w.name).isNone := by
    intro v hv
    simpa [vars] using hv
  refine ⟨ρ, ?_, ?_, ?_⟩
  · rw [renamingBindings, hEntries]
  · intro v hv
    exact hNew.fresh v (hMem v hv)
  · intro v hv w hw hEq
    exact hNew.injective v (hMem v hv) w (hMem w hw) hEq

/- Each variable of a list is found under its new name. -/
theorem get?_renamingEntries
    (ρ : String → String)
    {vs : List Variable}
    {v : Variable}
    (hv : v ∈ vs) :
    Bindings.get? ⟨vs.map (renamingEntry ρ)⟩ v =
      some (some (.var (v.renamed ρ))) := by
  have hFunctional :
      Bindings.Functional ⟨vs.map (renamingEntry ρ)⟩ := by
    apply Bindings.functional_of_eq
      fun w => some (.var (w.renamed ρ))
    intro entry hEntry
    rcases List.mem_map.mp hEntry with ⟨w, _, rfl⟩
    rfl
  exact hFunctional (renamingEntry ρ v)
    (List.mem_map.mpr ⟨v, hv, rfl⟩)

end Term

end StatementQuery

------------------------------------------------------------
-- Renamed Terms
------------------------------------------------------------

namespace StatementQuery

namespace Term

/- Present arguments are renamed, absent ones stay absent. -/
theorem instantiateArgs_renaming
    {mode : InstantiateMode}
    {θ : Bindings}
    {g : Variable → Variable}
    (c : Constructor)
    (position : Nat)
    {slots : List Slot}
    {args : List (Option Term)}
    (hSlots : List.Forall₂ Slot.Admits slots args)
    (hArgs :
      ∀ t, some t ∈ args →
        t.instantiateWith mode θ =
          .ok (some (t.mapVariables g))) :
    instantiateArgs mode θ c position slots args =
      .ok (some (args.map (Option.map (mapVariables g)))) := by
  induction hSlots generalizing position with
  | nil => simp [instantiateArgs]
  | @cons slot arg slots args hHead hTail ih =>
      have hRest :=
        ih (position + 1) fun t ht => hArgs t (by simp [ht])
      cases arg with
      | none =>
          have hOptional : slot.isOptional = true := hHead
          simp [instantiateArgs, instantiateArg, hOptional, hRest]
      | some t =>
          have ht := hArgs t (by simp)
          simp [instantiateArgs, instantiateArg, ht, hRest]

/-
  Bindings of variables to variables, none of a wider kind,
  replace them in the term, in every mode.  Variables that are
  not bound stay.
-/
theorem instantiateWith_mapVariables
    {κ : Kinding}
    (mode : InstantiateMode)
    {θ : Bindings}
    {g : Variable → Variable}
    {t : Term}
    (hShaped : t.WellShaped)
    (hLe : ∀ v ∈ t.occurrences, (g v).kind ≤ v.kind)
    (hKinds : ∀ v ∈ t.occurrences, κ.Has (g v))
    (hGet :
      ∀ v ∈ t.occurrences,
        θ.get? v = some (some (.var (g v))) ∨
          (θ.get? v = none ∧ g v = v)) :
    t.instantiateWith mode θ =
      .ok (some (t.mapVariables g)) := by
  induction t with
  | ground g => rfl
  | var v =>
      have hv : v ∈ (Term.var v).occurrences := by
        simp [occurrences]
      rcases hGet v hv with hBound | ⟨hFree, hSelf⟩
      · simp [instantiateWith, instantiateVariable, hBound, kind,
          hLe v hv, mapVariables]
      · simp [instantiateWith, instantiateVariable, hFree,
          mapVariables, hSelf]
  | app c args ih =>
      rcases hShaped with _ | _ | ⟨hSlots, hOpen, hArgs⟩
      have hMem :
          ∀ t, some t ∈ args → ∀ v ∈ t.occurrences,
            v ∈ (Term.app c args).occurrences := by
        intro t ht v hv
        exact (mem_occurrences_app v c args).mpr ⟨t, ht, hv⟩
      have hMapped :
          ∀ t, some t ∈ args →
            t.instantiateWith mode θ =
              .ok (some (t.mapVariables g)) := by
        intro t ht
        exact ih t ht (hArgs t ht)
          (fun v hv => hLe v (hMem t ht v hv))
          (fun v hv => hKinds v (hMem t ht v hv))
          (fun v hv => hGet v (hMem t ht v hv))
      rw [instantiateWith, mapVariables, mapVariablesArgs_eq_map]
      split
      · -- The application is built again from its arguments.
        have hAtKinds :
            Variable.AtKinds κ
              (occurrencesArgs
                (args.map (Option.map (mapVariables g)))) := by
          intro w hw
          rw [← mapVariablesArgs_eq_map] at hw
          rcases (mem_occurrences_mapVariables g (.app c args)
            w).mp hw with ⟨v, hv, rfl⟩
          exact hKinds v hv
        have hApply :=
          apply_eq_assemble? (admits_mapVariables hLe hSlots)
            hAtKinds
        rw [assemble?, any_isOpenArg_mapVariables,
          if_pos hOpen] at hApply
        rw [instantiateArgs_renaming c 0 hSlots hMapped]
        simp [eq_ok_of_toOption hApply, Except.map]
      · -- No variable is bound, so each of them stays.
        rename_i hUntouched
        have hSelf :
            (Term.app c args).mapVariables g = .app c args := by
          apply mapVariables_eq_self
          intro v hv
          rcases hGet v hv with hBound | ⟨_, hStays⟩
          · refine absurd ?_ hUntouched
            apply List.any_eq_true.mpr
            exact ⟨v, hv, by simp [Bindings.binds, hBound]⟩
          · exact hStays
        rw [mapVariables, mapVariablesArgs_eq_map] at hSelf
        rw [hSelf]

/-
  Bindings of every variable to one of the same kind rename
  the term, in every mode.
-/
theorem instantiateWith_renaming
    {κ : Kinding}
    (mode : InstantiateMode)
    {θ : Bindings}
    {g : Variable → Variable}
    {t : Term}
    (hShaped : t.WellShaped)
    (hKind : ∀ v, (g v).kind = v.kind)
    (hKinds : ∀ v ∈ t.occurrences, κ.Has (g v))
    (hGet :
      ∀ v ∈ t.occurrences,
        θ.get? v = some (some (.var (g v)))) :
    t.instantiateWith mode θ =
      .ok (some (t.mapVariables g)) :=
  instantiateWith_mapVariables mode hShaped
    (fun v _ => le_of_eq (hKind v)) hKinds
    (fun v hv => Or.inl (hGet v hv))

end Term

end StatementQuery
