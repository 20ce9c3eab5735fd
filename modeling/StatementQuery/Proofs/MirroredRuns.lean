import Mathlib.Logic.Equiv.Basic
import StatementQuery.Proofs.Renaming
import StatementQuery.Proofs.SolverEvaluation
import StatementQuery.Proofs.UnifierCompleteness

/-
  The sides of equations exchanged.

  Two runs of the solver are compared, of which the second has
  the sides of some equations the other way round.  Both take
  the same steps, except that of two variables of one kind the
  second keeps the one that the first lets go.  From then on
  the terms of the second are those of the first with the two
  names exchanged, so the runs are related by a permutation of
  names that grows with every such step.  What the first
  substitutes, the second does as well.

  Key definitions include:
    * `Side.renamed`
    * `Unify.Mirrors`
    * `Unify.Twins`
    * `Unify.Follows`

  Main declarations:
    * `Term.subst_mapVariables`
    * `Unify.exists_bindTo`
    * `Unify.follows_bind`
    * `Unify.exists_solve_of_follows`
    * `unify_swap_iff`
-/

------------------------------------------------------------
-- Renamed Terms
------------------------------------------------------------

namespace StatementQuery

namespace Term

/- Variables are mapped one after the other. -/
theorem mapVariables_mapVariables
    (f g : Variable → Variable)
    (t : Term) :
    (t.mapVariables g).mapVariables f =
      t.mapVariables fun v => f (g v) := by
  induction t with
  | ground x => rfl
  | var v => rfl
  | app c args ih =>
      simp only [mapVariables, mapVariablesArgs_eq_map,
        List.map_map]
      congr 1
      apply List.map_congr_left
      intro arg hArg
      cases arg with
      | none => rfl
      | some t => simp [ih t hArg]

/- Mapping variables leaves numbers alone. -/
theorem canonical_mapVariables
    (g : Variable → Variable)
    (t : Term) :
    (t.mapVariables g).canonical =
      t.canonical.mapVariables g := by
  induction t with
  | ground x => rfl
  | var v => rfl
  | app c args ih =>
      simp only [mapVariables, canonical, canonicalArgs_eq_map,
        mapVariablesArgs_eq_map, List.map_map]
      congr 1
      apply List.map_congr_left
      intro arg hArg
      cases arg with
      | none => rfl
      | some t => simp [ih t hArg]

@[simp] theorem isGround_mapVariables
    (g : Variable → Variable)
    (t : Term) :
    (t.mapVariables g).isGround = t.isGround := by
  cases t <;> rfl

@[simp] theorem isVariable_mapVariables
    (g : Variable → Variable)
    (t : Term) :
    (t.mapVariables g).isVariable = t.isVariable := by
  cases t <;> rfl

/- The arguments of a mapped term are the mapped ones. -/
theorem args?_mapVariables
    (g : Variable → Variable)
    (t : Term) :
    (t.mapVariables g).args? =
      t.args?.map (List.map (Option.map (mapVariables g))) := by
  cases t with
  | var v => rfl
  | app c args =>
      simp [mapVariables, args?, mapVariablesArgs_eq_map]
  | ground x =>
      cases hArgs : x.args? with
      | none => simp [mapVariables, args?, hArgs]
      | some gs =>
          simp only [mapVariables, args?, hArgs, Option.map_some,
            List.map_map]
          congr 1
          apply List.map_congr_left
          intro arg _
          cases arg <;> rfl

/- What is assembled from mapped arguments. -/
theorem assemble?_mapVariables
    (g : Variable → Variable)
    (c : Constructor)
    (values : List Side) :
    assemble? c (values.map (Option.map (mapVariables g))) =
      (assemble? c values).map (mapVariables g) := by
  unfold assemble?
  rw [any_isOpenArg_mapVariables]
  split
  · simp [mapVariables, mapVariablesArgs_eq_map]
  · have hGround :
        (values.map (Option.map (mapVariables g))).map groundArg =
          values.map groundArg := by
      rw [List.map_map]
      apply List.map_congr_left
      intro value _
      rcases value with _ | (x | v | ⟨d, args⟩) <;> rfl
    rw [hGround]
    cases Ground.build c (values.map groundArg) <;> rfl

/- What is combined from mapped results. -/
theorem combine_mapVariables
    (g : Variable → Variable)
    (c : Constructor)
    (results : List (Option Side)) :
    combine c
        (results.map (Option.map (Option.map (mapVariables g)))) =
      (combine c results).map (Option.map (mapVariables g)) := by
  unfold combine
  rw [gather_map]
  rcases gather c.slots results with _ | _ | values
  · rfl
  · rfl
  · simp [assemble?_mapVariables, Function.comp_def]

/-
  Where mapped variables stand for mapped sides, a mapped term
  has the mapped result.
-/
theorem subst_mapVariables
    {f f' : Variable → Side}
    {g h : Variable → Variable}
    {t : Term}
    (hValues :
      ∀ v ∈ t.occurrences,
        f' (g v) = (f v).map (mapVariables h)) :
    (t.mapVariables g).subst f' =
      (t.subst f).map (Option.map (mapVariables h)) := by
  induction t with
  | ground x => rfl
  | var v =>
      simp [mapVariables, subst,
        hValues v (by simp [occurrences])]
  | app c args ih =>
      rw [mapVariables, mapVariablesArgs_eq_map, subst_app,
        subst_app, ← combine_mapVariables, List.map_map,
        List.map_map]
      congr 1
      apply List.map_congr_left
      intro arg hArg
      cases arg with
      | none => rfl
      | some t =>
          apply ih t hArg
          intro v hv
          exact hValues v
            ((mem_occurrences_app v c args).mpr ⟨t, hArg, hv⟩)

end Term

namespace Variable

@[simp] theorem kind_renamed
    (ρ : String → String)
    (v : Variable) :
    (v.renamed ρ).kind = v.kind :=
  rfl

@[simp] theorem name_renamed
    (ρ : String → String)
    (v : Variable) :
    (v.renamed ρ).name = ρ v.name :=
  rfl

/- A permutation of names keeps variables apart. -/
theorem renamed_injective
    (ρ : Equiv.Perm String) :
    Function.Injective (renamed ρ) := by
  intro v w h
  have hName := congrArg name h
  have hKind := congrArg kind h
  exact eq_of_name_of_kind (ρ.injective hName) hKind

end Variable

@[simp] theorem Term.kind_renamed
    (ρ : String → String)
    (t : Term) :
    (t.mapVariables (Variable.renamed ρ)).kind = t.kind := by
  cases t <;> rfl

namespace Side

/- A side with its names permuted. -/
def renamed (ρ : Equiv.Perm String) (s : Side) : Side :=
  s.map (Term.mapVariables (Variable.renamed ρ))

@[simp] theorem renamed_none
    (ρ : Equiv.Perm String) :
    renamed ρ none = none :=
  rfl

@[simp] theorem renamed_var
    (ρ : Equiv.Perm String)
    (v : Variable) :
    renamed ρ (some (.var v)) = some (.var (v.renamed ρ)) :=
  rfl

theorem renamed_some
    (ρ : Equiv.Perm String)
    (t : Term) :
    renamed ρ (some t) =
      some (t.mapVariables (Variable.renamed ρ)) :=
  rfl

/- Permuting no name changes nothing. -/
theorem renamed_refl
    (s : Side) :
    renamed (Equiv.refl String) s = s := by
  cases s with
  | none => rfl
  | some t =>
      have hSelf :
          t.mapVariables (Variable.renamed (Equiv.refl String)) =
            t :=
        Term.mapVariables_eq_self _ t fun v _ => rfl
      rw [renamed, Option.map_some, hSelf]

/- A permutation of names can be undone. -/
theorem renamed_symm
    (ρ : Equiv.Perm String)
    (s : Side) :
    renamed ρ.symm (renamed ρ s) = s := by
  cases s with
  | none => rfl
  | some t =>
      have hSelf :
          (t.mapVariables (Variable.renamed ρ)).mapVariables
              (Variable.renamed ρ.symm) =
            t := by
        rw [Term.mapVariables_mapVariables]
        apply Term.mapVariables_eq_self
        intro v _
        refine Variable.eq_of_name_of_kind ?_ rfl
        exact ρ.symm_apply_apply v.name
      simp [renamed, hSelf]

/- Sides are the same exactly if the renamed ones are. -/
theorem sameOption_renamed
    (ρ : Equiv.Perm String)
    (s t : Side) :
    Term.sameOption (renamed ρ s) (renamed ρ t) =
      Term.sameOption s t := by
  have hCanonical :
      ∀ (π : Equiv.Perm String) (s : Side),
        (renamed π s).map Term.canonical =
          renamed π (s.map Term.canonical) := by
    intro π s
    cases s with
    | none => rfl
    | some t => simp [renamed, Term.canonical_mapVariables]
  rw [Bool.eq_iff_iff, Term.sameOption_iff, Term.sameOption_iff,
    hCanonical, hCanonical]
  constructor
  · intro h
    have hUndone := congrArg (renamed ρ.symm) h
    rwa [renamed_symm, renamed_symm] at hUndone
  · intro h
    rw [h]

/- A renamed side is over the renamed variables. -/
theorem occurrences_renamed
    (ρ : Equiv.Perm String)
    {s : Side}
    {w : Variable}
    (hw : w ∈ occurrences (renamed ρ s)) :
    ∃ v ∈ occurrences s, v.renamed ρ = w := by
  cases s with
  | none => simp [occurrences] at hw
  | some t =>
      exact (Term.mem_occurrences_mapVariables _ t w).mp hw

/- Substitution follows a renaming. -/
theorem subst_renamed
    {f f' : Variable → Side}
    {ρ ρ' : Equiv.Perm String}
    {s : Side}
    (hValues :
      ∀ v ∈ occurrences s,
        f' (v.renamed ρ) = renamed ρ' (f v)) :
    subst f' (renamed ρ s) = (subst f s).map (renamed ρ') := by
  cases s with
  | none => rfl
  | some t => exact Term.subst_mapVariables hValues

end Side

end StatementQuery

------------------------------------------------------------
-- Mirrored Equations
------------------------------------------------------------

namespace StatementQuery

namespace Unify

/-
  An equation with its names permuted, and with its sides as
  they were or exchanged.
-/
inductive Mirrors
    (ρ : Equiv.Perm String) :
    Equation → Equation → Prop where
| upright (s t : Side) :
    Mirrors ρ (s, t) (Side.renamed ρ s, Side.renamed ρ t)
| turned (s t : Side) :
    Mirrors ρ (s, t) (Side.renamed ρ t, Side.renamed ρ s)

/- Arguments are paired the other way round. -/
theorem pairArgs?_swap
    (as bs : List (Option Term)) :
    pairArgs? bs as =
      (pairArgs? as bs).map (List.map Prod.swap) := by
  induction as generalizing bs with
  | nil => rcases bs with _ | ⟨_ | u, bs⟩ <;> rfl
  | cons a as ih =>
      cases bs with
      | nil => cases a <;> rfl
      | cons b bs =>
          rcases a with _ | t <;> rcases b with _ | u
          · simpa [pairArgs?] using ih bs
          · by_cases hVar : u.isVariable = true <;>
              simp [pairArgs?, hVar, ih, Function.comp_def]
          · by_cases hVar : t.isVariable = true <;>
              simp [pairArgs?, hVar, ih, Function.comp_def]
          · simp [pairArgs?, ih, Function.comp_def]

/- Renamed arguments are paired to renamed equations. -/
theorem pairArgs?_renamed
    (ρ : Equiv.Perm String)
    (as bs : List (Option Term)) :
    pairArgs? (as.map (Side.renamed ρ)) (bs.map (Side.renamed ρ)) =
      (pairArgs? as bs).map
        (List.map (Prod.map (Side.renamed ρ) (Side.renamed ρ))) := by
  induction as generalizing bs with
  | nil => rcases bs with _ | ⟨_ | u, bs⟩ <;> rfl
  | cons a as ih =>
      cases bs with
      | nil => cases a <;> rfl
      | cons b bs =>
          have hRest := ih bs
          rcases a with _ | t <;> rcases b with _ | u
          · simpa [pairArgs?] using hRest
          · by_cases hVar : u.isVariable = true <;>
              simp [pairArgs?, Side.renamed_some, hVar, hRest,
                Function.comp_def]
          · by_cases hVar : t.isVariable = true <;>
              simp [pairArgs?, Side.renamed_some, hVar, hRest,
                Function.comp_def]
          · simp [pairArgs?, Side.renamed_some, hRest,
              Function.comp_def]

/- Exchanging the sides exchanges those of all parts. -/
theorem decompose?_swap
    (s t : Side) :
    decompose? t s =
      (decompose? s t).map (List.map Prod.swap) := by
  rcases s with _ | s <;> rcases t with _ | t
  · rfl
  · rfl
  · rfl
  · by_cases hKind : s.kind = t.kind
    · simp only [decompose?, hKind, Bool.and_comm t.isGround]
      split
      · rfl
      · cases s.args? with
        | none => cases t.args? <;> rfl
        | some as =>
            cases t.args? with
            | none => rfl
            | some bs => exact pairArgs?_swap as bs
    · simp [decompose?, hKind, Ne.symm hKind]

/- Renaming both sides renames all parts. -/
theorem decompose?_renamed
    (ρ : Equiv.Perm String)
    (s t : Side) :
    decompose? (Side.renamed ρ s) (Side.renamed ρ t) =
      (decompose? s t).map
        (List.map (Prod.map (Side.renamed ρ) (Side.renamed ρ))) := by
  rcases s with _ | s <;> rcases t with _ | t
  · rfl
  · rfl
  · rfl
  · simp only [Side.renamed_some, decompose?,
      Term.kind_renamed, Term.isGround_mapVariables,
      Term.args?_mapVariables]
    split
    · rfl
    · cases s.args? with
      | none => rfl
      | some as =>
          cases t.args? with
          | none => rfl
          | some bs => exact pairArgs?_renamed ρ as bs

/- The parts of a mirrored equation are mirrored. -/
theorem Mirrors.decompose?
    {ρ : Equiv.Perm String}
    {e e' : Equation}
    (h : Mirrors ρ e e')
    {parts : List Equation}
    (hParts : decompose? e.1 e.2 = some parts) :
    ∃ parts',
      decompose? e'.1 e'.2 = some parts' ∧
        List.Forall₂ (Mirrors ρ) parts parts' := by
  cases h with
  | upright s t =>
      refine ⟨_, by rw [decompose?_renamed, hParts]; rfl, ?_⟩
      rw [List.forall₂_map_right_iff]
      exact List.forall₂_same.mpr fun e _ => .upright e.1 e.2
  | turned s t =>
      refine
        ⟨_, by rw [decompose?_swap, decompose?_renamed, hParts]; rfl,
          ?_⟩
      rw [List.map_map, List.forall₂_map_right_iff]
      exact List.forall₂_same.mpr fun e _ => .turned e.1 e.2

end Unify

end StatementQuery

------------------------------------------------------------
-- Twin Bindings
------------------------------------------------------------

namespace StatementQuery

/- The kinds of permuted names. -/
def Kinding.renamed
    (ρ : Equiv.Perm String)
    (κ : Kinding) :
    Kinding :=
  fun n => κ (ρ.symm n)

/- A renamed side fits where the side does. -/
theorem Side.Fits.renamed
    {κ : Kinding}
    {k : Kind}
    {s : Side}
    (h : Side.Fits κ k s)
    (ρ : Equiv.Perm String) :
    Side.Fits (κ.renamed ρ) k (Side.renamed ρ s) := by
  intro u hu
  rcases Option.map_eq_some_iff.mp hu with ⟨t, rfl, rfl⟩
  rcases h t rfl with ⟨hKind, hShaped, hKinds⟩
  refine ⟨by simpa using hKind, ?_, ?_⟩
  · exact Term.wellShaped_mapVariables
      (fun v _ => le_refl v.kind) hShaped
  · intro w hw
    rcases (Term.mem_occurrences_mapVariables _ t w).mp hw with
      ⟨v, hv, rfl⟩
    simpa [Kinding.renamed] using hKinds v hv

namespace Unify

/-
  Bindings that do to renamed variables what others do to the
  variables in scope, and what is bound by them.
-/
structure Twins
    (P : Variable → Prop)
    (ρ ρ' : Equiv.Perm String)
    (τ τ' : Bindings) :
    Prop where
  value :
    ∀ v, P v →
      τ'.value (v.renamed ρ) = Side.renamed ρ' (τ.value v)
  entries :
    ∀ entry' ∈ τ'.entries,
      ∃ v s, τ.get? v = some s ∧ entry'.2 = Side.renamed ρ' s

/- Renamed variables are merged in the same way. -/
theorem twins_mergeInto
    (P : Variable → Prop)
    (ρ : Equiv.Perm String)
    (gone kept : Variable) :
    Twins P ρ ρ (mergeInto gone kept)
      (mergeInto (gone.renamed ρ) (kept.renamed ρ)) := by
  constructor
  · intro v _
    by_cases hMerged : v = gone ∨ v = kept
    · have hMerged' :
          v.renamed ρ = gone.renamed ρ ∨
            v.renamed ρ = kept.renamed ρ :=
        hMerged.imp (congrArg _) (congrArg _)
      rw [value_mergeInto hMerged, value_mergeInto hMerged']
      rfl
    · have hMerged' :
          ¬ (v.renamed ρ = gone.renamed ρ ∨
            v.renamed ρ = kept.renamed ρ) := by
        simpa [(Variable.renamed_injective ρ).eq_iff] using hMerged
      rw [value_mergeInto_of_not hMerged,
        value_mergeInto_of_not hMerged']
      rfl
  · intro entry' hEntry
    refine
      ⟨gone, some (.var (survivor gone kept)),
        by simp [get?_mergeInto], ?_⟩
    rw [snd_of_mem_mergeInto hEntry]
    rfl

/-
  Of two variables of one kind either may be kept; the names
  of both are exchanged.
-/
theorem twins_turned
    {κ : Kinding}
    (ρ : Equiv.Perm String)
    {x y : Variable}
    (hx : κ.Has x)
    (hy : κ.Has y)
    (hKind : x.kind = y.kind) :
    Twins κ.Has ρ (ρ.trans (Equiv.swap (ρ x.name) (ρ y.name)))
      (mergeInto x y)
      (mergeInto (y.renamed ρ) (x.renamed ρ)) := by
  have hSurvivor :
      survivor (y.renamed ρ) (x.renamed ρ) =
        (survivor x y).renamed
          (ρ.trans (Equiv.swap (ρ x.name) (ρ y.name))) := by
    refine Variable.eq_of_name_of_kind ?_ hKind.symm
    simp [survivor, Variable.withKind]
  constructor
  · intro v hv
    by_cases hMerged : v = x ∨ v = y
    · have hMerged' :
          v.renamed ρ = y.renamed ρ ∨
            v.renamed ρ = x.renamed ρ :=
        (hMerged.imp (congrArg _) (congrArg _)).symm
      rw [value_mergeInto hMerged, value_mergeInto hMerged',
        hSurvivor]
      rfl
    · have hNot := not_or.mp hMerged
      have hMerged' :
          ¬ (v.renamed ρ = y.renamed ρ ∨
            v.renamed ρ = x.renamed ρ) := by
        simp [(Variable.renamed_injective ρ).eq_iff, hNot]
      have hName :
          v.renamed
              (ρ.trans (Equiv.swap (ρ x.name) (ρ y.name))) =
            v.renamed ρ := by
        refine Variable.eq_of_name_of_kind ?_ rfl
        apply Equiv.swap_apply_of_ne_of_ne
        · intro hEq
          exact hNot.1 (eq_of_has hv hx (ρ.injective hEq))
        · intro hEq
          exact hNot.2 (eq_of_has hv hy (ρ.injective hEq))
      rw [value_mergeInto_of_not hMerged,
        value_mergeInto_of_not hMerged', Side.renamed_var, hName]
  · intro entry' hEntry
    refine
      ⟨x, some (.var (survivor x y)),
        by simp [get?_mergeInto], ?_⟩
    rw [snd_of_mem_mergeInto hEntry, hSurvivor]
    rfl

/- A renamed variable is bound to the renamed side. -/
theorem twins_singleton
    (P : Variable → Prop)
    (ρ : Equiv.Perm String)
    (x : Variable)
    (u : Side) :
    Twins P ρ ρ (.singleton x u)
      (.singleton (x.renamed ρ) (Side.renamed ρ u)) := by
  constructor
  · intro v _
    by_cases hv : v = x
    · rw [hv, Bindings.value_singleton_self,
        Bindings.value_singleton_self]
    · rw [Bindings.value_singleton_of_ne hv,
        Bindings.value_singleton_of_ne
          ((Variable.renamed_injective ρ).ne hv)]
      rfl
  · intro entry' hEntry
    have hEq :
        entry' = (x.renamed ρ, Side.renamed ρ u) := by
      simpa [Bindings.singleton] using hEntry
    exact ⟨x, u, by simp, by rw [hEq]⟩

/- A renamed variable is eliminated by the renamed side. -/
theorem eliminate_renamed
    (ρ : Equiv.Perm String)
    {x : Variable}
    {u : Side}
    {τ : Bindings}
    (h : eliminate x u = .ok τ) :
    eliminate (x.renamed ρ) (Side.renamed ρ u) =
      .ok (.singleton (x.renamed ρ) (Side.renamed ρ u)) := by
  rcases eliminate_ok h with ⟨_, hKind, hNames⟩
  cases u with
  | none => rfl
  | some t =>
      have hLe :
          (t.mapVariables (Variable.renamed ρ)).kind ≤
            (x.renamed ρ).kind := by
        simpa using hKind t rfl
      have hOccurs :
          ((t.mapVariables (Variable.renamed ρ)).occurrences.map
              Variable.name).contains (x.renamed ρ).name =
            false := by
        rw [List.contains_eq_mem, decide_eq_false_iff_not]
        intro hMem
        rcases List.mem_map.mp hMem with ⟨w, hw, hName⟩
        rcases (Term.mem_occurrences_mapVariables _ t w).mp hw
          with ⟨v, hv, rfl⟩
        exact hNames v hv (ρ.injective hName)
      rw [Side.renamed_some, eliminate, if_neg (not_not.mpr hLe),
        hOccurs]
      rfl

/- A mirrored merge binds twins. -/
theorem exists_bindTo_of_vars
    {κ : Kinding}
    {ρ : Equiv.Perm String}
    {x y : Variable}
    {e' : Equation}
    {τ : Bindings}
    (h : Mirrors ρ (some (.var x), some (.var y)) e')
    (hx : κ.Has x)
    (hy : κ.Has y)
    (hNe : x ≠ y)
    (hMerge : merge x y = .ok τ) :
    ∃ (τ' : Bindings) (ρ' : Equiv.Perm String),
      step e'.1 e'.2 = .ok (.bindTo τ') ∧
        Twins κ.Has ρ ρ' τ τ' := by
  have hNe' : x.renamed ρ ≠ y.renamed ρ :=
    (Variable.renamed_injective ρ).ne hNe
  rcases merge_ok hMerge with
    ⟨gone, kept, ⟨rfl, rfl, _⟩ | ⟨rfl, rfl, hLt⟩, hLe, rfl⟩
  · cases h with
    | upright =>
        refine ⟨_, ρ, ?_, twins_mergeInto κ.Has ρ _ _⟩
        simp only [Side.renamed_var]
        rw [step_of_vars hNe', merge_of_le (by simpa using hLe)]
        rfl
    | turned =>
        -- Which one is kept depends on the side it stands on.
        by_cases hKind : gone.kind = kept.kind
        · refine ⟨_, _, ?_, twins_turned ρ hx hy hKind⟩
          simp only [Side.renamed_var]
          rw [step_of_vars hNe'.symm,
            merge_of_le (by simpa using le_of_eq hKind.symm)]
          rfl
        · have hLt := lt_of_le_of_ne hLe hKind
          refine ⟨_, ρ, ?_, twins_mergeInto κ.Has ρ _ _⟩
          simp only [Side.renamed_var]
          rw [step_of_vars hNe'.symm,
            merge_of_lt (by simpa using hLt)]
          rfl
  · cases h with
    | upright =>
        refine ⟨_, ρ, ?_, twins_mergeInto κ.Has ρ _ _⟩
        simp only [Side.renamed_var]
        rw [step_of_vars hNe', merge_of_lt (by simpa using hLt)]
        rfl
    | turned =>
        refine ⟨_, ρ, ?_, twins_mergeInto κ.Has ρ _ _⟩
        simp only [Side.renamed_var]
        rw [step_of_vars hNe'.symm,
          merge_of_le (by simpa using hLe)]
        rfl

/- A mirrored equation binds twins. -/
theorem exists_bindTo
    {κ : Kinding}
    {ρ : Equiv.Perm String}
    {e e' : Equation}
    {τ : Bindings}
    (h : Mirrors ρ e e')
    (hLeft : Side.Within κ.Has e.1)
    (hRight : Side.Within κ.Has e.2)
    (hStep : step e.1 e.2 = .ok (.bindTo τ)) :
    ∃ (τ' : Bindings) (ρ' : Equiv.Perm String),
      step e'.1 e'.2 = .ok (.bindTo τ') ∧
        Twins κ.Has ρ ρ' τ τ' := by
  rcases e with ⟨s, t⟩
  rcases bindTo_cases hStep with
    ⟨x, y, rfl, rfl, hNe, hMerge⟩ |
      ⟨x, u, hSides, hu, hEliminate⟩
  · exact exists_bindTo_of_vars h hLeft.var hRight.var hNe hMerge
  · have hu' : ∀ y, Side.renamed ρ u ≠ some (.var y) := by
      intro y hy
      rcases u with _ | (g | w | ⟨c, args⟩)
      · cases hy
      · cases hy
      · exact hu w rfl
      · cases hy
    have hTwin := eliminate_renamed ρ hEliminate
    rcases eliminate_ok hEliminate with ⟨rfl, _, _⟩
    refine ⟨_, ρ, ?_, twins_singleton κ.Has ρ x u⟩
    rcases hSides with ⟨rfl, rfl⟩ | ⟨rfl, rfl⟩
    · cases h with
      | upright =>
          simp only [Side.renamed_var]
          rw [step_of_var_left hu', hTwin]
          rfl
      | turned =>
          simp only [Side.renamed_var]
          rw [step_of_var_right hu', hTwin]
          rfl
    · cases h with
      | upright =>
          simp only [Side.renamed_var]
          rw [step_of_var_right hu', hTwin]
          rfl
      | turned =>
          simp only [Side.renamed_var]
          rw [step_of_var_left hu', hTwin]
          rfl

end Unify

end StatementQuery

------------------------------------------------------------
-- Runs That Follow Each Other
------------------------------------------------------------

namespace StatementQuery

namespace Unify

/- The sides of mirrored equations are the same together. -/
theorem Mirrors.sameOption
    {ρ : Equiv.Perm String}
    {e e' : Equation}
    (h : Mirrors ρ e e') :
    Term.sameOption e'.1 e'.2 = Term.sameOption e.1 e.2 := by
  cases h with
  | upright s t => exact Side.sameOption_renamed ρ s t
  | turned s t =>
      rw [Side.sameOption_renamed, Bool.eq_iff_iff,
        Term.sameOption_iff, Term.sameOption_iff, eq_comm]

/- A mirrored equation is dropped with the equation. -/
theorem Mirrors.drop
    {ρ : Equiv.Perm String}
    {e e' : Equation}
    (h : Mirrors ρ e e')
    (hStep : step e.1 e.2 = .ok .drop) :
    step e'.1 e'.2 = .ok .drop := by
  have hSame : Term.sameOption e'.1 e'.2 = true := by
    rw [h.sameOption]
    exact same_of_drop hStep
  simp [step, hSame]

/- A mirrored equation is replaced by mirrored parts. -/
theorem Mirrors.replaceBy
    {ρ : Equiv.Perm String}
    {e e' : Equation}
    (h : Mirrors ρ e e')
    {parts : List Equation}
    (hStep : step e.1 e.2 = .ok (.replaceBy parts)) :
    ∃ parts',
      step e'.1 e'.2 = .ok (.replaceBy parts') ∧
        List.Forall₂ (Mirrors ρ) parts parts' := by
  rcases h.decompose? (decompose?_of_step hStep) with
    ⟨parts', hParts, hMirrors⟩
  refine ⟨parts', ?_, hMirrors⟩
  apply step_of_decompose? _ hParts
  rw [h.sameOption]
  exact differ_of_step hStep (by simp)

/- A work list that reduces to nothing has a mirror image. -/
theorem reduce_none_of_mirrors
    {ρ : Equiv.Perm String}
    {eqs eqs' : List Equation}
    (hMirrors : List.Forall₂ (Mirrors ρ) eqs eqs')
    (h : reduce eqs = .ok none) :
    reduce eqs' = .ok none := by
  fun_induction reduce eqs generalizing eqs' with
  | case1 =>
      cases hMirrors
      rw [reduce]
  | case2 s t rest e hStep => cases h
  | case3 s t rest hStep ih =>
      rcases hMirrors with _ | ⟨hHead, hRest⟩
      rw [reduce_of_drop (hHead.drop hStep)]
      exact ih hRest h
  | case4 s t rest parts hStep ih =>
      rcases hMirrors with _ | ⟨hHead, hRest⟩
      rcases hHead.replaceBy hStep with
        ⟨parts', hStep', hParts⟩
      rw [reduce_of_replace hStep']
      exact ih (List.rel_append hParts hRest) h
  | case5 s t rest τ hStep => cases h

/- A mirrored work list asks for twins. -/
theorem reduce_some_of_mirrors
    {κ : Kinding}
    {ρ : Equiv.Perm String}
    {eqs eqs' rest : List Equation}
    {τ : Bindings}
    (hWithin : Within κ.Has eqs)
    (hMirrors : List.Forall₂ (Mirrors ρ) eqs eqs')
    (h : reduce eqs = .ok (some (τ, rest))) :
    ∃ (τ' : Bindings) (rest' : List Equation)
        (ρ' : Equiv.Perm String),
      reduce eqs' = .ok (some (τ', rest')) ∧
        List.Forall₂ (Mirrors ρ) rest rest' ∧
        Twins κ.Has ρ ρ' τ τ' := by
  fun_induction reduce eqs generalizing eqs' with
  | case1 => cases h
  | case2 s t rest' e hStep => cases h
  | case3 s t rest' hStep ih =>
      rcases hMirrors with _ | ⟨hHead, hRest⟩
      rw [reduce_of_drop (hHead.drop hStep)]
      exact ih (fun e he => hWithin e (by simp [he])) hRest h
  | case4 s t rest' parts hStep ih =>
      rcases hMirrors with _ | ⟨hHead, hRest⟩
      rcases hHead.replaceBy hStep with
        ⟨parts', hStep', hParts⟩
      rw [reduce_of_replace hStep']
      exact ih (within_of_replace hWithin hStep)
        (List.rel_append hParts hRest) h
  | case5 s t rest' σ hStep =>
      cases h
      rcases hMirrors with _ | ⟨hHead, hRest⟩
      rcases hWithin (s, t) (by simp) with ⟨hLeft, hRight⟩
      rcases exists_bindTo hHead hLeft hRight hStep with
        ⟨τ', ρ', hStep', hTwins⟩
      exact
        ⟨τ', _, ρ', reduce_of_bindTo hStep' _, hRest, hTwins⟩

/-
  A state whose equations mirror those of another, and whose
  values are renamed values of it.
-/
structure Follows
    (ρ : Equiv.Perm String)
    (state state' : State) :
    Prop where
  pending :
    List.Forall₂ (Mirrors ρ) state.pending state'.pending
  solved :
    ∀ entry' ∈ state'.solved.entries,
      ∃ v s,
        state.solved.get? v = some s ∧
          entry'.2 = Side.renamed ρ s

/- Twins are applied to renamed sides. -/
theorem Twins.substitute
    {P : Variable → Prop}
    {κ : Kinding}
    {ρ ρ' : Equiv.Perm String}
    {τ τ' : Bindings}
    (h : Twins P ρ ρ' τ τ')
    (hMoves : Moves P τ κ)
    {s r : Side}
    (hs : Side.Within P s)
    (hSubst : substitute τ s = .ok r) :
    substitute τ' (Side.renamed ρ s) =
      .ok (Side.renamed ρ' r) := by
  have hFits :
      ∀ w ∈ Side.occurrences (Side.renamed ρ s),
        Side.Fits (κ.renamed ρ') w.kind (τ'.value w) := by
    intro w hw
    rcases Side.occurrences_renamed ρ hw with ⟨v, hv, rfl⟩
    have hScope := hs.occurrences hv
    rw [h.value v hScope]
    exact (hMoves.fits v hScope).renamed ρ'
  refine substitute_of_subst ?_ hFits ?_
  · intro u hu
    rcases Option.map_eq_some_iff.mp hu with ⟨t, ht, rfl⟩
    exact Term.wellShaped_mapVariables
      (fun v _ => le_refl v.kind) (hs t ht).1
  · rw [Side.subst_renamed
        fun v hv => h.value v (hs.occurrences hv),
      subst_of_substitute hMoves hs hSubst]
    rfl

/- Twins are applied to mirrored equations. -/
theorem Twins.substituteAll
    {P : Variable → Prop}
    {κ : Kinding}
    {ρ ρ' : Equiv.Perm String}
    {τ τ' : Bindings}
    (h : Twins P ρ ρ' τ τ')
    (hMoves : Moves P τ κ)
    {eqs eqs' next : List Equation}
    (hWithin : Within P eqs)
    (hMirrors : List.Forall₂ (Mirrors ρ) eqs eqs')
    (hSubst : substituteAll τ eqs = .ok next) :
    ∃ next',
      substituteAll τ' eqs' = .ok next' ∧
        List.Forall₂ (Mirrors ρ') next next' := by
  induction hMirrors generalizing next with
  | nil =>
      cases hSubst
      exact ⟨[], rfl, .nil⟩
  | @cons e e' eqs eqs' hHead hTail ih =>
      rcases e with ⟨s, t⟩
      rcases hWithin (s, t) (by simp) with ⟨hs, ht⟩
      rcases exists_of_bind_eq_ok hSubst with
        ⟨rest, hRest, hSubst⟩
      rcases exists_of_bind_eq_ok hSubst with ⟨p, hp, hSubst⟩
      rcases exists_of_bind_eq_ok hSubst with ⟨q, hq, hSubst⟩
      cases hSubst
      rcases ih (fun e he => hWithin e (by simp [he])) hRest with
        ⟨rest', hRest', hMirrors⟩
      have hp' := h.substitute hMoves hs hp
      have hq' := h.substitute hMoves ht hq
      cases hHead with
      | upright =>
          refine ⟨_ :: rest', ?_, .cons (.upright p q) hMirrors⟩
          simp only [Unify.substituteAll, hRest', hp', hq']
          rfl
      | turned =>
          refine ⟨_ :: rest', ?_, .cons (.turned p q) hMirrors⟩
          simp only [Unify.substituteAll, hRest', hp', hq']
          rfl

/- Recording twins keeps a state behind the other. -/
theorem follows_bind
    {P : Variable → Prop}
    {κ : Kinding}
    {ρ ρ' : Equiv.Perm String}
    {τ τ' : Bindings}
    {state state' next : State}
    (hTwins : Twins P ρ ρ' τ τ')
    (hMoves : Moves P τ κ)
    (hScoped : Scoped P state)
    (hFollows : Follows ρ state state')
    (h : bind state τ = .ok next) :
    ∃ next', bind state' τ' = .ok next' ∧
      Follows ρ' next next' := by
  rcases hTwins.substituteAll hMoves hScoped.pending
      hFollows.pending (bind_ok h).1 with
    ⟨pending', hPending', hMirrors⟩
  -- An old value of the first state has its new value.
  have hOld :
      ∀ v s, state.solved.get? v = some s →
        ∃ s', next.solved.get? v = some s' ∧
          substitute τ' (Side.renamed ρ s) =
            .ok (Side.renamed ρ' s') := by
    intro v s hv
    have hUnbound := unbound_of_solved hMoves hScoped hv
    rcases get?_bind_of_unbound hMoves.functional h hUnbound hv
      with ⟨s', hSubst, hGet⟩
    exact
      ⟨s', hGet,
        hTwins.substitute hMoves (hScoped.solved v s hv).1 hSubst⟩
  have hEach :
      ∀ entry' ∈ state'.solved.entries,
        ∃ s, substitute τ' entry'.2 = .ok s := by
    intro entry' hEntry
    rcases hFollows.solved entry' hEntry with ⟨v, s, hv, hEq⟩
    rcases hOld v s hv with ⟨s', _, hSubst⟩
    rw [hEq]
    exact ⟨_, hSubst⟩
  rcases substituteValues_of_each hEach with
    ⟨values', hValues'⟩
  refine
    ⟨⟨pending', Bindings.union ⟨values'⟩ τ'⟩, ?_, hMirrors, ?_⟩
  · simp only [bind, hPending', hValues']
    rfl
  · intro entry' hEntry
    rcases Bindings.mem_union hEntry with hBefore | hNew
    · rcases exists_of_mem_substituteValues hValues' hBefore with
        ⟨r, hr, hSubst⟩
      rcases hFollows.solved _ hr with ⟨v, s, hv, hEq⟩
      rcases hOld v s hv with ⟨s', hGet, hSubst'⟩
      refine ⟨v, s', hGet, ?_⟩
      simp only at hEq
      rw [hEq, hSubst'] at hSubst
      exact (Except.ok.inj hSubst).symm
    · rcases hTwins.entries entry' hNew with ⟨v, s, hv, hEq⟩
      exact
        ⟨v, s, get?_bind_of_bound hMoves.functional h hv, hEq⟩

/- A run succeeds behind another that does. -/
theorem exists_solve_of_follows
    {names : Nat}
    {κ : Kinding}
    {ρ : Equiv.Perm String}
    {state state' : State}
    {θ : Bindings}
    (hScoped : Scoped κ.Has state)
    (hFollows : Follows ρ state state')
    (h : solve names state = .ok θ) :
    ∃ θ', solve names state' = .ok θ' := by
  induction names using Nat.strong_induction_on
    generalizing κ ρ state state' with
  | _ names ih =>
      rcases solve_cases h with
        ⟨hDone, _⟩ |
          ⟨τ, rest, next, names', rfl, hReduce, hBind, hRun⟩
      · have hDone' := reduce_none_of_mirrors hFollows.pending hDone
        refine ⟨state'.solved, ?_⟩
        unfold solve
        simp only [hDone']
      · rcases reduce_some hScoped.pending hReduce with
          ⟨⟨κ', hMoves⟩, hRest, _⟩
        rcases reduce_some_of_mirrors hScoped.pending
            hFollows.pending hReduce with
          ⟨τ', rest', ρ', hReduce', hMirrors, hTwins⟩
        have hScoped' : Scoped κ.Has ⟨rest, state.solved⟩ :=
          ⟨hRest, hScoped.solved, hScoped.keys⟩
        have hFollows' :
            Follows ρ ⟨rest, state.solved⟩
              ⟨rest', state'.solved⟩ :=
          ⟨hMirrors, hFollows.solved⟩
        rcases follows_bind hTwins hMoves hScoped' hFollows' hBind
          with ⟨next', hBind', hNext⟩
        rcases ih names' (Nat.lt_succ_self names')
            (scoped_bind hMoves hScoped' hBind) hNext hRun with
          ⟨θ', hRun'⟩
        refine ⟨θ', ?_⟩
        unfold solve
        simp only [hReduce', hBind']
        exact hRun'

end Unify

end StatementQuery

------------------------------------------------------------
-- Symmetry
------------------------------------------------------------

namespace StatementQuery

namespace Variable

/- The least kinds of a set depend on its members only. -/
theorem exists_leastKinds_of_mem_iff
    {vs ws : List Variable}
    {table : List (String × Kind)}
    (hMem : ∀ v, v ∈ vs ↔ v ∈ ws)
    (h : leastKinds vs = .ok table) :
    ∃ table',
      leastKinds ws = .ok table' ∧
        ∀ v, narrow table' v = narrow table v := by
  rcases leastKinds_ok vs table h with ⟨hBelow, hFrom⟩
  have hBound :
      ∀ w ∈ ws, ((table.lookup w.name).getD .term) ≤ w.kind := by
    intro w hw
    rcases hBelow w ((hMem w).mpr hw) with ⟨l, hl, hLe⟩
    simpa [hl] using hLe
  rcases exists_leastKinds
      (fun n => (table.lookup n).getD .term) ws hBound with
    ⟨table', hTable'⟩
  rcases leastKinds_ok ws table' hTable' with ⟨hBelow', hFrom'⟩
  refine ⟨table', hTable', ?_⟩
  -- Each table has the kind that the other has.
  have hLookup : ∀ n, table'.lookup n = table.lookup n := by
    intro n
    cases hn : table.lookup n with
    | none =>
        cases hn' : table'.lookup n with
        | none => rfl
        | some l =>
            rcases hFrom' n l hn' with ⟨w, hw, rfl, _⟩
            rcases hBelow w ((hMem w).mpr hw) with ⟨k, hk, _⟩
            rw [hn] at hk
            cases hk
    | some k =>
        rcases hFrom n k hn with ⟨v, hv, rfl, rfl⟩
        rcases hBelow' v ((hMem v).mp hv) with ⟨l, hl, hLe⟩
        rcases hFrom' v.name l hl with ⟨w, hw, hName, rfl⟩
        rcases hBelow w ((hMem w).mpr hw) with ⟨k, hk, hLe'⟩
        rw [hName, hn] at hk
        cases hk
        rw [hl, le_antisymm hLe hLe']
  intro v
  rw [narrow, narrow, hLookup]

end Variable

namespace Unify

/- Equations that are mirrored have the same variables. -/
theorem mem_occurrences_of_mirrors
    {eqs eqs' : List Equation}
    (h : List.Forall₂ (Mirrors (Equiv.refl String)) eqs eqs')
    (v : Variable) :
    v ∈ Equation.occurrences eqs ↔
      v ∈ Equation.occurrences eqs' := by
  induction h with
  | nil => exact Iff.rfl
  | @cons e e' eqs eqs' hHead hTail ih =>
      simp only [Equation.occurrences, List.flatMap_cons,
        List.mem_append] at ih ⊢
      cases hHead with
      | upright s t =>
          rw [Side.renamed_refl, Side.renamed_refl]
          exact or_congr Iff.rfl ih
      | turned s t =>
          rw [Side.renamed_refl, Side.renamed_refl]
          exact or_congr or_comm ih

/- Mirrored equations have as many names. -/
theorem nameCount_of_mirrors
    {eqs eqs' : List Equation}
    (h : List.Forall₂ (Mirrors (Equiv.refl String)) eqs eqs') :
    Equation.nameCount eqs' = Equation.nameCount eqs := by
  have hPerm :
      (names eqs').eraseDups.Perm (names eqs).eraseDups := by
    refine
      (List.perm_ext_iff_of_nodup (nodup_eraseDups _)
        (nodup_eraseDups _)).mpr ?_
    intro n
    simp only [List.mem_eraseDups, names, List.mem_map,
      mem_occurrences_of_mirrors h]
  exact hPerm.length_eq

/- Narrowing does the same in either order of the variables. -/
theorem twins_narrowing
    {vs ws : List Variable}
    {table table' : List (String × Kind)}
    (hMem : ∀ v, v ∈ vs ↔ v ∈ ws)
    (hNarrow :
      ∀ v, Variable.narrow table' v = Variable.narrow table v) :
    Twins (· ∈ vs) (Equiv.refl String) (Equiv.refl String)
      (narrowing table vs) (narrowing table' ws) := by
  constructor
  · intro v hv
    have hValue :
        (narrowing table' ws).value v =
          some (.var (Variable.narrow table v)) := by
      rw [value_narrowing table' ((hMem v).mp hv), hNarrow]
    rw [value_narrowing table hv, Side.renamed_refl]
    exact hValue
  · intro entry' hEntry
    rcases List.mem_map.mp hEntry with ⟨v, hv, rfl⟩
    rcases List.mem_filter.mp hv with ⟨hws, hDiffer⟩
    refine ⟨v, some (.var (Variable.narrow table v)), ?_, ?_⟩
    · apply functional_narrowing table vs
        (v, some (.var (Variable.narrow table v)))
      refine List.mem_map.mpr
        ⟨v, List.mem_filter.mpr ⟨(hMem v).mpr hws, ?_⟩, rfl⟩
      rw [← hNarrow]
      exact hDiffer
    · rw [Side.renamed_refl, hNarrow]

/- The first state follows that of the equations. -/
theorem exists_start_of_mirrors
    {eqs eqs' : List Equation}
    {state : State}
    (hWithin : Within (· ∈ Equation.occurrences eqs) eqs)
    (hMirrors :
      List.Forall₂ (Mirrors (Equiv.refl String)) eqs eqs')
    (h : start eqs = .ok state) :
    ∃ state',
      start eqs' = .ok state' ∧
        Follows (Equiv.refl String) state state' := by
  let vs := Variable.sorted (Equation.occurrences eqs)
  let ws := Variable.sorted (Equation.occurrences eqs')
  have hMem : ∀ v, v ∈ vs ↔ v ∈ ws := by
    intro v
    rw [Variable.mem_sorted, Variable.mem_sorted]
    exact mem_occurrences_of_mirrors hMirrors v
  have hWithin' : Within (· ∈ vs) eqs :=
    hWithin.mono fun v hv => (Variable.mem_sorted v _).mpr hv
  have hFollows :
      Follows (Equiv.refl String) ⟨eqs, .empty⟩ ⟨eqs', .empty⟩ :=
    ⟨hMirrors, by simp [Bindings.empty]⟩
  unfold start at h ⊢
  cases hTable : Variable.leastKinds vs with
  | error e => simp [vs, hTable] at h
  | ok table =>
      rcases Variable.exists_leastKinds_of_mem_iff hMem hTable
        with ⟨table', hTable', hNarrow⟩
      simp only [vs, hTable] at h
      simp only [ws] at hTable'
      simp only [hTable']
      have hTwins := twins_narrowing hMem hNarrow
      have hEmpty :
          (narrowing table' ws).entries.isEmpty = true ↔
            (narrowing table vs).entries.isEmpty = true := by
        simp only [narrowing, List.isEmpty_iff,
          List.map_eq_nil_iff, List.filter_eq_nil_iff, hNarrow,
          hMem]
      split at h
      · rename_i hNone
        cases h
        refine ⟨⟨eqs', .empty⟩, ?_, hFollows⟩
        rw [if_pos (hEmpty.mpr hNone)]
      · rename_i hSome
        rcases follows_bind hTwins (moves_narrowing hTable)
            (scoped_of_within hWithin') hFollows h with
          ⟨next', hBind, hNext⟩
        refine ⟨next', ?_, hNext⟩
        rw [if_neg (mt hEmpty.mp hSome)]
        exact hBind

/- Equations with some sides exchanged. -/
def Swapped (eqs eqs' : List Equation) : Prop :=
  List.Forall₂ (fun e e' => e' = e ∨ e' = e.swap) eqs eqs'

/- Exchanging the same sides again restores the equations. -/
theorem Swapped.symm
    {eqs eqs' : List Equation}
    (h : Swapped eqs eqs') :
    Swapped eqs' eqs := by
  refine h.flip.imp ?_
  rintro e' e (rfl | rfl)
  · exact Or.inl rfl
  · exact Or.inr (Prod.swap_swap e).symm

/- Exchanged sides are mirrored with their names kept. -/
theorem Swapped.mirrors
    {eqs eqs' : List Equation}
    (h : Swapped eqs eqs') :
    List.Forall₂ (Mirrors (Equiv.refl String)) eqs eqs' := by
  refine h.imp ?_
  rintro ⟨s, t⟩ e' (rfl | rfl)
  · have hMirrors : Mirrors (Equiv.refl String) (s, t) _ :=
      .upright s t
    rwa [Side.renamed_refl, Side.renamed_refl] at hMirrors
  · have hMirrors : Mirrors (Equiv.refl String) (s, t) _ :=
      .turned s t
    rwa [Side.renamed_refl, Side.renamed_refl] at hMirrors

/- Exchanged sides are well formed with the equations. -/
theorem Swapped.wellFormed
    {eqs eqs' : List Equation}
    (h : Swapped eqs eqs')
    (hEqs : ∀ e ∈ eqs, Equation.WellFormed e) :
    ∀ e' ∈ eqs', Equation.WellFormed e' := by
  induction h with
  | nil => simp
  | @cons e e' eqs eqs' hHead hTail ih =>
      intro d hd
      rcases List.mem_cons.mp hd with rfl | hRest
      · have hWellFormed := hEqs e (by simp)
        rcases hHead with rfl | rfl
        · exact hWellFormed
        · intro t ht
          exact hWellFormed t ht.symm
      · exact ih (fun e he => hEqs e (by simp [he])) d hRest

/- Exchanged sides have a unifier if the equations have. -/
theorem Swapped.exists_unifier
    {eqs eqs' : List Equation}
    {θ : Bindings}
    (h : Swapped eqs eqs')
    (hEqs : ∀ e ∈ eqs, Equation.WellFormed e)
    (hUnify : unify eqs = .ok θ) :
    ∃ θ', unify eqs' = .ok θ' := by
  have hWithin := Equation.within_of_wellFormed hEqs
  rcases exists_of_bind_eq_ok hUnify with
    ⟨state, hStart, hSolve⟩
  rcases start_ok hWithin hStart with ⟨κ, hScoped, _⟩
  rcases exists_start_of_mirrors hWithin h.mirrors hStart with
    ⟨state', hStart', hFollows⟩
  rcases exists_solve_of_follows hScoped hFollows hSolve with
    ⟨θ', hSolve'⟩
  refine ⟨θ', ?_⟩
  rw [← nameCount_of_mirrors hFollows.pending] at hSolve'
  simp only [unify, hStart']
  exact hSolve'

end Unify

/-
  Equations have a unifier exactly if they have one with the
  sides of any of them exchanged.
-/
theorem unify_swap_iff
    {eqs eqs' : List Equation}
    (hEqs : ∀ e ∈ eqs, Equation.WellFormed e)
    (hSwapped : Unify.Swapped eqs eqs') :
    (∃ θ, unify eqs = .ok θ) ↔ ∃ θ', unify eqs' = .ok θ' := by
  constructor
  · rintro ⟨θ, h⟩
    exact hSwapped.exists_unifier hEqs h
  · rintro ⟨θ', h⟩
    exact hSwapped.symm.exists_unifier
      (hSwapped.wellFormed hEqs) h

/-
  Two variables of one kind, of which the other is kept when
  the sides are exchanged, and one that is absent.
-/
def mergingEquations : List Equation :=
  [(some (.var ⟨"x", .item⟩), some (.var ⟨"y", .item⟩)),
    (some (.app (.entity .item) [some (.var ⟨"i", .iri⟩)]),
      some (.var ⟨"x", .item⟩)),
    (none, some (.var ⟨"z", .time⟩))]

/- The bindings of these equations as they stand. -/
def mergingUnifier : Bindings :=
  ⟨[(⟨"x", .item⟩,
      some (.app (.entity .item) [some (.var ⟨"i", .iri⟩)])),
    (⟨"y", .item⟩,
      some (.app (.entity .item) [some (.var ⟨"i", .iri⟩)])),
    (⟨"z", .time⟩, none)]⟩

theorem unify_swap_iff_mergingEquations :
    unify mergingEquations = .ok mergingUnifier ∧
      ∃ θ', unify (mergingEquations.map Prod.swap) = .ok θ' := by
  have hUnify : unify mergingEquations = .ok mergingUnifier := by
    rw [Unify.unify_eq_unifyFor]
    rfl
  have hEqs : ∀ e ∈ mergingEquations, Equation.WellFormed e := by
    intro e he
    simp only [mergingEquations, List.mem_cons,
      List.not_mem_nil, or_false] at he
    rcases he with rfl | rfl | rfl <;>
      rintro t (ht | ht) <;> cases ht <;> decide
  have hSwapped :
      Unify.Swapped mergingEquations
        (mergingEquations.map Prod.swap) :=
    List.forall₂_map_right_iff.mpr
      (List.forall₂_same.mpr fun e _ => Or.inr rfl)
  exact
    ⟨hUnify,
      (unify_swap_iff hEqs hSwapped).mp ⟨mergingUnifier, hUnify⟩⟩

end StatementQuery
