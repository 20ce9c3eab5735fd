import StatementQuery.Proofs.MatchArguments
import StatementQuery.Proofs.RenamedRuns

/-
  Matches with other names in use.

  The variables of a pattern get names that are not in use.
  With other names in use they get others, and the match is
  the same one under a permutation of names that keeps the
  names that targets leave open.

  Key definitions include:
    * `Arg.renamed`
    * `PatternMatch.Copies`

  Main declarations:
    * `Renames.exists_perm`
    * `Term.settle?_renamed`
    * `Entry.exists_matchPattern?_iff`
    * `Entry.exists_copy_of_match`
    * `Entry.plan?_copies`
-/

------------------------------------------------------------
-- Settling Under Other Names
------------------------------------------------------------

namespace StatementQuery

/- Two ways to rename apart differ by a permutation of names. -/
theorem Renames.exists_perm
    {ρ ρ' : String → String}
    {vs : List Variable}
    {used used' : List String}
    (h : Renames ρ vs used)
    (h' : Renames ρ' vs used')
    {fixed : List String}
    (hFixed : fixed.Nodup)
    (hUsed : fixed ⊆ used)
    (hUsed' : fixed ⊆ used') :
    ∃ π : Equiv.Perm String,
      (∀ v ∈ vs, π (ρ v.name) = ρ' v.name) ∧
        ∀ name ∈ fixed, π name = name := by
  let names := (vs.map Variable.name).dedup
  have hName : ∀ n ∈ names, ∃ v ∈ vs, v.name = n := by
    intro n hn
    exact List.mem_map.mp (List.mem_dedup.mp hn)
  have hNodup :
      ∀ {σ : String → String} {avoid : List String},
        Renames σ vs avoid → fixed ⊆ avoid →
          (names.map σ ++ fixed).Nodup := by
    intro σ avoid hσ hAvoid
    refine List.nodup_append.mpr ⟨?_, hFixed, ?_⟩
    · apply List.Nodup.map_on _ (List.nodup_dedup _)
      intro m hm n hn hEq
      rcases hName m hm with ⟨v, hv, rfl⟩
      rcases hName n hn with ⟨w, hw, rfl⟩
      exact hσ.injective v hv w hw hEq
    · rintro _ hn name hMem rfl
      rcases List.mem_map.mp hn with ⟨n, hKnown, rfl⟩
      rcases hName n hKnown with ⟨v, hv, rfl⟩
      exact hσ.fresh v hv (hAvoid hMem)
  rcases exists_perm_of_pairs
      (names.map (fun n => (ρ n, ρ' n)) ++
        fixed.map fun n => (n, n))
      (by simpa [Function.comp_def] using hNodup h hUsed)
      (by simpa [Function.comp_def] using hNodup h' hUsed') with
    ⟨π, hπ⟩
  refine ⟨π, ?_, ?_⟩
  · intro v hv
    apply hπ (ρ v.name, ρ' v.name)
    apply List.mem_append_left
    refine List.mem_map.mpr ⟨v.name, ?_, rfl⟩
    exact List.mem_dedup.mpr (List.mem_map_of_mem hv)
  · intro name hn
    apply hπ (name, name)
    exact List.mem_append_right _ (List.mem_map.mpr ⟨name, hn, rfl⟩)

namespace Term

/- A renaming matters at the variables of a term only. -/
theorem mapVariables_congr
    {f g : Variable → Variable}
    {t : Term}
    (h : ∀ v ∈ t.occurrences, f v = g v) :
    t.mapVariables f = t.mapVariables g := by
  induction t with
  | ground x => rfl
  | var v => simp [mapVariables, h v (by simp [occurrences])]
  | app c args ih =>
      simp only [mapVariables, mapVariablesArgs_eq_map]
      congr 1
      apply List.map_congr_left
      intro arg hArg
      cases arg with
      | none => rfl
      | some t =>
          refine congrArg some (ih t hArg fun v hv => h v ?_)
          exact (mem_occurrences_app v c args).mpr ⟨t, hArg, hv⟩

/- Equal terms stay equal under other names. -/
theorem same_renamed
    (ρ : Equiv.Perm String)
    (t u : Term) :
    (t.mapVariables (Variable.renamed ρ)).same
        (u.mapVariables (Variable.renamed ρ)) =
      t.same u :=
  Side.sameOption_renamed ρ (some t) (some u)

/- A renamed term settles, under copies, to the renamed term. -/
theorem settle?_renamed
    {ρ : Equiv.Perm String}
    {θ θ' : Bindings}
    (hCopies : Bindings.Copies ρ θ θ')
    {κ κ' : Kinding}
    (hSettled : Unify.Settled κ θ)
    (hSettled' : Unify.Settled κ' θ')
    {t u : Term}
    (hShaped : t.WellShaped)
    (hFits :
      ∀ v ∈ t.occurrences, Side.Fits κ v.kind (θ.value v))
    (hFits' :
      ∀ v ∈ (t.mapVariables (Variable.renamed ρ)).occurrences,
        Side.Fits κ' v.kind (θ'.value v))
    (h : settle? θ t = some (some u)) :
    settle? θ' (t.mapVariables (Variable.renamed ρ)) =
      some (some (u.mapVariables (Variable.renamed ρ))) := by
  rcases subst_of_settle? hSettled hShaped hFits h with
    ⟨w, hw, _, _⟩
  have hSubst :
      (t.mapVariables (Variable.renamed ρ)).subst θ'.value =
        some (some (w.mapVariables (Variable.renamed ρ))) := by
    rw [subst_mapVariables (f := θ.value)
      (h := Variable.renamed ρ) fun v _ => hCopies.value v, hw]
    rfl
  have hShaped' :=
    wellShaped_mapVariables (f := Variable.renamed ρ)
      (fun v _ => le_refl v.kind) hShaped
  rw [settle?_of_subst hSettled hShaped hFits hw] at h
  rw [settle?_of_subst hSettled' hShaped' hFits' hSubst,
    same_renamed]
  cases h
  split
  · rfl
  · rfl

end Term

end StatementQuery

------------------------------------------------------------
-- Matches Under Other Names
------------------------------------------------------------

namespace StatementQuery

/- An argument under other names. -/
def Arg.renamed (ρ : Equiv.Perm String) : Arg → Arg
| .var name => .var (ρ name)
| arg => arg

/- A match whose names are permuted. -/
structure PatternMatch.Copies
    (ρ : Equiv.Perm String)
    (found found' : PatternMatch) :
    Prop where
  bindings : Bindings.Copies ρ found.bindings found'.bindings
  template :
    found'.template =
      found.template.mapVariables (Variable.renamed ρ)
  args :
    ∀ name,
      found'.args.lookup name =
        (found.args.lookup name).map (Arg.renamed ρ)

namespace Entry

/- A renamed side is the renamed argument. -/
theorem argOf?_renamed
    (ρ : Equiv.Perm String)
    (s : Side) :
    argOf? (some (Side.renamed ρ s)) =
      (argOf? (some s)).map (Arg.renamed ρ) := by
  rcases s with _ | (g | v | ⟨c, args⟩) <;> rfl

/- When a pattern matches, and what the match is. -/
theorem exists_matchPattern?_iff
    {p : Term}
    (hp : p.WellFormed)
    (goal : Term)
    (used : List String) :
    ∃ ρ : String → String,
      Renames ρ p.occurrences used ∧
        ∀ found,
          matchPattern? p goal used = some found ↔
            found.pattern = p.mapVariables (Variable.renamed ρ) ∧
              unify [(some found.pattern, some goal)] =
                .ok found.bindings ∧
              Term.settle? found.bindings found.pattern =
                some (some found.template) ∧
              found.args =
                argsOf found.bindings
                  (p.vars.map (Term.renamingEntry ρ)) := by
  rcases p.exists_renaming used patternSupply with
    ⟨ρ, hEntries, hρ⟩
  refine ⟨ρ, hρ, ?_⟩
  intro found
  simp only [matchPattern?, hEntries,
    Term.instantiate_renaming hp hρ, Term.matchWith?]
  constructor
  · intro h
    split at h
    · rename_i θ hMatch
      split at h
      · rename_i template hSettle
        cases h
        exact ⟨rfl, eq_ok_of_toOption hMatch, hSettle, rfl⟩
      · cases h
    · cases h
  · rintro ⟨hPattern, hUnify, hSettle, hArgs⟩
    rw [hPattern] at hUnify hSettle
    simp only [hUnify, Except.toOption, hSettle]
    rw [← hPattern, ← hArgs]

variable {p goal : Term} {used used' : List String}
variable {found : PatternMatch}

/- The arguments under copies are the renamed arguments. -/
theorem lookup_argsOf_copies
    (hp : p.WellFormed)
    {ρ ρ' : String → String}
    {π : Equiv.Perm String}
    (hπ : ∀ v ∈ p.occurrences, π (ρ v.name) = ρ' v.name)
    {θ θ' : Bindings}
    (hCopies : Bindings.Copies π θ θ')
    {κ κ' : Kinding}
    (hSettled : Unify.Settled κ θ)
    (hSettled' : Unify.Settled κ' θ')
    (name : String) :
    (argsOf θ' (p.vars.map (Term.renamingEntry ρ'))).lookup name =
      ((argsOf θ (p.vars.map (Term.renamingEntry ρ))).lookup
        name).map (Arg.renamed π) := by
  by_cases hName : ∃ v ∈ p.occurrences, v.name = name
  · rcases hName with ⟨v, hv, rfl⟩
    have hRenamed : v.renamed ρ' = (v.renamed ρ).renamed π :=
      Variable.eq_of_name_of_kind (hπ v hv).symm rfl
    rw [lookup_argsOf_vars hp θ ρ hv,
      lookup_argsOf_vars hp θ' ρ' hv, Term.settle?_var hSettled,
      Term.settle?_var hSettled', hRenamed, hCopies.value,
      argOf?_renamed]
  · have hNone : ∀ v ∈ p.vars, v.name ≠ name := by
      intro v hv hEq
      exact hName ⟨v, (Variable.mem_sorted v _).mp hv, hEq⟩
    rw [lookup_argsOf_of_notMem θ ρ hNone,
      lookup_argsOf_of_notMem θ' ρ' hNone]
    rfl

/-
  A pattern under other names unifies with a statement whose
  names stay, and the bindings are copies.
-/
theorem exists_unify_copy
    (hp : p.WellFormed)
    (hGoal : goal.WellFormed)
    (hNames : ∀ v ∈ goal.occurrences, v.name ∈ used)
    {ρ ρ' : String → String}
    (hρ : Renames ρ p.occurrences used)
    {π : Equiv.Perm String}
    (hPattern :
      (p.mapVariables (Variable.renamed ρ)).mapVariables
          (Variable.renamed π) =
        p.mapVariables (Variable.renamed ρ'))
    (hKept : goal.mapVariables (Variable.renamed π) = goal)
    {θ : Bindings}
    (hUnify :
      unify [(some (p.mapVariables (Variable.renamed ρ)),
        some goal)] = .ok θ) :
    ∃ θ',
      unify [(some (p.mapVariables (Variable.renamed ρ')),
          some goal)] = .ok θ' ∧
        Bindings.Copies π θ θ' := by
  have hEqs :
      ∀ e ∈ [(some (p.mapVariables (Variable.renamed ρ)),
          some goal)], Equation.WellFormed e := by
    intro e he
    cases List.mem_singleton.mp he
    rintro u (hu | hu) <;> cases hu
    · exact Term.wellFormed_renamed hp hρ
    · exact hGoal
  rcases Unify.exists_unify_of_renamed hEqs
      (Term.oneKind_renamed hp hGoal hρ hNames) hUnify π with
    ⟨θ', hUnify', hCopies⟩
  simp only [List.map_cons, List.map_nil, Equation.renamed,
    Side.renamed_some, hPattern, hKept] at hUnify'
  exact ⟨θ', hUnify', hCopies⟩

/-
  A pattern that matches a statement matches it with other
  names in use, if the names of the statement are in use both
  times.
-/
theorem exists_copy_of_match
    (hp : p.WellFormed)
    (hGoal : goal.WellFormed)
    {fixed : List String}
    (hFixed : fixed.Nodup)
    (hNames : ∀ v ∈ goal.occurrences, v.name ∈ fixed)
    (hUsed : fixed ⊆ used)
    (hUsed' : fixed ⊆ used')
    (h : matchPattern? p goal used = some found) :
    ∃ found' π,
      matchPattern? p goal used' = some found' ∧
        (∀ name ∈ fixed, π name = name) ∧
        PatternMatch.Copies π found found' := by
  rcases exists_matchPattern?_iff hp goal used with
    ⟨ρ, hρ, hMatch⟩
  rcases exists_matchPattern?_iff hp goal used' with
    ⟨ρ', hρ', hMatch'⟩
  rcases (hMatch found).mp h with
    ⟨hPattern, hUnify, hSettle, hArgs⟩
  rw [hPattern] at hUnify hSettle
  rcases hρ.exists_perm hρ' hFixed hUsed hUsed' with
    ⟨π, hπ, hKeeps⟩
  -- The permutation takes the pattern to the pattern under its
  -- other names, and leaves the statement as it is.
  have hPattern' :
      (p.mapVariables (Variable.renamed ρ)).mapVariables
          (Variable.renamed π) =
        p.mapVariables (Variable.renamed ρ') := by
    rw [Term.mapVariables_mapVariables]
    apply Term.mapVariables_congr
    intro v hv
    exact Variable.eq_of_name_of_kind (hπ v hv) rfl
  have hGoal' : goal.mapVariables (Variable.renamed π) = goal := by
    apply Term.mapVariables_eq_self
    intro v hv
    exact Variable.eq_of_name_of_kind
      (hKeeps v.name (hNames v hv)) rfl
  have hFormed := Term.wellFormed_renamed hp hρ
  have hFormed' := Term.wellFormed_renamed hp hρ'
  rcases exists_unify_copy hp hGoal
      (fun v hv => hUsed (hNames v hv)) hρ hPattern' hGoal' hUnify
    with ⟨θ', hUnify', hCopies⟩
  rcases Term.solves_of_unify hFormed hGoal hUnify with
    ⟨κ, hSolves, _, hSettled⟩
  rcases Term.solves_of_unify hFormed' hGoal hUnify' with
    ⟨κ', hSolves', _, hSettled'⟩
  have hSettle' :=
    Term.settle?_renamed hCopies hSettled hSettled' hFormed.shaped
      (fun v hv => hSolves.fits v (Or.inl (Or.inl hv)))
      (by
        rw [hPattern']
        exact fun v hv => hSolves'.fits v (Or.inl (Or.inl hv)))
      hSettle
  rw [hPattern'] at hSettle'
  let found' : PatternMatch :=
    { pattern := p.mapVariables (Variable.renamed ρ')
      bindings := θ'
      template := found.template.mapVariables (Variable.renamed π)
      args := argsOf θ' (p.vars.map (Term.renamingEntry ρ')) }
  refine
    ⟨found', π, (hMatch' found').mpr ⟨rfl, hUnify', hSettle', rfl⟩,
      hKeeps, hCopies, rfl, ?_⟩
  intro name
  rw [hArgs]
  exact lookup_argsOf_copies hp hπ hCopies hSettled hSettled' name

/- The names that targets leave open are different ones. -/
theorem nodup_openNames : Target.openNames.Nodup := by
  decide

/-
  With other names in use, a pattern matches the same statements
  of targets, and the matches are copies.
-/
theorem matchPattern?_copies
    (hp : p.WellFormed)
    (hGoal : goal.WellFormed)
    (hNames : ∀ v ∈ goal.occurrences, v.name ∈ Target.openNames)
    (used used' : List String) :
    (matchPattern? p goal used = none ∧
        matchPattern? p goal used' = none) ∨
      ∃ found found' π,
        matchPattern? p goal used = some found ∧
          matchPattern? p goal used' = some found' ∧
          (∀ name ∈ Target.openNames, π name = name) ∧
          PatternMatch.Copies π found found' := by
  -- Nothing says that the open names are in use, but the
  -- matches would be the same if they were.
  have hCopy :
      ∀ {used used' : List String} {found},
        matchPattern? p goal used = some found →
          ∃ found' π,
            matchPattern? p goal used' = some found' ∧
              (∀ name ∈ Target.openNames, π name = name) ∧
              PatternMatch.Copies π found found' := by
    intro used used' found h
    rw [← matchPattern?_append_openNames] at h
    rw [← matchPattern?_append_openNames]
    exact
      exists_copy_of_match hp hGoal nodup_openNames hNames
        (List.subset_append_right _ _)
        (List.subset_append_right _ _) h
  cases h : matchPattern? p goal used with
  | some found =>
      rcases hCopy h with ⟨found', π, h', hKeeps, hCopies⟩
      exact Or.inr ⟨found, found', π, rfl, h', hKeeps, hCopies⟩
  | none =>
      cases h' : matchPattern? p goal used' with
      | none => exact Or.inl ⟨rfl, rfl⟩
      | some found' =>
          rcases hCopy h' with ⟨found, _, hFound, _⟩
          rw [h] at hFound
          cases hFound

/- So has an entry that serves a target. -/
theorem plan?_copies
    {e : Entry}
    (hPatterns : ∀ p ∈ e.patterns, p.WellFormed)
    (hGoal : goal.WellFormed)
    (hNames : ∀ v ∈ goal.occurrences, v.name ∈ Target.openNames)
    (used used' : List String) :
    (e.plan? goal used = none ∧ e.plan? goal used' = none) ∨
      ∃ found found' π,
        e.plan? goal used = some found ∧
          e.plan? goal used' = some found' ∧
          (∀ name ∈ Target.openNames, π name = name) ∧
          PatternMatch.Copies π found found' := by
  unfold plan?
  generalize e.patterns = patterns at hPatterns
  induction patterns with
  | nil => exact Or.inl ⟨rfl, rfl⟩
  | cons p ps ih =>
      simp only [List.findSome?_cons]
      rcases matchPattern?_copies (hPatterns p List.mem_cons_self)
          hGoal hNames used used' with
        ⟨h, h'⟩ | ⟨found, found', π, h, h', hCopies⟩
      · rw [h, h']
        exact ih fun q hq => hPatterns q (List.mem_cons_of_mem _ hq)
      · rw [h, h']
        exact Or.inr ⟨found, found', π, rfl, rfl, hCopies⟩

end Entry

end StatementQuery
