import StatementQuery.Proofs.TemplateInstances

/-
  What the arguments of a match are.

  The new names of a pattern are numbered, so whether the names
  that targets leave open are in use makes no difference to a
  match.  Under its bindings the renamed pattern and the
  statement are the same, and what a match gives for a variable
  of the pattern is of the variable's kind.

  Key definitions include:
    * `Entry.Joins`

  Main declarations:
    * `Entry.matchPattern?_append_openNames`
    * `Entry.exists_joins`
    * `Entry.kind_le_of_lookup`
-/

------------------------------------------------------------
-- Names Of Patterns
------------------------------------------------------------

namespace StatementQuery

namespace NameSupply

/- A numbered name ends in a digit. -/
theorem getLast?_numbered
    (base : String)
    (i : Nat) :
    ∃ c, (numbered base i).toList.getLast? = some c ∧
      c.isDigit = true := by
  have hDigits : Numeral.digits i ≠ [] := Nat.toDigits_ne_nil
  refine ⟨(Numeral.digits i).getLast hDigits, ?_, ?_⟩
  · have hList :
        (numbered base i).toList =
          (stem base).toList ++ Numeral.digits i := by
      simp [numbered, Nat.repr, Numeral.digits]
    rw [hList, List.getLast?_append_of_ne_nil _ hDigits,
      List.getLast?_eq_some_getLast hDigits]
  · exact Numeral.allDigits_digits _ _ (List.getLast_mem hDigits)

/- The names that targets leave open are not numbered. -/
theorem numbered_notMem_openNames
    (base : String)
    (i : Nat) :
    numbered base i ∉ Target.openNames := by
  intro hMem
  rcases getLast?_numbered base i with ⟨c, hLast, hDigit⟩
  have hOpen :
      ∀ name ∈ Target.openNames,
        name.toList.getLast?.any Char.isDigit = false := by
    decide
  have hNone := hOpen _ hMem
  rw [hLast, Option.any_some, hDigit] at hNone
  cases hNone

/-
  A name that is fresh stays so when names are taken that are
  not in the supply.
-/
theorem fresh_append
    {supply : NameSupply}
    (hListed : supply.listed = [])
    (taken : List String)
    {extra : List String}
    (h : ∀ i, numbered supply.base i ∉ extra) :
    supply.fresh (taken ++ extra) = supply.fresh taken := by
  have hSame :
      ∀ name ∈ take supply.base ((taken ++ extra).length + 1),
        (!(taken ++ extra).contains name) =
          !taken.contains name := by
    intro name hName
    rcases List.mem_map.mp hName with ⟨i, _, rfl⟩
    simp [h i]
  have hLonger :
      take supply.base ((taken ++ extra).length + 1) =
        take supply.base (taken.length + 1) ++
          (List.range extra.length).map fun i =>
            numbered supply.base (taken.length + 1 + i) := by
    rw [List.length_append, Nat.add_right_comm]
    simp [take, List.range_add]
  -- A free name is among the candidates that are there before,
  -- so the search does not come to those that are added.
  rcases exists_candidate supply taken with ⟨name, hName, hFree⟩
  unfold fresh
  unfold candidates at hName ⊢
  rw [hListed, List.nil_append] at hName
  rw [hListed, List.nil_append, List.nil_append,
    List.find?_congr hSame, hLonger, List.find?_append]
  cases hFind :
      (take supply.base (taken.length + 1)).find? fun name =>
        !taken.contains name with
  | none =>
      have hTaken := List.find?_eq_none.mp hFind name hName
      simp [hFree] at hTaken
  | some found => rfl

end NameSupply

namespace Term

/- Taking such names changes no renaming. -/
theorem renamingFrom_append
    {supply : String → NameSupply}
    (hListed : ∀ name, (supply name).listed = [])
    {extra : List String}
    (h : ∀ name i, NameSupply.numbered (supply name).base i ∉ extra)
    (taken : List String)
    (chosen : List (String × String))
    (vs : List Variable) :
    renamingFrom supply (taken ++ extra) chosen vs =
      renamingFrom supply taken chosen vs := by
  induction vs generalizing taken chosen with
  | nil => rfl
  | cons v vs ih =>
      simp only [renamingFrom]
      rw [NameSupply.fresh_append (hListed v.name) taken (h v.name)]
      cases chosen.lookup v.name with
      | some name => simp only [ih]
      | none =>
          simp only [← List.cons_append, ih]

end Term

namespace Entry

/- A match does not depend on whether open names are in use. -/
theorem matchPattern?_append_openNames
    (p goal : Term)
    (used : List String) :
    matchPattern? p goal (used ++ Target.openNames) =
      matchPattern? p goal used := by
  have hRenaming :
      p.renamingBindings (used ++ Target.openNames) patternSupply =
        p.renamingBindings used patternSupply := by
    unfold Term.renamingBindings
    rw [Term.renamingFrom_append (fun _ => rfl)
      (fun _ i => NameSupply.numbered_notMem_openNames _ i)]
  unfold matchPattern?
  rw [hRenaming]

end Entry

end StatementQuery

------------------------------------------------------------
-- What A Match Gives
------------------------------------------------------------

namespace StatementQuery

namespace Entry

/- A term is fixed to an emission if it settles to a ground one. -/
theorem argOf?_eq_value
    {s : Side}
    {g : Ground}
    (h : argOf? (some s) = some (.value g)) :
    s = some (.ground g) := by
  rcases s with _ | (g' | v | ⟨c, args⟩)
  · cases h
  · cases h
    rfl
  · cases h
  · cases h

variable {p goal : Term} {used : List String}
variable {found : PatternMatch}

/-
  A match makes its pattern, under new names, and the statement
  the same, and gives what the new names are bound to.
-/
structure Joins
    (p goal : Term)
    (found : PatternMatch)
    (ρ : String → String)
    (κ : Kinding) :
    Prop where
  formed : (p.mapVariables (Variable.renamed ρ)).WellFormed
  fits :
    ∀ v,
      v ∈ (p.mapVariables (Variable.renamed ρ)).occurrences ∨
          v ∈ goal.occurrences →
        Side.Fits κ v.kind (found.bindings.value v)
  present :
    ∃ u,
      (p.mapVariables (Variable.renamed ρ)).subst
          found.bindings.value =
        some (some u)
  agrees :
    outcome (goal.subst found.bindings.value) =
      outcome
        ((p.mapVariables (Variable.renamed ρ)).subst
          found.bindings.value)
  args :
    ∀ v ∈ p.occurrences,
      found.args.lookup v.name =
        argOf? (some (found.bindings.value (v.renamed ρ)))

/- Every match does so. -/
theorem exists_joins
    (hp : p.WellFormed)
    (hGoal : goal.WellFormed)
    (h : matchPattern? p goal used = some found) :
    ∃ ρ κ, Joins p goal found ρ κ := by
  rcases matchPattern?_eq_some hp h with
    ⟨ρ, hρ, hPattern, hUnify, hArgs⟩
  have hRenamed := Term.wellFormed_renamed hp hρ
  have hSettle := settle?_of_matchPattern? h
  rw [hPattern] at hUnify hSettle
  rcases Term.solves_of_unify hRenamed hGoal hUnify with
    ⟨κ, hSolves, _, hSettled⟩
  have hFits := fun v hv => hSolves.fits v (Or.inl hv)
  rcases Term.subst_of_settle? hSettled hRenamed.shaped
      (fun v hv => hFits v (Or.inl hv)) hSettle with
    ⟨u, hu, _⟩
  have hAgrees := hSolves.pending _ (List.mem_singleton.mpr rfl)
  refine ⟨ρ, κ, hRenamed, hFits, ⟨u, hu⟩, hAgrees.symm, ?_⟩
  intro v hv
  rw [hArgs v hv, Term.settle?_var hSettled]

/- A match has arguments for the variables of its pattern. -/
theorem exists_of_lookup
    (hp : p.WellFormed)
    (h : matchPattern? p goal used = some found)
    {name : String}
    {arg : Arg}
    (hArg : found.args.lookup name = some arg) :
    ∃ v ∈ p.occurrences, v.name = name := by
  rcases p.exists_renaming used patternSupply with
    ⟨ρ, hEntries, hρ⟩
  simp only [matchPattern?, hEntries,
    Term.instantiate_renaming hp hρ] at h
  split at h
  · rename_i θ _
    split at h
    · cases h
      by_contra hNone
      push Not at hNone
      have hVars : ∀ v ∈ p.vars, v.name ≠ name := by
        intro v hv
        exact hNone v ((Variable.mem_sorted v _).mp hv)
      rw [lookup_argsOf_of_notMem θ ρ hVars] at hArg
      cases hArg
    · cases h
  · cases h

/- What a match gives for a variable is of the variable's kind. -/
theorem kind_le_of_lookup
    (hp : p.WellFormed)
    (hGoal : goal.WellFormed)
    (h : matchPattern? p goal used = some found)
    {name : String}
    {g : Ground}
    (hArg : found.args.lookup name = some (.value g)) :
    ∃ v ∈ p.occurrences, v.name = name ∧ g.kind ≤ v.kind := by
  rcases exists_of_lookup hp h hArg with ⟨v, hv, rfl⟩
  rcases exists_joins hp hGoal h with ⟨ρ, κ, hJoins⟩
  rw [hJoins.args v hv] at hArg
  have hMem :
      v.renamed ρ ∈
        (p.mapVariables (Variable.renamed ρ)).occurrences :=
    (Term.mem_occurrences_mapVariables _ p _).mpr ⟨v, hv, rfl⟩
  have hFits := hJoins.fits _ (Or.inl hMem)
  exact ⟨v, hv, rfl, (hFits _ (argOf?_eq_value hArg)).1⟩

end Entry

end StatementQuery
