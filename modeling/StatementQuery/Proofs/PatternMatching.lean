import StatementQuery.Compile.Plan
import StatementQuery.Proofs.Renaming
import StatementQuery.Proofs.UnifierSoundness

/-
  Matching a pattern with a statement.

  A pattern is renamed apart and unified with the statement.
  The values of a unifier are over variables that it does not
  bind, so settling a term is one substitution, and what a
  variable of the pattern stands for is the value of its new
  name.

  Main declarations:
    * `Term.settle?_var`
    * `Term.settle?_of_subst`
    * `Entry.lookup_argsOf`
    * `Entry.matchPattern?_eq_some`
-/

------------------------------------------------------------
-- Settling Terms
------------------------------------------------------------

namespace StatementQuery

namespace Term

/- A term is the same as itself. -/
theorem same_self
    (t : Term) :
    t.same t = true :=
  (same_iff t t).mpr rfl

/- Bindings of other variables leave a term as it is. -/
theorem instantiateWith_of_unbound
    (mode : InstantiateMode)
    {θ : Bindings}
    {t : Term}
    (h : ∀ v ∈ t.occurrences, θ.get? v = none) :
    t.instantiateWith mode θ = .ok (some t) := by
  cases t with
  | ground g => rfl
  | var v =>
      have hv := h v (by simp [occurrences])
      simp [instantiateWith, instantiateVariable, hv]
  | app c args =>
      have hUntouched : isTouched θ (.app c args) = false := by
        apply List.any_eq_false.mpr
        intro v hv
        simp [Bindings.binds, h v hv]
      simp [instantiateWith, hUntouched]

/- A term without bound variables is settled. -/
theorem settleFor_of_unbound
    {θ : Bindings}
    {t : Term}
    (h : ∀ v ∈ t.occurrences, θ.get? v = none)
    (n : Nat) :
    settleFor θ n t = some (some t) := by
  cases n with
  | zero => rfl
  | succ n =>
      simp [settleFor, instantiate,
        instantiateWith_of_unbound .lenient h, same_self]

/- A unifier of two terms solves their equation. -/
theorem solves_of_unify
    {s t : Term}
    {θ : Bindings}
    (hs : s.WellFormed)
    (ht : t.WellFormed)
    (h : unify [(some s, some t)] = .ok θ) :
    ∃ κ,
      Unify.Solves κ
          (fun v => v ∈ s.occurrences ∨ v ∈ t.occurrences)
          ⟨[(some s, some t)], .empty⟩ θ ∧
        Unify.Narrows κ
          (fun v => v ∈ s.occurrences ∨ v ∈ t.occurrences) ∧
        Unify.Settled κ θ := by
  have hOccurrences :
      ∀ v, v ∈ Equation.occurrences [(some s, some t)] ↔
        v ∈ s.occurrences ∨ v ∈ t.occurrences := by
    intro v
    simp [Equation.occurrences, Side.occurrences]
  have hWithin :
      Unify.Within
        (· ∈ Equation.occurrences [(some s, some t)])
        [(some s, some t)] := by
    apply Equation.within_of_wellFormed
    intro e he
    cases List.mem_singleton.mp he
    rintro u (hu | hu) <;> cases hu
    · exact hs
    · exact ht
  rcases Unify.solves_of_unify hWithin h with
    ⟨κ, hSolves, hNarrows, hSettled⟩
  simp only [hOccurrences] at hSolves hNarrows
  exact ⟨κ, hSolves, hNarrows, hSettled⟩

/- A unifier of two terms is settled over their names. -/
theorem settled_of_unify
    {s t : Term}
    {θ : Bindings}
    (hs : s.WellFormed)
    (ht : t.WellFormed)
    (h : unify [(some s, some t)] = .ok θ) :
    ∃ κ,
      Unify.Narrows κ
          (fun v => v ∈ s.occurrences ∨ v ∈ t.occurrences) ∧
        Unify.Settled κ θ := by
  rcases solves_of_unify hs ht h with
    ⟨κ, _, hNarrows, hSettled⟩
  exact ⟨κ, hNarrows, hSettled⟩

/- A variable settles to its value. -/
theorem settle?_var
    {κ : Kinding}
    {θ : Bindings}
    (hSettled : Unify.Settled κ θ)
    (v : Variable) :
    settle? θ (.var v) = some (θ.value v) := by
  cases hGet : θ.get? v with
  | none =>
      rw [Bindings.value_of_get?_none hGet, settle?]
      apply settleFor_of_unbound
      intro w hw
      cases List.mem_singleton.mp hw
      exact hGet
  | some s =>
      rw [Bindings.value_of_get? hGet]
      rcases hSettled.solved v s hGet with ⟨hWithin, hKind⟩
      have hInstance :
          (Term.var v).instantiate θ = .ok s := by
        cases s with
        | none =>
            simp [instantiate, instantiateWith,
              instantiateVariable, hGet]
        | some t =>
            simp [instantiate, instantiateWith,
              instantiateVariable, hGet, hKind t rfl]
      cases s with
      | none => simp [settle?, settleFor, hInstance]
      | some t =>
          have hUnbound :
              ∀ w ∈ t.occurrences, θ.get? w = none := by
            intro w hw
            exact hSettled.unbound ((hWithin t rfl).2 w hw)
          have hDiffer : t.same (.var v) = false := by
            cases t with
            | ground g => rfl
            | app c args => rfl
            | var w =>
                have hw := hUnbound w (by simp [occurrences])
                simp only [same, decide_eq_false_iff_not]
                rintro rfl
                rw [hGet] at hw
                cases hw
          simp [settle?, settleFor, hInstance, hDiffer,
            settleFor_of_unbound hUnbound]

/-
  A term settles to its instance, or stays as it is where the
  instance is the same.
-/
theorem settle?_of_subst
    {κ : Kinding}
    {θ : Bindings}
    (hSettled : Unify.Settled κ θ)
    {t u : Term}
    (hShaped : t.WellShaped)
    (hFits :
      ∀ v ∈ t.occurrences, Side.Fits κ v.kind (θ.value v))
    (h : t.subst θ.value = some (some u)) :
    settle? θ t =
      some (some (if u.same t then t else u)) := by
  have hInstance : t.instantiate θ = .ok (some u) := by
    apply eq_ok_of_toOption
    rw [← h]
    exact instantiateWith_eq_subst rfl hShaped hFits
  have hUnbound : ∀ w ∈ u.occurrences, θ.get? w = none := by
    intro w hw
    have hu := (fits_subst hShaped hFits h u rfl).2
    exact hSettled.unbound (hu.atKinds w hw)
  by_cases hSame : u.same t = true
  · simp [settle?, settleFor, hInstance, hSame]
  · simp [settle?, settleFor, hInstance, hSame,
      settleFor_of_unbound hUnbound]

end Term

end StatementQuery

------------------------------------------------------------
-- Arguments Of An Emission
------------------------------------------------------------

namespace StatementQuery

namespace Entry

/- A term is a variable to an emission if it settles to one. -/
theorem argOf?_eq_var
    {s : Side}
    {name : String}
    (h : argOf? (some s) = some (.var name)) :
    ∃ v, s = some (.var v) ∧ v.name = name := by
  rcases s with _ | (g | v | ⟨c, args⟩)
  · cases h
  · cases h
  · cases h
    exact ⟨v, rfl, rfl⟩
  · cases h

/- There are arguments for the names of a pattern only. -/
theorem lookup_argsOf_of_notMem
    (θ : Bindings)
    (ρ : String → String)
    {vs : List Variable}
    {name : String}
    (h : ∀ v ∈ vs, v.name ≠ name) :
    (argsOf θ (vs.map (Term.renamingEntry ρ))).lookup name =
      none := by
  induction vs with
  | nil => rfl
  | cons v vs ih =>
      have hRest := ih fun w hw => h w (by simp [hw])
      have hv : name ≠ v.name := Ne.symm (h v (by simp))
      simp only [List.map_cons, Term.renamingEntry, argsOf]
      split
      · rw [lookup_cons_ite, if_neg hv]
        exact hRest
      · exact hRest

/- The argument of a variable is what its new name settles to. -/
theorem lookup_argsOf
    (θ : Bindings)
    (ρ : String → String)
    {vs : List Variable}
    {v : Variable}
    (hv : v ∈ vs)
    (hName : ∀ w ∈ vs, w.name = v.name → w = v) :
    (argsOf θ (vs.map (Term.renamingEntry ρ))).lookup v.name =
      argOf? (Term.settle? θ (.var (v.renamed ρ))) := by
  induction vs with
  | nil => simp at hv
  | cons w vs ih =>
      have hRest :
          ∀ x ∈ vs, x.name = v.name → x = v := by
        intro x hx
        exact hName x (by simp [hx])
      simp only [List.map_cons, Term.renamingEntry, argsOf]
      by_cases hw : w.name = v.name
      · have hEq : w = v := hName w (by simp) hw
        rw [hEq]
        split
        · rename_i arg hArg
          rw [lookup_cons_ite, if_pos rfl, hArg]
        · rename_i hNone
          rw [hNone]
          by_cases hMem : v ∈ vs
          · have hLater := ih hMem hRest
            rw [hNone] at hLater
            exact hLater
          · apply lookup_argsOf_of_notMem
            intro x hx hxName
            rw [← hRest x hx hxName] at hMem
            exact hMem hx
      · have hMem : v ∈ vs := by
          rcases List.mem_cons.mp hv with rfl | hMem
          · exact absurd rfl hw
          · exact hMem
        split
        · rw [lookup_cons_ite, if_neg (Ne.symm hw)]
          exact ih hMem hRest
        · exact ih hMem hRest

end Entry

end StatementQuery

------------------------------------------------------------
-- Matching A Pattern
------------------------------------------------------------

namespace StatementQuery

namespace Renames

/- New names leave one kind for each name. -/
theorem oneKind
    {ρ : String → String}
    {vs : List Variable}
    {avoid : List String}
    (h : Renames ρ vs avoid)
    (hKinds : Variable.OneKind vs) :
    Variable.OneKind (vs.map (Variable.renamed ρ)) := by
  intro x hx y hy hName
  rcases List.mem_map.mp hx with ⟨v, hv, rfl⟩
  rcases List.mem_map.mp hy with ⟨w, hw, rfl⟩
  exact hKinds v hv w hw (h.injective v hv w hw hName)

end Renames

namespace Term

/- A pattern under the new names of its names. -/
theorem instantiate_renaming
    {p : Term}
    (hp : p.WellFormed)
    {ρ : String → String}
    {avoid : List String}
    (hρ : Renames ρ p.occurrences avoid) :
    p.instantiateWith .exact ⟨p.vars.map (renamingEntry ρ)⟩ =
      .ok (some (p.mapVariables (Variable.renamed ρ))) := by
  have hKinds :=
    Variable.atKinds_kinding (hρ.oneKind hp.oneKind)
  apply instantiateWith_renaming .exact hp.shaped
  · intro v
    rfl
  · intro v hv
    exact hKinds _ (List.mem_map.mpr ⟨v, hv, rfl⟩)
  · intro v hv
    apply get?_renamingEntries
    exact (Variable.mem_sorted v p.occurrences).mpr hv

/- A renamed pattern is well formed. -/
theorem wellFormed_renamed
    {p : Term}
    (hp : p.WellFormed)
    {ρ : String → String}
    {avoid : List String}
    (hρ : Renames ρ p.occurrences avoid) :
    (p.mapVariables (Variable.renamed ρ)).WellFormed := by
  refine ⟨wellShaped_mapVariables ?_ hp.shaped, ?_⟩
  · intro v _
    exact le_refl v.kind
  · intro v hv w hw
    rcases (mem_occurrences_mapVariables _ p v).mp hv with
      ⟨v', hv', rfl⟩
    rcases (mem_occurrences_mapVariables _ p w).mp hw with
      ⟨w', hw', rfl⟩
    exact hρ.oneKind hp.oneKind _
      (List.mem_map.mpr ⟨v', hv', rfl⟩) _
      (List.mem_map.mpr ⟨w', hw', rfl⟩)

/- Renamed apart, a pattern and a statement share no name. -/
theorem oneKind_renamed
    {p goal : Term}
    (hp : p.WellFormed)
    (hGoal : goal.WellFormed)
    {ρ : String → String}
    {used : List String}
    (hρ : Renames ρ p.occurrences used)
    (hUsed : ∀ v ∈ goal.occurrences, v.name ∈ used) :
    Variable.OneKind
      (Equation.occurrences
        [(some (p.mapVariables (Variable.renamed ρ)),
          some goal)]) := by
  have hApart :
      ∀ v ∈ (p.mapVariables (Variable.renamed ρ)).occurrences,
        ∀ w ∈ goal.occurrences, v.name ≠ w.name := by
    intro v hv w hw hName
    rcases (mem_occurrences_mapVariables _ p v).mp hv with
      ⟨v', hv', rfl⟩
    apply hρ.fresh v' hv'
    have hFresh : ρ v'.name = w.name := hName
    rw [hFresh]
    exact hUsed w hw
  have hSides :
      ∀ v ∈ Equation.occurrences
          [(some (p.mapVariables (Variable.renamed ρ)),
            some goal)],
        v ∈ (p.mapVariables (Variable.renamed ρ)).occurrences ∨
          v ∈ goal.occurrences := by
    intro v hv
    simpa [Equation.occurrences, Side.occurrences] using hv
  intro v hv w hw hName
  rcases hSides v hv with hv | hv
  · rcases hSides w hw with hw | hw
    · exact (wellFormed_renamed hp hρ).oneKind v hv w hw hName
    · exact absurd hName (hApart v hv w hw)
  · rcases hSides w hw with hw | hw
    · exact absurd hName.symm (hApart w hw v hv)
    · exact hGoal.oneKind v hv w hw hName

end Term

namespace Entry

/- The arguments of a pattern are what its new names settle to. -/
theorem lookup_argsOf_vars
    {p : Term}
    (hp : p.WellFormed)
    (θ : Bindings)
    (ρ : String → String)
    {v : Variable}
    (hv : v ∈ p.occurrences) :
    (argsOf θ (p.vars.map (Term.renamingEntry ρ))).lookup v.name =
      argOf? (Term.settle? θ (.var (v.renamed ρ))) := by
  apply lookup_argsOf
  · exact (Variable.mem_sorted v p.occurrences).mpr hv
  · intro w hw hName
    have hw := (Variable.mem_sorted w p.occurrences).mp hw
    exact Variable.eq_of_name_of_kind hName
      (hp.oneKind w hw v hv hName)

/-
  A match is of the renamed pattern: its bindings unify that
  with the statement, and the arguments are what the new names
  settle to.
-/
theorem matchPattern?_eq_some
    {p goal : Term}
    {used : List String}
    {found : PatternMatch}
    (hp : p.WellFormed)
    (h : matchPattern? p goal used = some found) :
    ∃ ρ : String → String,
      Renames ρ p.occurrences used ∧
        found.pattern = p.mapVariables (Variable.renamed ρ) ∧
        unify [(some found.pattern, some goal)] =
          .ok found.bindings ∧
        ∀ v ∈ p.occurrences,
          found.args.lookup v.name =
            argOf?
              (Term.settle? found.bindings
                (.var (v.renamed ρ))) := by
  rcases p.exists_renaming used patternSupply with
    ⟨ρ, hEntries, hρ⟩
  refine ⟨ρ, hρ, ?_⟩
  simp only [matchPattern?, hEntries,
    Term.instantiate_renaming hp hρ] at h
  split at h
  · rename_i θ hMatch
    split at h
    · cases h
      exact
        ⟨rfl, eq_ok_of_toOption hMatch,
          fun v hv => lookup_argsOf_vars hp θ ρ hv⟩
    · cases h
  · cases h

/- The bindings of a match are settled over its names. -/
theorem settled_of_matchPattern?
    {p goal : Term}
    {used : List String}
    {found : PatternMatch}
    (hp : p.WellFormed)
    (hGoal : goal.WellFormed)
    (h : matchPattern? p goal used = some found) :
    ∃ κ,
      Unify.Narrows κ
          (fun v =>
            v ∈ found.pattern.occurrences ∨
              v ∈ goal.occurrences) ∧
        Unify.Settled κ found.bindings := by
  rcases matchPattern?_eq_some hp h with
    ⟨ρ, hρ, hPattern, hUnify, _⟩
  have hRenamed := Term.wellFormed_renamed hp hρ
  rw [← hPattern] at hRenamed
  exact Term.settled_of_unify hRenamed hGoal hUnify

/-
  A pattern matches if, under new names, it has a unifier that
  leaves something of it.
-/
theorem exists_matchPattern?
    {p : Term}
    (hp : p.WellFormed)
    (goal : Term)
    (used : List String) :
    ∃ ρ : String → String,
      Renames ρ p.occurrences used ∧
        ∀ θ u,
          unify
              [(some (p.mapVariables (Variable.renamed ρ)),
                some goal)] =
            .ok θ →
          Term.settle? θ (p.mapVariables (Variable.renamed ρ)) =
            some (some u) →
          ∃ found,
            matchPattern? p goal used = some found ∧
              found.template = u := by
  rcases p.exists_renaming used patternSupply with
    ⟨ρ, hEntries, hρ⟩
  refine ⟨ρ, hρ, ?_⟩
  intro θ u hUnify hSettle
  simp [matchPattern?, hEntries, Term.instantiate_renaming hp hρ,
    Term.matchWith?, hUnify, Except.toOption, hSettle]

end Entry

end StatementQuery

------------------------------------------------------------
-- Statements Of A Target
------------------------------------------------------------

namespace StatementQuery

namespace Target

/- The names of the parts that a filter leaves open. -/
def openNames : List String :=
  [subjectName, propertyName, valueName]

/- A part of a target is ground, or a variable with a name. -/
def IsPart (t : Term) : Prop :=
  (∃ g, t = .ground g) ∨ ∃ v, t = .var v ∧ v.name ∈ openNames

/- The parts of a target are ground or left open. -/
theorem isPart_of_mem
    {codec : Codec}
    {f : Filter}
    {t : Target}
    (ht : t ∈ all codec f) :
    IsPart t.subject ∧ IsPart t.property ∧ IsPart t.value := by
  rcases List.mem_flatMap.mp ht with ⟨s, _, ht⟩
  rcases List.mem_flatMap.mp ht with ⟨p, _, ht⟩
  rcases List.mem_map.mp ht with ⟨v, _, rfl⟩
  refine ⟨?_, ?_, ?_⟩
  · cases s with
    | value g => exact Or.inl ⟨g, rfl⟩
    | any => exact Or.inr ⟨_, rfl, by simp [openNames]⟩
    | snaks gs => exact Or.inr ⟨_, rfl, by simp [openNames]⟩
  · cases p with
    | value g => exact Or.inl ⟨g, rfl⟩
    | any => exact Or.inr ⟨_, rfl, by simp [openNames]⟩
    | snaks gs => exact Or.inr ⟨_, rfl, by simp [openNames]⟩
  · cases v with
    | value g => exact Or.inl ⟨_, rfl⟩
    | any => exact Or.inr ⟨_, rfl, by simp [openNames]⟩
    | snaks gs => exact Or.inr ⟨_, rfl, by simp [openNames]⟩

/- A part is well shaped, and its name is one of the names. -/
theorem IsPart.spec
    {t : Term}
    (h : IsPart t) :
    t.WellShaped ∧ ∀ v ∈ t.occurrences, v.name ∈ openNames := by
  rcases h with ⟨g, rfl⟩ | ⟨v, rfl, hName⟩
  · exact ⟨.ground g, by simp [Term.occurrences]⟩
  · refine ⟨.var v, ?_⟩
    intro w hw
    cases List.mem_singleton.mp hw
    exact hName

/-
  The snak of a target is well formed, and its names are among
  those of the parts.
-/
theorem spec_snak
    {codec : Codec}
    {f : Filter}
    {t : Target}
    {kind : SnakKind}
    {snak : Term}
    (ht : t ∈ all codec f)
    (h : t.snak kind = .ok snak) :
    snak.WellFormed ∧
      ∀ v ∈ snak.occurrences, v.name ∈ openNames := by
  rcases isPart_of_mem ht with ⟨_, hProperty, hValue⟩
  have hBuilt :
      ∀ c args,
        (∀ u, some u ∈ args → IsPart u) →
          Term.apply c args = .ok snak →
            snak.WellFormed ∧
              ∀ v ∈ snak.occurrences, v.name ∈ openNames := by
    intro c args hArgs hApply
    refine
      ⟨Term.wellFormed_apply
        (fun u hu => (hArgs u hu).spec.1) hApply, ?_⟩
    intro v hv
    rcases Term.exists_name_of_apply hApply hv with
      ⟨w, hw, hName⟩
    rcases (Term.mem_occurrencesArgs w args).mp hw with
      ⟨u, hu, hw⟩
    rw [← hName]
    exact (hArgs u hu).spec.2 w hw
  cases kind with
  | value =>
      refine hBuilt _ _ ?_ h
      intro u hu
      rcases List.mem_pair.mp hu with hu | hu <;> cases hu
      · exact hProperty
      · exact hValue
  | someValue =>
      refine hBuilt _ _ ?_ h
      intro u hu
      cases List.mem_singleton.mp hu
      exact hProperty
  | noValue =>
      refine hBuilt _ _ ?_ h
      intro u hu
      cases List.mem_singleton.mp hu
      exact hProperty

/- So is the statement of a target. -/
theorem spec_statement
    {codec : Codec}
    {f : Filter}
    {t : Target}
    {kind : SnakKind}
    {goal : Term}
    (ht : t ∈ all codec f)
    (h : t.statement kind = .ok goal) :
    goal.WellFormed ∧
      ∀ v ∈ goal.occurrences, v.name ∈ openNames := by
  rcases exists_of_bind_eq_ok h with ⟨snak, hSnak, hApply⟩
  rcases spec_snak ht hSnak with ⟨hFormed, hNames⟩
  have hSubject := (isPart_of_mem ht).1.spec
  constructor
  · apply Term.wellFormed_apply _ hApply
    intro u hu
    rcases List.mem_pair.mp hu with hu | hu <;> cases hu
    · exact hSubject.1
    · exact hFormed.shaped
  · intro v hv
    rcases Term.exists_name_of_apply hApply hv with
      ⟨w, hw, hName⟩
    rw [← hName]
    simp only [Term.occurrencesArgs, List.append_nil,
      List.mem_append] at hw
    rcases hw with hw | hw
    · exact hSubject.2 w hw
    · exact hNames w hw

end Target

end StatementQuery
