import StatementQuery.Proofs.FaithfulTerms
import StatementQuery.Proofs.SolvedForms
import StatementQuery.Term.Generalize

/-
  Every operation on terms returns well-formed terms.

  A constructor narrows the variables of its arguments to one
  kind for each name, whatever kinds they come with.  The other
  operations take terms apart and put them together again with
  constructors, or leave them as they are, so what they return
  is well formed wherever the terms they are given are.

  Key definitions include:
    * `Bindings.Each`
    * `Term.Invariant`

  Main declarations:
    * `Term.wellFormed_construct`
    * `Term.wellFormed_instantiateWith`
    * `Term.wellFormed_rename`
    * `Term.wellFormed_generalize`
    * `Term.wellFormed_of_unify`
    * `Term.invariant_wellFormed`
-/

------------------------------------------------------------
-- Construction
------------------------------------------------------------

namespace StatementQuery

namespace Term

/- A ground term is well formed. -/
theorem wellFormed_ground
    (g : Ground) :
    (Term.ground g).WellFormed :=
  ⟨.ground g, by simp [Variable.OneKind, occurrences]⟩

/- A variable is well formed. -/
theorem wellFormed_var
    (v : Variable) :
    (Term.var v).WellFormed :=
  ⟨.var v, by simp [Variable.OneKind, occurrences]⟩

/- The arguments of a well-formed term are well formed. -/
theorem WellFormed.arg
    {c : Constructor}
    {args : List (Option Term)}
    (h : (Term.app c args).WellFormed)
    {t : Term}
    (ht : some t ∈ args) :
    t.WellFormed := by
  rcases h with ⟨_ | _ | ⟨_, _, hArgs⟩, hOneKind⟩
  refine ⟨hArgs t ht, ?_⟩
  intro v hv w hw hName
  exact hOneKind v
    ((mem_occurrences_app v c args).mpr ⟨t, ht, hv⟩) w
    ((mem_occurrences_app w c args).mpr ⟨t, ht, hw⟩) hName

/- A constructor returns terms of its kind. -/
theorem kind_apply
    {c : Constructor}
    {args : List (Option Term)}
    {t : Term}
    (h : apply c args = .ok t) :
    t.kind = c.kind := by
  unfold apply at h
  split at h
  · rcases exists_of_bind_eq_ok h with ⟨checked, _, h⟩
    split at h
    · rcases exists_of_bind_eq_ok h with ⟨normal, _, h⟩
      cases h
      rfl
    · rcases exists_of_bind_eq_ok h with ⟨g, hBuild, h⟩
      cases h
      exact Ground.kind_of_build hBuild
  · cases h

/- The constructor of a kind returns well-formed terms. -/
theorem wellFormed_construct
    {k : Kind}
    {args : List (Option Term)}
    {t : Term}
    (hArgs : ∀ u, some u ∈ args → u.WellFormed)
    (h : construct k args = .ok t) :
    t.WellFormed := by
  unfold construct at h
  split at h
  · exact wellFormed_apply (fun u hu => (hArgs u hu).shaped) h
  · cases h

end Term

end StatementQuery

------------------------------------------------------------
-- Instantiation
------------------------------------------------------------

namespace StatementQuery

/- Every term that is bound has a property. -/
def Bindings.Each (P : Term → Prop) (θ : Bindings) : Prop :=
  ∀ v t, (v, some t) ∈ θ.entries → P t

namespace Term

/- What a variable becomes is of its kind, and well formed. -/
theorem wellFormed_instantiateVariable
    {mode : InstantiateMode}
    {θ : Bindings}
    {v : Variable}
    {u : Term}
    (hθ : θ.Each WellFormed)
    (h : instantiateVariable mode θ v = .ok (some u)) :
    u.WellFormed ∧ u.kind ≤ v.kind := by
  unfold instantiateVariable at h
  split at h
  · cases h
    exact ⟨wellFormed_var v, le_refl v.kind⟩
  · cases h
  · rename_i t hGet
    split at h
    · rename_i hKind
      cases h
      exact ⟨hθ v u (Bindings.exists_entry hGet), hKind⟩
    · split at h
      · split at h
        · cases h
          exact ⟨wellFormed_var _, le_refl v.kind⟩
        · cases h
      · cases h

/- Every argument of an instance is an instance. -/
theorem exists_of_mem_instantiateArgs
    {mode : InstantiateMode}
    {θ : Bindings}
    {c : Constructor}
    {position : Nat}
    {slots : List Slot}
    {args values : List (Option Term)}
    (h :
      instantiateArgs mode θ c position slots args =
        .ok (some values))
    {u : Term}
    (hu : some u ∈ values) :
    ∃ t, some t ∈ args ∧
      t.instantiateWith mode θ = .ok (some u) := by
  induction slots generalizing position args values with
  | nil =>
      simp only [instantiateArgs] at h
      cases h
      simp at hu
  | cons slot slots ih =>
      cases args with
      | nil =>
          simp only [instantiateArgs] at h
          cases h
          simp at hu
      | cons arg args =>
          simp only [instantiateArgs] at h
          split at h
          · cases h
          · rename_i value hValue
            split at h
            · split at h <;> cases h
            · split at h
              · rename_i rest hRest
                cases h
                rcases List.mem_cons.mp hu with hHead | hTail
                · cases arg with
                  | none =>
                      simp only [instantiateArg] at hValue
                      cases hValue
                      cases hHead
                  | some t =>
                      refine ⟨t, by simp, ?_⟩
                      rw [hHead]
                      exact hValue
                · rcases ih hRest hTail with ⟨t, ht, hInstance⟩
                  exact ⟨t, by simp [ht], hInstance⟩
              · cases h
              · cases h

/- Instances of well-formed terms are well formed. -/
theorem wellFormed_instantiateWith
    {mode : InstantiateMode}
    {θ : Bindings}
    {t u : Term}
    (hθ : θ.Each WellFormed)
    (ht : t.WellFormed)
    (h : t.instantiateWith mode θ = .ok (some u)) :
    u.WellFormed := by
  induction t generalizing u with
  | ground g =>
      simp only [instantiateWith] at h
      cases h
      exact ht
  | var v =>
      simp only [instantiateWith] at h
      exact (wellFormed_instantiateVariable hθ h).1
  | app c args ih =>
      simp only [instantiateWith] at h
      split at h
      · split at h
        · rename_i values hValues
          have hShaped :
              ∀ w, some w ∈ values → w.WellShaped := by
            intro w hw
            rcases exists_of_mem_instantiateArgs hValues hw with
              ⟨t, htMem, hInstance⟩
            exact (ih t htMem (ht.arg htMem) hInstance).shaped
          cases hApply : apply c values with
          | error e =>
              rw [hApply] at h
              cases h
          | ok w =>
              rw [hApply] at h
              cases h
              exact wellFormed_apply hShaped hApply
        · cases h
        · cases h
      · cases h
        exact ht

/- An instance has the kind of the term, or a narrower one. -/
theorem kind_instantiateWith
    {mode : InstantiateMode}
    {θ : Bindings}
    {t u : Term}
    (hθ : θ.Each WellFormed)
    (h : t.instantiateWith mode θ = .ok (some u)) :
    u.kind ≤ t.kind ∧ (t.isVariable = false → u.kind = t.kind) := by
  cases t with
  | ground g =>
      simp only [instantiateWith] at h
      cases h
      exact ⟨le_refl _, fun _ => rfl⟩
  | var v =>
      simp only [instantiateWith] at h
      refine ⟨(wellFormed_instantiateVariable hθ h).2, ?_⟩
      intro hVar
      cases hVar
  | app c args =>
      have hSame : u.kind = c.kind := by
        simp only [instantiateWith] at h
        split at h
        · split at h
          · rename_i values hValues
            cases hApply : apply c values with
            | error e =>
                rw [hApply] at h
                cases h
            | ok w =>
                rw [hApply] at h
                cases h
                exact kind_apply hApply
          · cases h
          · cases h
        · cases h
          rfl
      exact ⟨le_of_eq hSame, fun _ => hSame⟩

/- A renamed term is well formed. -/
theorem wellFormed_rename
    {t : Term}
    (ht : t.WellFormed)
    (avoid : List String)
    (supply : String → NameSupply) :
    (t.rename avoid supply).WellFormed := by
  rcases exists_renaming t avoid supply with ⟨ρ, hEntries, _⟩
  have hVars :
      (t.renamingBindings avoid supply).Each WellFormed := by
    intro v u hu
    rw [hEntries] at hu
    rcases List.mem_map.mp hu with ⟨w, _, hEntry⟩
    cases hEntry
    exact wellFormed_var _
  unfold rename
  split
  · rename_i renamed hRenamed
    exact wellFormed_instantiateWith hVars ht hRenamed
  · exact ht

end Term

end StatementQuery

------------------------------------------------------------
-- Generalization
------------------------------------------------------------

namespace StatementQuery

namespace Term

/- Filling absent arguments adds variables only. -/
theorem mem_fillAbsent
    {supply : NameSupply}
    {slots : List Slot}
    {args : List (Option Term)}
    {taken : List String}
    {u : Term}
    (hu : some u ∈ (fillAbsent supply slots args taken).1) :
    some u ∈ args ∨ ∃ v, u = .var v := by
  induction slots generalizing args taken with
  | nil => simp [fillAbsent] at hu
  | cons slot slots ih =>
      rcases args with _ | ⟨_ | t, args⟩
      · simp [fillAbsent] at hu
      · simp only [fillAbsent, freshVariable] at hu
        rcases List.mem_cons.mp hu with hHead | hTail
        · cases hHead
          exact Or.inr ⟨_, rfl⟩
        · exact (ih hTail).imp (List.mem_cons_of_mem _) id
      · simp only [fillAbsent] at hu
        rcases List.mem_cons.mp hu with hHead | hTail
        · exact Or.inl (by simp [hHead])
        · exact (ih hTail).imp (List.mem_cons_of_mem _) id

/- Filling the arguments of a term keeps them well shaped. -/
theorem wellShaped_fillAbsent
    {supply : NameSupply}
    {slots : List Slot}
    {args : List (Option Term)}
    {taken : List String}
    (hArgs : ∀ t, some t ∈ args → t.WellShaped)
    {u : Term}
    (hu : some u ∈ (fillAbsent supply slots args taken).1) :
    u.WellShaped := by
  rcases mem_fillAbsent hu with hOld | ⟨v, rfl⟩
  · exact hArgs u hOld
  · exact .var v

/- A constructor, or the term that is kept, is well formed. -/
theorem wellFormed_applyOr
    {fallback : Term}
    {c : Constructor}
    {args : List (Option Term)}
    (hFallback : fallback.WellFormed)
    (hArgs : ∀ u, some u ∈ args → u.WellShaped) :
    (applyOr fallback c args).WellFormed := by
  unfold applyOr
  split
  · rename_i t hApply
    exact wellFormed_apply hArgs hApply
  · exact hFallback

end Term

/- A generalized value is well formed. -/
theorem Value.wellFormed_generalize
    (supply : NameSupply)
    (v : Value)
    (taken : List String) :
    (v.generalize supply taken).1.WellFormed := by
  unfold Value.generalize
  simp only
  split
  · rename_i c args _ hArgs
    apply Term.wellFormed_applyOr (Term.wellFormed_ground _)
    intro u hu
    refine Term.wellShaped_fillAbsent ?_ hu
    intro t ht
    rcases Option.map_eq_some_iff.mp hArgs with ⟨gs, _, rfl⟩
    rcases List.mem_map.mp ht with ⟨g, _, hg⟩
    rcases Option.map_eq_some_iff.mp hg with ⟨x, _, rfl⟩
    exact .ground x
  · exact Term.wellFormed_ground _

/- A generalized snak is well formed. -/
theorem Snak.wellFormed_generalize
    (supply : NameSupply)
    (s : Snak)
    (taken : List String) :
    (s.generalize supply taken).1.WellFormed := by
  cases s with
  | value p v =>
      apply Term.wellFormed_applyOr (Term.wellFormed_ground _)
      intro u hu
      rcases List.mem_pair.mp hu with hProperty | hValue
      · cases hProperty
        exact .ground _
      · cases hValue
        exact (v.wellFormed_generalize supply taken).shaped
  | someValue p =>
      simp only [Snak.generalize]
      apply Term.wellFormed_applyOr (Term.wellFormed_ground _)
      intro u hu
      cases List.mem_singleton.mp hu
      exact .ground _
  | noValue p =>
      simp only [Snak.generalize]
      apply Term.wellFormed_applyOr (Term.wellFormed_ground _)
      intro u hu
      cases List.mem_singleton.mp hu
      exact .ground _

/- A generalized ground term is well formed. -/
theorem Ground.wellFormed_generalize
    (supply : NameSupply)
    (g : Ground)
    (taken : List String) :
    (g.generalize supply taken).1.WellFormed := by
  cases g with
  | value v => exact v.wellFormed_generalize supply taken
  | snak s => exact s.wellFormed_generalize supply taken
  | statement s =>
      apply Term.wellFormed_applyOr (Term.wellFormed_ground _)
      intro u hu
      rcases List.mem_pair.mp hu with hSubject | hSnak
      · cases hSubject
        exact .ground _
      · cases hSnak
        exact (s.snak.wellFormed_generalize supply taken).shaped

namespace Term

/- Generalized arguments are generalized terms or variables. -/
theorem mem_generalizeArgs
    {supply : NameSupply}
    {slots : List Slot}
    {args : List (Option Term)}
    {taken : List String}
    {u : Term}
    (hu : some u ∈ (generalizeArgs supply slots args taken).1) :
    (∃ t taken', some t ∈ args ∧
        u = (generalizeFrom supply t taken').1) ∨
      ∃ v, u = .var v := by
  induction slots generalizing args taken with
  | nil => simp [generalizeArgs] at hu
  | cons slot slots ih =>
      rcases args with _ | ⟨_ | t, args⟩
      · simp [generalizeArgs] at hu
      · simp only [generalizeArgs, freshVariable] at hu
        rcases List.mem_cons.mp hu with hHead | hTail
        · cases hHead
          exact Or.inr ⟨_, rfl⟩
        · rcases ih hTail with ⟨t, taken', ht, hEq⟩ | hVar
          · exact Or.inl ⟨t, taken', by simp [ht], hEq⟩
          · exact Or.inr hVar
      · simp only [generalizeArgs] at hu
        rcases List.mem_cons.mp hu with hHead | hTail
        · exact Or.inl
            ⟨t, taken, by simp, Option.some.inj hHead⟩
        · rcases ih hTail with ⟨t', taken', ht, hEq⟩ | hVar
          · exact Or.inl ⟨t', taken', by simp [ht], hEq⟩
          · exact Or.inr hVar

/- Generalizing from any names keeps a term well formed. -/
theorem wellFormed_generalizeFrom
    {supply : NameSupply}
    {t : Term}
    (ht : t.WellFormed)
    (taken : List String) :
    (generalizeFrom supply t taken).1.WellFormed := by
  induction t generalizing taken with
  | ground g =>
      simp only [generalizeFrom]
      exact g.wellFormed_generalize supply taken
  | var v =>
      simp only [generalizeFrom]
      exact ht
  | app c args ih =>
      simp only [generalizeFrom]
      apply wellFormed_applyOr ht
      intro u hu
      split at hu
      · rcases mem_generalizeArgs hu with
          ⟨t, taken', htMem, rfl⟩ | ⟨v, rfl⟩
        · exact (ih t htMem (ht.arg htMem) taken').shaped
        · exact .var v
      · exact wellShaped_fillAbsent
          (fun t htMem => (ht.arg htMem).shaped) hu

/- A generalized term is well formed. -/
theorem wellFormed_generalize
    {t : Term}
    (ht : t.WellFormed)
    (avoid : List String)
    (supply : NameSupply) :
    (t.generalize avoid supply).WellFormed :=
  wellFormed_generalizeFrom ht (avoid ++ t.names)

end Term

end StatementQuery

------------------------------------------------------------
-- Preservation
------------------------------------------------------------

namespace StatementQuery

namespace Term

/- What unification binds is well formed. -/
theorem wellFormed_of_unify
    {eqs : List Equation}
    {θ : Bindings}
    (hEqs : ∀ e ∈ eqs, Equation.WellFormed e)
    (h : unify eqs = .ok θ) :
    θ.Each WellFormed := by
  rcases Unify.recorded_unify
      (Equation.within_of_wellFormed hEqs) h with
    ⟨hRecorded, κ, hSettled, _⟩
  intro v t hEntry
  have hGet := hRecorded.functional (v, some t) hEntry
  rcases (hSettled.solved v (some t) hGet).1 t rfl with
    ⟨hShaped, hScope⟩
  exact ⟨hShaped, Variable.oneKind_of_atKinds hScope⟩

/- A well-formed term is ground if it has no variables. -/
theorem WellFormed.isGround_iff
    {t : Term}
    (h : t.WellFormed) :
    t.isGround = true ↔ t.vars = [] := by
  constructor
  · intro hGround
    cases t with
    | ground g => rfl
    | var v => cases hGround
    | app c args => cases hGround
  · intro hVars
    have hNone : ∀ v, v ∉ t.occurrences := by
      intro v hv
      have hMem : v ∈ t.vars :=
        (Variable.mem_sorted v t.occurrences).mpr hv
      rw [hVars] at hMem
      cases hMem
    rcases exists_ground_of_occurrences_eq_nil h.shaped hNone
      with ⟨g, rfl⟩
    rfl

/-
  A property that every operation on terms keeps: building,
  instantiating, renaming and generalizing terms, in whatever
  way, and unifying them.
-/
structure Invariant (P : Term → Prop) : Prop where
  construct :
    ∀ k args t,
      (∀ u, some u ∈ args → P u) →
        Term.construct k args = .ok t → P t
  instantiate :
    ∀ mode (θ : Bindings) t u,
      θ.Each P → P t →
        t.instantiateWith mode θ = .ok (some u) → P u
  rename :
    ∀ t avoid supply, P t → P (t.rename avoid supply)
  generalize :
    ∀ t avoid supply, P t → P (t.generalize avoid supply)
  unify :
    ∀ (eqs : List Equation) θ,
      (∀ e ∈ eqs, ∀ t, e.1 = some t ∨ e.2 = some t → P t) →
        StatementQuery.unify eqs = .ok θ → θ.Each P

/-
  Being well formed is an invariant.  Instances of well-formed
  terms do not get wider, and keep their kind unless a variable
  is instantiated; without variables a well-formed term is
  ground; and the parts of a ground term fit the slots of its
  constructor.
-/
theorem invariant_wellFormed :
    Invariant WellFormed ∧
      (∀ mode (θ : Bindings) (t u : Term),
        θ.Each WellFormed → t.WellFormed →
          t.instantiateWith mode θ = .ok (some u) →
            u.kind ≤ t.kind ∧
              (t.isVariable = false → u.kind = t.kind)) ∧
      (∀ t : Term, t.WellFormed →
        (t.isGround = true ↔ t.vars = [])) ∧
      ∀ (c : Constructor) (g : Ground) gs,
        g.kind = c.kind → g.args? = some gs →
          List.Forall₂ Slot.Admits c.slots
            (gs.map (Option.map Term.ground)) := by
  refine ⟨⟨?_, ?_, ?_, ?_, ?_⟩, ?_, ?_, ?_⟩
  · intro k args t hArgs h
    exact wellFormed_construct hArgs h
  · intro mode θ t u hθ ht h
    exact wellFormed_instantiateWith hθ ht h
  · intro t avoid supply ht
    exact wellFormed_rename ht avoid supply
  · intro t avoid supply ht
    exact wellFormed_generalize ht avoid supply
  · intro eqs θ hEqs h
    exact wellFormed_of_unify hEqs h
  · intro mode θ t u hθ _ h
    exact kind_instantiateWith hθ h
  · intro t ht
    exact ht.isGround_iff
  · intro c g gs hKind hArgs
    exact (Ground.args?_spec hKind hArgs).2

/- Statements with two variables, of an entity and of a value. -/
def mentions (subject value : Variable) : Term :=
  .app .statement
    [some (.var subject),
      some
        (.app .valueSnak
          [some (.var ⟨"p", .property⟩), some (.var value)])]

/- The value is the subject, which is an item. -/
def selfMention : Bindings :=
  ⟨[(⟨"v", .value⟩, some (.var ⟨"s", .item⟩))]⟩

theorem invariant_wellFormed_mentions :
    (mentions ⟨"s", .entity⟩ ⟨"v", .value⟩).WellFormed ∧
      selfMention.Each WellFormed ∧
      (mentions ⟨"s", .entity⟩ ⟨"v", .value⟩).instantiate
          selfMention =
        .ok (some (mentions ⟨"s", .item⟩ ⟨"s", .item⟩)) ∧
      (mentions ⟨"s", .item⟩ ⟨"s", .item⟩).WellFormed := by
  have hFormed :
      (mentions ⟨"s", .entity⟩ ⟨"v", .value⟩).WellFormed := by
    decide
  have hEach : selfMention.Each WellFormed := by
    intro v t h
    cases List.mem_singleton.mp h
    exact wellFormed_var _
  have hInstance :
      (mentions ⟨"s", .entity⟩ ⟨"v", .value⟩).instantiate
          selfMention =
        .ok (some (mentions ⟨"s", .item⟩ ⟨"s", .item⟩)) := rfl
  exact
    ⟨hFormed, hEach, hInstance,
      invariant_wellFormed.1.instantiate .lenient _ _ _ hEach hFormed
        hInstance⟩

end Term

end StatementQuery
