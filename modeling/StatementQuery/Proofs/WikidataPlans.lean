import StatementQuery.Proofs.CompileRuns
import StatementQuery.Proofs.FilterTargets
import StatementQuery.Proofs.WikidataValues

/-
  How the entries of a Wikidata store serve plain targets.

  A pattern matches a target by its subject, its property and
  its value.  The value of a pattern is missing, a variable, or
  a deep value with a variable for each of its components.  In
  each of these forms the template of the match has the parts
  that the target fixes, and a column for each of the others.

  Key definitions include:
    * `Wikidata.heldCells`
    * `Wikidata.Carries`
    * `Wikidata.BindsVar`
    * `Wikidata.BindsDeep`

  Main declarations:
    * `Wikidata.reads_pattern`
    * `Wikidata.exists_match`
    * `Wikidata.bindsVar_of_unify`
    * `Wikidata.bindsDeep_of_unify`
-/

------------------------------------------------------------
-- Templates Of Patterns
------------------------------------------------------------

namespace StatementQuery

namespace Wikidata

/- The column of a part that is left open. -/
def heldCells (v : Variable) (g : Ground) : Term → List Cell
| .ground _ => []
| _ => [(v, some g)]

/- A part that is open or fixed is a template of the part. -/
theorem reads_held
    {v : Variable}
    {k : Kind}
    {t : Term}
    {g : Ground}
    (h : Target.Fixes v.name k t g) :
    Side.Reads (some (Target.held v t)) (some g)
      (heldCells v g t) := by
  rcases h with rfl | ⟨h, rfl, hSame⟩
  · exact Side.Reads.var v (some g)
  · exact Side.Reads.ground hSame

/- A part is of the kind of its variable. -/
theorem kind_held_le
    {v : Variable}
    {t : Term}
    (h : ∀ g, t = .ground g → g.kind ≤ v.kind) :
    (Target.held v t).kind ≤ v.kind := by
  cases t with
  | ground g => exact h g rfl
  | var w => exact le_refl v.kind
  | app c args => exact le_refl v.kind

/- A fixed part is of its kind. -/
theorem kind_le_of_ground
    {name : String}
    {k : Kind}
    {t : Term}
    (h : Target.IsSlot name k t)
    (g : Ground)
    (hg : t = .ground g) :
    g.kind ≤ k := by
  have hKind := h.kind_le
  rw [hg] at hKind
  exact hKind

/- The slots of a faithful constructor are all required. -/
theorem solid_of_isFaithful
    {c : Constructor}
    (h : c.isFaithful = true)
    {values : List Side}
    (hSlots : List.Forall₂ Slot.Admits c.slots values) :
    List.Forall₂
      (fun slot arg =>
        ∀ d brgs, arg = some (.app d brgs) →
          slot.isOptional = false)
      c.slots values := by
  have hRequired :
      ∀ slot ∈ c.slots, slot.isOptional = false :=
    fun slot hSlot =>
      Constructor.isOptional_of_isFaithful h hSlot
  generalize c.slots = slots at hSlots hRequired
  induction hSlots with
  | nil => exact .nil
  | @cons slot arg slots args _ _ ih =>
      refine .cons (fun _ _ _ => hRequired slot (by simp)) ?_
      exact ih fun slot' hSlot => hRequired slot' (by simp [hSlot])

/-
  What a pattern has besides subject and property is bound to
  templates of what a snak has besides its property.
-/
def Carries
    (θ : Bindings)
    (ρ : String → String)
    (args : List (Option Term))
    (n : Snak)
    (cells : List Cell) :
    Prop :=
  ∃ values gs,
    (renamedArgs ρ args).map (Side.subst θ.value) =
        values.map some ∧
      Ground.snakArgs n =
        some (.value (.property n.property)) :: gs ∧
      Side.ReadsArgs values gs cells ∧
      List.Forall₂ Slot.Admits
        n.snakKind.constructor.slots.tail values

/-
  Bound to the parts of a target, a pattern is a template of
  each statement that the target takes.
-/
theorem reads_pattern
    {t : Target}
    {s : Statement}
    (hPlain : t.Plain)
    (hTakes : t.Takes s)
    {ρ : String → String}
    {θ : Bindings}
    (hBinds : Binds θ ρ t)
    {args : List (Option Term)}
    {cells : List Cell}
    (hCarries : Carries θ ρ args s.snak cells) :
    ∃ u,
      ((patternOf s.snak.snakKind args).mapVariables
          (Variable.renamed ρ)).subst θ.value =
        some (some u) ∧
      Side.Reads (some u) (some (.statement s))
        (heldCells subjectVariable (.value (.entity s.subject))
            t.subject ++
          (heldCells propertyVariable
              (.value (.property s.snak.property)) t.property ++
            cells)) := by
  rcases hCarries with ⟨values, gs, hValues, hArgs, hReads, hAdmits⟩
  have hSnakSlots :
      List.Forall₂ Slot.Admits
        s.snak.snakKind.constructor.slots
        (some (Target.held propertyVariable t.property) ::
          values) := by
    have hProperty :
        (Slot.required .property).Admits
          (some (Target.held propertyVariable t.property)) :=
      kind_held_le (kind_le_of_ground hPlain.property)
    revert hAdmits
    cases s.snak.snakKind <;> exact .cons hProperty
  have hSnakFaithful := s.snak.snakKind.isFaithful_constructor
  have hSnakKind :
      (Ground.snak s.snak).kind =
        s.snak.snakKind.constructor.kind := by
    cases s.snak <;> rfl
  rcases Side.Reads.assemble hSnakKind
      (congrArg some hArgs)
      (.cons (reads_held hTakes.property) hReads) hSnakSlots
      (solid_of_isFaithful hSnakFaithful hSnakSlots) with
    ⟨n, hn, hnKind, hnReads⟩
  have hSlots :
      List.Forall₂ Slot.Admits Constructor.statement.slots
        [some (Target.held subjectVariable t.subject), some n] := by
    refine .cons ?_ (.cons ?_ .nil)
    · exact kind_held_le (kind_le_of_ground hPlain.subject)
    · have hLe : s.snak.kind ≤ .snak := Snak.kind_le_snak s.snak
      have hEq : n.kind = s.snak.kind := hnKind.trans hSnakKind.symm
      exact (hEq ▸ hLe : n.kind ≤ .snak)
  rcases Side.Reads.assemble (c := .statement)
      (g := .statement s) rfl rfl
      (.cons (reads_held hTakes.subject) (.cons hnReads .nil))
      hSlots (solid_of_isFaithful rfl hSlots) with
    ⟨u, hu, _, huReads⟩
  refine ⟨u, ?_, by simpa using huReads⟩
  rw [mapVariables_patternOf, Term.subst_app, ← hu]
  simp only [List.map_cons, List.map_nil, Side.subst, Term.subst,
    hBinds.subject, Term.substArgs, Term.substArgs_eq_map,
    hBinds.property, hValues]
  rw [← hn]
  rfl

/-
  The template of a match is the pattern under its bindings:
  the subject under its new name is gone from it.
-/
theorem settle?_pattern
    {t : Target}
    {k : SnakKind}
    {goal snak : Term}
    (hAsks : t.Asks k goal snak)
    {args : List (Option Term)}
    (hp : (patternOf k args).WellFormed)
    {ρ : String → String}
    {used : List String}
    (hρ : Renames ρ (patternOf k args).occurrences used)
    (hUsed : Target.openNames ⊆ used)
    {θ : Bindings}
    (hUnify :
      unify
          [(some
              ((patternOf k args).mapVariables
                (Variable.renamed ρ)),
            some goal)] =
        .ok θ)
    (hBinds : Binds θ ρ t)
    {u : Term}
    (hu :
      ((patternOf k args).mapVariables
          (Variable.renamed ρ)).subst θ.value =
        some (some u)) :
    Term.settle? θ
        ((patternOf k args).mapVariables (Variable.renamed ρ)) =
      some (some u) := by
  have hRenamed := Term.wellFormed_renamed hp hρ
  rcases Term.solves_of_unify hRenamed hAsks.formed hUnify with
    ⟨κ, hSolves, _, hSettled⟩
  have hFits := fun v hv => hSolves.fits v (Or.inl (Or.inl hv))
  have hSubject :
      subjectVariable ∈ (patternOf k args).occurrences :=
    mem_occurrences_patternOf.mpr (Or.inl rfl)
  have hDiffer :
      u.same
          ((patternOf k args).mapVariables
            (Variable.renamed ρ)) =
        false := by
    rw [← Bool.not_eq_true, Term.same_iff]
    intro hSame
    have hMem : subjectVariable.renamed ρ ∈ u.occurrences := by
      rw [← Term.occurrences_canonical, hSame,
        Term.occurrences_canonical]
      exact (Term.mem_occurrences_mapVariables _ _ _).mpr
        ⟨_, hSubject, rfl⟩
    have hKinded :=
      (Term.fits_subst hRenamed.shaped hFits hu u rfl).2
    have hValue :=
      Bindings.value_of_get?_none
        (hSettled.unbound (hKinded.atKinds _ hMem))
    rw [hBinds.subject] at hValue
    have hFresh := hρ.fresh _ hSubject
    have hOpen : subjectVariable.name ∈ used :=
      hUsed (by decide)
    have hHeld : Target.held subjectVariable t.subject =
        .var (subjectVariable.renamed ρ) :=
      Option.some.inj hValue
    cases hTerm : t.subject with
    | ground g =>
        rw [hTerm] at hHeld
        cases hHeld
    | _ =>
        all_goals
          rw [hTerm] at hHeld
          have hName :
              subjectVariable = subjectVariable.renamed ρ :=
            Term.var.inj hHeld
          apply hFresh
          rw [hName] at hOpen
          exact hOpen
  rw [Term.settle?_of_subst hSettled hRenamed.shaped hFits hu,
    hDiffer]
  rfl

/-
  A pattern that is bound to the parts of a target, and whose
  value is carried over, matches, and its template reads the
  statement.
-/
theorem exists_match
    {t : Target}
    {s : Statement}
    {goal snak : Term}
    (hPlain : t.Plain)
    (hTakes : t.Takes s)
    (hAsks : t.Asks s.snak.snakKind goal snak)
    {args : List (Option Term)}
    (hp : (patternOf s.snak.snakKind args).WellFormed)
    {used : List String}
    (hUsed : Target.openNames ⊆ used)
    {Q : List Cell → Prop}
    (hCarries :
      ∀ ρ,
        Renames ρ (patternOf s.snak.snakKind args).occurrences
            used →
          ∃ θ cells,
            unify
                [(some
                    ((patternOf s.snak.snakKind args).mapVariables
                      (Variable.renamed ρ)),
                  some goal)] =
              .ok θ ∧
            Binds θ ρ t ∧ Carries θ ρ args s.snak cells ∧
            Q cells) :
    ∃ found cells,
      Entry.matchPattern? (patternOf s.snak.snakKind args) goal
          used =
        some found ∧
      Q cells ∧
      Side.Reads (some found.template) (some (.statement s))
        (heldCells subjectVariable (.value (.entity s.subject))
            t.subject ++
          (heldCells propertyVariable
              (.value (.property s.snak.property)) t.property ++
            cells)) := by
  rcases Entry.exists_matchPattern? hp goal used with
    ⟨ρ, hρ, hMatch⟩
  rcases hCarries ρ hρ with
    ⟨θ, cells, hUnify, hBinds, hCarries, hQ⟩
  rcases reads_pattern hPlain hTakes hBinds hCarries with
    ⟨u, hu, hReads⟩
  rcases hMatch θ u hUnify
      (settle?_pattern hAsks hp hρ hUsed hUnify hBinds hu) with
    ⟨found, hFound, hTemplate⟩
  rw [← hTemplate] at hReads
  exact ⟨found, cells, hFound, hQ, hReads⟩

end Wikidata

end StatementQuery

------------------------------------------------------------
-- Values Of Patterns
------------------------------------------------------------

namespace StatementQuery

namespace Wikidata

/- Without a value there is nothing to carry over. -/
theorem carries_nil
    (θ : Bindings)
    (ρ : String → String)
    {n : Snak}
    (hn : n.snakKind ≠ .value) :
    Carries θ ρ [] n [] := by
  cases n with
  | value i w => exact absurd rfl hn
  | someValue i => exact ⟨[], [], rfl, rfl, .nil, .nil⟩
  | noValue i => exact ⟨[], [], rfl, rfl, .nil, .nil⟩

/- A variable carries a value that is open or fixed. -/
theorem carries_var
    {θ : Bindings}
    {ρ : String → String}
    {v : Variable}
    (hv : v.kind ≤ .value)
    {k : Kind}
    {t : Term}
    (hValue :
      θ.value (v.renamed ρ) = some (Target.held v t))
    (hGround : ∀ g, t = .ground g → g.kind ≤ v.kind)
    {w : Value}
    (hFixes : Target.Fixes v.name k t (.value w))
    (i : Iri) :
    Carries θ ρ [some (.var v)] (.value i w)
      (heldCells v (.value w) t) := by
  refine
    ⟨[some (Target.held v t)], [some (.value w)], ?_, rfl, ?_,
      .cons ?_ .nil⟩
  · have hSubst :
        Side.subst θ.value (some (.var (v.renamed ρ))) =
          some (θ.value (v.renamed ρ)) := rfl
    simp only [renamedArgs, List.map_cons, List.map_nil,
      Option.map_some, Term.mapVariables, hSubst, hValue]
  · have hReads := Side.ReadsArgs.cons (reads_held hFixes) .nil
    simpa using hReads
  · exact le_trans (kind_held_le hGround) hv

/- A deep value is built from what its components stand for. -/
theorem subst_renamedDeep
    (f : Variable → Side)
    (ρ : String → String)
    (c : Constructor)
    (vs : List Variable) :
    (renamedArgs ρ [some (deepTerm c vs)]).map (Side.subst f) =
      [Term.combine c
        ((vs.map (Variable.renamed ρ)).map
          fun x => some (f x))] := by
  simp only [renamedArgs, List.map_cons, List.map_nil,
    Option.map_some, mapVariables_deepTerm, Side.subst]
  rw [deepTerm, Term.subst_app, List.map_map]
  rfl

/- Variables are templates of the parts in their places. -/
theorem readsArgs_vars
    {vs : List Variable}
    {gs : List (Option Ground)}
    (hLength : vs.length = gs.length) :
    Side.ReadsArgs (vs.map fun x => some (.var x)) gs
      (vs.zip gs) := by
  induction vs generalizing gs with
  | nil =>
      cases gs with
      | nil => exact .nil
      | cons g gs => cases hLength
  | cons v vs ih =>
      cases gs with
      | nil => cases hLength
      | cons g gs =>
          have hRest := ih (Nat.succ.inj hLength)
          exact .cons (Side.Reads.var v g) hRest

/- Variables of the kinds of slots, slot by slot. -/
theorem slots_of_kinds
    {slots : List Slot}
    {vs : List Variable}
    (h : vs.map Variable.kind = slots.map Slot.kind) :
    List.Forall₂ (fun slot x => slot.kind = Variable.kind x)
      slots vs := by
  have hEq : slots.map Slot.kind = vs.map Variable.kind := h.symm
  rw [← List.forall₂_eq_eq_eq, List.forall₂_map_left_iff,
    List.forall₂_map_right_iff] at hEq
  exact hEq

/- The components of a value are of the kinds of its slots. -/
theorem kinds_of_slots
    {slots : List Slot}
    {vs : List Variable}
    {gs : List (Option Ground)}
    (hVars :
      List.Forall₂ (fun slot x => slot.kind = Variable.kind x)
        slots vs)
    (hSlots :
      List.Forall₂ Slot.Admits slots
        (gs.map (Option.map Term.ground))) :
    List.Forall₂
      (fun (x : Variable) a =>
        ∀ g : Ground, a = some g → g.kind ≤ x.kind)
      vs gs := by
  rw [List.forall₂_map_right_iff] at hSlots
  induction hVars generalizing gs with
  | nil =>
      cases hSlots
      exact .nil
  | @cons slot x slots vs hKind hVars ih =>
      rcases hSlots with _ | ⟨hAdmits, hSlots⟩
      refine .cons ?_ (ih hSlots)
      rintro g rfl
      rw [← hKind]
      exact hAdmits

/- The components of a deep value that is left open. -/
theorem carries_open
    {θ : Bindings}
    {ρ : String → String}
    {c : Constructor}
    {vs : List Variable}
    (hKinds : vs.map Variable.kind = c.slots.map Slot.kind)
    (hc : c.kind ≤ .value)
    (hValues :
      ∀ x ∈ vs,
        θ.value (x.renamed ρ) = some (.var (x.renamed ρ)))
    {w : Value}
    (hKind : (Ground.value w).kind = c.kind)
    {gs : List (Option Ground)}
    (hArgs : (Ground.value w).args? = some gs)
    (i : Iri) :
    Carries θ ρ [some (deepTerm c vs)] (.value i w)
      ((vs.map (Variable.renamed ρ)).zip gs) := by
  have hVars :
      List.Forall₂ (fun slot x => slot.kind = Variable.kind x)
        c.slots (vs.map (Variable.renamed ρ)) := by
    apply slots_of_kinds
    rw [← hKinds, List.map_map]
    rfl
  have hLength :
      (vs.map (Variable.renamed ρ)).length = gs.length := by
    have hSlots := (Ground.args?_spec hKind hArgs).2.length_eq
    rw [List.length_map] at hSlots
    rw [← hVars.length_eq, hSlots]
  have hSlots :
      List.Forall₂ Slot.Admits c.slots
        ((vs.map (Variable.renamed ρ)).map
          fun x => some (.var x)) := by
    rw [List.forall₂_map_right_iff]
    apply hVars.imp
    intro slot x hEq
    exact le_of_eq hEq.symm
  have hSolid :
      List.Forall₂
        (fun slot arg =>
          ∀ d brgs, arg = some (Term.app d brgs) →
            slot.isOptional = false)
        c.slots
        ((vs.map (Variable.renamed ρ)).map
          fun x => some (.var x)) := by
    rw [List.forall₂_map_right_iff]
    apply hVars.imp
    rintro slot x _ d brgs ⟨⟩
  rcases Side.Reads.assemble hKind hArgs (readsArgs_vars hLength)
      hSlots hSolid with ⟨u, hu, huKind, huReads⟩
  refine ⟨[some u], [some (.value w)], ?_, rfl, ?_, .cons ?_ .nil⟩
  · have hSubst :
        (vs.map (Variable.renamed ρ)).map
            (fun x => some (θ.value x)) =
          ((vs.map (Variable.renamed ρ)).map
            fun x => some (.var x)).map some := by
      simp only [List.map_map, List.map_inj_left,
        Function.comp_apply]
      intro x hx
      rw [hValues x hx]
    rw [subst_renamedDeep, hSubst, hu]
    rfl
  · have hReads := Side.ReadsArgs.cons huReads .nil
    simpa using hReads
  · exact huKind.le.trans hc

/- The components of a deep value that is fixed. -/
theorem carries_fixed
    {θ : Bindings}
    {ρ : String → String}
    {c : Constructor}
    {vs : List Variable}
    (hc : c.kind ≤ .value)
    {h : Ground}
    (hKind : h.kind = c.kind)
    {gs : List (Option Ground)}
    (hArgs : h.args? = some gs)
    (hValues :
      List.Forall₂
        (fun x a => θ.value (Variable.renamed ρ x) = a.map .ground)
        vs gs)
    {w : Value}
    (hSame : h.same (.value w) = true)
    (i : Iri) :
    Carries θ ρ [some (deepTerm c vs)] (.value i w) [] := by
  refine
    ⟨[some (.ground h)], [some (.value w)], ?_, rfl,
      .cons (Side.Reads.ground hSame) .nil, .cons ?_ .nil⟩
  · have hSubst :
        (vs.map (Variable.renamed ρ)).map
            (fun x => some (θ.value x)) =
          (gs.map (Option.map Term.ground)).map some := by
      rw [List.map_map, List.map_map, ← List.forall₂_eq_eq_eq,
        List.forall₂_map_left_iff, List.forall₂_map_right_iff]
      apply hValues.imp
      intro x a hx
      exact congrArg some hx
    rw [subst_renamedDeep, hSubst,
      Side.combine_args hKind hArgs]
    rfl
  · exact hKind.le.trans hc

end Wikidata

end StatementQuery

------------------------------------------------------------
-- What A Match Binds
------------------------------------------------------------

namespace StatementQuery

namespace Wikidata

/- A variable that stands for the value in a pattern. -/
structure SimpleValue (v : Variable) : Prop where
  name : v.name = Target.valueName
  kind : v.kind ≤ .value
  formed : (patternOf .value [some (.var v)]).WellFormed

/-
  Variables that stand for the components of the value in a
  pattern, of the kinds of the components.
-/
structure DeepValue (c : Constructor) (vs : List Variable) : Prop
    extends Deep c vs where
  kinds : vs.map Variable.kind = c.slots.map Slot.kind
  first :
    ∀ h : Ground, h.kind = c.kind →
      ∃ g gs, h.args? = some (some g :: gs)
  formed : (patternOf .value [some (deepTerm c vs)]).WellFormed

/-
  What a pattern with a variable for the value is bound to,
  where it matches a target.
-/
structure BindsVar
    (θ : Bindings)
    (ρ : String → String)
    (t : Target)
    (v : Variable) :
    Prop where
  parts : Binds θ ρ t
  value :
    θ.value (v.renamed ρ) = some (Target.held v t.value)
  ground : ∀ g, t.value = .ground g → g.kind ≤ v.kind

/-
  What a pattern with a deep value is bound to, where it
  matches a target: each component to itself or to its part.
-/
structure BindsDeep
    (θ : Bindings)
    (ρ : String → String)
    (t : Target)
    (c : Constructor)
    (vs : List Variable) :
    Prop where
  parts : Binds θ ρ t
  value :
    (t.value = .var ⟨Target.valueName, .value⟩ ∧
        ∀ x ∈ vs,
          θ.value (x.renamed ρ) = some (.var (x.renamed ρ))) ∨
      ∃ h gs,
        t.value = .ground h ∧ h.kind = c.kind ∧
          h.args? = some gs ∧
          List.Forall₂
            (fun x a =>
              θ.value (Variable.renamed ρ x) = a.map .ground)
            vs gs

variable {t : Target} {goal snak : Term}
variable {ρ : String → String} {used : List String}

/- A pattern with a variable matches values of its kind. -/
theorem exists_bindsVar
    {j : Kind}
    (hTyped : t.Typed j)
    (hAsks : t.Asks .value goal snak)
    {v : Variable}
    (hv : SimpleValue v)
    (hKind : v.kind ≤ j)
    (hρ :
      Renames ρ (patternOf .value [some (.var v)]).occurrences
        used)
    (hUsed : Target.openNames ⊆ used)
    (hGround : ∀ g, t.value = .ground g → g.kind ≤ v.kind) :
    ∃ θ,
      unify
          [(some
              ((patternOf .value [some (.var v)]).mapVariables
                (Variable.renamed ρ)),
            some goal)] =
        .ok θ ∧
      BindsVar θ ρ t v := by
  rcases exists_unify_of_var hTyped hAsks hv.name hKind hGround
      hv.formed hρ hUsed with ⟨θ, hUnify, hBinds, hValue⟩
  exact ⟨θ, hUnify, hBinds, hValue, hGround⟩

/- A pattern with a variable matches no other values. -/
theorem bindsVar_of_unify
    {j : Kind}
    (hTyped : t.Typed j)
    (hAsks : t.Asks .value goal snak)
    {v : Variable}
    (hv : SimpleValue v)
    (hKind : v.kind ≤ j)
    (hρ :
      Renames ρ (patternOf .value [some (.var v)]).occurrences
        used)
    (hUsed : Target.openNames ⊆ used)
    {θ : Bindings}
    (h :
      unify
          [(some
              ((patternOf .value [some (.var v)]).mapVariables
                (Variable.renamed ρ)),
            some goal)] =
        .ok θ) :
    BindsVar θ ρ t v := by
  have hGround : ∀ g, t.value = .ground g → g.kind ≤ v.kind := by
    intro g hg
    by_contra hNot
    exact
      unify_ne_of_var hTyped hAsks hv.name hg hNot hv.formed hρ
        hUsed θ h
  rcases exists_bindsVar hTyped hAsks hv hKind hρ hUsed hGround
    with ⟨θ', hUnify, hBinds⟩
  rw [h] at hUnify
  cases hUnify
  exact hBinds

/- A pattern with a deep value matches values of its kind. -/
theorem exists_bindsDeep
    (hTyped : t.Typed .value)
    (hAsks : t.Asks .value goal snak)
    {c : Constructor}
    {vs : List Variable}
    (hDeep : DeepValue c vs)
    (hρ :
      Renames ρ
        (patternOf .value [some (deepTerm c vs)]).occurrences
        used)
    (hUsed : Target.openNames ⊆ used)
    (hGround : ∀ g, t.value = .ground g → g.kind = c.kind) :
    ∃ θ,
      unify
          [(some
              ((patternOf .value
                  [some (deepTerm c vs)]).mapVariables
                (Variable.renamed ρ)),
            some goal)] =
        .ok θ ∧
      BindsDeep θ ρ t c vs := by
  rcases hTyped.value with hValue | ⟨h, hValue, _⟩
  · rcases exists_unify_of_open hTyped hAsks hDeep.toDeep hValue
        hDeep.formed hρ hUsed with ⟨θ, hUnify, hBinds, hValues⟩
    exact ⟨θ, hUnify, hBinds, Or.inl ⟨hValue, hValues⟩⟩
  · have hKind := hGround h hValue
    rcases hDeep.first h hKind with ⟨g, gs, hArgs⟩
    have hFits :=
      kinds_of_slots (slots_of_kinds hDeep.kinds)
        (Ground.args?_spec hKind hArgs).2
    rcases exists_unify_of_deep hTyped hAsks hDeep.toDeep hValue
        hKind hArgs hFits hDeep.formed hρ hUsed with
      ⟨θ, hUnify, hBinds, hValues⟩
    exact
      ⟨θ, hUnify, hBinds,
        Or.inr ⟨h, _, hValue, hKind, hArgs, hValues⟩⟩

/- A pattern with a deep value matches no other values. -/
theorem bindsDeep_of_unify
    (hTyped : t.Typed .value)
    (hAsks : t.Asks .value goal snak)
    {c : Constructor}
    {vs : List Variable}
    (hDeep : DeepValue c vs)
    (hρ :
      Renames ρ
        (patternOf .value [some (deepTerm c vs)]).occurrences
        used)
    (hUsed : Target.openNames ⊆ used)
    {θ : Bindings}
    (h :
      unify
          [(some
              ((patternOf .value
                  [some (deepTerm c vs)]).mapVariables
                (Variable.renamed ρ)),
            some goal)] =
        .ok θ) :
    BindsDeep θ ρ t c vs := by
  have hGround : ∀ g, t.value = .ground g → g.kind = c.kind := by
    intro g hg
    by_contra hNot
    exact
      unify_ne_of_deep hTyped hAsks hDeep.toDeep hg hNot
        hDeep.formed hρ hUsed θ h
  rcases exists_bindsDeep hTyped hAsks hDeep hρ hUsed hGround with
    ⟨θ', hUnify, hBinds⟩
  rw [h] at hUnify
  cases hUnify
  exact hBinds

end Wikidata

end StatementQuery
