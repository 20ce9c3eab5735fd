import StatementQuery.Proofs.FaithfulTerms
import StatementQuery.Proofs.LinearMatching
import StatementQuery.Proofs.Templates
import StatementQuery.Wikidata.Mapping

/-
  Patterns of statements and the statements of targets.

  A target leaves its subject, its property and its value open
  or fixes them.  A pattern with variables of its own for the
  subject, the property and what else is in the snak meets
  such a statement part by part.

  Key definitions include:
    * `Target.Plain`
    * `Target.Typed`
    * `Target.Asks`

  Main declarations:
    * `Target.Typed.exists_statement`
-/

------------------------------------------------------------
-- Plain Targets
------------------------------------------------------------

namespace StatementQuery

/- The constructor of the snaks of a kind. -/
def SnakKind.constructor : SnakKind → Constructor
| .value => .valueSnak
| .someValue => .someValueSnak
| .noValue => .noValueSnak

namespace SnakKind

@[simp] theorem kind_constructor
    (k : SnakKind) :
    k.constructor.kind = k.kind := by
  cases k <;> rfl

/- Snaks keep their arguments. -/
theorem isFaithful_constructor
    (k : SnakKind) :
    k.constructor.isFaithful = true := by
  cases k <;> rfl

end SnakKind

namespace Target

/- A part that is left open, or fixed to a term of a kind. -/
def IsSlot (name : String) (k : Kind) (t : Term) : Prop :=
  t = .var ⟨name, k⟩ ∨ ∃ g, t = .ground g ∧ g.kind ≤ k

/- A target that asks for no snaks of its parts. -/
structure Plain (t : Target) : Prop where
  subject : IsSlot subjectName .entity t.subject
  property : IsSlot propertyName .property t.property
  value : IsSlot valueName .value t.value
  subjectSnaks : t.subjectSnaks = []
  valueSnaks : t.valueSnaks = []

/- A target with a statement, whose value is of a kind. -/
structure Typed (t : Target) (k : Kind) : Prop where
  subject : IsSlot subjectName .entity t.subject
  property : IsSlot propertyName .property t.property
  value : IsSlot valueName k t.value
  kind : k ≤ .value

/- The kinds of the parts that are left open. -/
def openKinds (k : Kind) : Kinding := fun n =>
  if n = subjectName then some .entity
  else if n = propertyName then some .property
  else if n = valueName then some k
  else none

/- What a snak of a kind has besides its property. -/
def others (t : Target) : SnakKind → List (Option Term)
| .value => [some t.value]
| _ => []

namespace IsSlot

/- A part is of its kind. -/
theorem kind_le
    {name : String}
    {k : Kind}
    {t : Term}
    (h : IsSlot name k t) :
    t.kind ≤ k := by
  rcases h with rfl | ⟨g, rfl, hKind⟩
  · exact le_refl k
  · exact hKind

/- A part fits its kind. -/
theorem fits
    {name : String}
    {k : Kind}
    {t : Term}
    (h : IsSlot name k t)
    {κ : Kinding}
    (hκ : κ name = some k) :
    Side.Fits κ k (some t) := by
  rintro u ⟨⟩
  rcases h with rfl | ⟨g, rfl, hKind⟩
  · exact ⟨le_refl k, Term.wellKinded_var hκ⟩
  · exact ⟨hKind, Term.wellKinded_ground κ g⟩

/- The only variable of a part is the one of its name. -/
theorem eq_of_mem
    {name : String}
    {k : Kind}
    {t : Term}
    (h : IsSlot name k t)
    {v : Variable}
    (hv : v ∈ t.occurrences) :
    v = ⟨name, k⟩ := by
  rcases h with rfl | ⟨g, rfl, _⟩
  · exact List.mem_singleton.mp hv
  · cases hv

end IsSlot

end Target

namespace Term

/- A faithful constructor keeps fitting arguments. -/
theorem exists_apply_of_admits
    {κ : Kinding}
    {c : Constructor}
    {args : List (Option Term)}
    (hFaithful : c.isFaithful = true)
    (hSlots : List.Forall₂ Slot.Admits c.slots args)
    (hKinds : Variable.AtKinds κ (occurrencesArgs args)) :
    ∃ t,
      apply c args = .ok t ∧ t.kind = c.kind ∧
        t.args? = some args := by
  have hApply := apply_eq_assemble? hSlots hKinds
  by_cases hOpen : args.any isOpenArg = true
  · rw [assemble?, if_pos hOpen] at hApply
    exact ⟨.app c args, eq_ok_of_toOption hApply, rfl, rfl⟩
  · have hClosed : args.any isOpenArg = false := by
      simpa using hOpen
    have hArgs := map_ground_map_groundArg hClosed
    have hGround :
        List.Forall₂ Slot.Admits c.slots
          ((args.map groundArg).map (Option.map Term.ground)) := by
      rw [hArgs]
      exact hSlots
    rcases Ground.exists_build
        (Constructor.ne_time_of_isFaithful hFaithful) hGround with
      ⟨g, hBuild⟩
    rw [assemble?, if_neg hOpen, hBuild] at hApply
    refine
      ⟨.ground g, eq_ok_of_toOption hApply,
        Ground.kind_of_build hBuild, ?_⟩
    simp only [args?,
      Ground.args?_build hFaithful hGround hBuild,
      Option.map_some, hArgs]

end Term

end StatementQuery

------------------------------------------------------------
-- Statements Of Plain Targets
------------------------------------------------------------

namespace StatementQuery

namespace Target

/- A term is the statement of a target, with a snak of a kind. -/
structure Asks
    (t : Target)
    (k : SnakKind)
    (goal snak : Term) :
    Prop where
  statement : t.statement k = .ok goal
  kind : goal.kind = .statement
  args : goal.args? = some [some t.subject, some snak]
  snakKind : snak.kind = k.constructor.kind
  snakArgs : snak.args? = some (some t.property :: t.others k)
  formed : goal.WellFormed
  names : ∀ v ∈ goal.occurrences, v.name ∈ openNames

/- The snak of a target is built by its constructor. -/
theorem snak_eq_apply
    (t : Target)
    (k : SnakKind) :
    t.snak k =
      Term.apply k.constructor (some t.property :: t.others k) := by
  cases k <;> rfl

/- A variable at an open kind has an open name. -/
theorem mem_openNames_of_has
    {k : Kind}
    {v : Variable}
    (h : (openKinds k).Has v) :
    v.name ∈ openNames := by
  unfold Kinding.Has openKinds at h
  simp only [openNames, List.mem_cons, List.not_mem_nil, or_false]
  split at h
  · exact Or.inl ‹_›
  · split at h
    · exact Or.inr (Or.inl ‹_›)
    · split at h
      · exact Or.inr (Or.inr ‹_›)
      · cases h

/- A plain target has any value. -/
theorem Plain.typed
    {t : Target}
    (h : t.Plain) :
    t.Typed .value :=
  ⟨h.subject, h.property, h.value, le_refl _⟩

/- A snak takes the property and the value of a target. -/
theorem admits_snak
    {κ : Kinding}
    {t : Target}
    (hProperty : Side.Fits κ .property (some t.property))
    (hValue : Side.Fits κ .value (some t.value))
    (k : SnakKind) :
    List.Forall₂ Slot.Admits k.constructor.slots
      (some t.property :: t.others k) := by
  have hProperty :
      (Slot.required .property).Admits (some t.property) :=
    (hProperty _ rfl).1
  have hValue : (Slot.required .value).Admits (some t.value) :=
    (hValue _ rfl).1
  cases k with
  | value => exact .cons hProperty (.cons hValue .nil)
  | someValue => exact .cons hProperty .nil
  | noValue => exact .cons hProperty .nil

/- What else is in a snak is the value. -/
theorem mem_others
    {t : Target}
    {k : SnakKind}
    {arg : Option Term}
    (h : arg ∈ t.others k) :
    arg = some t.value := by
  cases k with
  | value => exact List.mem_singleton.mp h
  | someValue => cases h
  | noValue => cases h

/- Typed targets ask for statements. -/
theorem Typed.exists_statement
    {t : Target}
    {l : Kind}
    (h : t.Typed l)
    (k : SnakKind) :
    ∃ goal snak, t.Asks k goal snak := by
  have hSubject :
      Side.Fits (openKinds l) .entity (some t.subject) :=
    h.subject.fits rfl
  have hProperty :
      Side.Fits (openKinds l) .property (some t.property) :=
    h.property.fits rfl
  have hValue : Side.Fits (openKinds l) .value (some t.value) :=
    Side.Fits.mono (h.value.fits rfl) h.kind
  have hArgs :
      ∀ u, some u ∈ some t.property :: t.others k →
        u.WellKinded (openKinds l) := by
    intro u hu
    rcases List.mem_cons.mp hu with hEq | hu
    · cases hEq
      exact (hProperty _ rfl).2
    · cases mem_others hu
      exact (hValue _ rfl).2
  have hSnakKinds := Term.atKinds_occurrencesArgs hArgs
  rcases Term.exists_apply_of_admits k.isFaithful_constructor
      (admits_snak hProperty hValue k) hSnakKinds with
    ⟨snak, hSnak, hSnakKind, hSnakArgs⟩
  have hShaped : snak.WellShaped :=
    (Term.wellFormed_apply
      (fun u hu => (hArgs u hu).shaped) hSnak).shaped
  have hSlots :
      List.Forall₂ Slot.Admits Constructor.statement.slots
        [some t.subject, some snak] := by
    refine .cons (hSubject _ rfl).1 (.cons ?_ .nil)
    have hLe : k.kind ≤ .snak := by
      cases k <;> decide
    have hKind : snak.kind = k.kind := by
      rw [hSnakKind, SnakKind.kind_constructor]
    exact (hKind ▸ hLe : snak.kind ≤ .snak)
  have hKinds :
      Variable.AtKinds (openKinds l)
        (Term.occurrencesArgs [some t.subject, some snak]) := by
    intro v hv
    simp only [Term.occurrencesArgs, List.append_nil,
      List.mem_append] at hv
    rcases hv with hv | hv
    · exact (hSubject _ rfl).2.atKinds v hv
    · rcases Term.exists_arg_of_mem_occurrences hSnakArgs hv
        with ⟨arg, hArg, hv⟩
      apply hSnakKinds
      cases arg with
      | none => cases hv
      | some u =>
          exact (Term.mem_occurrencesArgs v _).mpr ⟨u, hArg, hv⟩
  rcases Term.exists_apply_of_admits rfl hSlots hKinds with
    ⟨goal, hGoal, hKind, hGoalArgs⟩
  refine ⟨goal, snak, ?_, hKind, hGoalArgs, hSnakKind, hSnakArgs,
    ?_, ?_⟩
  · unfold statement
    rw [snak_eq_apply, hSnak]
    exact hGoal
  · apply Term.wellFormed_apply _ hGoal
    intro u hu
    rcases List.mem_pair.mp hu with hEq | hEq <;> cases hEq
    · exact (hSubject _ rfl).2.shaped
    · exact hShaped
  · intro v hv
    rcases Term.exists_arg_of_mem_occurrences hGoalArgs hv with
      ⟨arg, hArg, hv⟩
    apply mem_openNames_of_has
    apply hKinds
    cases arg with
    | none => cases hv
    | some u =>
        exact (Term.mem_occurrencesArgs v _).mpr ⟨u, hArg, hv⟩

end Target

end StatementQuery

------------------------------------------------------------
-- Names Of Patterns And Targets
------------------------------------------------------------

namespace StatementQuery

namespace Renames

/-
  A name is that of an open part, or the new name of a name of
  the pattern.
-/
def Labels
    (ρ : String → String)
    (vs : List Variable)
    (labels : List String)
    (n : String) :
    Prop :=
  ∃ l ∈ labels,
    n = l ∧ l ∈ Target.openNames ∨
      n = ρ l ∧ ∃ v ∈ vs, v.name = l

/- A name has one label. -/
theorem notMem_of_labels
    {ρ : String → String}
    {vs : List Variable}
    {used labels others : List String}
    (hρ : Renames ρ vs used)
    (hUsed : Target.openNames ⊆ used)
    (hApart : ∀ l ∈ labels, l ∉ others)
    {n : String}
    (h : Labels ρ vs labels n) :
    ¬ Labels ρ vs others n := by
  rintro ⟨m, hm, hCase'⟩
  rcases h with ⟨l, hl, hCase⟩
  have hNe : l ≠ m := by
    rintro rfl
    exact hApart l hl hm
  rcases hCase with ⟨rfl, hOpen⟩ | ⟨rfl, v, hv, rfl⟩
  · rcases hCase' with ⟨rfl, _⟩ | ⟨hEq, w, hw, rfl⟩
    · exact hNe rfl
    · rw [hEq] at hOpen
      exact hρ.fresh w hw (hUsed hOpen)
  · rcases hCase' with ⟨hEq, hOpen⟩ | ⟨hEq, w, hw, rfl⟩
    · rw [← hEq] at hOpen
      exact hρ.fresh v hv (hUsed hOpen)
    · exact hNe (hρ.injective v hv w hw hEq)

end Renames

namespace Unify

/- All names of a part have one of some labels. -/
def Part.Under
    (ρ : String → String)
    (vs : List Variable)
    (labels : List String)
    (p : Part) :
    Prop :=
  ∀ n ∈ p.names, Renames.Labels ρ vs labels n

/- Parts under different labels share no name. -/
theorem Part.apart_of_under
    {ρ : String → String}
    {vs : List Variable}
    {used labels others : List String}
    (hρ : Renames ρ vs used)
    (hUsed : Target.openNames ⊆ used)
    (hApart : ∀ l ∈ labels, l ∉ others)
    {p q : Part}
    (hp : p.Under ρ vs labels)
    (hq : q.Under ρ vs others) :
    p.Apart q := by
  intro n hn hn'
  exact Renames.notMem_of_labels hρ hUsed hApart (hp n hn)
    (hq n hn')

/- The new name of a variable has the variable as its label. -/
theorem labels_renamed
    (ρ : String → String)
    {vs : List Variable}
    {v : Variable}
    (hv : v ∈ vs) :
    Renames.Labels ρ vs [v.name] (v.renamed ρ).name :=
  ⟨v.name, by simp, Or.inr ⟨rfl, v, hv, rfl⟩⟩

/- A variable of a pattern and an open or fixed part. -/
theorem Part.under_slot
    (ρ : String → String)
    {vs : List Variable}
    {v : Variable}
    (hv : v ∈ vs)
    {k : Kind}
    {t : Term}
    (ht : Target.IsSlot v.name k t)
    (hOpen : v.name ∈ Target.openNames) :
    Part.Under ρ vs [v.name] (v.renamed ρ, some t) := by
  intro n hn
  rcases List.mem_cons.mp hn with rfl | hn
  · exact labels_renamed ρ hv
  · rcases List.mem_map.mp hn with ⟨w, hw, rfl⟩
    rw [ht.eq_of_mem hw]
    exact ⟨v.name, by simp, Or.inl ⟨rfl, hOpen⟩⟩

end Unify

end StatementQuery

------------------------------------------------------------
-- Patterns Of Statements
------------------------------------------------------------

namespace StatementQuery

namespace Wikidata

open Unify

/- The variable of the subject in a pattern. -/
def subjectVariable : Variable :=
  ⟨Target.subjectName, .entity⟩

/- The variable of the property in a pattern. -/
def propertyVariable : Variable :=
  ⟨Target.propertyName, .property⟩

/- The statements with snaks of a kind and more arguments. -/
def patternOf
    (k : SnakKind)
    (args : List (Option Term)) :
    Term :=
  .app .statement
    [some (.var subjectVariable),
      some
        (.app k.constructor
          (some (.var propertyVariable) :: args))]

/- Arguments under the new names of their variables. -/
def renamedArgs
    (ρ : String → String)
    (args : List (Option Term)) :
    List (Option Term) :=
  args.map (Option.map (Term.mapVariables (Variable.renamed ρ)))

/- A pattern under the new names of its variables. -/
theorem mapVariables_patternOf
    (ρ : String → String)
    (k : SnakKind)
    (args : List (Option Term)) :
    (patternOf k args).mapVariables (Variable.renamed ρ) =
      .app .statement
        [some (.var (subjectVariable.renamed ρ)),
          some
            (.app k.constructor
              (some (.var (propertyVariable.renamed ρ)) ::
                renamedArgs ρ args))] := by
  simp [patternOf, Term.mapVariables, Term.mapVariablesArgs,
    Term.mapVariablesArgs_eq_map, renamedArgs]

/- The variables of a pattern. -/
theorem mem_occurrences_patternOf
    {k : SnakKind}
    {args : List (Option Term)}
    {v : Variable} :
    v ∈ (patternOf k args).occurrences ↔
      v = subjectVariable ∨ v = propertyVariable ∨
        v ∈ Term.occurrencesArgs args := by
  simp [patternOf, Term.occurrences, Term.occurrencesArgs]

/- A variable of a pattern suits an open or fixed part. -/
theorem suits_slot
    {ρ : String → String}
    {vs : List Variable}
    {used : List String}
    (hρ : Renames ρ vs used)
    (hUsed : Target.openNames ⊆ used)
    {v : Variable}
    (hv : v ∈ vs)
    {k : Kind}
    {t : Term}
    (ht : Target.IsSlot v.name k t)
    (hOpen : v.name ∈ Target.openNames)
    (hKind : v.kind ≤ k)
    (hGround : ∀ g, t = .ground g → g.kind ≤ v.kind) :
    Part.Suits (v.renamed ρ, some t) := by
  rcases ht with rfl | ⟨g, rfl, _⟩
  · refine ⟨hKind, ?_⟩
    intro hName
    apply hρ.fresh v hv
    have hEq : ρ v.name = v.name := hName
    rw [hEq]
    exact hUsed hOpen
  · refine ⟨hGround g rfl, ?_⟩
    intro w hw
    cases hw

/- The names of renamed arguments have labels. -/
theorem labels_renamedArgs
    (ρ : String → String)
    {vs : List Variable}
    {args : List (Option Term)}
    (hArgs : ∀ v ∈ Term.occurrencesArgs args, v ∈ vs)
    {labels : List String}
    (hLabels :
      ∀ v ∈ Term.occurrencesArgs args, v.name ∈ labels)
    {arg : Option Term}
    (hArg : arg ∈ renamedArgs ρ args)
    {w : Variable}
    (hw : w ∈ Side.occurrences arg) :
    Renames.Labels ρ vs labels w.name := by
  rcases List.mem_map.mp hArg with ⟨arg', hArg', rfl⟩
  cases arg' with
  | none => cases hw
  | some t =>
      rcases (Term.mem_occurrences_mapVariables _ t w).mp hw
        with ⟨v, hv, rfl⟩
      have hMem : v ∈ Term.occurrencesArgs args :=
        (Term.mem_occurrencesArgs v args).mpr ⟨t, hArg', hv⟩
      exact
        ⟨v.name, hLabels v hMem,
          Or.inr ⟨rfl, v, hArgs v hMem, rfl⟩⟩

/- A variable of a pattern and a part of its name and kind. -/
theorem part_of_slot
    {ρ : String → String}
    {vs : List Variable}
    {used : List String}
    (hρ : Renames ρ vs used)
    (hUsed : Target.openNames ⊆ used)
    {v : Variable}
    (hv : v ∈ vs)
    {t : Term}
    (ht : Target.IsSlot v.name v.kind t)
    (hOpen : v.name ∈ Target.openNames) :
    Part.Suits (v.renamed ρ, some t) ∧
      Part.Under ρ vs [v.name] (v.renamed ρ, some t) := by
  refine ⟨?_, Part.under_slot ρ hv ht hOpen⟩
  apply suits_slot hρ hUsed hv ht hOpen (le_refl v.kind)
  rintro g rfl
  exact ht.kind_le

/- What else is in the snaks is under the other labels. -/
theorem labels_of_mem_args
    {t : Target}
    {j : Kind}
    (hTyped : t.Typed j)
    {k : SnakKind}
    (ρ : String → String)
    {vs : List Variable}
    {args : List (Option Term)}
    {labels : List String}
    (hVars : ∀ v ∈ Term.occurrencesArgs args, v ∈ vs)
    (hArgs : ∀ v ∈ Term.occurrencesArgs args, v.name ∈ labels)
    (hValue : Target.valueName ∈ labels)
    {arg : Option Term}
    (hArg : arg ∈ renamedArgs ρ args ++ t.others k)
    {v : Variable}
    (hv : v ∈ Side.occurrences arg) :
    Renames.Labels ρ vs labels v.name := by
  rcases List.mem_append.mp hArg with hArg | hArg
  · exact labels_renamedArgs ρ hVars hArgs hArg hv
  · cases Target.mem_others hArg
    rw [hTyped.value.eq_of_mem hv]
    exact
      ⟨Target.valueName, hValue,
        Or.inl ⟨rfl, by simp [Target.openNames]⟩⟩

/- The variables of paired arguments are in both terms. -/
theorem mem_occurrences_of_pairArgs?
    {t : Target}
    {k : SnakKind}
    {goal snak : Term}
    (hAsks : t.Asks k goal snak)
    {ρ : String → String}
    {args : List (Option Term)}
    {eqs : List Equation}
    (hPairs :
      pairArgs? (renamedArgs ρ args) (t.others k) = some eqs)
    {v : Variable}
    (hv : v ∈ Equation.occurrences eqs) :
    v ∈ ((patternOf k args).mapVariables
        (Variable.renamed ρ)).occurrences ∨
      v ∈ goal.occurrences := by
  rcases List.mem_flatMap.mp hv with ⟨e, he, hv⟩
  rcases mem_of_mem_pairArgs? hPairs he with ⟨hLeft, hRight⟩
  rcases List.mem_append.mp hv with hv | hv
  · left
    rw [mapVariables_patternOf]
    refine Unify.occurrences_args rfl (List.mem_pair.mpr
      (Or.inr rfl)) ?_
    exact Unify.occurrences_args rfl
      (List.mem_cons_of_mem _ hLeft) hv
  · right
    refine Unify.occurrences_args hAsks.args
      (List.mem_pair.mpr (Or.inr rfl)) ?_
    exact Unify.occurrences_args hAsks.snakArgs
      (List.mem_cons_of_mem _ hRight) hv

/-
  A pattern meets the statement of a target part by part: the
  subject, the property, and the parts of what else there is
  in the snak.
-/
theorem meets_pattern
    {t : Target}
    {k : SnakKind}
    {goal snak : Term}
    {j : Kind}
    (hTyped : t.Typed j)
    (hAsks : t.Asks k goal snak)
    {args : List (Option Term)}
    (hp : (patternOf k args).WellFormed)
    {ρ : String → String}
    {used : List String}
    (hρ : Renames ρ (patternOf k args).occurrences used)
    (hUsed : Target.openNames ⊆ used)
    (labels : List String)
    (hLabels :
      ∀ l ∈ labels,
        l ≠ Target.subjectName ∧ l ≠ Target.propertyName)
    (hArgs : ∀ v ∈ Term.occurrencesArgs args, v.name ∈ labels)
    (hValue : Target.valueName ∈ labels)
    {eqs rest : List Equation}
    {ps : List Part}
    (hPairs :
      pairArgs? (renamedArgs ρ args) (t.others k) = some eqs)
    (hAligns : Aligns eqs ps rest)
    (hUnder :
      ∀ p ∈ ps,
        p.Under ρ (patternOf k args).occurrences labels)
    (hApart : ps.Pairwise Part.Apart)
    (hNames : ∀ p ∈ ps, p.1 ∈ Equation.occurrences eqs) :
    Meets
      [(some
          ((patternOf k args).mapVariables (Variable.renamed ρ)),
        some goal)]
      ((subjectVariable.renamed ρ, some t.subject) ::
        (propertyVariable.renamed ρ, some t.property) :: ps)
      rest := by
  have hs : subjectVariable ∈ (patternOf k args).occurrences :=
    mem_occurrences_patternOf.mpr (Or.inl rfl)
  have hq : propertyVariable ∈ (patternOf k args).occurrences :=
    mem_occurrences_patternOf.mpr (Or.inr (Or.inl rfl))
  have hVars :
      ∀ v ∈ Term.occurrencesArgs args,
        v ∈ (patternOf k args).occurrences := by
    intro v hv
    exact mem_occurrences_patternOf.mpr (Or.inr (Or.inr hv))
  rcases part_of_slot hρ hUsed hs hTyped.subject
      (by simp [subjectVariable, Target.openNames]) with
    ⟨hSubject, hSubjectUnder⟩
  rcases part_of_slot hρ hUsed hq hTyped.property
      (by simp [propertyVariable, Target.openNames]) with
    ⟨hProperty, hPropertyUnder⟩
  have hSubjectLabels :
      ∀ l ∈ [subjectVariable.name], l ∉ labels := by
    intro l hl hMem
    cases List.mem_singleton.mp hl
    exact (hLabels _ hMem).1 rfl
  have hPropertyLabels :
      ∀ l ∈ [propertyVariable.name], l ∉ labels := by
    intro l hl hMem
    cases List.mem_singleton.mp hl
    exact (hLabels _ hMem).2 rfl
  have hTwoApart :
      Part.Apart (subjectVariable.renamed ρ, some t.subject)
        (propertyVariable.renamed ρ, some t.property) :=
    Part.apart_of_under hρ hUsed (by decide) hSubjectUnder
      hPropertyUnder
  refine ⟨?_, ?_, ?_, ?_⟩
  · apply Term.oneKind_renamed hp hAsks.formed hρ
    intro v hv
    exact hUsed (hAsks.names v hv)
  · rw [mapVariables_patternOf]
    refine
      aligns_statement hAsks.kind hAsks.args hAsks.snakKind
        hAsks.snakArgs hSubject hProperty hPairs ?_ ?_ hAligns
    · intro arg hArg v hv hName
      rcases List.mem_cons.mp hArg with rfl | hArg
      · cases List.mem_singleton.mp hv
        exact hTwoApart _ hName (by simp [Part.names])
      · rcases List.mem_cons.mp hArg with rfl | hArg
        · refine hTwoApart _ hName ?_
          exact List.mem_cons_of_mem _ (List.mem_map_of_mem hv)
        · exact Renames.notMem_of_labels hρ hUsed hSubjectLabels
            (hSubjectUnder _ hName)
            (labels_of_mem_args hTyped ρ hVars hArgs hValue
              hArg hv)
    · intro arg hArg v hv hName
      exact Renames.notMem_of_labels hρ hUsed hPropertyLabels
        (hPropertyUnder _ hName)
        (labels_of_mem_args hTyped ρ hVars hArgs hValue hArg hv)
  · refine .cons ?_ (.cons ?_ hApart)
    · intro p hMem
      rcases List.mem_cons.mp hMem with rfl | hMem
      · exact hTwoApart
      · exact Part.apart_of_under hρ hUsed hSubjectLabels
          hSubjectUnder (hUnder p hMem)
    · intro p hMem
      exact Part.apart_of_under hρ hUsed hPropertyLabels
        hPropertyUnder (hUnder p hMem)
  · have hSides :
        ∀ v,
          v ∈ ((patternOf k args).mapVariables
              (Variable.renamed ρ)).occurrences ∨
            v ∈ goal.occurrences →
          v ∈ Equation.occurrences
            [(some ((patternOf k args).mapVariables
                (Variable.renamed ρ)),
              some goal)] := by
      intro v hv
      simpa [Equation.occurrences, Side.occurrences] using hv
    intro p hMem
    refine ⟨p.1, hSides _ ?_, rfl⟩
    rcases List.mem_cons.mp hMem with rfl | hMem
    · exact Or.inl
        ((Term.mem_occurrences_mapVariables _ _ _).mpr
          ⟨subjectVariable, hs, rfl⟩)
    · rcases List.mem_cons.mp hMem with rfl | hMem
      · exact Or.inl
          ((Term.mem_occurrences_mapVariables _ _ _).mpr
            ⟨propertyVariable, hq, rfl⟩)
      · exact mem_occurrences_of_pairArgs? hAsks hPairs
          (hNames p hMem)

end Wikidata

end StatementQuery

------------------------------------------------------------
-- What Patterns Are Bound To
------------------------------------------------------------

namespace StatementQuery

namespace Target

/- A fixed part, or a variable where the part is left open. -/
def held (v : Variable) : Term → Term
| .ground g => .ground g
| _ => .var v

end Target

namespace Wikidata

open Unify

/- A variable ends as the part of its name. -/
theorem value_slot
    (ρ : String → String)
    {v : Variable}
    {k : Kind}
    {t : Term}
    (ht : Target.IsSlot v.name k t) :
    Part.value (v.renamed ρ, some t) =
      some (Target.held v t) := by
  rcases ht with rfl | ⟨g, rfl, _⟩
  · rfl
  · rfl

/-
  Bindings under which the subject and the property of a
  renamed pattern are those of a target.
-/
structure Binds
    (θ : Bindings)
    (ρ : String → String)
    (t : Target) :
    Prop where
  subject :
    θ.value (subjectVariable.renamed ρ) =
      some (Target.held subjectVariable t.subject)
  property :
    θ.value (propertyVariable.renamed ρ) =
      some (Target.held propertyVariable t.property)

/- The parts of a target are what its pattern is bound to. -/
theorem binds_of_meets
    {t : Target}
    {j : Kind}
    (hTyped : t.Typed j)
    {ρ : String → String}
    {eqs rest : List Equation}
    {ps : List Part}
    (h :
      Meets eqs
        ((subjectVariable.renamed ρ, some t.subject) ::
          (propertyVariable.renamed ρ, some t.property) :: ps)
        rest) :
    Binds
      (partsBindings
        ((subjectVariable.renamed ρ, some t.subject) ::
          (propertyVariable.renamed ρ, some t.property) :: ps))
      ρ t := by
  constructor
  · have hValue := h.value_eq List.mem_cons_self
    rw [value_slot ρ hTyped.subject] at hValue
    exact hValue
  · have hValue :=
      h.value_eq (List.mem_cons_of_mem _ List.mem_cons_self)
    rw [value_slot ρ hTyped.property] at hValue
    exact hValue

/- A pattern without a value matches every target. -/
theorem exists_unify_of_nil
    {t : Target}
    {k : SnakKind}
    {goal snak : Term}
    {j : Kind}
    (hTyped : t.Typed j)
    (hAsks : t.Asks k goal snak)
    (hk : k ≠ .value)
    (hp : (patternOf k []).WellFormed)
    {ρ : String → String}
    {used : List String}
    (hρ : Renames ρ (patternOf k []).occurrences used)
    (hUsed : Target.openNames ⊆ used) :
    ∃ θ,
      unify
          [(some
              ((patternOf k []).mapVariables
                (Variable.renamed ρ)),
            some goal)] =
        .ok θ ∧
      Binds θ ρ t := by
  have hOthers : t.others k = [] := by
    cases k with
    | value => exact absurd rfl hk
    | someValue => rfl
    | noValue => rfl
  have hMeets :
      Meets
        [(some
            ((patternOf k []).mapVariables
              (Variable.renamed ρ)),
          some goal)]
        [(subjectVariable.renamed ρ, some t.subject),
          (propertyVariable.renamed ρ, some t.property)]
        [] := by
    refine
      meets_pattern hTyped hAsks hp hρ hUsed
        [Target.valueName] (by decide)
        (by simp [Term.occurrencesArgs]) (by simp) ?_ (.done [])
        (by simp) .nil (by simp)
    rw [hOthers]
    rfl
  exact ⟨_, hMeets.unify_eq, binds_of_meets hTyped hMeets⟩

/- The one name in a pattern with a simple value. -/
theorem eq_of_mem_single
    {v w : Variable}
    (h : w ∈ Term.occurrencesArgs [some (.var v)]) :
    w = v := by
  simpa [Term.occurrencesArgs, Term.occurrences] using h

/- The value of a target meets the variable for it. -/
theorem meets_var
    {t : Target}
    {goal snak : Term}
    {j : Kind}
    (hTyped : t.Typed j)
    (hAsks : t.Asks .value goal snak)
    {v : Variable}
    (hName : v.name = Target.valueName)
    (hp : (patternOf .value [some (.var v)]).WellFormed)
    {ρ : String → String}
    {used : List String}
    (hρ :
      Renames ρ (patternOf .value [some (.var v)]).occurrences
        used)
    (hUsed : Target.openNames ⊆ used)
    {ps : List Part}
    {rest : List Equation}
    (hAligns :
      Aligns [(some (.var (v.renamed ρ)), some t.value)] ps rest)
    (hUnder :
      ∀ p ∈ ps,
        p.Under ρ
          (patternOf .value [some (.var v)]).occurrences
          [v.name])
    (hApart : ps.Pairwise Part.Apart)
    (hNames : ∀ p ∈ ps, p.1 = v.renamed ρ) :
    Meets
      [(some
          ((patternOf .value [some (.var v)]).mapVariables
            (Variable.renamed ρ)),
        some goal)]
      ((subjectVariable.renamed ρ, some t.subject) ::
        (propertyVariable.renamed ρ, some t.property) :: ps)
      rest := by
  refine
    meets_pattern hTyped hAsks hp hρ hUsed [v.name] ?_ ?_ ?_
      rfl hAligns hUnder hApart ?_
  · rw [hName]
    decide
  · intro w hw
    rw [eq_of_mem_single hw]
    simp
  · simp [hName]
  · intro p hMem
    rw [hNames p hMem]
    simp [Equation.occurrences, Side.occurrences,
      Term.mapVariables, Term.occurrences]

/- A pattern with a variable for the value matches its kind. -/
theorem exists_unify_of_var
    {t : Target}
    {goal snak : Term}
    {j : Kind}
    (hTyped : t.Typed j)
    (hAsks : t.Asks .value goal snak)
    {v : Variable}
    (hName : v.name = Target.valueName)
    (hKind : v.kind ≤ j)
    (hGround : ∀ g, t.value = .ground g → g.kind ≤ v.kind)
    (hp : (patternOf .value [some (.var v)]).WellFormed)
    {ρ : String → String}
    {used : List String}
    (hρ :
      Renames ρ (patternOf .value [some (.var v)]).occurrences
        used)
    (hUsed : Target.openNames ⊆ used) :
    ∃ θ,
      unify
          [(some
              ((patternOf .value [some (.var v)]).mapVariables
                (Variable.renamed ρ)),
            some goal)] =
        .ok θ ∧
      Binds θ ρ t ∧
      θ.value (v.renamed ρ) =
        some (Target.held v t.value) := by
  have hv : v ∈ (patternOf .value [some (.var v)]).occurrences :=
    mem_occurrences_patternOf.mpr
      (Or.inr (Or.inr (by simp [Term.occurrencesArgs,
        Term.occurrences])))
  have hSlot : Target.IsSlot v.name j t.value := by
    rw [hName]
    exact hTyped.value
  have hOpen : v.name ∈ Target.openNames := by
    simp [hName, Target.openNames]
  have hSuits : Part.Suits (v.renamed ρ, some t.value) :=
    suits_slot hρ hUsed hv hSlot hOpen hKind hGround
  have hMeets :
      Meets
        [(some
            ((patternOf .value [some (.var v)]).mapVariables
              (Variable.renamed ρ)),
          some goal)]
        [(subjectVariable.renamed ρ, some t.subject),
          (propertyVariable.renamed ρ, some t.property),
          (v.renamed ρ, some t.value)]
        [] := by
    refine
      meets_var hTyped hAsks hName hp hρ hUsed
        (.bind (step_var hSuits) ?_ (.done [])) ?_
        (List.pairwise_singleton _ _) ?_
    · intro w hw
      cases hw
    · intro p hMem
      cases List.mem_singleton.mp hMem
      exact Part.under_slot ρ hv hSlot hOpen
    · intro p hMem
      cases List.mem_singleton.mp hMem
      rfl
  refine
    ⟨_, hMeets.unify_eq, binds_of_meets hTyped hMeets, ?_⟩
  rw [← value_slot ρ hSlot]
  exact hMeets.value_eq
    (List.mem_cons_of_mem _
      (List.mem_cons_of_mem _ List.mem_cons_self))

/- It matches no target with a fixed value of another kind. -/
theorem unify_ne_of_var
    {t : Target}
    {goal snak : Term}
    {j : Kind}
    (hTyped : t.Typed j)
    (hAsks : t.Asks .value goal snak)
    {v : Variable}
    (hName : v.name = Target.valueName)
    {g : Ground}
    (hValue : t.value = .ground g)
    (hKind : ¬ g.kind ≤ v.kind)
    (hp : (patternOf .value [some (.var v)]).WellFormed)
    {ρ : String → String}
    {used : List String}
    (hρ :
      Renames ρ (patternOf .value [some (.var v)]).occurrences
        used)
    (hUsed : Target.openNames ⊆ used)
    (θ : Bindings) :
    unify
        [(some
            ((patternOf .value [some (.var v)]).mapVariables
              (Variable.renamed ρ)),
          some goal)] ≠
      .ok θ := by
  have hMeets :=
    meets_var hTyped hAsks hName hp hρ hUsed (.done _)
      (by simp) .nil (by simp)
  rw [hValue] at hMeets
  have hKind' : ¬ g.kind ≤ (v.renamed ρ).kind := hKind
  exact hMeets.unify_ne (step_var_ground hKind') θ

end Wikidata

end StatementQuery

------------------------------------------------------------
-- Patterns With Deep Values
------------------------------------------------------------

namespace StatementQuery

namespace Wikidata

open Unify

/- A constructor applied to variables. -/
def deepTerm (c : Constructor) (vs : List Variable) : Term :=
  .app c (vs.map fun x => some (.var x))

/- Variables of the components of a deep value. -/
structure Deep (c : Constructor) (vs : List Variable) : Prop where
  kind : c.kind ≤ .value
  nodup : (vs.map Variable.name).Nodup
  fresh : ∀ x ∈ vs, x.name ∉ Target.openNames

/- The variables of a constructor applied to variables. -/
theorem occurrences_deepTerm
    (c : Constructor)
    (vs : List Variable) :
    (deepTerm c vs).occurrences = vs := by
  rw [deepTerm, Term.occurrences]
  induction vs with
  | nil => rfl
  | cons x vs ih =>
      simp [Term.occurrencesArgs, Term.occurrences, ih]

/- It is renamed variable by variable. -/
theorem mapVariables_deepTerm
    (f : Variable → Variable)
    (c : Constructor)
    (vs : List Variable) :
    (deepTerm c vs).mapVariables f =
      deepTerm c (vs.map f) := by
  simp [deepTerm, Term.mapVariables,
    Term.mapVariablesArgs_eq_map]

/- The labels of a pattern with a deep value. -/
def deepLabels (vs : List Variable) : List String :=
  Target.valueName :: vs.map Variable.name

/- These are other labels than those of the other parts. -/
theorem Deep.labels
    {c : Constructor}
    {vs : List Variable}
    (h : Deep c vs) :
    ∀ l ∈ deepLabels vs,
      l ≠ Target.subjectName ∧ l ≠ Target.propertyName := by
  intro l hl
  rcases List.mem_cons.mp hl with rfl | hl
  · decide
  · rcases List.mem_map.mp hl with ⟨x, hx, rfl⟩
    have hFresh := h.fresh x hx
    simp only [Target.openNames, List.mem_cons, not_or]
      at hFresh
    exact ⟨hFresh.1, hFresh.2.1⟩

/- The variables of a pattern with a deep value. -/
theorem mem_patternOf_deepTerm
    {c : Constructor}
    {vs : List Variable}
    {x : Variable}
    (hx : x ∈ vs) :
    x ∈ (patternOf .value [some (deepTerm c vs)]).occurrences := by
  refine mem_occurrences_patternOf.mpr (Or.inr (Or.inr ?_))
  simpa [Term.occurrencesArgs, occurrences_deepTerm] using hx

/- The names of the variables are labels. -/
theorem mem_deepLabels
    {c : Constructor}
    {vs : List Variable}
    {w : Variable}
    (h : w ∈ Term.occurrencesArgs [some (deepTerm c vs)]) :
    w.name ∈ deepLabels vs := by
  have hw : w ∈ vs := by
    simpa [Term.occurrencesArgs, occurrences_deepTerm] using h
  exact List.mem_cons_of_mem _ (List.mem_map_of_mem hw)

/- The new name of a variable has the label of its old one. -/
theorem labels_deep
    (ρ : String → String)
    {c : Constructor}
    {vs : List Variable}
    {x : Variable}
    (hx : x ∈ vs) :
    Renames.Labels ρ
      (patternOf .value [some (deepTerm c vs)]).occurrences
      (deepLabels vs)
      (x.renamed ρ).name :=
  ⟨x.name, List.mem_cons_of_mem _ (List.mem_map_of_mem hx),
    Or.inr ⟨rfl, x, mem_patternOf_deepTerm hx, rfl⟩⟩

/- The value of a target is one of the variables of the rest. -/
theorem meets_deep
    {t : Target}
    {goal snak : Term}
    {j : Kind}
    (hTyped : t.Typed j)
    (hAsks : t.Asks .value goal snak)
    {c : Constructor}
    {vs : List Variable}
    (hDeep : Deep c vs)
    (hp : (patternOf .value [some (deepTerm c vs)]).WellFormed)
    {ρ : String → String}
    {used : List String}
    (hρ :
      Renames ρ
        (patternOf .value [some (deepTerm c vs)]).occurrences
        used)
    (hUsed : Target.openNames ⊆ used)
    {ps : List Part}
    {rest : List Equation}
    (hAligns :
      Aligns
        [(some (deepTerm c (vs.map (Variable.renamed ρ))),
          some t.value)]
        ps rest)
    (hUnder :
      ∀ p ∈ ps,
        p.Under ρ
          (patternOf .value [some (deepTerm c vs)]).occurrences
          (deepLabels vs))
    (hApart : ps.Pairwise Part.Apart)
    (hNames :
      ∀ p ∈ ps,
        p.1 ∈ vs.map (Variable.renamed ρ) ∨
          p.1 ∈ t.value.occurrences) :
    Meets
      [(some
          ((patternOf .value
            [some (deepTerm c vs)]).mapVariables
              (Variable.renamed ρ)),
        some goal)]
      ((subjectVariable.renamed ρ, some t.subject) ::
        (propertyVariable.renamed ρ, some t.property) :: ps)
      rest := by
  have hRenamed :
      renamedArgs ρ [some (deepTerm c vs)] =
        [some (deepTerm c (vs.map (Variable.renamed ρ)))] := by
    simp [renamedArgs, mapVariables_deepTerm]
  refine
    meets_pattern hTyped hAsks hp hρ hUsed (deepLabels vs)
      hDeep.labels (fun w hw => mem_deepLabels hw)
      List.mem_cons_self ?_ hAligns hUnder hApart ?_
  · rw [hRenamed]
    rfl
  · intro p hMem
    simpa [Equation.occurrences, Side.occurrences,
      occurrences_deepTerm] using hNames p hMem

/- The part of a deep value that is left open. -/
def openPart
    (ρ : String → String)
    (c : Constructor)
    (vs : List Variable) :
    Part :=
  (⟨Target.valueName, .value⟩,
    some (deepTerm c (vs.map (Variable.renamed ρ))))

/- The names of the part of an open value. -/
theorem names_openPart
    (ρ : String → String)
    (c : Constructor)
    (vs : List Variable) :
    (openPart ρ c vs).names =
      Target.valueName ::
        vs.map fun x => (x.renamed ρ).name := by
  simp [openPart, Part.names, Side.occurrences,
    occurrences_deepTerm]

/- All names of the part of an open value have a label. -/
theorem under_openPart
    (ρ : String → String)
    (c : Constructor)
    (vs : List Variable) :
    (openPart ρ c vs).Under ρ
      (patternOf .value [some (deepTerm c vs)]).occurrences
      (deepLabels vs) := by
  intro n hn
  rw [names_openPart] at hn
  rcases List.mem_cons.mp hn with rfl | hn
  · refine ⟨_, List.mem_cons_self, Or.inl ⟨rfl, ?_⟩⟩
    simp [Target.openNames]
  · rcases List.mem_map.mp hn with ⟨x, hx, rfl⟩
    exact labels_deep ρ hx

/- No variable of a component gets the name of a value. -/
theorem name_ne_valueName
    {c : Constructor}
    {vs : List Variable}
    {ρ : String → String}
    {used : List String}
    (hρ :
      Renames ρ
        (patternOf .value [some (deepTerm c vs)]).occurrences
        used)
    (hUsed : Target.openNames ⊆ used)
    {x : Variable}
    (hx : x ∈ vs) :
    (x.renamed ρ).name ≠ Target.valueName := by
  intro hName
  apply hρ.fresh x (mem_patternOf_deepTerm hx)
  have hEq : ρ x.name = Target.valueName := hName
  rw [hEq]
  exact hUsed (by simp [Target.openNames])

/- An open value can be bound to the components. -/
theorem suits_openPart
    {c : Constructor}
    {vs : List Variable}
    (hDeep : Deep c vs)
    {ρ : String → String}
    {used : List String}
    (hρ :
      Renames ρ
        (patternOf .value [some (deepTerm c vs)]).occurrences
        used)
    (hUsed : Target.openNames ⊆ used) :
    (openPart ρ c vs).Suits := by
  refine ⟨hDeep.kind, ?_⟩
  intro v hv
  have hMem : v ∈ vs.map (Variable.renamed ρ) := by
    rw [← occurrences_deepTerm c (vs.map _)]
    exact hv
  rcases List.mem_map.mp hMem with ⟨x, hx, rfl⟩
  exact name_ne_valueName hρ hUsed hx

/- The variables of components stay where the value is open. -/
theorem exists_unify_of_open
    {t : Target}
    {goal snak : Term}
    {j : Kind}
    (hTyped : t.Typed j)
    (hAsks : t.Asks .value goal snak)
    {c : Constructor}
    {vs : List Variable}
    (hDeep : Deep c vs)
    (hValue : t.value = .var ⟨Target.valueName, .value⟩)
    (hp : (patternOf .value [some (deepTerm c vs)]).WellFormed)
    {ρ : String → String}
    {used : List String}
    (hρ :
      Renames ρ
        (patternOf .value [some (deepTerm c vs)]).occurrences
        used)
    (hUsed : Target.openNames ⊆ used) :
    ∃ θ,
      unify
          [(some
              ((patternOf .value
                [some (deepTerm c vs)]).mapVariables
                  (Variable.renamed ρ)),
            some goal)] =
        .ok θ ∧
      Binds θ ρ t ∧
      ∀ x ∈ vs,
        θ.value (x.renamed ρ) =
          some (.var (x.renamed ρ)) := by
  have hMeets :
      Meets
        [(some
            ((patternOf .value
              [some (deepTerm c vs)]).mapVariables
                (Variable.renamed ρ)),
          some goal)]
        [(subjectVariable.renamed ρ, some t.subject),
          (propertyVariable.renamed ρ, some t.property),
          openPart ρ c vs]
        [] := by
    refine
      meets_deep hTyped hAsks hDeep hp hρ hUsed ?_ ?_
        (List.pairwise_singleton _ _) ?_
    · rw [hValue]
      have hSuits := suits_openPart hDeep hρ hUsed
      exact .bind (step_app_var hSuits)
        (by simp [Equation.occurrences]) (.done [])
    · intro p hMem
      cases List.mem_singleton.mp hMem
      exact under_openPart ρ c vs
    · intro p hMem
      cases List.mem_singleton.mp hMem
      simp [hValue, openPart, Term.occurrences]
  refine
    ⟨_, hMeets.unify_eq, binds_of_meets hTyped hMeets, ?_⟩
  intro x hx
  have hNe : x.renamed ρ ≠ ⟨Target.valueName, .value⟩ :=
    fun hEq => name_ne_valueName hρ hUsed hx (by rw [hEq])
  have hName : (x.renamed ρ).name ∈ (openPart ρ c vs).names := by
    rw [names_openPart]
    exact List.mem_cons_of_mem _
      (List.mem_map_of_mem (f := fun x => (x.renamed ρ).name) hx)
  apply Bindings.value_of_get?_none
  rw [get?_partsBindings_of_mem hMeets.apart (by simp) hName]
  simp [openPart, Part.bindings, deepTerm, hNe]

/- The parts of a deep value that is fixed. -/
def deepParts
    (ρ : String → String)
    (vs : List Variable)
    (gs : List (Option Ground)) :
    List Part :=
  (vs.zip gs).map fun (x, g) => (x.renamed ρ, g.map .ground)

/- Variables are paired with the components of a value. -/
theorem pairArgs?_deepParts
    (ρ : String → String)
    {vs : List Variable}
    {gs : List (Option Ground)}
    (hLength : vs.length = gs.length) :
    pairArgs?
        ((vs.map (Variable.renamed ρ)).map fun x => some (.var x))
        (gs.map (Option.map Term.ground)) =
      some
        ((deepParts ρ vs gs).map fun p =>
          (some (.var p.1), p.2)) := by
  induction vs generalizing gs with
  | nil =>
      cases gs with
      | nil => rfl
      | cons g gs => cases hLength
  | cons x vs ih =>
      cases gs with
      | nil => cases hLength
      | cons g gs =>
          have hRest := @ih gs (by simpa using hLength)
          cases g with
          | none =>
              simp only [List.map_cons, Option.map_none,
                pairArgs?, Term.isVariable, if_true, hRest]
              rfl
          | some g =>
              simp only [List.map_cons, Option.map_some,
                pairArgs?, hRest]
              rfl

/- Each part is a renamed variable and a closed side. -/
theorem exists_of_mem_deepParts
    {ρ : String → String}
    {vs : List Variable}
    {gs : List (Option Ground)}
    {p : Part}
    (hp : p ∈ deepParts ρ vs gs) :
    ∃ x ∈ vs, ∃ g,
      (x, g) ∈ vs.zip gs ∧ p = (x.renamed ρ, g.map .ground) := by
  rcases List.mem_map.mp hp with ⟨⟨x, g⟩, hMem, rfl⟩
  exact ⟨x, (List.of_mem_zip hMem).1, g, hMem, rfl⟩

/- The names of a part are the new name of its variable. -/
theorem names_closed
    (x : Variable)
    (g : Option Ground) :
    Part.names (x, g.map .ground) = [x.name] := by
  cases g <;> rfl

/- The parts of a deep value share no name. -/
theorem apart_deepParts
    {c : Constructor}
    {vs : List Variable}
    (hDeep : Deep c vs)
    {ρ : String → String}
    {used : List String}
    (hρ :
      Renames ρ
        (patternOf .value [some (deepTerm c vs)]).occurrences
        used)
    {gs : List (Option Ground)}
    (hLength : vs.length = gs.length) :
    (deepParts ρ vs gs).Pairwise Part.Apart := by
  have hNames :
      (vs.map fun x => (x.renamed ρ).name).Nodup := by
    have hMap :
        (vs.map fun x => (x.renamed ρ).name) =
          (vs.map Variable.name).map ρ := by
      rw [List.map_map]
      rfl
    rw [hMap]
    apply hDeep.nodup.map_on
    intro m hm n hn hEq
    rcases List.mem_map.mp hm with ⟨x, hx, rfl⟩
    rcases List.mem_map.mp hn with ⟨y, hy, rfl⟩
    exact hρ.injective x (mem_patternOf_deepTerm hx) y
      (mem_patternOf_deepTerm hy) hEq
  rw [List.nodup_iff_pairwise_ne, List.pairwise_map,
    ← List.map_fst_zip (le_of_eq hLength), List.pairwise_map]
    at hNames
  rw [deepParts, List.pairwise_map]
  apply hNames.imp
  intro a b hNe n hn hn'
  rw [names_closed] at hn hn'
  apply hNe
  rw [← List.mem_singleton.mp hn, List.mem_singleton.mp hn']

/- A deep pattern meets a fixed value component by component. -/
theorem aligns_deepParts
    {c : Constructor}
    {vs : List Variable}
    {h g : Ground}
    {gs : List (Option Ground)}
    (hKind : h.kind = c.kind)
    (hArgs : h.args? = some (some g :: gs))
    (hKinds :
      List.Forall₂
        (fun x a => ∀ b, a = some b → b.kind ≤ x.kind)
        vs (some g :: gs))
    {ρ : String → String}
    (hApart :
      (deepParts ρ vs (some g :: gs)).Pairwise Part.Apart) :
    Aligns
      [(some (deepTerm c (vs.map (Variable.renamed ρ))),
        some (.ground h))]
      (deepParts ρ vs (some g :: gs)) [] := by
  have hClosed :
      Aligns
        ((deepParts ρ vs (some g :: gs)).map fun p =>
          (some (.var p.1), p.2))
        (deepParts ρ vs (some g :: gs)) [] := by
    apply aligns_closed _ _ hApart
    · intro p hMem
      rcases exists_of_mem_deepParts hMem with
        ⟨x, _, a, hZip, rfl⟩
      cases a with
      | none => trivial
      | some b =>
          refine ⟨?_, by simp [Term.occurrences]⟩
          exact (List.forall₂_iff_zip.mp hKinds).2 hZip b rfl
    · intro p hMem
      rcases exists_of_mem_deepParts hMem with
        ⟨x, _, a, _, rfl⟩
      cases a <;> rfl
  cases hKinds with
  | @cons x _ vs _ _ hTail =>
      have hGround :
          (Term.ground h).args? =
            some
              (some (.ground g) ::
                gs.map (Option.map Term.ground)) := by
        simp [Term.args?, hArgs]
      have hTerm : (Term.ground h).kind = c.kind := hKind
      have hStep :=
        step_app (x := x.renamed ρ) hTerm hGround (by simp)
          (pairArgs?_deepParts ρ hTail.length_eq)
      refine .replace hStep ?_
      rw [List.append_nil]
      exact hClosed

/- The components of a fixed value are what they are. -/
theorem exists_unify_of_deep
    {t : Target}
    {goal snak : Term}
    {j : Kind}
    (hTyped : t.Typed j)
    (hAsks : t.Asks .value goal snak)
    {c : Constructor}
    {vs : List Variable}
    (hDeep : Deep c vs)
    {h g : Ground}
    {gs : List (Option Ground)}
    (hValue : t.value = .ground h)
    (hKind : h.kind = c.kind)
    (hArgs : h.args? = some (some g :: gs))
    (hKinds :
      List.Forall₂
        (fun x a => ∀ b, a = some b → b.kind ≤ x.kind)
        vs (some g :: gs))
    (hp : (patternOf .value [some (deepTerm c vs)]).WellFormed)
    {ρ : String → String}
    {used : List String}
    (hρ :
      Renames ρ
        (patternOf .value [some (deepTerm c vs)]).occurrences
        used)
    (hUsed : Target.openNames ⊆ used) :
    ∃ θ,
      unify
          [(some
              ((patternOf .value
                [some (deepTerm c vs)]).mapVariables
                  (Variable.renamed ρ)),
            some goal)] =
        .ok θ ∧
      Binds θ ρ t ∧
      List.Forall₂
        (fun x a => θ.value (x.renamed ρ) = a.map .ground)
        vs (some g :: gs) := by
  have hLength := hKinds.length_eq
  have hApart := apart_deepParts hDeep hρ hLength
  have hMeets :
      Meets
        [(some
            ((patternOf .value
              [some (deepTerm c vs)]).mapVariables
                (Variable.renamed ρ)),
          some goal)]
        ((subjectVariable.renamed ρ, some t.subject) ::
          (propertyVariable.renamed ρ, some t.property) ::
            deepParts ρ vs (some g :: gs))
        [] := by
    refine
      meets_deep hTyped hAsks hDeep hp hρ hUsed ?_ ?_ hApart ?_
    · rw [hValue]
      exact aligns_deepParts hKind hArgs hKinds hApart
    · intro p hMem n hn
      rcases exists_of_mem_deepParts hMem with
        ⟨x, hx, a, _, rfl⟩
      rw [names_closed, List.mem_singleton] at hn
      rw [hn]
      exact labels_deep ρ hx
    · intro p hMem
      rcases exists_of_mem_deepParts hMem with
        ⟨x, hx, a, _, rfl⟩
      exact Or.inl (List.mem_map_of_mem hx)
  refine
    ⟨_, hMeets.unify_eq, binds_of_meets hTyped hMeets, ?_⟩
  apply List.forall₂_iff_zip.mpr
  refine ⟨hLength, ?_⟩
  intro x a hZip
  have hPart :
      (x.renamed ρ, a.map Term.ground) ∈
        deepParts ρ vs (some g :: gs) :=
    List.mem_map_of_mem hZip
  have hValue' :=
    hMeets.value_eq
      (List.mem_cons_of_mem _ (List.mem_cons_of_mem _ hPart))
  rw [hValue']
  cases a <;> rfl

/- A pattern with a deep value matches no other fixed value. -/
theorem unify_ne_of_deep
    {t : Target}
    {goal snak : Term}
    {j : Kind}
    (hTyped : t.Typed j)
    (hAsks : t.Asks .value goal snak)
    {c : Constructor}
    {vs : List Variable}
    (hDeep : Deep c vs)
    {h : Ground}
    (hValue : t.value = .ground h)
    (hKind : h.kind ≠ c.kind)
    (hp : (patternOf .value [some (deepTerm c vs)]).WellFormed)
    {ρ : String → String}
    {used : List String}
    (hρ :
      Renames ρ
        (patternOf .value [some (deepTerm c vs)]).occurrences
        used)
    (hUsed : Target.openNames ⊆ used)
    (θ : Bindings) :
    unify
        [(some
            ((patternOf .value
              [some (deepTerm c vs)]).mapVariables
                (Variable.renamed ρ)),
          some goal)] ≠
      .ok θ := by
  have hMeets :=
    meets_deep hTyped hAsks hDeep hp hρ hUsed (.done _)
      (by simp) .nil (by simp)
  rw [hValue] at hMeets
  exact hMeets.unify_ne (step_app_ground hKind) θ

end Wikidata

end StatementQuery
