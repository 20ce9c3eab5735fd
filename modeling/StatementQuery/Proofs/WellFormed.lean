import Mathlib.Data.List.Forall2
import StatementQuery.Proofs.LeastKinds
import StatementQuery.Term.Construct

/-
  Well-formed terms.

  Every application has one argument for each slot of its
  constructor: a term of the slot's kind, or none where the
  slot is optional.  At least one argument is open, and each
  name occurs at one kind in the whole term.

  Key definitions include:
    * `Slot.Admits`
    * `Term.WellShaped`
    * `Term.WellFormed`
    * `Term.WellKinded`

  `Term.inductionOn` is the induction over terms that all
  proofs about terms use.
-/

------------------------------------------------------------
-- Induction Over Terms
------------------------------------------------------------

namespace StatementQuery

namespace Term

/- Induction with a hypothesis for every present argument. -/
@[elab_as_elim, induction_eliminator]
theorem inductionOn
    {motive : Term → Prop}
    (ground : ∀ g, motive (.ground g))
    (var : ∀ v, motive (.var v))
    (app :
      ∀ c args,
        (∀ t, some t ∈ args → motive t) →
          motive (.app c args))
    (t : Term) :
    motive t := by
  refine
    @Term.rec motive
      (fun args => ∀ u, some u ∈ args → motive u)
      (fun arg => ∀ u, arg = some u → motive u)
      ground var app ?_ ?_ ?_ ?_ t
  · intro u hu
    simp at hu
  · intro arg args hArg hArgs u hu
    rcases List.mem_cons.mp hu with hHead | hTail
    · exact hArg u hHead.symm
    · exact hArgs u hTail
  · intro u hu
    simp at hu
  · intro u hMotive w hw
    cases hw
    exact hMotive

/- The variables of arguments are those of each of them. -/
theorem mem_occurrencesArgs
    (v : Variable)
    (args : List (Option Term)) :
    v ∈ occurrencesArgs args ↔
      ∃ t, some t ∈ args ∧ v ∈ t.occurrences := by
  induction args with
  | nil => simp [occurrencesArgs]
  | cons arg args ih =>
      cases arg with
      | none => simp [occurrencesArgs, ih]
      | some u =>
          simp only [occurrencesArgs, List.mem_append, ih,
            List.mem_cons, Option.some.injEq]
          constructor
          · rintro (hv | ⟨t, ht, hv⟩)
            · exact ⟨u, Or.inl rfl, hv⟩
            · exact ⟨t, Or.inr ht, hv⟩
          · rintro ⟨t, rfl | ht, hv⟩
            · exact Or.inl hv
            · exact Or.inr ⟨t, ht, hv⟩

/- The variables of an application are those of its arguments. -/
theorem mem_occurrences_app
    (v : Variable)
    (c : Constructor)
    (args : List (Option Term)) :
    v ∈ (Term.app c args).occurrences ↔
      ∃ t, some t ∈ args ∧ v ∈ t.occurrences := by
  rw [occurrences, mem_occurrencesArgs]

end Term

end StatementQuery

------------------------------------------------------------
-- Replacing Variables By Variables
------------------------------------------------------------

namespace StatementQuery

namespace Term

/- Arguments are mapped one by one. -/
theorem mapVariablesArgs_eq_map
    (f : Variable → Variable)
    (args : List (Option Term)) :
    mapVariablesArgs f args =
      args.map (Option.map (mapVariables f)) := by
  induction args with
  | nil => rfl
  | cons arg args ih =>
      cases arg with
      | none => simp [mapVariablesArgs, ih]
      | some t => simp [mapVariablesArgs, ih]

/- Variables that are mapped to themselves stay. -/
theorem mapVariables_eq_self
    (f : Variable → Variable)
    (t : Term)
    (h : ∀ v ∈ t.occurrences, f v = v) :
    t.mapVariables f = t := by
  induction t with
  | ground g => rfl
  | var v =>
      simp [mapVariables, h v (by simp [occurrences])]
  | app c args ih =>
      have hArgs :
          args.map (Option.map (mapVariables f)) = args := by
        refine Eq.trans ?_ (List.map_id args)
        apply List.map_congr_left
        intro arg hArg
        cases arg with
        | none => rfl
        | some u =>
            have hu : u.mapVariables f = u := by
              apply ih u hArg
              intro v hv
              apply h
              exact (mem_occurrences_app v c args).mpr
                ⟨u, hArg, hv⟩
            simp [hu]
      rw [mapVariables, mapVariablesArgs_eq_map, hArgs]

/- The occurrences in a mapped term are mapped one by one. -/
theorem occurrences_mapVariables
    (f : Variable → Variable)
    (t : Term) :
    (t.mapVariables f).occurrences = t.occurrences.map f := by
  induction t with
  | ground g => rfl
  | var v => rfl
  | app c args ih =>
      rw [mapVariables, occurrences, occurrences]
      induction args with
      | nil => rfl
      | cons arg args ihArgs =>
          have hRest := ihArgs fun t ht => ih t (by simp [ht])
          cases arg with
          | none => exact hRest
          | some t =>
              simp only [mapVariablesArgs, occurrencesArgs,
                List.map_append, ih t (by simp), hRest]

/- The variables of a mapped term are the mapped ones. -/
theorem mem_occurrences_mapVariables
    (f : Variable → Variable)
    (t : Term)
    (w : Variable) :
    w ∈ (t.mapVariables f).occurrences ↔
      ∃ v ∈ t.occurrences, f v = w := by
  rw [occurrences_mapVariables, List.mem_map]

end Term

end StatementQuery

------------------------------------------------------------
-- Well-Formed Terms
------------------------------------------------------------

namespace StatementQuery

/- An argument that a slot takes as it is. -/
def Slot.Admits (slot : Slot) : Option Term → Prop
| none => slot.isOptional = true
| some t => t.kind ≤ slot.kind

namespace Term

/- Every application has open arguments that fit its slots. -/
inductive WellShaped : Term → Prop where
| ground (g : Ground) : WellShaped (.ground g)
| var (v : Variable) : WellShaped (.var v)
| app
    {c : Constructor}
    {args : List (Option Term)}
    (hSlots : List.Forall₂ Slot.Admits c.slots args)
    (hOpen : args.any isOpenArg = true)
    (hArgs : ∀ t, some t ∈ args → WellShaped t) :
    WellShaped (.app c args)

instance (slot : Slot) : DecidablePred slot.Admits
| none => inferInstanceAs (Decidable (slot.isOptional = true))
| some t => inferInstanceAs (Decidable (t.kind ≤ slot.kind))

mutual

/- Whether a term is well shaped. -/
def isWellShaped : Term → Bool
| .ground _ => true
| .var _ => true
| .app c args =>
    decide (List.Forall₂ Slot.Admits c.slots args) &&
      (args.any isOpenArg && isWellShapedArgs args)

/- Whether all present arguments are well shaped. -/
def isWellShapedArgs : List (Option Term) → Bool
| [] => true
| none :: args => isWellShapedArgs args
| some t :: args => t.isWellShaped && isWellShapedArgs args

end

/- Arguments are checked one by one. -/
theorem isWellShapedArgs_iff
    (args : List (Option Term)) :
    isWellShapedArgs args = true ↔
      ∀ t, some t ∈ args → t.isWellShaped = true := by
  induction args with
  | nil => simp [isWellShapedArgs]
  | cons arg args ih =>
      cases arg with
      | none => simp [isWellShapedArgs, ih]
      | some u =>
          simp only [isWellShapedArgs, Bool.and_eq_true, ih,
            List.mem_cons, Option.some.injEq]
          constructor
          · rintro ⟨hu, hArgs⟩ t (rfl | ht)
            · exact hu
            · exact hArgs t ht
          · intro h
            exact
              ⟨h u (Or.inl rfl), fun t ht => h t (Or.inr ht)⟩

/- The check decides whether a term is well shaped. -/
theorem isWellShaped_iff
    (t : Term) :
    t.isWellShaped = true ↔ t.WellShaped := by
  induction t with
  | ground g => exact ⟨fun _ => .ground g, fun _ => rfl⟩
  | var v => exact ⟨fun _ => .var v, fun _ => rfl⟩
  | app c args ih =>
      simp only [isWellShaped, Bool.and_eq_true,
        decide_eq_true_eq, isWellShapedArgs_iff]
      constructor
      · rintro ⟨hSlots, hOpen, hArgs⟩
        exact .app hSlots hOpen fun t ht =>
          (ih t ht).mp (hArgs t ht)
      · intro hShaped
        rcases hShaped with _ | _ | ⟨hSlots, hOpen, hArgs⟩
        exact
          ⟨hSlots, hOpen, fun t ht =>
            (ih t ht).mpr (hArgs t ht)⟩

instance (t : Term) : Decidable t.WellShaped :=
  decidable_of_iff _ (isWellShaped_iff t)

/- Well shaped, and each name occurs at one kind. -/
structure WellFormed (t : Term) : Prop where
  shaped : t.WellShaped
  oneKind : Variable.OneKind t.occurrences

/- Well shaped, with every variable at the kind of its name. -/
structure WellKinded (κ : Kinding) (t : Term) : Prop where
  shaped : t.WellShaped
  atKinds : Variable.AtKinds κ t.occurrences

instance (t : Term) : Decidable t.WellFormed :=
  decidable_of_iff
    (t.WellShaped ∧ Variable.OneKind t.occurrences)
    ⟨fun h => ⟨h.1, h.2⟩, fun h => ⟨h.shaped, h.oneKind⟩⟩

/- Ground terms follow any choice of kinds. -/
theorem wellKinded_ground
    (κ : Kinding)
    (g : Ground) :
    (Term.ground g).WellKinded κ := by
  refine ⟨.ground g, ?_⟩
  intro v hv
  simp [occurrences] at hv

/- A variable follows a choice of kinds that has its kind. -/
theorem wellKinded_var
    {κ : Kinding}
    {v : Variable}
    (h : κ v.name = some v.kind) :
    (Term.var v).WellKinded κ := by
  refine ⟨.var v, ?_⟩
  intro w hw
  simp only [occurrences, List.mem_singleton] at hw
  exact hw ▸ h

/- A variable that follows a choice of kinds has its kind. -/
theorem WellKinded.kind_var
    {κ : Kinding}
    {v : Variable}
    (h : (Term.var v).WellKinded κ) :
    κ v.name = some v.kind :=
  h.atKinds v (by simp [occurrences])

/- The parts of an application that follows a choice of kinds. -/
theorem wellKinded_app_iff
    {κ : Kinding}
    {c : Constructor}
    {args : List (Option Term)} :
    (Term.app c args).WellKinded κ ↔
      List.Forall₂ Slot.Admits c.slots args ∧
        args.any isOpenArg = true ∧
        ∀ t, some t ∈ args → t.WellKinded κ := by
  constructor
  · rintro ⟨hShaped, hKinds⟩
    cases hShaped with
    | app hSlots hOpen hArgs =>
        refine ⟨hSlots, hOpen, fun t ht => ⟨hArgs t ht, ?_⟩⟩
        intro v hv
        apply hKinds
        exact (mem_occurrences_app v c args).mpr ⟨t, ht, hv⟩
  · rintro ⟨hSlots, hOpen, hArgs⟩
    refine
      ⟨.app hSlots hOpen fun t ht => (hArgs t ht).shaped, ?_⟩
    intro v hv
    rcases (mem_occurrences_app v c args).mp hv with
      ⟨t, ht, hv⟩
    exact (hArgs t ht).atKinds v hv

/- Arguments that follow a choice of kinds have its kinds. -/
theorem atKinds_occurrencesArgs
    {κ : Kinding}
    {args : List (Option Term)}
    (h : ∀ t, some t ∈ args → t.WellKinded κ) :
    Variable.AtKinds κ (occurrencesArgs args) := by
  intro v hv
  rcases (mem_occurrencesArgs v args).mp hv with ⟨t, ht, hv⟩
  exact (h t ht).atKinds v hv

/- Narrowing variables narrows the kind of a term. -/
theorem kind_mapVariables_le
    {f : Variable → Variable}
    {t : Term}
    (hf : ∀ v ∈ t.occurrences, (f v).kind ≤ v.kind) :
    (t.mapVariables f).kind ≤ t.kind := by
  cases t with
  | ground g => exact le_refl g.kind
  | var v => exact hf v (by simp [occurrences])
  | app c args => exact le_refl c.kind

/- Narrowing variables keeps arguments in their slots. -/
theorem admits_mapVariables
    {f : Variable → Variable}
    {slots : List Slot}
    {args : List (Option Term)}
    (hf :
      ∀ v ∈ occurrencesArgs args, (f v).kind ≤ v.kind)
    (h : List.Forall₂ Slot.Admits slots args) :
    List.Forall₂ Slot.Admits slots
      (args.map (Option.map (mapVariables f))) := by
  induction h with
  | nil => exact .nil
  | @cons slot arg slots args hHead hTail ih =>
      have hRest :
          ∀ v ∈ occurrencesArgs args, (f v).kind ≤ v.kind := by
        intro v hv
        apply hf
        cases arg with
        | none => exact hv
        | some t => simp [occurrencesArgs, hv]
      refine .cons ?_ (ih hRest)
      cases arg with
      | none => exact hHead
      | some t =>
          refine le_trans (kind_mapVariables_le ?_) hHead
          intro v hv
          apply hf
          simp [occurrencesArgs, hv]

/- Closed arguments have no variables. -/
theorem occurrencesArgs_of_closed
    {args : List (Option Term)}
    (h : args.any isOpenArg = false) :
    occurrencesArgs args = [] := by
  apply List.eq_nil_iff_forall_not_mem.mpr
  intro v hv
  rcases (mem_occurrencesArgs v args).mp hv with ⟨t, ht, hv⟩
  have hClosed := List.any_eq_false.mp h (some t) ht
  cases t with
  | ground g => simp [occurrences] at hv
  | var w => simp [isOpenArg, isGround] at hClosed
  | app d brgs => simp [isOpenArg, isGround] at hClosed

/- A term of variables for variables is as open as before. -/
theorem any_isOpenArg_mapVariables
    (f : Variable → Variable)
    (args : List (Option Term)) :
    (args.map (Option.map (mapVariables f))).any isOpenArg =
      args.any isOpenArg := by
  rw [List.any_map]
  congr 1
  funext arg
  rcases arg with _ | (g | v | ⟨c, args⟩) <;> rfl

/- Narrowing variables keeps the shape of a term. -/
theorem wellShaped_mapVariables
    {f : Variable → Variable}
    {t : Term}
    (hf : ∀ v ∈ t.occurrences, (f v).kind ≤ v.kind)
    (h : t.WellShaped) :
    (t.mapVariables f).WellShaped := by
  induction t with
  | ground g => exact .ground g
  | var v => exact .var (f v)
  | app c args ih =>
      rcases h with _ | _ | ⟨hSlots, hOpen, hArgs⟩
      rw [mapVariables, mapVariablesArgs_eq_map]
      refine .app (admits_mapVariables hf hSlots) ?_ ?_
      · rw [any_isOpenArg_mapVariables]
        exact hOpen
      · intro u hu
        rcases List.mem_map.mp hu with ⟨arg, hArg, hEq⟩
        rcases Option.map_eq_some_iff.mp hEq with ⟨t, rfl, rfl⟩
        refine ih t hArg ?_ (hArgs t hArg)
        intro v hv
        apply hf
        exact (mem_occurrences_app v c args).mpr ⟨t, hArg, hv⟩

end Term

end StatementQuery
