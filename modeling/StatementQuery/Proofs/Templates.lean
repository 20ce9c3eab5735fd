import StatementQuery.Compile.Decode
import StatementQuery.Proofs.SolverSteps

/-
  Reading a statement off a template.

  Every variable of a template stands in the place of one part
  of the statement.  Put in place of their variables, these
  parts give the statement back, also where decimals are
  spelled differently.

  Key definitions include:
    * `Term.components`
    * `Term.Solid`
    * `Side.Reads`

  Main declarations:
    * `Term.instantiateWith_exact`
    * `Side.Reads.assemble`
    * `Side.Reads.exists_statementOf`
-/

------------------------------------------------------------
-- Components
------------------------------------------------------------

namespace StatementQuery

namespace Term

mutual

/-
  The parts of a ground term that stand where a term has its
  variables, each with the name of the variable.
-/
def components :
    Term → Option Ground → List (String × Ground)
| .ground _, _ => []
| .var v, some g => [(v.name, g)]
| .var _, none => []
| .app _ args, some g => componentsArgs args (g.args?.getD [])
| .app _ _, none => []

/- The parts of arguments where others have their variables. -/
def componentsArgs :
    List (Option Term) → List (Option Ground) →
      List (String × Ground)
| some t :: args, g :: gs =>
    t.components g ++ componentsArgs args gs
| none :: args, _ :: gs => componentsArgs args gs
| _, _ => []

end

end Term

/- The parts of a ground term where a side has its variables. -/
def Side.components :
    Side → Option Ground → List (String × Ground)
| none, _ => []
| some t, g => t.components g

end StatementQuery

------------------------------------------------------------
-- Strict Instantiation
------------------------------------------------------------

namespace StatementQuery

namespace Term

/- Applications stand in required slots only. -/
inductive Solid : Term → Prop where
| ground (g : Ground) : Solid (.ground g)
| var (v : Variable) : Solid (.var v)
| app
    {c : Constructor}
    {args : List (Option Term)}
    (hSlots :
      List.Forall₂
        (fun slot arg =>
          ∀ d brgs, arg = some (.app d brgs) →
            slot.isOptional = false)
        c.slots args)
    (hArgs : ∀ t, some t ∈ args → Solid t) :
    Solid (.app c args)

/- Arguments that are gathered can be gathered strictly. -/
theorem instantiateArgs_exact
    {θ : Bindings}
    (c : Constructor)
    (position : Nat)
    {slots : List Slot}
    {args values : List (Option Term)}
    (hSlots :
      List.Forall₂
        (fun slot arg =>
          ∀ d brgs, arg = some (.app d brgs) →
            slot.isOptional = false)
        slots args)
    (hArgs :
      ∀ t, some t ∈ args → ∀ u,
        t.instantiateWith .plain θ = .ok (some u) →
          t.instantiateWith .exact θ = .ok (some u))
    (h :
      instantiateArgs .plain θ c position slots args =
        .ok (some values)) :
    instantiateArgs .exact θ c position slots args =
      .ok (some values) := by
  induction hSlots generalizing position values with
  | nil => exact h
  | @cons slot arg slots args hHead hTail ih =>
      rw [instantiateArgs] at h ⊢
      cases hArg : instantiateArg .plain θ arg with
      | error e => simp [hArg] at h
      | ok value =>
          simp only [hArg] at h
          split at h
          · simp [InstantiateMode.plain] at h
          · rename_i hPresent
            have hExact :
                instantiateArg .exact θ arg = .ok value := by
              rcases arg with _ | (g | v | ⟨d, brgs⟩)
              · exact hArg
              · exact hArg
              · exact hArg
              · -- An application in a required slot is kept.
                have hRequired := hHead d brgs rfl
                cases value with
                | none => simp [hRequired] at hPresent
                | some u => exact hArgs _ (by simp) u hArg
            simp only [hExact, if_neg hPresent]
            cases hRest :
                instantiateArgs .plain θ c (position + 1)
                  slots args with
            | error e => simp [hRest] at h
            | ok found =>
                cases found with
                | none => simp [hRest] at h
                | some rest =>
                    simp only [hRest] at h
                    have hStrict :=
                      ih (position + 1)
                        (fun t ht => hArgs t (by simp [ht]))
                        hRest
                    simp only [hStrict]
                    exact h

/- A present instance of a solid term is a strict one. -/
theorem instantiateWith_exact
    {θ : Bindings}
    {t u : Term}
    (hSolid : t.Solid)
    (h : t.instantiateWith .plain θ = .ok (some u)) :
    t.instantiateWith .exact θ = .ok (some u) := by
  induction t generalizing u with
  | ground g => exact h
  | var v => exact h
  | app c args ih =>
      rcases hSolid with _ | _ | ⟨hSlots, hArgs⟩
      rw [instantiateWith] at h ⊢
      split at h
      · rename_i hTouched
        rw [if_pos hTouched]
        cases hGather :
            instantiateArgs .plain θ c 0 c.slots args with
        | error e => simp [hGather] at h
        | ok found =>
            cases found with
            | none => simp [hGather] at h
            | some values =>
                have hStrict :=
                  instantiateArgs_exact c 0 hSlots
                    (fun t ht u hu => ih t ht (hArgs t ht) hu)
                    hGather
                simp only [hGather] at h
                simp only [hStrict]
                exact h
      · rename_i hUntouched
        rw [if_neg hUntouched]
        exact h

end Term

end StatementQuery

------------------------------------------------------------
-- Templates And Ground Terms
------------------------------------------------------------

namespace StatementQuery

/- A variable and the part in whose place it stands. -/
abbrev Cell := Variable × Option Ground

namespace Cell

/- The parts that are present, by name. -/
def present (cells : List Cell) : List (String × Ground) :=
  cells.filterMap fun cell => cell.2.map (cell.1.name, ·)

/- Every variable stands for its part. -/
def Stand (f : Variable → Side) (cells : List Cell) : Prop :=
  ∀ cell ∈ cells,
    outcome (some (f cell.1)) =
      outcome (some (cell.2.map .ground))

/- The parts of two lists, one after the other. -/
theorem present_append
    (cells more : List Cell) :
    present (cells ++ more) = present cells ++ present more :=
  List.filterMap_append

end Cell

namespace Side

/-
  A side is a template of a ground term, or both are absent:
  the cells are its variables and what they stand for, and
  with these in their place it is the ground term.
-/
structure Reads
    (s : Side)
    (g : Option Ground)
    (cells : List Cell) :
    Prop where
  shaped : ∀ t, s = some t → t.WellShaped
  solid : ∀ t, s = some t → t.Solid
  occurrences : Side.occurrences s = cells.map Prod.fst
  components : Side.components s g = Cell.present cells
  subst :
    ∀ f, Cell.Stand f cells →
      outcome (Side.subst f s) =
        outcome (some (g.map .ground))

/- Sides that are templates, one after the other. -/
inductive ReadsArgs :
    List Side → List (Option Ground) → List Cell → Prop where
| nil : ReadsArgs [] [] []
| cons
    {s : Side}
    {g : Option Ground}
    {ss : List Side}
    {gs : List (Option Ground)}
    {cells more : List Cell}
    (hHead : s.Reads g cells)
    (hTail : ReadsArgs ss gs more) :
    ReadsArgs (s :: ss) (g :: gs) (cells ++ more)

namespace Reads

/- A variable is a template of anything. -/
theorem var
    (v : Variable)
    (g : Option Ground) :
    Reads (some (.var v)) g [(v, g)] := by
  constructor
  · rintro t ⟨⟩
    exact .var v
  · rintro t ⟨⟩
    exact .var v
  · rfl
  · cases g <;> rfl
  · intro f hf
    exact hf (v, g) (by simp)

/- A ground term is a template of the same ground term. -/
theorem ground
    {h g : Ground}
    (hSame : h.same g = true) :
    Reads (some (.ground h)) (some g) [] := by
  constructor
  · rintro t ⟨⟩
    exact .ground h
  · rintro t ⟨⟩
    exact .ground h
  · rfl
  · rfl
  · intro f _
    have hEq := (Ground.same_iff h g).mp hSame
    simp [Side.subst, Term.subst, outcome, Term.canonical, hEq]

/- An absent argument is one of an absent argument. -/
theorem absent :
    Reads none none [] := by
  constructor
  · rintro t ⟨⟩
  · rintro t ⟨⟩
  · rfl
  · rfl
  · intro f _
    rfl

end Reads

namespace ReadsArgs

/- The variables of the arguments are those of the cells. -/
theorem occurrences
    {values : List Side}
    {gs : List (Option Ground)}
    {cells : List Cell}
    (h : ReadsArgs values gs cells) :
    Term.occurrencesArgs values = cells.map Prod.fst := by
  induction h with
  | nil => rfl
  | @cons s g ss gs cells more hHead hTail ih =>
      have hs := hHead.occurrences
      cases s with
      | none =>
          simp only [Side.occurrences] at hs
          simp [Term.occurrencesArgs, ih, ← hs]
      | some t =>
          simp only [Side.occurrences] at hs
          simp [Term.occurrencesArgs, ih, hs]

/- The components of the arguments are those of the cells. -/
theorem components
    {values : List Side}
    {gs : List (Option Ground)}
    {cells : List Cell}
    (h : ReadsArgs values gs cells) :
    Term.componentsArgs values gs = Cell.present cells := by
  induction h with
  | nil => rfl
  | @cons s g ss gs cells more hHead hTail ih =>
      have hs := hHead.components
      rw [Cell.present_append, ← ih, ← hs]
      cases s with
      | none => simp [Term.componentsArgs, Side.components]
      | some t => simp [Term.componentsArgs, Side.components]

/- The arguments are well shaped and solid. -/
theorem spec
    {values : List Side}
    {gs : List (Option Ground)}
    {cells : List Cell}
    (h : ReadsArgs values gs cells)
    {t : Term}
    (ht : some t ∈ values) :
    t.WellShaped ∧ t.Solid := by
  induction h with
  | nil => simp at ht
  | @cons s g ss gs cells more hHead hTail ih =>
      rcases List.mem_cons.mp ht with hEq | ht
      · exact ⟨hHead.shaped t hEq.symm, hHead.solid t hEq.symm⟩
      · exact ih ht

/- With the parts in place they are the ground arguments. -/
theorem subst
    {values : List Side}
    {gs : List (Option Ground)}
    {cells : List Cell}
    (h : ReadsArgs values gs cells)
    {f : Variable → Side}
    (hf : Cell.Stand f cells) :
    (values.map (Side.subst f)).map outcome =
      ((gs.map (Option.map Term.ground)).map some).map
        outcome := by
  induction h with
  | nil => rfl
  | @cons s g ss gs cells more hHead hTail ih =>
      have hs :=
        hHead.subst f fun cell hc => hf cell (by simp [hc])
      have hss := ih fun cell hc => hf cell (by simp [hc])
      simp only [List.map_cons, hs, hss]

end ReadsArgs

end Side

end StatementQuery

------------------------------------------------------------
-- Templates Built From Templates
------------------------------------------------------------

namespace StatementQuery

namespace Side

/- A ground term is built from its arguments. -/
theorem combine_args
    {c : Constructor}
    {g : Ground}
    {gs : List (Option Ground)}
    (hKind : g.kind = c.kind)
    (hArgs : g.args? = some gs) :
    Term.combine c ((gs.map (Option.map Term.ground)).map some) =
      some (some (.ground g)) := by
  have hGround :
      (Term.ground g).args? =
        some (gs.map (Option.map Term.ground)) := by
    simp [Term.args?, hArgs]
  have hSubst :=
    (Term.subst_of_args? (fun v => some (.var v)) (.ground g)
      hKind hGround).1
  have hClosed :
      (gs.map (Option.map Term.ground)).any Term.isOpenArg =
        false := by
    rw [List.any_map, List.any_eq_false]
    intro g' _
    cases g' <;> simp [Term.isOpenArg, Term.isGround]
  rw [Term.map_subst_of_closed _ hClosed] at hSubst
  exact hSubst.symm

/-
  A constructor makes a template of a ground term out of
  templates of its arguments.
-/
theorem Reads.assemble
    {c : Constructor}
    {g : Ground}
    {gs : List (Option Ground)}
    {values : List Side}
    {cells : List Cell}
    (hKind : g.kind = c.kind)
    (hArgs : g.args? = some gs)
    (hReads : ReadsArgs values gs cells)
    (hSlots : List.Forall₂ Slot.Admits c.slots values)
    (hSolid :
      List.Forall₂
        (fun slot arg =>
          ∀ d brgs, arg = some (.app d brgs) →
            slot.isOptional = false)
        c.slots values) :
    ∃ u,
      Term.combine c (values.map some) = some (some u) ∧
        u.kind = c.kind ∧
        Reads (some u) (some g) cells := by
  have hWhole := combine_args hKind hArgs
  have hFills : List.Forall₂ Term.Fills c.slots values := by
    apply hSlots.imp
    rintro slot _ hAdmits rfl
    exact hAdmits
  have hCombine :
      Term.combine c (values.map some) =
        (Term.assemble? c values).map some := by
    simp [Term.combine, Term.gather_of_fills hFills]
  by_cases hOpen : values.any Term.isOpenArg = true
  · refine ⟨.app c values, ?_, rfl, ?_⟩
    · rw [hCombine, Term.assemble?, if_pos hOpen]
      rfl
    · constructor
      · rintro t ⟨⟩
        exact .app hSlots hOpen fun t ht => (hReads.spec ht).1
      · rintro t ⟨⟩
        exact .app hSolid fun t ht => (hReads.spec ht).2
      · exact hReads.occurrences
      · simp only [Side.components, Term.components, hArgs,
          Option.getD_some]
        exact hReads.components
      · intro f hf
        rw [Side.subst, Term.subst_app,
          Term.outcome_combine_congr c (hReads.subst hf), hWhole]
        rfl
  · -- Without a variable the ground term itself is built.
    have hClosed : values.any Term.isOpenArg = false := by
      simpa using hOpen
    have hNil : cells = [] := by
      have hOccurs := hReads.occurrences
      rw [Term.occurrencesArgs_of_closed hClosed] at hOccurs
      exact List.map_eq_nil_iff.mp hOccurs.symm
    subst hNil
    have hValues :=
      hReads.subst (f := fun v => some (.var v))
        (by simp [Cell.Stand])
    rw [Term.map_subst_of_closed _ hClosed] at hValues
    have hOutcome :=
      Term.outcome_combine_congr c hValues
    rw [hWhole, hCombine] at hOutcome
    cases hAssemble : Term.assemble? c values with
    | none => simp [hAssemble, outcome] at hOutcome
    | some u =>
        rcases Term.assemble?_eq_some hAssemble with
          ⟨hOpen', _⟩ | ⟨h, _, hBuild, rfl⟩
        · rw [hClosed] at hOpen'
          cases hOpen'
        · have hSame : h.same g = true := by
            apply (Ground.same_iff h g).mpr
            simpa [hAssemble, outcome, Term.canonical]
              using hOutcome
          refine ⟨.ground h, ?_, Ground.kind_of_build hBuild,
            Reads.ground hSame⟩
          rw [hCombine, hAssemble]
          rfl

/-
  A template of a statement becomes the statement where its
  variables are bound to their parts.
-/
theorem Reads.exists_statementOf
    {t : Term}
    {s : Statement}
    {cells : List Cell}
    {θ : Bindings}
    (h : Reads (some t) (some (.statement s)) cells)
    (hStand : Cell.Stand θ.value cells)
    (hKinds :
      ∀ cell ∈ cells, ∀ u, θ.value cell.1 = some u →
        (∃ g, u = .ground g) ∧ u.kind ≤ cell.1.kind) :
    ∃ s',
      CompiledQuery.statementOf t θ = .ok s' ∧
        s'.same s = true := by
  have hFits :
      ∀ v ∈ t.occurrences,
        Side.Fits (fun _ => none) v.kind (θ.value v) := by
    intro v hv u hu
    have hMem : v ∈ cells.map Prod.fst := by
      rw [← h.occurrences]
      exact hv
    rcases List.mem_map.mp hMem with ⟨cell, hCell, rfl⟩
    rcases hKinds cell hCell u hu with ⟨⟨g, rfl⟩, hKind⟩
    exact ⟨hKind, Term.wellKinded_ground _ g⟩
  have hSubst :
      (t.instantiateWith .plain θ).toOption = t.subst θ.value :=
    Term.instantiateWith_eq_subst rfl (h.shaped t rfl) hFits
  have hOutcome :
      outcome (t.subst θ.value) =
        outcome (some (some (.ground (.statement s)))) :=
    h.subst θ.value hStand
  rw [← hSubst] at hOutcome
  cases hPlain : t.instantiateWith .plain θ with
  | error e => simp [hPlain, Except.toOption, outcome] at hOutcome
  | ok side =>
      rw [hPlain] at hOutcome
      cases side with
      | none => simp [Except.toOption, outcome] at hOutcome
      | some u =>
          have hCanonical :
              u.canonical =
                (Term.ground (.statement s)).canonical := by
            simpa [Except.toOption, outcome] using hOutcome
          have hSame := (Term.same_iff _ _).mpr hCanonical
          cases u with
          | var v => cases hSame
          | app c args => cases hSame
          | ground g =>
              cases g with
              | value v => cases hSame
              | snak n => cases hSame
              | statement s' =>
                  refine ⟨s', ?_, hSame⟩
                  have hExact :=
                    Term.instantiateWith_exact (h.solid t rfl)
                      hPlain
                  simp [CompiledQuery.statementOf, hExact]

end Side

end StatementQuery
