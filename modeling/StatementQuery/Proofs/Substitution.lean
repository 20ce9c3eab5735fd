import StatementQuery.Proofs.Construction
import StatementQuery.Unify

/-
  Substitution, the meaning of instantiation.

  Every variable stands for a side.  Replacing the variables
  of a term gives a side or fails, and what it gives depends
  on the sides up to canonical form only.  A substitution that
  has absorbed another gives the same result before and after
  the other is applied.

  Key definitions include:
    * `Term.gather`
    * `Term.combine`
    * `Term.subst`
    * `Side.Fits`
    * `Bindings.value`

  Main declarations:
    * `Term.instantiateWith_eq_subst`
    * `Term.fits_subst`
    * `Term.outcome_subst_congr`
    * `Term.outcome_subst_absorb`
-/

------------------------------------------------------------
-- Combining The Results Of Arguments
------------------------------------------------------------

namespace StatementQuery

/- A result up to the spelling of its numbers. -/
def outcome (r : Option Side) : Option Side :=
  r.map (Option.map Term.canonical)

namespace Term

/-
  The values of arguments, from the left.  The first argument
  that fails, or is absent from a required slot, decides.
-/
def gather :
    List Slot → List (Option Side) →
      Option (Option (List Side))
| _ :: _, none :: _ => none
| slot :: slots, some value :: results =>
    if value.isNone && !slot.isOptional then some none
    else (gather slots results).map (Option.map (value :: ·))
| _, _ => some (some [])

/- The result for an application from those for its arguments. -/
def combine
    (c : Constructor)
    (results : List (Option Side)) :
    Option Side :=
  match gather c.slots results with
  | none => none
  | some none => some none
  | some (some values) => (assemble? c values).map some

/- An argument that may stand in a slot. -/
def Fills (slot : Slot) (value : Side) : Prop :=
  value = none → slot.isOptional = true

/- All but an absent argument of a required slot may. -/
theorem fills_iff
    {slot : Slot}
    {value : Side} :
    Fills slot value ↔
      (value.isNone && !slot.isOptional) = false := by
  cases value <;> simp [Fills]

/- Arguments are gathered when each of them has its place. -/
theorem gather_of_fills
    {slots : List Slot}
    {values : List Side}
    (h : List.Forall₂ Fills slots values) :
    gather slots (values.map some) = some (some values) := by
  induction h with
  | nil => rfl
  | @cons slot value slots values hHead hTail ih =>
      simp [gather, fills_iff.mp hHead, ih]

/- Arguments are absent because one of them is. -/
theorem absent_mem_of_gather
    {slots : List Slot}
    {results : List (Option Side)}
    (h : gather slots results = some none) :
    some none ∈ results := by
  fun_induction gather slots results with
  | case1 => cases h
  | case2 slot slots value results hAbsent =>
      simp only [Bool.and_eq_true, Option.isNone_iff_eq_none]
        at hAbsent
      simp [hAbsent.1]
  | case3 slot slots value results hPresent ih =>
      rcases Option.map_eq_some_iff.mp h with
        ⟨gathered, hGathered, hEq⟩
      have hNone : gathered = none := by simpa using hEq
      exact List.mem_cons_of_mem _ (ih (hNone ▸ hGathered))
  | case4 => cases h

/- Gathered arguments have no failure and fill their slots. -/
theorem fills_of_gather
    {slots : List Slot}
    {results : List (Option Side)}
    {values : List Side}
    (hLength : slots.length = results.length)
    (h : gather slots results = some (some values)) :
    results = values.map some ∧
      List.Forall₂ Fills slots values := by
  fun_induction gather slots results generalizing values with
  | case1 => simp at h
  | case2 => simp at h
  | case3 slot slots value results hPresent ih =>
      rcases Option.map_eq_some_iff.mp h with
        ⟨gathered, hGathered, hEq⟩
      rcases Option.map_eq_some_iff.mp hEq with
        ⟨rest, rfl, rfl⟩
      rcases ih (by simpa using hLength) hGathered with
        ⟨hResults, hFills⟩
      refine ⟨by simp [hResults], .cons ?_ hFills⟩
      exact fills_iff.mpr (Bool.eq_false_iff.mpr hPresent)
  | case4 slots results hHead hTail =>
      cases slots with
      | nil =>
          cases results with
          | nil =>
              cases h
              exact ⟨rfl, .nil⟩
          | cons r results => simp at hLength
      | cons slot slots =>
          cases results with
          | nil => simp at hLength
          | cons r results =>
              cases r with
              | none => exact absurd rfl (hHead _ _ _ rfl)
              | some value =>
                  exact absurd rfl (hTail _ _ _ _ rfl)

/- A result is absent, or assembled from gathered values. -/
theorem combine_eq_some
    {c : Constructor}
    {results : List (Option Side)}
    {r : Side}
    (hLength : c.slots.length = results.length)
    (h : combine c results = some r) :
    (r = none ∧ gather c.slots results = some none) ∨
      ∃ values t,
        results = values.map some ∧
          List.Forall₂ Fills c.slots values ∧
          assemble? c values = some t ∧
          r = some t := by
  unfold combine at h
  split at h
  · simp at h
  · rename_i hGather
    cases h
    exact Or.inl ⟨rfl, hGather⟩
  · rename_i values hGather
    rcases Option.map_eq_some_iff.mp h with ⟨t, ht, rfl⟩
    rcases fills_of_gather hLength hGather with
      ⟨hResults, hFills⟩
    exact Or.inr ⟨values, t, hResults, hFills, ht, rfl⟩

/- What is assembled is open, or ground as its arguments are. -/
theorem assemble?_eq_some
    {c : Constructor}
    {values : List Side}
    {t : Term}
    (h : assemble? c values = some t) :
    (values.any isOpenArg = true ∧ t = .app c values) ∨
      ∃ g,
        values.any isOpenArg = false ∧
          Ground.build c (values.map groundArg) = .ok g ∧
          t = .ground g := by
  unfold assemble? at h
  split at h
  · rename_i hOpen
    cases h
    exact Or.inl ⟨hOpen, rfl⟩
  · rename_i hOpen
    rcases Option.map_eq_some_iff.mp h with ⟨g, hg, rfl⟩
    cases hBuild : Ground.build c (values.map groundArg) with
    | error e => simp [hBuild, Except.toOption] at hg
    | ok g' =>
        simp only [hBuild, Except.toOption,
          Option.some.injEq] at hg
        exact Or.inr ⟨g', by simpa using hOpen, rfl, by rw [hg]⟩

end Term

end StatementQuery

------------------------------------------------------------
-- Results Up To Canonical Form
------------------------------------------------------------

namespace StatementQuery

/- A result without numbers to respell is its own outcome. -/
@[simp] theorem outcome_none :
    outcome none = none :=
  rfl

@[simp] theorem outcome_absent :
    outcome (some none) = some none :=
  rfl

/- A result is absent when its outcome is. -/
theorem outcome_eq_absent_iff
    {r : Option Side} :
    outcome r = some none ↔ r = some none := by
  rcases r with _ | _ | t <;> simp [outcome]

namespace Term

/- The ground part of an argument in canonical form. -/
theorem groundArg_map_canonical
    (arg : Option Term) :
    groundArg (arg.map canonical) =
      (groundArg arg).map Ground.canonical := by
  rcases arg with _ | (g | v | ⟨c, args⟩) <;> rfl

/- What is assembled depends on the canonical forms only. -/
theorem assemble?_canonical
    (c : Constructor)
    (values : List Side) :
    (assemble? c (values.map (Option.map canonical))).map
        canonical =
      (assemble? c values).map canonical := by
  have hOpen :
      (values.map (Option.map canonical)).any isOpenArg =
        values.any isOpenArg := by
    simp [List.any_map, Function.comp_def]
  unfold assemble?
  rw [hOpen]
  split
  · simp [canonical, canonicalArgs_eq_map, Function.comp_def]
  · have hGround :
        (values.map (Option.map canonical)).map groundArg =
          (values.map groundArg).map
            (Option.map Ground.canonical) := by
      simp [groundArg_map_canonical]
    rw [hGround, Option.map_map, Option.map_map]
    have hBuild :=
      Ground.build_canonical c (values.map groundArg)
    have hEq := congrArg (Option.map Term.ground) hBuild
    simpa [Function.comp_def, canonical] using hEq

/- Mapped results give mapped values. -/
theorem gather_map
    (m : Term → Term)
    (slots : List Slot)
    (results : List (Option Side)) :
    gather slots (results.map (Option.map (Option.map m))) =
      (gather slots results).map
        (Option.map (List.map (Option.map m))) := by
  fun_induction gather slots results with
  | case1 => rfl
  | case2 slot slots value results hAbsent =>
      simp_all [gather]
  | case3 slot slots value results hPresent ih =>
      have hPresent' :
          ((value.map m).isNone && !slot.isOptional) = false := by
        simpa using hPresent
      simp only [List.map_cons, Option.map_some, gather,
        hPresent', Bool.false_eq_true, if_false]
      rw [ih]
      simp [Function.comp_def]
  | case4 slots results hHead hTail =>
      cases slots with
      | nil => simp [gather]
      | cons slot slots =>
          cases results with
          | nil => simp [gather]
          | cons r results =>
              cases r with
              | none => exact absurd rfl (hHead _ _ _ rfl)
              | some value =>
                  exact absurd rfl (hTail _ _ _ _ rfl)

/- Results that agree are combined to results that agree. -/
theorem outcome_combine_congr
    (c : Constructor)
    {results results' : List (Option Side)}
    (h : results.map outcome = results'.map outcome) :
    outcome (combine c results) =
      outcome (combine c results') := by
  have hCanonical :
      ∀ rs : List (Option Side),
        outcome (combine c (rs.map outcome)) =
          outcome (combine c rs) := by
    intro rs
    have hGather :
        gather c.slots (rs.map outcome) =
          (gather c.slots rs).map
            (Option.map (List.map (Option.map canonical))) :=
      gather_map canonical c.slots rs
    unfold combine
    rw [hGather]
    rcases gather c.slots rs with _ | _ | values
    · rfl
    · rfl
    · have hAssemble := assemble?_canonical c values
      have hEq := congrArg (Option.map some) hAssemble
      simpa [outcome, Function.comp_def] using hEq
  rw [← hCanonical results, h, hCanonical results']

end Term

end StatementQuery

------------------------------------------------------------
-- Substitution
------------------------------------------------------------

namespace StatementQuery

namespace Term

mutual

/- Replace every variable of a term by a side. -/
def subst (f : Variable → Side) : Term → Option Side
| .ground g => some (some (.ground g))
| .var v => some (f v)
| .app c args => combine c (substArgs f args)

/- Replace every variable of arguments by a side. -/
def substArgs
    (f : Variable → Side) :
    List (Option Term) → List (Option Side)
| [] => []
| none :: args => some none :: substArgs f args
| some t :: args => t.subst f :: substArgs f args

end

end Term

/- Replace every variable of a side; absence stays. -/
def Side.subst (f : Variable → Side) : Side → Option Side
| none => some none
| some t => t.subst f

namespace Term

/- Variables are replaced in one argument after the other. -/
theorem substArgs_eq_map
    (f : Variable → Side)
    (args : List (Option Term)) :
    substArgs f args = args.map (Side.subst f) := by
  induction args with
  | nil => rfl
  | cons arg args ih =>
      cases arg with
      | none => simp [substArgs, Side.subst, ih]
      | some t => simp [substArgs, Side.subst, ih]

/- A substitution acts on an application through its arguments. -/
theorem subst_app
    (f : Variable → Side)
    (c : Constructor)
    (args : List (Option Term)) :
    (Term.app c args).subst f =
      combine c (args.map (Side.subst f)) := by
  rw [subst, substArgs_eq_map]

end Term

namespace Side

/-
  A side for a variable of kind `k`: absent, or a term of that
  kind with the given kinds for its names.
-/
def Fits (κ : Kinding) (k : Kind) (s : Side) : Prop :=
  ∀ t, s = some t → t.kind ≤ k ∧ t.WellKinded κ

/- A side that fits a kind fits the kinds above it. -/
theorem Fits.mono
    {κ : Kinding}
    {k l : Kind}
    {s : Side}
    (h : Fits κ k s)
    (hLe : k ≤ l) :
    Fits κ l s := by
  intro t ht
  exact ⟨le_trans (h t ht).1 hLe, (h t ht).2⟩

/- An absent side fits every kind. -/
theorem fits_none
    (κ : Kinding)
    (k : Kind) :
    Fits κ k none := by
  intro t ht
  cases ht

/- A well-kinded term fits its own kind. -/
theorem fits_some
    {κ : Kinding}
    {t : Term}
    (h : t.WellKinded κ) :
    Fits κ t.kind (some t) := by
  intro u hu
  cases hu
  exact ⟨le_refl t.kind, h⟩

end Side

end StatementQuery

------------------------------------------------------------
-- The Kind Of A Result
------------------------------------------------------------

namespace StatementQuery

namespace Term

/- What is assembled from fitting arguments is well kinded. -/
theorem fits_assemble?
    {κ : Kinding}
    {c : Constructor}
    {values : List Side}
    {t : Term}
    (hSlots : List.Forall₂ Slot.Admits c.slots values)
    (hValues : ∀ u, some u ∈ values → u.WellKinded κ)
    (h : assemble? c values = some t) :
    Side.Fits κ c.kind (some t) := by
  rcases assemble?_eq_some h with
    ⟨hOpen, rfl⟩ | ⟨g, _, hBuild, rfl⟩
  · exact Side.fits_some
      (wellKinded_app_iff.mpr ⟨hSlots, hOpen, hValues⟩)
  · rw [← Ground.kind_of_build hBuild]
    exact Side.fits_some (wellKinded_ground κ g)

/- A value is the result of one of the arguments. -/
theorem exists_arg_of_mem_values
    {f : Variable → Side}
    {args : List (Option Term)}
    {values : List Side}
    (hValues : args.map (Side.subst f) = values.map some)
    {u : Term}
    (hu : some u ∈ values) :
    ∃ t, some t ∈ args ∧ t.subst f = some (some u) := by
  have hMem : some (some u) ∈ args.map (Side.subst f) := by
    rw [hValues]
    exact List.mem_map.mpr ⟨some u, hu, rfl⟩
  rcases List.mem_map.mp hMem with ⟨arg, hArg, hEq⟩
  cases arg with
  | none => simp [Side.subst] at hEq
  | some t => exact ⟨t, hArg, hEq⟩

/- Results that are of the kinds of arguments are admitted. -/
theorem admits_values
    {f : Variable → Side}
    {slots : List Slot}
    {args : List (Option Term)}
    {values : List Side}
    (hSlots : List.Forall₂ Slot.Admits slots args)
    (hValues : args.map (Side.subst f) = values.map some)
    (hFills : List.Forall₂ Fills slots values)
    (hKinds :
      ∀ t, some t ∈ args → ∀ u,
        t.subst f = some (some u) → u.kind ≤ t.kind) :
    List.Forall₂ Slot.Admits slots values := by
  induction hSlots generalizing values with
  | nil =>
      cases hFills
      exact .nil
  | @cons slot arg slots args hHead hTail ih =>
      rcases hFills with _ | @⟨_, value, _, values, hFill, hFills⟩
      simp only [List.map_cons, List.cons.injEq] at hValues
      have hRest :
          ∀ t, some t ∈ args → ∀ u,
            t.subst f = some (some u) → u.kind ≤ t.kind := by
        intro t ht
        exact hKinds t (by simp [ht])
      refine .cons ?_ (ih hValues.2 hFills hRest)
      cases value with
      | none => exact hFill rfl
      | some u =>
          cases arg with
          | none => simp [Side.subst] at hValues
          | some t =>
              exact le_trans
                (hKinds t (by simp) u hValues.1) hHead

/- Substitution of fitting sides gives fitting sides. -/
theorem fits_subst
    {κ : Kinding}
    {f : Variable → Side}
    {t : Term}
    {r : Side}
    (hShaped : t.WellShaped)
    (hf : ∀ v ∈ t.occurrences, Side.Fits κ v.kind (f v))
    (h : t.subst f = some r) :
    Side.Fits κ t.kind r := by
  induction t generalizing r with
  | ground g =>
      cases h
      exact Side.fits_some (wellKinded_ground κ g)
  | var v =>
      cases h
      exact hf v (by simp [occurrences])
  | app c args ih =>
      rcases hShaped with _ | _ | ⟨hSlots, _, hArgs⟩
      have hFits :
          ∀ t, some t ∈ args → ∀ u,
            t.subst f = some (some u) →
              u.kind ≤ t.kind ∧ u.WellKinded κ := by
        intro t ht u hu
        refine ih t ht (hArgs t ht) ?_ hu u rfl
        intro v hv
        apply hf
        exact (mem_occurrences_app v c args).mpr ⟨t, ht, hv⟩
      rw [subst_app] at h
      have hLength :
          c.slots.length =
            (args.map (Side.subst f)).length := by
        simpa using hSlots.length_eq
      rcases combine_eq_some hLength h with
        ⟨rfl, _⟩ | ⟨values, u, hValues, hFills, hu, rfl⟩
      · exact Side.fits_none κ c.kind
      · apply fits_assemble? _ _ hu
        · apply admits_values hSlots hValues hFills
          intro t ht w hw
          exact (hFits t ht w hw).1
        · intro w hw
          rcases exists_arg_of_mem_values hValues hw with
            ⟨t, ht, htw⟩
          exact (hFits t ht w htw).2

/- Values of fitting arguments fit the slots in their turn. -/
theorem fits_values
    {κ : Kinding}
    {f : Variable → Side}
    {slots : List Slot}
    {args : List (Option Term)}
    {values : List Side}
    (hSlots : List.Forall₂ Slot.Admits slots args)
    (hArgs : ∀ t, some t ∈ args → t.WellShaped)
    (hf :
      ∀ t, some t ∈ args → ∀ v ∈ t.occurrences,
        Side.Fits κ v.kind (f v))
    (hValues : args.map (Side.subst f) = values.map some)
    (hFills : List.Forall₂ Fills slots values) :
    List.Forall₂ Slot.Admits slots values ∧
      ∀ u, some u ∈ values → u.WellKinded κ := by
  have hFits :
      ∀ t, some t ∈ args → ∀ u,
        t.subst f = some (some u) →
          u.kind ≤ t.kind ∧ u.WellKinded κ := by
    intro t ht u hu
    exact fits_subst (hArgs t ht) (hf t ht) hu u rfl
  constructor
  · apply admits_values hSlots hValues hFills
    intro t ht u hu
    exact (hFits t ht u hu).1
  · intro u hu
    rcases exists_arg_of_mem_values hValues hu with
      ⟨t, ht, htu⟩
    exact (hFits t ht u htu).2

/- The variables of a result come from what is substituted. -/
theorem exists_of_mem_occurrences_subst
    {f : Variable → Side}
    {t u : Term}
    {w : Variable}
    (hShaped : t.WellShaped)
    (h : t.subst f = some (some u))
    (hw : w ∈ u.occurrences) :
    ∃ v ∈ t.occurrences, w ∈ Side.occurrences (f v) := by
  induction t generalizing u with
  | ground g =>
      cases h
      simp [occurrences] at hw
  | var v =>
      refine ⟨v, by simp [occurrences], ?_⟩
      have hv : f v = some u := by simpa [subst] using h
      simpa [hv, Side.occurrences] using hw
  | app c args ih =>
      rcases hShaped with _ | _ | ⟨hSlots, _, hArgs⟩
      rw [subst_app] at h
      have hLength :
          c.slots.length =
            (args.map (Side.subst f)).length := by
        simpa using hSlots.length_eq
      rcases combine_eq_some hLength h with
        ⟨hAbsent, _⟩ | ⟨values, t, hValues, _, ht, hEq⟩
      · simp at hAbsent
      · cases hEq
        rcases assemble?_eq_some ht with ⟨_, rfl⟩ | ⟨g, _, _, rfl⟩
        · rcases (mem_occurrences_app w c values).mp hw with
            ⟨x, hx, hw⟩
          rcases exists_arg_of_mem_values hValues hx with
            ⟨a, ha, hax⟩
          rcases ih a ha (hArgs a ha) hax hw with ⟨v, hv, hwv⟩
          exact
            ⟨v, (mem_occurrences_app v c args).mpr ⟨a, ha, hv⟩,
              hwv⟩
        · simp [occurrences] at hw

end Term

end StatementQuery

------------------------------------------------------------
-- Substitutions That Cannot Fail
------------------------------------------------------------

namespace StatementQuery

/- No term of the kind has a time in it. -/
def Kind.Timeless (k : Kind) : Prop :=
  k ≤ .entity ∨ k ≤ .iri ∨ k ≤ .string ∨ k ≤ .quantity

instance : DecidablePred Kind.Timeless := fun k =>
  inferInstanceAs
    (Decidable
      (k ≤ .entity ∨ k ≤ .iri ∨ k ≤ .string ∨ k ≤ .quantity))

/- Narrower kinds are timeless as well. -/
theorem Kind.Timeless.mono
    {k l : Kind}
    (h : l.Timeless)
    (hLe : k ≤ l) :
    k.Timeless := by
  rcases h with h | h | h | h
  · exact Or.inl (le_trans hLe h)
  · exact Or.inr (Or.inl (le_trans hLe h))
  · exact Or.inr (Or.inr (Or.inl (le_trans hLe h)))
  · exact Or.inr (Or.inr (Or.inr (le_trans hLe h)))

namespace Constructor

/- A time is not of a timeless kind. -/
theorem ne_time_of_timeless
    {c : Constructor}
    (h : c.kind.Timeless) :
    c ≠ .time := by
  rintro rfl
  revert h
  decide

/- What is timeless has timeless parts. -/
theorem timeless_slot
    {c : Constructor}
    (h : c.kind.Timeless)
    {slot : Slot}
    (hSlot : slot ∈ c.slots) :
    slot.kind.Timeless := by
  have hAll : ∀ slot ∈ c.slots, slot.kind.Timeless := by
    cases c with
    | iri | text | quantity => decide
    | entity k => cases k <;> decide
    | _ => all_goals exact absurd h (by decide)
  exact hAll slot hSlot

/- Every part that may be absent is timeless. -/
theorem timeless_of_isOptional
    {c : Constructor}
    {slot : Slot}
    (hSlot : slot ∈ c.slots)
    (h : slot.isOptional = true) :
    slot.kind.Timeless := by
  have hAll :
      ∀ slot ∈ c.slots,
        slot.isOptional = true → slot.kind.Timeless := by
    cases c with
    | entity k => cases k <;> decide
    | _ => all_goals decide
  exact hAll slot hSlot h

end Constructor

namespace Term

/- Every constructor of a term has a property. -/
inductive Over (P : Constructor → Prop) : Term → Prop where
| ground (g : Ground) : Over P (.ground g)
| var (v : Variable) : Over P (.var v)
| app
    {c : Constructor}
    {args : List (Option Term)}
    (hHead : P c)
    (hArgs : ∀ t, some t ∈ args → Over P t) :
    Over P (.app c args)

/- A weaker property holds as well. -/
theorem Over.imp
    {P Q : Constructor → Prop}
    {t : Term}
    (h : t.Over P)
    (hPQ : ∀ c, P c → Q c) :
    t.Over Q := by
  induction h with
  | ground g => exact .ground g
  | var v => exact .var v
  | app hHead _ ih => exact .app (hPQ _ hHead) ih

/- Arguments that are not open are ground or absent. -/
theorem map_ground_map_groundArg
    {values : List Side}
    (h : values.any isOpenArg = false) :
    (values.map groundArg).map (Option.map Term.ground) =
      values := by
  rw [List.map_map]
  refine Eq.trans ?_ (List.map_id values)
  apply List.map_congr_left
  intro value hValue
  have hClosed : isOpenArg value = false := by
    simpa using List.any_eq_false.mp h value hValue
  rcases value with _ | (g | v | ⟨c, args⟩)
  · rfl
  · rfl
  · simp [isOpenArg, isGround] at hClosed
  · simp [isOpenArg, isGround] at hClosed

/- Arguments of which none fails are gathered or absent. -/
theorem gather_map_some
    (slots : List Slot)
    (values : List Side) :
    gather slots (values.map some) ≠ none := by
  induction values generalizing slots with
  | nil => cases slots <;> simp [gather]
  | cons value values ih =>
      cases slots with
      | nil => simp [gather]
      | cons slot slots =>
          simp only [List.map_cons, gather]
          split
          · simp
          · simpa using ih slots

/- Results of which none fails are all values. -/
theorem exists_values
    {results : List (Option Side)}
    (h : ∀ r ∈ results, r ≠ none) :
    ∃ values : List Side, results = values.map some := by
  induction results with
  | nil => exact ⟨[], rfl⟩
  | cons r results ih =>
      rcases ih fun r' hr' => h r' (by simp [hr']) with
        ⟨values, rfl⟩
      rcases Option.ne_none_iff_exists'.mp (h r (by simp)) with
        ⟨value, rfl⟩
      exact ⟨value :: values, rfl⟩

/- Only building a time can make a substitution fail. -/
theorem subst_ne_none
    {κ : Kinding}
    {f : Variable → Side}
    {t : Term}
    (hShaped : t.WellShaped)
    (hOver : t.Over (· ≠ .time))
    (hf : ∀ v ∈ t.occurrences, Side.Fits κ v.kind (f v)) :
    t.subst f ≠ none := by
  induction t with
  | ground g => simp [subst]
  | var v => simp [subst]
  | app c args ih =>
      rcases hShaped with _ | _ | ⟨hSlots, hOpen, hArgs⟩
      rcases hOver with _ | _ | ⟨hHead, hRest⟩
      have hFits :
          ∀ t, some t ∈ args → ∀ v ∈ t.occurrences,
            Side.Fits κ v.kind (f v) := by
        intro t ht v hv
        apply hf
        exact (mem_occurrences_app v c args).mpr ⟨t, ht, hv⟩
      have hResults :
          ∀ r ∈ args.map (Side.subst f), r ≠ none := by
        intro r hr
        rcases List.mem_map.mp hr with ⟨arg, hArg, rfl⟩
        cases arg with
        | none => simp [Side.subst]
        | some t =>
            exact ih t hArg (hArgs t hArg) (hRest t hArg)
              (hFits t hArg)
      rcases exists_values hResults with ⟨values, hValues⟩
      rw [subst_app, combine, hValues]
      split
      · rename_i hGather
        exact absurd hGather (gather_map_some c.slots values)
      · simp
      · rename_i gathered hGather
        have hLength : c.slots.length = (values.map some).length := by
          rw [← hValues]
          simpa using hSlots.length_eq
        rcases fills_of_gather hLength hGather with
          ⟨hEq, hFills⟩
        rw [← hValues] at hEq
        have hAdmits :=
          (fits_values hSlots hArgs hFits hEq hFills).1
        cases hClosed : gathered.any isOpenArg with
        | true => simp [assemble?, hClosed]
        | false =>
            rw [← map_ground_map_groundArg hClosed] at hAdmits
            rcases Ground.exists_build hHead hAdmits with ⟨g, hg⟩
            simp [assemble?, hClosed, hg, Except.toOption]

/- A present argument stands in a slot that admits it. -/
theorem exists_slot_of_mem
    {slots : List Slot}
    {args : List (Option Term)}
    (hSlots : List.Forall₂ Slot.Admits slots args)
    {t : Term}
    (ht : some t ∈ args) :
    ∃ slot ∈ slots, t.kind ≤ slot.kind := by
  induction hSlots with
  | nil => simp at ht
  | @cons slot arg slots args hHead hTail ih =>
      rcases List.mem_cons.mp ht with rfl | hRest
      · exact ⟨slot, by simp, hHead⟩
      · rcases ih hRest with ⟨later, hLater, hKind⟩
        exact ⟨later, by simp [hLater], hKind⟩

/- Terms of a timeless kind are made without any time. -/
theorem over_of_timeless
    {t : Term}
    (hShaped : t.WellShaped)
    (hKind : t.kind.Timeless) :
    t.Over (· ≠ .time) := by
  induction t with
  | ground g => exact .ground g
  | var v => exact .var v
  | app c args ih =>
      rcases hShaped with _ | _ | ⟨hSlots, _, hArgs⟩
      refine .app (Constructor.ne_time_of_timeless hKind) ?_
      intro t ht
      rcases exists_slot_of_mem hSlots ht with
        ⟨slot, hSlot, hLe⟩
      exact ih t ht (hArgs t ht)
        ((Constructor.timeless_slot hKind hSlot).mono hLe)

/- The variables in a term of a timeless kind are so, too. -/
theorem timeless_of_mem_occurrences
    {t : Term}
    (hShaped : t.WellShaped)
    (hKind : t.kind.Timeless)
    {v : Variable}
    (hv : v ∈ t.occurrences) :
    v.kind.Timeless := by
  induction t with
  | ground g => simp [occurrences] at hv
  | var w =>
      have hEq : v = w := by simpa [occurrences] using hv
      rw [hEq]
      exact hKind
  | app c args ih =>
      rcases hShaped with _ | _ | ⟨hSlots, _, hArgs⟩
      rcases (mem_occurrences_app v c args).mp hv with
        ⟨t, ht, hv⟩
      rcases exists_slot_of_mem hSlots ht with
        ⟨slot, hSlot, hLe⟩
      exact ih t ht (hArgs t ht)
        ((Constructor.timeless_slot hKind hSlot).mono hLe) hv

end Term

end StatementQuery

------------------------------------------------------------
-- Absorbing A Substitution
------------------------------------------------------------

namespace StatementQuery

namespace Term

/- Substitution sees a term up to canonical form only. -/
theorem outcome_subst_canonical
    (f : Variable → Side)
    (t : Term) :
    outcome (t.canonical.subst f) = outcome (t.subst f) := by
  induction t with
  | ground g => simp [canonical, subst, outcome]
  | var v => rfl
  | app c args ih =>
      rw [canonical, canonicalArgs_eq_map, subst_app, subst_app]
      apply outcome_combine_congr
      rw [List.map_map, List.map_map, List.map_map]
      apply List.map_congr_left
      intro arg hArg
      cases arg with
      | none => rfl
      | some t => exact ih t hArg

/- Terms that are the same have the same instances. -/
theorem outcome_subst_congr
    (f : Variable → Side)
    {s t : Side}
    (h : sameOption s t = true) :
    outcome (Side.subst f s) = outcome (Side.subst f t) := by
  have hEq := (sameOption_iff s t).mp h
  cases s with
  | none =>
      cases t with
      | none => rfl
      | some t => simp at hEq
  | some s =>
      cases t with
      | none => simp at hEq
      | some t =>
          simp only [Option.map_some, Option.some.injEq] at hEq
          simp only [Side.subst]
          rw [← outcome_subst_canonical f s, hEq,
            outcome_subst_canonical f t]

/- Substitution sees the variables of a term only. -/
theorem subst_congr
    {f g : Variable → Side}
    {t : Term}
    (h : ∀ v ∈ t.occurrences, f v = g v) :
    t.subst f = t.subst g := by
  induction t with
  | ground x => rfl
  | var v => rw [subst, subst, h v (by simp [occurrences])]
  | app c args ih =>
      rw [subst_app, subst_app]
      congr 1
      apply List.map_congr_left
      intro arg hArg
      cases arg with
      | none => rfl
      | some t =>
          apply ih t hArg
          intro v hv
          apply h
          exact (mem_occurrences_app v c args).mpr ⟨t, hArg, hv⟩

/- Variables that stand for themselves leave a term alone. -/
theorem subst_eq_self
    {f : Variable → Side}
    {t : Term}
    (hShaped : t.WellShaped)
    (hf : ∀ v ∈ t.occurrences, f v = some (.var v)) :
    t.subst f = some (some t) := by
  induction t with
  | ground g => rfl
  | var v => simp [subst, hf v (by simp [occurrences])]
  | app c args ih =>
      rcases hShaped with _ | _ | ⟨hSlots, hOpen, hArgs⟩
      have hEq : args.map (Side.subst f) = args.map some := by
        apply List.map_congr_left
        intro arg hArg
        cases arg with
        | none => rfl
        | some t =>
            refine ih t hArg (hArgs t hArg) ?_
            intro v hv
            apply hf
            exact (mem_occurrences_app v c args).mpr
              ⟨t, hArg, hv⟩
      have hFills : List.Forall₂ Fills c.slots args := by
        refine hSlots.imp ?_
        rintro slot arg hAdmits rfl
        exact hAdmits
      simp [subst_app, combine, hEq, gather_of_fills hFills,
        assemble?, hOpen]

/- Before a required slot there is no time. -/
theorem pairwise_slots
    (c : Constructor) :
    c.slots.Pairwise fun slot later =>
      later.isOptional = false → slot.kind.Timeless := by
  cases c <;>
    simp only [Constructor.slots, Slot.required, Slot.optional] <;>
    decide

/- An absent argument can only be missed in a required slot. -/
theorem exists_required_of_gather
    {slots : List Slot}
    {results : List (Option Side)}
    (h : gather slots results = some none) :
    ∃ slot ∈ slots, slot.isOptional = false := by
  fun_induction gather slots results with
  | case1 => simp at h
  | case2 slot slots value results hAbsent =>
      refine ⟨slot, by simp, ?_⟩
      simp only [Bool.and_eq_true] at hAbsent
      simpa using hAbsent.2
  | case3 slot slots value results hPresent ih =>
      rcases Option.map_eq_some_iff.mp h with
        ⟨gathered, hGathered, hEq⟩
      have hNone : gathered = none := by simpa using hEq
      rcases ih (hNone ▸ hGathered) with ⟨later, hLater, hReq⟩
      exact ⟨later, by simp [hLater], hReq⟩
  | case4 => simp at h

/- An argument in front of a required one cannot fail. -/
theorem subst_ne_none_of_safe
    {κ : Kinding}
    {f : Variable → Side}
    {slot : Slot}
    {arg : Option Term}
    (hSafe : slot.kind.Timeless)
    (hAdmits : slot.Admits arg)
    (hShaped : ∀ t, arg = some t → t.WellShaped)
    (hf :
      ∀ t, arg = some t → ∀ v ∈ t.occurrences,
        Side.Fits κ v.kind (f v)) :
    Side.subst f arg ≠ none := by
  cases arg with
  | none => simp [Side.subst]
  | some t =>
      have hKind : t.kind ≤ slot.kind := hAdmits
      exact subst_ne_none (hShaped t rfl)
        (over_of_timeless (hShaped t rfl) (hSafe.mono hKind))
        (hf t rfl)

/- Arguments that went absent stay absent. -/
theorem gather_absorb_absent
    {κ : Kinding}
    {f g : Variable → Side}
    {slots : List Slot}
    {args : List (Option Term)}
    (hSafe :
      slots.Pairwise fun slot later =>
        later.isOptional = false → slot.kind.Timeless)
    (hSlots : List.Forall₂ Slot.Admits slots args)
    (hShaped : ∀ t, some t ∈ args → t.WellShaped)
    (hf :
      ∀ t, some t ∈ args → ∀ v ∈ t.occurrences,
        Side.Fits κ v.kind (f v))
    (hSame :
      ∀ arg ∈ args, ∀ r, Side.subst g arg = some r →
        outcome (Side.subst f r) =
          outcome (Side.subst f arg))
    (h : gather slots (args.map (Side.subst g)) = some none) :
    gather slots (args.map (Side.subst f)) = some none := by
  induction hSlots with
  | nil => simp [gather] at h
  | @cons slot arg slots args hHead hTail ih =>
      rcases List.pairwise_cons.mp hSafe with
        ⟨hFirst, hSafe⟩
      have hRest :
          gather slots (args.map (Side.subst g)) = some none →
            gather slots (args.map (Side.subst f)) =
              some none := by
        intro hGather
        apply ih hSafe _ _ _ hGather
        · intro t ht
          exact hShaped t (by simp [ht])
        · intro t ht
          exact hf t (by simp [ht])
        · intro a ha
          exact hSame a (by simp [ha])
      cases hResult : Side.subst g arg with
      | none => simp [gather, hResult] at h
      | some value =>
          simp only [List.map_cons, hResult, gather] at h
          split at h
          · -- The argument itself is absent, under `f` as well.
            rename_i hAbsent
            simp only [Bool.and_eq_true] at hAbsent
            have hValue : value = none := by
              simpa using hAbsent.1
            subst hValue
            have hEq := hSame arg (by simp) none hResult
            have hNone : Side.subst f arg = some none :=
              outcome_eq_absent_iff.mp hEq.symm
            simp [gather, hNone, hAbsent.2]
          · -- A later one is, so this one cannot fail.
            rcases Option.map_eq_some_iff.mp h with
              ⟨gathered, hGathered, hEq⟩
            have hGathered' :
                gather slots (args.map (Side.subst g)) =
                  some none := by
              simpa [show gathered = none by simpa using hEq]
                using hGathered
            rcases exists_required_of_gather hGathered' with
              ⟨later, hLater, hRequired⟩
            have hSome :
                Side.subst f arg ≠ none := by
              apply subst_ne_none_of_safe
                (hFirst later hLater hRequired) hHead
              · rintro t rfl
                exact hShaped t (by simp)
              · rintro t rfl
                exact hf t (by simp)
            rcases Option.ne_none_iff_exists'.mp hSome with
              ⟨value', hValue'⟩
            simp [gather, hValue', hRest hGathered']

/- Ground and absent arguments are left alone. -/
theorem map_subst_of_closed
    (f : Variable → Side)
    {values : List Side}
    (h : values.any isOpenArg = false) :
    values.map (Side.subst f) = values.map some := by
  apply List.map_congr_left
  intro value hValue
  have hClosed : isOpenArg value = false := by
    simpa using List.any_eq_false.mp h value hValue
  rcases value with _ | (x | v | ⟨c, args⟩)
  · rfl
  · rfl
  · simp [isOpenArg, isGround] at hClosed
  · simp [isOpenArg, isGround] at hClosed

/- Values agree with the arguments they are results of. -/
theorem map_outcome_of_values
    {f g : Variable → Side}
    {args : List (Option Term)}
    {values : List Side}
    (hValues : args.map (Side.subst g) = values.map some)
    (hSame :
      ∀ arg ∈ args, ∀ r, Side.subst g arg = some r →
        outcome (Side.subst f r) =
          outcome (Side.subst f arg)) :
    (values.map (Side.subst f)).map outcome =
      (args.map (Side.subst f)).map outcome := by
  induction args generalizing values with
  | nil =>
      have hNil : values = [] := by simpa using hValues.symm
      rw [hNil]
  | cons arg args ih =>
      cases values with
      | nil => simp at hValues
      | cons value values =>
          simp only [List.map_cons, List.cons.injEq] at hValues ⊢
          refine ⟨hSame arg (by simp) value hValues.1, ?_⟩
          apply ih hValues.2
          intro a ha
          exact hSame a (by simp [ha])

/-
  If `f` has absorbed `g`, then replacing variables by `g` and
  then by `f` is replacing them by `f`.
-/
theorem outcome_subst_absorb
    {κ : Kinding}
    {f g : Variable → Side}
    {t : Term}
    {r : Side}
    (hShaped : t.WellShaped)
    (hf : ∀ v ∈ t.occurrences, Side.Fits κ v.kind (f v))
    (hAbsorb :
      ∀ v ∈ t.occurrences,
        outcome (Side.subst f (g v)) = outcome (some (f v)))
    (h : t.subst g = some r) :
    outcome (Side.subst f r) = outcome (t.subst f) := by
  induction t generalizing r with
  | ground x =>
      cases h
      rfl
  | var v =>
      cases h
      exact hAbsorb v (by simp [occurrences])
  | app c args ih =>
      rcases hShaped with _ | _ | ⟨hSlots, hOpen, hArgs⟩
      have hMem :
          ∀ t, some t ∈ args → ∀ v ∈ t.occurrences,
            v ∈ (Term.app c args).occurrences := by
        intro t ht v hv
        exact (mem_occurrences_app v c args).mpr ⟨t, ht, hv⟩
      have hSame :
          ∀ arg ∈ args, ∀ r, Side.subst g arg = some r →
            outcome (Side.subst f r) =
              outcome (Side.subst f arg) := by
        intro arg hArg r hr
        cases arg with
        | none =>
            cases hr
            rfl
        | some t =>
            apply ih t hArg (hArgs t hArg) _ _ hr
            · exact fun v hv => hf v (hMem t hArg v hv)
            · exact fun v hv => hAbsorb v (hMem t hArg v hv)
      rw [subst_app] at h
      have hLength :
          c.slots.length =
            (args.map (Side.subst g)).length := by
        simpa using hSlots.length_eq
      rcases combine_eq_some hLength h with
        ⟨rfl, hGather⟩ | ⟨values, u, hValues, hFills, hu, rfl⟩
      · have hAbsent :=
          gather_absorb_absent (pairwise_slots c) hSlots hArgs
            (fun t ht v hv => hf v (hMem t ht v hv)) hSame
            hGather
        simp [subst_app, combine, hAbsent, Side.subst]
      · have hResults :
            (values.map (Side.subst f)).map outcome =
              (args.map (Side.subst f)).map outcome := by
          exact map_outcome_of_values hValues hSame
        rw [subst_app, ← outcome_combine_congr c hResults]
        rcases assemble?_eq_some hu with
          ⟨_, rfl⟩ | ⟨x, hClosed, _, rfl⟩
        · rw [Side.subst, subst_app]
        · have hGround :
              values.map (Side.subst f) = values.map some := by
            exact map_subst_of_closed f hClosed
          simp [hGround, combine, gather_of_fills hFills, hu,
            Side.subst, subst]

end Term

end StatementQuery

------------------------------------------------------------
-- Instantiation Is Substitution
------------------------------------------------------------

namespace StatementQuery

/- What a variable stands for under bindings. -/
def Bindings.value (θ : Bindings) (v : Variable) : Side :=
  (θ.get? v).getD (some (.var v))

namespace Term

/- A variable whose value fits is replaced by it. -/
theorem instantiateVariable_eq_value
    {κ : Kinding}
    (mode : InstantiateMode)
    {θ : Bindings}
    {v : Variable}
    (hFits : Side.Fits κ v.kind (θ.value v)) :
    instantiateVariable mode θ v = .ok (θ.value v) := by
  unfold Bindings.value at hFits ⊢
  unfold instantiateVariable
  cases hGet : θ.get? v with
  | none => rfl
  | some value =>
      cases value with
      | none => rfl
      | some t =>
          have hKind : t.kind ≤ v.kind := by
            rw [hGet] at hFits
            exact (hFits t rfl).1
          simp [hKind]

/- Arguments are instantiated as they are gathered. -/
theorem instantiateArgs_eq_gather
    {mode : InstantiateMode}
    (hMode : mode.strict = false)
    (θ : Bindings)
    (c : Constructor)
    (position : Nat)
    (slots : List Slot)
    {args : List (Option Term)}
    (hArgs :
      ∀ t, some t ∈ args →
        (t.instantiateWith mode θ).toOption =
          t.subst θ.value) :
    (instantiateArgs mode θ c position slots args).toOption =
      gather slots (args.map (Side.subst θ.value)) := by
  induction args generalizing position slots with
  | nil => cases slots <;> simp [instantiateArgs, gather, Except.toOption]
  | cons arg args ih =>
      cases slots with
      | nil => simp [instantiateArgs, gather, Except.toOption]
      | cons slot slots =>
          have hHead :
              (instantiateArg mode θ arg).toOption =
                Side.subst θ.value arg := by
            cases arg with
            | none => rfl
            | some t => exact hArgs t (by simp)
          have hTail := ih (position + 1) slots
            fun t ht => hArgs t (by simp [ht])
          rw [List.map_cons, ← hHead, instantiateArgs]
          cases instantiateArg mode θ arg with
          | error e => rfl
          | ok value =>
              have hOk :
                  (Except.ok value : Except TermError Side).toOption =
                    some value := rfl
              rw [hOk, gather, ← hTail]
              simp only [hMode, Bool.false_eq_true, if_false]
              by_cases hAbsent :
                  (value.isNone && !slot.isOptional) = true
              · rw [if_pos hAbsent, if_pos hAbsent]
                rfl
              · rw [if_neg hAbsent, if_neg hAbsent]
                rcases instantiateArgs mode θ c (position + 1)
                  slots args with e | (_ | values) <;> rfl

/-
  Where the bound values fit their variables, instantiation
  replaces the variables and does nothing else.
-/
theorem instantiateWith_eq_subst
    {κ : Kinding}
    {mode : InstantiateMode}
    (hMode : mode.strict = false)
    {θ : Bindings}
    {t : Term}
    (hShaped : t.WellShaped)
    (hFits :
      ∀ v ∈ t.occurrences,
        Side.Fits κ v.kind (θ.value v)) :
    (t.instantiateWith mode θ).toOption =
      t.subst θ.value := by
  induction t with
  | ground g => rfl
  | var v =>
      have hv := hFits v (by simp [occurrences])
      simp [instantiateWith, subst, Except.toOption,
        instantiateVariable_eq_value mode hv]
  | app c args ih =>
      rcases hShaped with _ | _ | ⟨hSlots, hOpen, hArgs⟩
      have hArgFits :
          ∀ t, some t ∈ args → ∀ v ∈ t.occurrences,
            Side.Fits κ v.kind (θ.value v) := by
        intro t ht v hv
        apply hFits
        exact (mem_occurrences_app v c args).mpr ⟨t, ht, hv⟩
      rw [instantiateWith]
      split
      · -- Some variable is bound: the application is rebuilt.
        have hGather :=
          instantiateArgs_eq_gather hMode θ c 0 c.slots
            fun t ht => ih t ht (hArgs t ht) (hArgFits t ht)
        rw [subst_app, combine, ← hGather]
        rcases hResult : instantiateArgs mode θ c 0 c.slots args
          with e | (_ | values)
        · rfl
        · rfl
        · rw [hResult] at hGather
          have hLength :
              c.slots.length =
                (args.map (Side.subst θ.value)).length := by
            simpa using hSlots.length_eq
          rcases fills_of_gather hLength hGather.symm with
            ⟨hValues, hFills⟩
          rcases fits_values hSlots hArgs hArgFits hValues hFills
            with ⟨hAdmits, hKinded⟩
          have hKinds := atKinds_occurrencesArgs hKinded
          have hApply := apply_eq_assemble? hAdmits hKinds
          simp only [Except.toOption] at hApply ⊢
          rw [← hApply]
          cases apply c values <;> rfl
      · -- No variable is bound: the application is kept.
        rename_i hUntouched
        symm
        refine subst_eq_self (.app hSlots hOpen hArgs) ?_
        intro v hv
        have hUnbound : θ.get? v = none := by
          by_contra hBound
          apply hUntouched
          apply List.any_eq_true.mpr
          exact ⟨v, hv, Option.isSome_iff_ne_none.mpr hBound⟩
        simp [Bindings.value, hUnbound]

/- A side is instantiated as it is substituted. -/
theorem instantiateSide_eq_subst
    {κ : Kinding}
    {mode : InstantiateMode}
    (hMode : mode.strict = false)
    {θ : Bindings}
    {s : Side}
    (hShaped : ∀ t, s = some t → t.WellShaped)
    (hFits :
      ∀ v ∈ Side.occurrences s,
        Side.Fits κ v.kind (θ.value v)) :
    (instantiateSide mode θ s).toOption =
      Side.subst θ.value s := by
  cases s with
  | none => rfl
  | some t =>
      exact instantiateWith_eq_subst hMode (hShaped t rfl) hFits

end Term

end StatementQuery
