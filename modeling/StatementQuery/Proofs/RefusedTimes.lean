import StatementQuery.Proofs.SolverEvaluation
import StatementQuery.Proofs.UnifierSoundness

/-
  What a unifier cannot be applied to.

  Equations between times are replaced by equations between
  their parts, and the parts of a time are checked only when
  the time is built.  So a unifier may give a time a code that
  is no precision, or minutes that are no offset.  Nothing
  else can go wrong when a unifier is applied to the equations
  it was found for.

  Key definitions include:
    * `Ground.RefusesTime`
    * `Term.Refuses`
    * `Term.AnyReached`

  Main declarations:
    * `Ground.build_time_eq_error_iff`
    * `Term.instantiateWith_eq_error_iff`
    * `unifier_eq_error_iff`
-/

------------------------------------------------------------
-- Codes And Offsets
------------------------------------------------------------

namespace StatementQuery

/- A precision is found under its code and no other. -/
theorem TimePrecision.ofCode?_eq_some_iff
    {n : Nat}
    {p : TimePrecision} :
    ofCode? n = some p ↔ p.code = n := by
  constructor
  · intro h
    have hCodes : all.map code = List.range 15 := rfl
    have hCode : (all.map code)[n]? = some p.code := by
      rw [List.getElem?_map]
      exact congrArg (Option.map code) h
    rw [hCodes] at hCode
    rcases List.getElem?_eq_some_iff.mp hCode with ⟨_, hEq⟩
    simpa using hEq.symm
  · rintro rfl
    cases p <;> rfl

namespace Ground

/- A number is refused as a code if no precision has it. -/
theorem precision_eq_error_iff
    {d : Decimal}
    {e : TermError} :
    precision (some d) = .error e ↔
      e = .invalidPrecision d ∧
        ∀ p : TimePrecision, d.toInt? ≠ some (p.code : Int) := by
  -- the code that is read, and that of a precision
  have hFound :
      ∀ p : TimePrecision,
        (d.toInt?.bind fun n =>
            if n < 0 then none
            else TimePrecision.ofCode? n.toNat) = some p ↔
          d.toInt? = some (p.code : Int) := by
    intro p
    rw [Option.bind_eq_some_iff]
    constructor
    · rintro ⟨n, hn, hp⟩
      split at hp
      · cases hp
      · have hCode := TimePrecision.ofCode?_eq_some_iff.mp hp
        rw [hn, hCode]
        congr 1
        omega
    · intro hd
      refine ⟨p.code, hd, ?_⟩
      rw [if_neg (by omega), TimePrecision.ofCode?_eq_some_iff]
      simp
  simp only [precision]
  split
  · rename_i p hp
    constructor
    · intro h
      cases h
    · rintro ⟨_, h⟩
      exact absurd ((hFound p).mp hp) (h p)
  · rename_i hNone
    constructor
    · intro h
      cases h
      refine ⟨rfl, fun p hp => ?_⟩
      rw [← hFound p, hNone] at hp
      cases hp
    · rintro ⟨rfl, _⟩
      rfl

/- A number is refused as minutes if no offset has it. -/
theorem timezone_eq_error_iff
    {d : Decimal}
    {e : TermError} :
    timezone (some d) = .error e ↔
      e = .invalidTimezone d ∧
        ∀ z : Int32, d.toInt? ≠ some z.toInt := by
  simp only [timezone]
  split
  · rename_i n hn
    rcases Option.filter_eq_some_iff.mp hn with ⟨hd, hFits⟩
    constructor
    · intro h
      cases h
    · rintro ⟨_, h⟩
      refine absurd hd ?_
      have hRange : -2 ^ 31 ≤ n ∧ n < 2 ^ 31 := by
        simp [Numeral.fitsSigned] at hFits
        omega
      have hBack : (Int32.ofInt n).toInt = n :=
        Int32.toInt_ofInt_of_le hRange.1 hRange.2
      rw [← hBack]
      exact h (Int32.ofInt n)
  · rename_i hNone
    constructor
    · intro h
      cases h
      refine ⟨rfl, fun z hz => ?_⟩
      rw [hz] at hNone
      have hLow := Int32.le_toInt z
      have hHigh := Int32.toInt_lt z
      simp [Option.filter, Numeral.fitsSigned] at hNone
      omega
    · rintro ⟨rfl, _⟩
      rfl

/-
  Parts of a time of which one is refused: the code if it is
  that of no precision, else the minutes if no offset has as
  many.
-/
inductive RefusesTime : List (Option Ground) → TermError → Prop where
| code
    {t : Time}
    {q : Quantity}
    {minutes calendar : Option Ground}
    (hCode :
      ∀ p : TimePrecision,
        q.amount.toInt? ≠ some (p.code : Int)) :
    RefusesTime
      [some (.value (.time t)), some (.value (.quantity q)),
        minutes, calendar]
      (.invalidPrecision q.amount)
| minutes
    {t : Time}
    {q : Quantity}
    {code calendar : Option Ground}
    (hCode :
      ∀ d, amount? code = some d →
        ∃ p : TimePrecision, d.toInt? = some (p.code : Int))
    (hMinutes :
      ∀ z : Int32, q.amount.toInt? ≠ some z.toInt) :
    RefusesTime
      [some (.value (.time t)), code,
        some (.value (.quantity q)), calendar]
      (.invalidTimezone q.amount)

/- A number that is not refused as a code is one. -/
theorem exists_precision_iff
    {code : Option Decimal} :
    (∃ p, precision code = .ok p) ↔
      ∀ d, code = some d →
        ∃ p : TimePrecision, d.toInt? = some (p.code : Int) := by
  cases code with
  | none => simp [precision]
  | some d =>
      cases h : precision (some d) with
      | ok p =>
          refine iff_of_true ⟨p, rfl⟩ ?_
          rintro d' ⟨⟩
          by_contra hNone
          have hError :=
            precision_eq_error_iff.mpr
              ⟨rfl, fun p hp => hNone ⟨p, hp⟩⟩
          rw [h] at hError
          cases hError
      | error e =>
          have hNone := (precision_eq_error_iff.mp h).2
          refine iff_of_false (by simp) ?_
          intro hSome
          rcases hSome d rfl with ⟨p, hp⟩
          exact hNone p hp

/- A time is not built exactly if one of its parts is refused. -/
theorem build_time_eq_error_iff
    {t : Time}
    {code minutes calendar : Option Ground}
    {e : TermError} :
    build .time
          [some (.value (.time t)), code, minutes, calendar] =
        .error e ↔
      RefusesTime
        [some (.value (.time t)), code, minutes, calendar] e := by
  have hQuantity :
      ∀ a d, amount? a = some d →
        ∃ q, a = some (.value (.quantity q)) ∧ q.amount = d := by
    intro a d h
    unfold amount? at h
    split at h
    · cases h
      exact ⟨_, rfl, rfl⟩
    · cases h
  simp only [build, instant?, buildTime]
  constructor
  · intro h
    cases hCode : precision (amount? code) with
    | error e' =>
        rw [hCode] at h
        cases h
        cases hAmount : amount? code with
        | none =>
            rw [hAmount] at hCode
            cases hCode
        | some d =>
            rw [hAmount] at hCode
            rcases hQuantity code d hAmount with ⟨q, rfl, rfl⟩
            rcases precision_eq_error_iff.mp hCode with
              ⟨rfl, hNone⟩
            exact .code hNone
    | ok p =>
        rw [hCode] at h
        cases hMinutes : timezone (amount? minutes) with
        | ok z =>
            simp [hMinutes, bind, Except.bind] at h
        | error e' =>
            simp only [hMinutes, bind, Except.bind] at h
            cases h
            cases hAmount : amount? minutes with
            | none =>
                rw [hAmount] at hMinutes
                cases hMinutes
            | some d =>
                rw [hAmount] at hMinutes
                rcases hQuantity minutes d hAmount with
                  ⟨q, rfl, rfl⟩
                rcases timezone_eq_error_iff.mp hMinutes with
                  ⟨rfl, hNone⟩
                exact .minutes
                  (exists_precision_iff.mp ⟨p, hCode⟩) hNone
  · rintro (hCode | ⟨hCode, hMinutes⟩)
    · have hError := precision_eq_error_iff.mpr ⟨rfl, hCode⟩
      simp only [amount?, hError, bind, Except.bind]
    · rcases exists_precision_iff.mpr hCode with ⟨p, hp⟩
      have hError := timezone_eq_error_iff.mpr ⟨rfl, hMinutes⟩
      rw [hp]
      simp only [amount?, hError, bind, Except.bind]

end Ground

end StatementQuery

------------------------------------------------------------
-- Terms With A Time That Is Not Built
------------------------------------------------------------

namespace StatementQuery

namespace Term

/-
  A term with a time that is refused, in a place where it is
  reached: no argument before it is missing from a required
  slot.
-/
inductive Refuses (f : Variable → Side) (e : TermError) :
    Term → Prop where
| time
    {args : List (Option Term)}
    {parts : List (Option Ground)}
    (hParts :
      args.map (Side.subst f) =
        (parts.map (Option.map Term.ground)).map some)
    (hRefuses : Ground.RefusesTime parts e) :
    Refuses f e (.app .time args)
| arg
    {c : Constructor}
    {before after : List (Option Term)}
    {t : Term}
    {values : List Side}
    (hBefore : before.map (Side.subst f) = values.map some)
    (hFills :
      List.Forall₂ Fills (c.slots.take before.length) values)
    (hArg : Refuses f e t) :
    Refuses f e (.app c (before ++ some t :: after))

/-
  Some argument has a property and is reached: those before it
  have values, and none is missing from a required slot.
-/
def AnyReached
    (f : Variable → Side)
    (P : Term → Prop)
    (slots : List Slot)
    (args : List (Option Term)) :
    Prop :=
  ∃ before t after values,
    args = before ++ some t :: after ∧
      before.map (Side.subst f) = values.map some ∧
      List.Forall₂ Fills (slots.take before.length) values ∧
      P t

/- Without arguments none is reached. -/
theorem not_anyReached_nil
    {f : Variable → Side}
    {P : Term → Prop}
    {slots : List Slot} :
    ¬ AnyReached f P slots [] := by
  rintro ⟨before, t, after, _, hEq, _⟩
  cases before <;> cases hEq

/- It is the first argument, or one reached after it. -/
theorem anyReached_cons_iff
    {f : Variable → Side}
    {P : Term → Prop}
    {slot : Slot}
    {slots : List Slot}
    {arg : Option Term}
    {args : List (Option Term)} :
    AnyReached f P (slot :: slots) (arg :: args) ↔
      (∃ t, arg = some t ∧ P t) ∨
        ∃ value,
          Side.subst f arg = some value ∧ Fills slot value ∧
            AnyReached f P slots args := by
  constructor
  · rintro ⟨before, t, after, values, hEq, hBefore, hFills, ht⟩
    cases before with
    | nil =>
        cases hEq
        exact Or.inl ⟨t, rfl, ht⟩
    | cons first before =>
        cases hEq
        cases values with
        | nil => cases hBefore
        | cons value values =>
            rcases List.cons.inj hBefore with ⟨hValue, hBefore⟩
            rcases hFills with _ | ⟨hFill, hFills⟩
            exact
              Or.inr
                ⟨value, hValue, hFill, before, t, after, values,
                  rfl, hBefore, hFills, ht⟩
  · rintro (⟨t, rfl, ht⟩ | ⟨value, hValue, hFill, before, t,
      after, values, rfl, hBefore, hFills, ht⟩)
    · exact ⟨[], t, args, [], rfl, rfl, .nil, ht⟩
    · exact
        ⟨arg :: before, t, after, value :: values, rfl,
          congrArg₂ List.cons hValue hBefore,
          .cons hFill hFills, ht⟩

/- What is said of the arguments may be put in other words. -/
theorem anyReached_congr
    {f : Variable → Side}
    {P Q : Term → Prop}
    {slots : List Slot}
    {args : List (Option Term)}
    (h : ∀ t, some t ∈ args → (P t ↔ Q t)) :
    AnyReached f P slots args ↔ AnyReached f Q slots args := by
  constructor
  · rintro ⟨before, t, after, values, rfl, hBefore, hFills, ht⟩
    exact
      ⟨before, t, after, values, rfl, hBefore, hFills,
        (h t (by simp)).mp ht⟩
  · rintro ⟨before, t, after, values, rfl, hBefore, hFills, ht⟩
    exact
      ⟨before, t, after, values, rfl, hBefore, hFills,
        (h t (by simp)).mpr ht⟩

/- Arguments of a time that become ground, with a part refused. -/
def RefusedAsTime
    (f : Variable → Side)
    (e : TermError)
    (c : Constructor)
    (args : List (Option Term)) :
    Prop :=
  c = .time ∧
    ∃ parts,
      args.map (Side.subst f) =
          (parts.map (Option.map Term.ground)).map some ∧
        Ground.RefusesTime parts e

/- A refused time is reached in an argument, or is the term. -/
theorem refuses_app_iff
    {f : Variable → Side}
    {e : TermError}
    {c : Constructor}
    {args : List (Option Term)} :
    Refuses f e (.app c args) ↔
      AnyReached f (Refuses f e) c.slots args ∨
        RefusedAsTime f e c args := by
  constructor
  · rintro (⟨hParts, hRefuses⟩ | ⟨hBefore, hFills, hArg⟩)
    · exact Or.inr ⟨rfl, _, hParts, hRefuses⟩
    · exact
        Or.inl ⟨_, _, _, _, rfl, hBefore, hFills, hArg⟩
  · rintro (⟨before, t, after, values, rfl, hBefore, hFills,
      hArg⟩ | ⟨rfl, parts, hParts, hRefuses⟩)
    · exact .arg hBefore hFills hArg
    · exact .time hParts hRefuses

/- An argument that fails is the result, if it is reached. -/
theorem gather_of_failure
    {slots : List Slot}
    {values : List Side}
    {after : List (Option Side)}
    (hFills :
      List.Forall₂ Fills (slots.take values.length) values)
    (hLength :
      slots.length = (values.map some ++ none :: after).length) :
    gather slots (values.map some ++ none :: after) = none := by
  induction values generalizing slots with
  | nil =>
      cases slots with
      | nil => simp at hLength
      | cons slot slots => rfl
  | cons value values ih =>
      cases slots with
      | nil => simp at hLength
      | cons slot slots =>
          rcases hFills with _ | ⟨hFill, hFills⟩
          have hRest := ih hFills (by simpa using hLength)
          simp only [List.map_cons, List.cons_append, gather,
            fills_iff.mp hFill, Bool.false_eq_true, if_false,
            hRest, Option.map_none]

/- A refused time has all its parts, and they are ground. -/
theorem assemble?_of_refusesTime
    {parts : List (Option Ground)}
    {e : TermError}
    (h : Ground.RefusesTime parts e) :
    gather Constructor.time.slots
        ((parts.map (Option.map Term.ground)).map some) =
      some (some (parts.map (Option.map Term.ground))) ∧
    (parts.map (Option.map Term.ground)).any isOpenArg = false ∧
    Ground.build .time
        ((parts.map (Option.map Term.ground)).map groundArg) =
      .error e := by
  have hGround :
      (parts.map (Option.map Term.ground)).map groundArg =
        parts := by
    rw [List.map_map]
    refine Eq.trans ?_ (List.map_id parts)
    apply List.map_congr_left
    intro part _
    cases part <;> rfl
  rw [hGround]
  refine ⟨?_, ?_, ?_⟩
  · apply gather_of_fills
    rcases h with @⟨t, q, minutes, calendar, _⟩ |
      @⟨t, q, code, calendar, _, _⟩
    · exact .cons (by simp [Fills]) (.cons (by simp [Fills])
        (.cons (fun _ => rfl) (.cons (fun _ => rfl) .nil)))
    · exact .cons (by simp [Fills]) (.cons (fun _ => rfl)
        (.cons (by simp [Fills]) (.cons (fun _ => rfl) .nil)))
  · rw [List.any_eq_false]
    intro arg hArg
    rcases List.mem_map.mp hArg with ⟨part, _, rfl⟩
    cases part <;> simp [isOpenArg, isGround]
  · rcases h with hCode | ⟨hCode, hMinutes⟩
    · exact Ground.build_time_eq_error_iff.mpr (.code hCode)
    · exact Ground.build_time_eq_error_iff.mpr
        (.minutes hCode hMinutes)

/- So the arguments of a refused time have values. -/
theorem RefusedAsTime.exists_values
    {f : Variable → Side}
    {e : TermError}
    {c : Constructor}
    {args : List (Option Term)}
    (h : RefusedAsTime f e c args) :
    ∃ values,
      gather c.slots (args.map (Side.subst f)) =
        some (some values) := by
  rcases h with ⟨rfl, parts, hParts, hRefuses⟩
  rw [hParts]
  exact ⟨_, (assemble?_of_refusesTime hRefuses).1⟩

/- A term that is refused has no instance. -/
theorem Refuses.subst_eq_none
    {f : Variable → Side}
    {e : TermError}
    {t : Term}
    (hShaped : t.WellShaped)
    (h : t.Refuses f e) :
    t.subst f = none := by
  induction h with
  | @time args parts hParts hRefuses =>
      rcases assemble?_of_refusesTime hRefuses with
        ⟨hGather, hClosed, hBuild⟩
      rw [subst_app, hParts, combine, hGather]
      simp only [assemble?, hClosed, hBuild, Bool.false_eq_true,
        if_false, Except.toOption, Option.map_none]
  | @arg c before after t values hBefore hFills hArg ih =>
      rcases hShaped with _ | _ | ⟨hSlots, _, hArgs⟩
      have hNone : t.subst f = none := ih (hArgs t (by simp))
      have hCount : before.length = values.length := by
        simpa using congrArg List.length hBefore
      rw [subst_app, combine, List.map_append, List.map_cons,
        hBefore, Side.subst, hNone, gather_of_failure]
      · rw [← hCount]
        exact hFills
      · simpa [hCount] using hSlots.length_eq

/- Ground arguments that fit are built at once. -/
theorem apply_of_closed
    {c : Constructor}
    {args : List (Option Term)}
    (hSlots : List.Forall₂ Slot.Admits c.slots args)
    (hClosed : args.any isOpenArg = false) :
    apply c args =
      (Ground.build c (args.map groundArg)).map .ground := by
  unfold apply
  rw [if_pos hSlots.length_eq.symm, checkArgs_of_admits c 0 hSlots]
  simp only [bind, Except.bind, hClosed, Bool.false_eq_true,
    if_false]
  cases Ground.build c (args.map groundArg) <;> rfl

/- A time has four parts, of which the first is a time. -/
theorem exists_timeParts
    {parts : List (Option Ground)}
    (hSlots :
      List.Forall₂ Slot.Admits Constructor.time.slots
        (parts.map (Option.map Term.ground))) :
    ∃ t code minutes calendar,
      parts = [some (.value (.time t)), code, minutes, calendar] := by
  rw [List.forall₂_map_right_iff] at hSlots
  rcases hSlots with
    _ | ⟨hInstant, _ | ⟨_, _ | ⟨_, _ | ⟨_, _ | _⟩⟩⟩⟩
  rcases Ground.exists_of_admits_required hInstant with
    ⟨g, rfl, hKind⟩
  rcases Ground.exists_time_of_kind_le hKind with ⟨t, rfl⟩
  exact ⟨t, _, _, _, rfl⟩

/- Only ground parts of a time can be refused. -/
theorem apply_eq_error_iff
    {κ : Kinding}
    {c : Constructor}
    {args : List (Option Term)}
    {e : TermError}
    (hSlots : List.Forall₂ Slot.Admits c.slots args)
    (hKinds : Variable.AtKinds κ (occurrencesArgs args)) :
    apply c args = .error e ↔
      c = .time ∧
        ∃ parts,
          args = parts.map (Option.map Term.ground) ∧
            Ground.RefusesTime parts e := by
  constructor
  · intro h
    have hNone : assemble? c args = none := by
      rw [← apply_eq_assemble? hSlots hKinds, h]
      rfl
    have hClosed : args.any isOpenArg = false := by
      by_contra hOpen
      rw [Bool.not_eq_false] at hOpen
      simp [assemble?, hOpen] at hNone
    have hGround := map_ground_map_groundArg hClosed
    have hBuild :
        Ground.build c (args.map groundArg) = .error e := by
      rw [apply_of_closed hSlots hClosed] at h
      exact map_eq_error_iff.mp h
    rw [← hGround] at hSlots
    have hTime : c = .time := by
      by_contra hOther
      rcases Ground.exists_build hOther hSlots with ⟨g, hg⟩
      rw [hBuild] at hg
      cases hg
    subst hTime
    refine ⟨rfl, args.map groundArg, hGround.symm, ?_⟩
    generalize args.map groundArg = parts at hSlots hBuild
    rcases exists_timeParts hSlots with
      ⟨t, code, minutes, calendar, rfl⟩
    exact Ground.build_time_eq_error_iff.mp hBuild
  · rintro ⟨rfl, parts, rfl, hRefuses⟩
    rcases assemble?_of_refusesTime hRefuses with
      ⟨_, hClosed, hBuild⟩
    rw [apply_of_closed hSlots hClosed, hBuild]
    rfl

end Term

end StatementQuery

------------------------------------------------------------
-- Instantiations That Fail
------------------------------------------------------------

namespace StatementQuery

namespace Term

/-
  The first argument that fails decides, if none before it is
  missing from a required slot.
-/
theorem instantiateArgs_eq_error_iff
    {mode : InstantiateMode}
    (hMode : mode.strict = false)
    {θ : Bindings}
    {c : Constructor}
    (position : Nat)
    {slots : List Slot}
    {args : List (Option Term)}
    {e : TermError}
    (hLength : slots.length = args.length)
    (hArgs :
      ∀ t, some t ∈ args →
        (t.instantiateWith mode θ).toOption =
          t.subst θ.value) :
    instantiateArgs mode θ c position slots args = .error e ↔
      AnyReached θ.value
        (fun t => t.instantiateWith mode θ = .error e)
        slots args := by
  induction args generalizing position slots with
  | nil =>
      have hNil : slots = [] := by simpa using hLength
      subst hNil
      simp [instantiateArgs, not_anyReached_nil]
  | cons arg args ih =>
      cases slots with
      | nil => simp at hLength
      | cons slot slots =>
          have hHead :
              (instantiateArg mode θ arg).toOption =
                Side.subst θ.value arg := by
            cases arg with
            | none => rfl
            | some t => exact hArgs t (by simp)
          rw [anyReached_cons_iff, ← hHead,
            ← ih (position + 1) (by simpa using hLength)
              fun t ht => hArgs t (by simp [ht]),
            instantiateArgs]
          cases hResult : instantiateArg mode θ arg with
          | error e' =>
              cases arg with
              | none => cases hResult
              | some t =>
                  have ht :
                      t.instantiateWith mode θ = .error e' :=
                    hResult
                  simp [ht, Except.toOption]
          | ok value =>
              have hSucceeds :
                  ¬ ∃ t, arg = some t ∧
                    t.instantiateWith mode θ = .error e := by
                rintro ⟨t, rfl, ht⟩
                rw [instantiateArg, ht] at hResult
                cases hResult
              rw [or_iff_right hSucceeds]
              simp only [Except.toOption, Option.some.injEq,
                exists_eq_left', fills_iff, hMode,
                Bool.false_eq_true, if_false]
              by_cases hAbsent :
                  (value.isNone && !slot.isOptional) = true
              · simp [hAbsent]
              · simp only [hAbsent, true_and]
                rcases instantiateArgs mode θ c (position + 1)
                  slots args with e' | (_ | values) <;> simp

/-
  Where the bound values fit their variables, instantiation
  fails exactly at a time that is refused.
-/
theorem instantiateWith_eq_error_iff
    {κ : Kinding}
    {mode : InstantiateMode}
    (hMode : mode.strict = false)
    {θ : Bindings}
    {t : Term}
    {e : TermError}
    (hShaped : t.WellShaped)
    (hFits :
      ∀ v ∈ t.occurrences,
        Side.Fits κ v.kind (θ.value v)) :
    t.instantiateWith mode θ = .error e ↔
      t.Refuses θ.value e := by
  induction t with
  | ground g =>
      refine iff_of_false (by simp [instantiateWith]) ?_
      rintro ⟨⟩
  | var v =>
      have hv := hFits v (by simp [occurrences])
      refine iff_of_false ?_ ?_
      · simp [instantiateWith,
          instantiateVariable_eq_value mode hv]
      · rintro ⟨⟩
  | app c args ih =>
      have hSubst := instantiateWith_eq_subst hMode hShaped hFits
      have hRefused := Refuses.subst_eq_none (f := θ.value)
        (e := e) hShaped
      rcases hShaped with _ | _ | ⟨hSlots, hOpen, hArgs⟩
      have hArgFits :
          ∀ t, some t ∈ args → ∀ v ∈ t.occurrences,
            Side.Fits κ v.kind (θ.value v) := by
        intro t ht v hv
        apply hFits
        exact (mem_occurrences_app v c args).mpr ⟨t, ht, hv⟩
      have hArgSubst :
          ∀ t, some t ∈ args →
            (t.instantiateWith mode θ).toOption =
              t.subst θ.value := by
        intro t ht
        exact instantiateWith_eq_subst hMode (hArgs t ht)
          (hArgFits t ht)
      rw [instantiateWith] at hSubst ⊢
      by_cases hTouched : isTouched θ (.app c args) = true
      · -- Some variable is bound: the application is rebuilt.
        simp only [hTouched, if_true] at hSubst ⊢
        have hGather :=
          instantiateArgs_eq_gather hMode θ c 0 c.slots hArgSubst
        rw [refuses_app_iff,
          ← anyReached_congr fun t ht =>
            ih t ht (hArgs t ht) (hArgFits t ht),
          ← instantiateArgs_eq_error_iff hMode (c := c) 0
            hSlots.length_eq hArgSubst]
        rcases hResult : instantiateArgs mode θ c 0 c.slots args
          with e' | (_ | values)
        · rw [hResult] at hGather
          rw [or_iff_left]
          · simp
          · intro hTime
            rcases hTime.exists_values with ⟨values, hValues⟩
            rw [hValues] at hGather
            cases hGather
        · rw [hResult] at hGather
          refine iff_of_false (by simp) ?_
          rintro (hError | hTime)
          · cases hError
          · rcases hTime.exists_values with ⟨values, hValues⟩
            rw [hValues] at hGather
            cases hGather
        · rw [hResult] at hGather
          have hLength :
              c.slots.length =
                (args.map (Side.subst θ.value)).length := by
            simpa using hSlots.length_eq
          rcases fills_of_gather hLength hGather.symm with
            ⟨hValues, hFills⟩
          rcases fits_values hSlots hArgs hArgFits hValues hFills
            with ⟨hAdmits, hKinded⟩
          have hInjective :=
            List.map_injective_iff.mpr (Option.some_injective Side)
          rw [or_iff_right (by simp), map_eq_error_iff,
            apply_eq_error_iff hAdmits
              (atKinds_occurrencesArgs hKinded),
            RefusedAsTime, hValues]
          simp only [hInjective.eq_iff]
      · simp only [hTouched] at hSubst ⊢
        refine iff_of_false (by simp) ?_
        intro hRefuses
        rw [hRefused hRefuses] at hSubst
        cases hSubst

end Term

end StatementQuery

------------------------------------------------------------
-- Applying A Unifier
------------------------------------------------------------

namespace StatementQuery

/-
  A unifier can be applied to every side of its equations that
  is made without a time.  To any other side it fails to apply
  exactly at a time that it gives a code of no precision or
  the minutes of no offset.
-/
theorem unifier_eq_error_iff
    {eqs : List Equation}
    {θ : Bindings}
    (hEqs : ∀ e ∈ eqs, Equation.WellFormed e)
    (h : unify eqs = .ok θ)
    {e : Equation}
    (he : e ∈ eqs)
    {s : Side}
    (hs : s = e.1 ∨ s = e.2) :
    (∀ t, s = some t → t.Over (· ≠ .time) →
      ∃ u, t.instantiate θ = .ok u) ∧
    ∀ err,
      Term.instantiateSide .lenient θ s = .error err ↔
        ∃ t, s = some t ∧ t.Refuses θ.value err := by
  have hWithin := Equation.within_of_wellFormed hEqs
  rcases Unify.solves_of_unify hWithin h with ⟨κ, hSolves, _⟩
  have hSide :
      Side.Within (· ∈ Equation.occurrences eqs) s := by
    rcases hs with rfl | rfl
    · exact (hWithin e he).1
    · exact (hWithin e he).2
  have hFits :
      ∀ t, s = some t → ∀ v ∈ t.occurrences,
        Side.Fits κ v.kind (θ.value v) := by
    intro t ht v hv
    exact hSolves.fits v (Or.inl ((hSide t ht).2 v hv))
  constructor
  · intro t ht hOver
    have hSome :=
      Term.subst_ne_none (hSide t ht).1 hOver (hFits t ht)
    rcases Option.ne_none_iff_exists'.mp hSome with ⟨u, hu⟩
    refine ⟨u, eq_ok_of_toOption ?_⟩
    rw [← hu]
    exact Term.instantiateWith_eq_subst rfl (hSide t ht).1
      (hFits t ht)
  · intro err
    cases s with
    | none => simp [Term.instantiateSide]
    | some t =>
        have hTerm :
            t.instantiateWith .lenient θ = .error err ↔
              t.Refuses θ.value err :=
          Term.instantiateWith_eq_error_iff rfl (hSide t rfl).1
            (hFits t rfl)
        simpa [Term.instantiateSide] using hTerm

/- A time of the first day of 2020 with a code to be found. -/
def timeWithCode (name : String) : Term :=
  .app .time
    [some (.ground (.value (.instant ⟨2020, 1, 1, 0, 0, 0⟩))),
      some (.var ⟨name, .quantity⟩), none, none]

/- Two times with one code, which is that of no precision. -/
def codeEquations : List Equation :=
  [(some (timeWithCode "p"), some (timeWithCode "q")),
    (some (.var ⟨"p", .quantity⟩),
      some (.ground (.value (.amount ⟨99, 0⟩))))]

/- The bindings that are found for them. -/
def codeUnifier : Bindings :=
  ⟨[(⟨"p", .quantity⟩,
      some (.ground (.value (.amount ⟨99, 0⟩)))),
    (⟨"q", .quantity⟩,
      some (.ground (.value (.amount ⟨99, 0⟩))))]⟩

theorem unifier_eq_error_iff_codeEquations :
    unify codeEquations = .ok codeUnifier ∧
      Term.instantiateSide .lenient codeUnifier
          (some (timeWithCode "p")) =
        .error (.invalidPrecision ⟨99, 0⟩) := by
  have hUnify : unify codeEquations = .ok codeUnifier := by
    rw [Unify.unify_eq_unifyFor]
    rfl
  have hFormed : ∀ e ∈ codeEquations, Equation.WellFormed e := by
    intro e he
    rcases List.mem_pair.mp he with rfl | rfl
    · rintro t (ht | ht) <;> cases ht <;> decide
    · rintro t (ht | ht) <;> cases ht <;> decide
  have hFirst :
      (some (timeWithCode "p"), some (timeWithCode "q")) ∈
        codeEquations := by
    simp [codeEquations]
  have hTime :
      (timeWithCode "p").Refuses codeUnifier.value
        (.invalidPrecision ⟨99, 0⟩) := by
    have hParts :
        Ground.RefusesTime
          [some (.value (.instant ⟨2020, 1, 1, 0, 0, 0⟩)),
            some (.value (.amount ⟨99, 0⟩)), none, none]
          (.invalidPrecision ⟨99, 0⟩) := by
      refine .code (q := ⟨⟨99, 0⟩, none, none, none⟩) ?_
      intro p
      cases p <;> decide
    exact .time rfl hParts
  refine ⟨hUnify, ?_⟩
  exact
    ((unifier_eq_error_iff hFormed hUnify hFirst
      (Or.inl rfl)).2 _).mpr ⟨_, rfl, hTime⟩

end StatementQuery
