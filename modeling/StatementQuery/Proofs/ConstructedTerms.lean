import Mathlib.Order.Bounds.Defs
import StatementQuery.Proofs.RefusedTimes
import StatementQuery.Proofs.Renaming

/-
  What constructors accept, and what they build.

  A constructor accepts one argument for each of its slots, of
  a kind that the slot can make its own, if the kinds at which
  a name occurs form a chain and a closed time has a code and
  an offset that exist.  What it builds from open arguments is
  their application with every name at its least kind; passing
  a substitution through the arguments gives the same.

  A term that has arguments is built again from them.

  Key definitions include:
    * `Slot.Takes`
    * `Variable.Chained`
    * `Variable.Declares`
    * `Constructor.Accepts`

  Main declarations:
    * `Term.checkArgs_eq_ok_iff`
    * `Variable.exists_leastKinds_iff`
    * `Term.construct_accepts_iff`
    * `Term.construct_undoes_args`
-/

------------------------------------------------------------
-- Whole Numbers In A Range
------------------------------------------------------------

namespace StatementQuery

namespace Decimal

/- A decimal is a whole number between two others. -/
def WholeIn (low high : Int) (d : Decimal) : Prop :=
  ∃ n, low ≤ n ∧ n ≤ high ∧ d.same (.ofInt n) = true

/- A decimal is the whole number that is read from it. -/
theorem same_ofInt_of_toInt?
    {d : Decimal}
    {n : Int}
    (h : d.toInt? = some n) :
    d.same (.ofInt n) = true := by
  rw [same_iff]
  unfold toInt? at h
  split at h
  · rename_i hInteger
    by_cases hZero : d.unscaled = 0
    · have hn : n = 0 := by
        simpa [truncate?, hZero] using h.symm
      rw [normalize_of_eq_zero hZero,
        normalize_of_eq_zero (by simpa [ofInt] using hn)]
    · rcases exists_pads_normalize hZero with
        ⟨hTrimmed, z, hPads⟩
      have hScale : d.normalize.scale.toInt ≤ 0 := by
        simpa [isInteger] using hInteger
      rw [hPads.truncate?_eq hTrimmed.ne_zero hScale] at h
      split at h
      · cases h
      · have hWhole :
            Pads d.normalize (ofInt n)
              (-d.normalize.scale.toInt).toNat := by
          refine ⟨(Option.some.inj h).symm, ?_⟩
          simp only [ofInt, Int64.toInt_zero]
          omega
        exact (normalize_eq_of_pads hWhole hTrimmed).symm
  · cases h

/- A whole number is read from the decimals that are it. -/
theorem toInt?_of_same
    {d : Decimal}
    {n : Int}
    (hSmall : n.natAbs < 10 ^ 19)
    (h : d.same (.ofInt n) = true) :
    d.toInt? = some n := by
  rw [← toInt?_normalize, (same_iff _ _).mp h,
    toInt?_normalize, toInt?_ofInt hSmall]

/- A decimal is a code of precision if it is a small number. -/
theorem exists_code_iff
    (d : Decimal) :
    (∃ p : TimePrecision, d.toInt? = some (p.code : Int)) ↔
      d.WholeIn 0 14 := by
  constructor
  · rintro ⟨p, hp⟩
    have hHigh : p.code ≤ 14 := by
      cases p <;> decide
    exact
      ⟨p.code, by omega, by omega, same_ofInt_of_toInt? hp⟩
  · rintro ⟨n, hLow, hHigh, hSame⟩
    rcases Option.isSome_iff_exists.mp
        (show (TimePrecision.ofCode? n.toNat).isSome = true by
          have hBound : n.toNat < TimePrecision.all.length := by
            simp only [TimePrecision.all, List.length_cons,
              List.length_nil]
            omega
          simp [TimePrecision.ofCode?, hBound]) with
      ⟨p, hp⟩
    have hCode := TimePrecision.ofCode?_eq_some_iff.mp hp
    refine ⟨p, ?_⟩
    have hn : (p.code : Int) = n := by omega
    rw [hn]
    exact toInt?_of_same (by omega) hSame

/- A decimal is an offset if it is a number of 32 bits. -/
theorem exists_offset_iff
    (d : Decimal) :
    (∃ z : Int32, d.toInt? = some z.toInt) ↔
      d.WholeIn (-2 ^ 31) (2 ^ 31 - 1) := by
  constructor
  · rintro ⟨z, hz⟩
    have hLow := Int32.le_toInt z
    have hHigh := Int32.toInt_lt z
    exact
      ⟨z.toInt, by omega, by omega, same_ofInt_of_toInt? hz⟩
  · rintro ⟨n, hLow, hHigh, hSame⟩
    refine ⟨Int32.ofInt n, ?_⟩
    rw [Int32.toInt_ofInt_of_le (by omega) (by omega)]
    exact toInt?_of_same (by omega) hSame

end Decimal

end StatementQuery

------------------------------------------------------------
-- Arguments And Their Slots
------------------------------------------------------------

namespace StatementQuery

/- What a string or an IRI stands for in a slot of a kind. -/
inductive Ground.StandsFor : Ground → Kind → Ground → Prop where
| iri (s : String) :
    StandsFor (.value (.string s)) .iri (.value (.iri ⟨s⟩))
| entity (e : EntityKind) (i : Iri) :
    StandsFor (.value (.iri i)) e.kind (.value (.entity ⟨e, i⟩))

/- Strings and IRIs are promoted to what they stand for. -/
theorem Ground.promote?_eq_some_iff
    {g h : Ground}
    {k : Kind} :
    g.promote? k = some h ↔ g.StandsFor k h := by
  constructor
  · intro hEq
    unfold Ground.promote? at hEq
    split at hEq
    · cases hEq
      exact .iri _
    · cases hEq
      exact .entity .item _
    · cases hEq
      exact .entity .property _
    · cases hEq
      exact .entity .lexeme _
    · cases hEq
  · intro hStands
    cases hStands with
    | iri s => rfl
    | entity e i => cases e <;> rfl

/- What stands for something else does not fit as it is. -/
theorem Ground.StandsFor.not_le
    {g h : Ground}
    {k : Kind}
    (hStands : g.StandsFor k h) :
    ¬ g.kind ≤ k := by
  cases hStands with
  | iri s =>
      change ¬ Kind.string ≤ Kind.iri
      decide
  | entity e i =>
      change ¬ Kind.iri ≤ e.kind
      cases e <;> decide

/-
  What a slot makes of the arguments that it takes.  A term of
  the slot's kind is kept, a variable of a wider kind becomes
  one of the slot's kind, and a string or an IRI becomes what
  it stands for.
-/
inductive Slot.Takes (slot : Slot) :
    Option Term → Option Term → Prop where
| absent
    (hOptional : slot.isOptional = true) :
    Takes slot none none
| kept
    {t : Term}
    (hKind : t.kind ≤ slot.kind) :
    Takes slot (some t) (some t)
| narrowed
    {v : Variable}
    (hKind : slot.kind ≤ v.kind) :
    Takes slot (some (.var v))
      (some (.var (v.withKind slot.kind)))
| promoted
    {g h : Ground}
    (hStands : g.StandsFor slot.kind h) :
    Takes slot (some (.ground g)) (some (.ground h))

namespace Term

/- A check passes for the arguments that the slot takes. -/
theorem checkArg_eq_ok_iff
    {c : Constructor}
    {position : Nat}
    {slot : Slot}
    {arg checked : Option Term} :
    checkArg c position slot arg = .ok checked ↔
      slot.Takes arg checked := by
  constructor
  · intro h
    rcases arg with _ | (g | v | ⟨d, args⟩)
    · simp only [checkArg] at h
      split at h
      · rename_i hOptional
        cases h
        exact .absent hOptional
      · cases h
    · simp only [checkArg] at h
      split at h
      · rename_i hKind
        cases h
        exact .kept hKind
      · split at h
        · rename_i hPromote
          cases h
          exact .promoted (Ground.promote?_eq_some_iff.mp hPromote)
        · cases h
    · simp only [checkArg] at h
      split at h
      · rename_i hKind
        cases h
        exact .kept hKind
      · split at h
        · rename_i hKind
          cases h
          exact .narrowed hKind
        · cases h
    · simp only [checkArg] at h
      split at h
      · rename_i hKind
        cases h
        exact .kept hKind
      · cases h
  · intro h
    cases h with
    | absent hOptional => simp [checkArg, hOptional]
    | kept hKind => exact checkArg_of_admits c position hKind
    | @narrowed v hKind =>
        by_cases hLe : v.kind ≤ slot.kind
        · have hSame : v.withKind slot.kind = v := by
            rw [le_antisymm hKind hLe]
            rfl
          simp [checkArg, hLe, hSame]
        · simp [checkArg, hLe, hKind]
    | promoted hStands =>
        have hPromote := Ground.promote?_eq_some_iff.mpr hStands
        simp [checkArg, hStands.not_le, hPromote]

/- Checks pass for the arguments that the slots take. -/
theorem checkArgs_eq_ok_iff
    {c : Constructor}
    {position : Nat}
    {slots : List Slot}
    {args checked : List (Option Term)} :
    checkArgs c position slots args = .ok checked ↔
      List.Forall₂ (fun (entry : Slot × Option Term) arg =>
        entry.1.Takes entry.2 arg) (slots.zip args) checked := by
  induction slots generalizing position args checked with
  | nil => simp [checkArgs, eq_comm]
  | cons slot slots ih =>
      cases args with
      | nil => simp [checkArgs, eq_comm]
      | cons arg args =>
          constructor
          · intro h
            rcases exists_of_bind_eq_ok h with ⟨first, hFirst, h⟩
            rcases exists_of_bind_eq_ok h with ⟨rest, hRest, h⟩
            cases h
            exact .cons (checkArg_eq_ok_iff.mp hFirst)
              (ih.mp hRest)
          · intro h
            cases h with
            | cons hHead hTail =>
                simp [checkArgs, checkArg_eq_ok_iff.mpr hHead,
                  ih.mpr hTail, bind, Except.bind]

/- A slot takes open arguments for open ones. -/
theorem isOpenArg_of_takes
    {slot : Slot}
    {arg checked : Option Term}
    (h : slot.Takes arg checked) :
    isOpenArg checked = isOpenArg arg := by
  cases h <;> rfl

/- Slots take open arguments for open ones. -/
theorem any_isOpenArg_of_takes
    {slots : List Slot}
    {args checked : List (Option Term)}
    (hLength : args.length = slots.length)
    (h :
      List.Forall₂ (fun (entry : Slot × Option Term) arg =>
        entry.1.Takes entry.2 arg) (slots.zip args) checked) :
    checked.any isOpenArg = args.any isOpenArg := by
  induction slots generalizing args checked with
  | nil =>
      cases List.length_eq_zero_iff.mp hLength
      cases h
      rfl
  | cons slot slots ih =>
      cases args with
      | nil => cases hLength
      | cons arg args =>
          cases h with
          | cons hHead hTail =>
              simp only [List.any_cons, isOpenArg_of_takes hHead,
                ih (Nat.succ.inj hLength) hTail]

end Term

end StatementQuery

------------------------------------------------------------
-- The Least Of Comparable Kinds
------------------------------------------------------------

namespace StatementQuery

namespace Variable

/- The kinds at which a name occurs are comparable. -/
def Chained (vs : List Variable) : Prop :=
  ∀ v ∈ vs, ∀ w ∈ vs, v.name = w.name →
    v.kind.Comparable w.kind

/- Every name is declared at the least of its kinds. -/
def Declares (f : Variable → Variable) (vs : List Variable) : Prop :=
  ∀ v ∈ vs,
    (f v).name = v.name ∧
      IsLeast {k | (⟨v.name, k⟩ : Variable) ∈ vs} (f v).kind

/-
  Comparable kinds have a table.  The kind in the table is one
  of those seen before, so it is comparable with those that
  follow.
-/
theorem exists_leastKindsFrom_of_chained
    (vs : List Variable)
    (table : List (String × Kind))
    (hTable :
      ∀ n k, table.lookup n = some k →
        ∀ v ∈ vs, v.name = n → k.Comparable v.kind)
    (hVars : Chained vs) :
    ∃ result, leastKindsFrom table vs = .ok result := by
  induction vs generalizing table with
  | nil => exact ⟨table, rfl⟩
  | cons v vs ih =>
      have hRest : Chained vs := by
        intro w hw x hx
        exact hVars w (by simp [hw]) x (by simp [hx])
      have hEnter :
          ∀ least,
            (least = v.kind ∨ table.lookup v.name = some least) →
              ∀ n k,
                ((v.name, least) :: table).lookup n = some k →
                  ∀ w ∈ vs, w.name = n → k.Comparable w.kind := by
        intro least hLeast n k hLookup w hw hName
        rw [lookup_cons_ite] at hLookup
        split at hLookup
        · rename_i hOwn
          cases hLookup
          rcases hLeast with rfl | hSeen
          · exact hVars v (by simp) w (by simp [hw])
              (hOwn.symm.trans hName.symm)
          · exact hTable v.name least hSeen w (by simp [hw])
              (hName.trans hOwn)
        · exact hTable n k hLookup w (by simp [hw]) hName
      unfold leastKindsFrom
      cases hSeen : table.lookup v.name with
      | none => exact ih _ (hEnter v.kind (Or.inl rfl)) hRest
      | some seen =>
          rcases hTable v.name seen hSeen v (by simp) rfl with
            hLe | hLe
          · have hMeet : seen.meet v.kind = some seen :=
              Kind.meet_eq_some_iff.mpr (Or.inl ⟨hLe, rfl⟩)
            simp only [hMeet]
            exact ih _ (hEnter seen (Or.inr hSeen)) hRest
          · have hMeet : seen.meet v.kind = some v.kind :=
              Kind.meet_eq_some_iff.mpr (Or.inr ⟨hLe, rfl⟩)
            simp only [hMeet]
            exact ih _ (hEnter v.kind (Or.inl rfl)) hRest

/- There is a table exactly for comparable kinds. -/
theorem exists_leastKinds_iff
    (vs : List Variable) :
    (∃ table, leastKinds vs = .ok table) ↔ Chained vs := by
  constructor
  · rintro ⟨table, hTable⟩ v hv w hw hName
    have hVars := (leastKinds_ok vs table hTable).1
    rcases hVars v hv with ⟨l, hLookup, hLe⟩
    rcases hVars w hw with ⟨l', hLookup', hLe'⟩
    rw [← hName, hLookup] at hLookup'
    cases hLookup'
    exact Kind.comparable_of_le hLe hLe'
  · intro hVars
    apply exists_leastKindsFrom_of_chained
    · simp
    · intro v hv w hw
      exact hVars v ((mem_sorted v vs).mp hv) w
        ((mem_sorted w vs).mp hw)

/- A table declares every name at the least of its kinds. -/
theorem declares_narrow
    {vs : List Variable}
    {table : List (String × Kind)}
    (h : leastKinds vs = .ok table) :
    Declares (narrow table) vs := by
  intro v hv
  rcases leastKinds_ok vs table h with ⟨hVars, hFrom⟩
  rcases hVars v hv with ⟨l, hLookup, _⟩
  have hKind : (narrow table v).kind = l := by
    simp [narrow, withKind, hLookup]
  rw [hKind]
  refine ⟨rfl, ?_, ?_⟩
  · rcases hFrom v.name l hLookup with ⟨w, hw, hName, hKind'⟩
    rw [← hName, ← hKind']
    exact hw
  · intro k hk
    rcases hVars ⟨v.name, k⟩ hk with ⟨l', hLookup', hLe⟩
    rw [hLookup] at hLookup'
    cases hLookup'
    exact hLe

/-
  The bindings of the variables that a table narrows bind
  every other variable of the list to nothing.
-/
theorem get?_narrowing
    {table : List (String × Kind)}
    {vs : List Variable}
    {v : Variable}
    (hv : v ∈ vs) :
    (Unify.narrowing table (sorted vs)).get? v =
        some (some (.var (narrow table v))) ∨
      ((Unify.narrowing table (sorted vs)).get? v = none ∧
        narrow table v = v) := by
  have hFunctional :
      (Unify.narrowing table (sorted vs)).Functional := by
    apply Bindings.functional_of_eq
      fun w => some (.var (narrow table w))
    intro entry hEntry
    rcases List.mem_map.mp hEntry with ⟨w, _, rfl⟩
    rfl
  by_cases hSelf : narrow table v = v
  · refine Or.inr ⟨?_, hSelf⟩
    cases hGet :
        (Unify.narrowing table (sorted vs)).get? v with
    | none => rfl
    | some s =>
        rcases List.mem_map.mp (Bindings.exists_entry hGet) with
          ⟨w, hw, hEntry⟩
        cases hEntry
        simp [hSelf] at hw
  · refine Or.inl
      (hFunctional (v, some (.var (narrow table v))) ?_)
    apply List.mem_map.mpr
    exact ⟨v, by simp [hv, hSelf], rfl⟩

end Variable

end StatementQuery

------------------------------------------------------------
-- Accepted Arguments
------------------------------------------------------------

namespace StatementQuery

namespace Ground

/- Quantities have an amount. -/
theorem amount?_eq_some_iff
    {a : Option Ground}
    {d : Decimal} :
    amount? a = some d ↔
      ∃ q, a = some (.value (.quantity q)) ∧ q.amount = d := by
  constructor
  · intro h
    unfold amount? at h
    split at h
    · exact ⟨_, rfl, Option.some.inj h⟩
    · cases h
  · rintro ⟨q, rfl, rfl⟩
    rfl

/- Minutes are read if they are an offset. -/
theorem exists_timezone_iff
    {minutes : Option Decimal} :
    (∃ z, timezone minutes = .ok z) ↔
      ∀ d, minutes = some d →
        ∃ z : Int32, d.toInt? = some z.toInt := by
  cases minutes with
  | none => simp [timezone]
  | some d =>
      cases h : timezone (some d) with
      | ok z =>
          refine iff_of_true ⟨z, rfl⟩ ?_
          rintro d' ⟨⟩
          by_contra hNone
          have hError :=
            timezone_eq_error_iff.mpr
              ⟨rfl, fun z hz => hNone ⟨z, hz⟩⟩
          rw [h] at hError
          cases hError
      | error e =>
          have hNone := (timezone_eq_error_iff.mp h).2
          refine iff_of_false (by simp) ?_
          intro hSome
          rcases hSome d rfl with ⟨z, hz⟩
          exact hNone z hz

/- A time is built if its code and its minutes are read. -/
theorem exists_build_time
    {t : Time}
    {code minutes calendar : Option Ground} :
    (∃ g,
        build .time
            [some (.value (.time t)), code, minutes, calendar] =
          .ok g) ↔
      (∃ p, precision (amount? code) = .ok p) ∧
        ∃ z, timezone (amount? minutes) = .ok z := by
  simp only [build, instant?, buildTime]
  cases precision (amount? code) with
  | error e => simp [bind, Except.bind]
  | ok p =>
      cases timezone (amount? minutes) with
      | error e => simp [bind, Except.bind]
      | ok z => simp [bind, Except.bind]

end Ground

/- The code and the offset of a time, where given, exist. -/
structure Term.TimeArgs (args : List (Option Term)) : Prop where
  precision :
    ∀ q,
      args[1]? = some (some (.ground (.value (.quantity q)))) →
        q.amount.WholeIn 0 14
  timezone :
    ∀ q,
      args[2]? = some (some (.ground (.value (.quantity q)))) →
        q.amount.WholeIn (-2 ^ 31) (2 ^ 31 - 1)

/-
  The arguments that a constructor accepts, and what its slots
  make of them.
-/
structure Constructor.Accepts
    (c : Constructor)
    (args checked : List (Option Term)) :
    Prop where
  arity : args.length = c.slots.length
  slots :
    List.Forall₂ (fun (entry : Slot × Option Term) arg =>
      entry.1.Takes entry.2 arg) (c.slots.zip args) checked
  kinds : Variable.Chained (Term.occurrencesArgs checked)
  time :
    c = .time → args.any Term.isOpenArg = false →
      Term.TimeArgs checked

namespace Term

/- Checked arguments are taken in place of the arguments. -/
theorem apply_of_checkArgs
    {c : Constructor}
    {args checked : List (Option Term)}
    (hLength : args.length = c.slots.length)
    (h : checkArgs c 0 c.slots args = .ok checked) :
    apply c args =
      if checked.any isOpenArg then
        (normalizeArgs checked).map (.app c)
      else
        (Ground.build c (checked.map groundArg)).map .ground := by
  unfold apply
  rw [if_pos hLength, h]
  simp only [bind, Except.bind]
  split
  · cases normalizeArgs checked <;> rfl
  · cases Ground.build c (checked.map groundArg) <;> rfl

/- The parts of a time are built into one if they exist. -/
theorem exists_build_time_iff
    {parts : List (Option Ground)}
    (hSlots :
      List.Forall₂ Slot.Admits Constructor.time.slots
        (parts.map (Option.map Term.ground))) :
    (∃ g, Ground.build .time parts = .ok g) ↔
      TimeArgs (parts.map (Option.map Term.ground)) := by
  rcases exists_timeParts hSlots with
    ⟨t, code, minutes, calendar, rfl⟩
  rw [Ground.exists_build_time, Ground.exists_precision_iff,
    Ground.exists_timezone_iff]
  constructor
  · rintro ⟨hCode, hMinutes⟩
    constructor
    · intro q hq
      rw [← Decimal.exists_code_iff]
      apply hCode
      exact Ground.amount?_eq_some_iff.mpr ⟨q, by simpa using hq, rfl⟩
    · intro q hq
      rw [← Decimal.exists_offset_iff]
      apply hMinutes
      exact Ground.amount?_eq_some_iff.mpr ⟨q, by simpa using hq, rfl⟩
  · rintro ⟨hCode, hMinutes⟩
    constructor
    · intro d hd
      rcases Ground.amount?_eq_some_iff.mp hd with ⟨q, rfl, rfl⟩
      exact (Decimal.exists_code_iff _).mpr (hCode q rfl)
    · intro d hd
      rcases Ground.amount?_eq_some_iff.mp hd with ⟨q, rfl, rfl⟩
      exact (Decimal.exists_offset_iff _).mpr (hMinutes q rfl)

/- Closed arguments that fit are built unless they are a time. -/
theorem exists_build_iff
    {c : Constructor}
    {checked : List (Option Term)}
    (hSlots : List.Forall₂ Slot.Admits c.slots checked)
    (hClosed : checked.any isOpenArg = false) :
    (∃ g, Ground.build c (checked.map groundArg) = .ok g) ↔
      (c = .time → TimeArgs checked) := by
  have hGround := map_ground_map_groundArg hClosed
  by_cases hTime : c = .time
  · subst hTime
    rw [← hGround] at hSlots
    rw [exists_build_time_iff hSlots, hGround]
    simp
  · rw [← hGround] at hSlots
    exact iff_of_true (Ground.exists_build hTime hSlots)
      fun h => absurd h hTime

/- Arguments with a table of least kinds are declared by it. -/
theorem normalizeArgs_of_leastKinds
    {args : List (Option Term)}
    {table : List (String × Kind)}
    (h : Variable.leastKinds (occurrencesArgs args) = .ok table) :
    normalizeArgs args =
      .ok
        (args.map
          (Option.map (mapVariables (Variable.narrow table)))) := by
  simp [normalizeArgs, h, mapVariablesArgs_eq_map]

/- Arguments can be declared if their kinds are comparable. -/
theorem exists_normalizeArgs_iff
    (args : List (Option Term)) :
    (∃ normal, normalizeArgs args = .ok normal) ↔
      Variable.Chained (occurrencesArgs args) := by
  rw [← Variable.exists_leastKinds_iff]
  unfold normalizeArgs
  cases Variable.leastKinds (occurrencesArgs args) with
  | ok table => simp
  | error h => simp

section Acceptance

variable {c : Constructor} {args checked : List (Option Term)}

/- A constructor is applied to the arguments it accepts. -/
theorem exists_apply_of_accepts
    (hArgs : ∀ t, some t ∈ args → t.WellShaped)
    (h : c.Accepts args checked) :
    ∃ t, apply c args = .ok t := by
  have hChecked : checkArgs c 0 c.slots args = .ok checked :=
    checkArgs_eq_ok_iff.mpr h.slots
  rw [apply_of_checkArgs h.arity hChecked]
  split
  · rcases (exists_normalizeArgs_iff checked).mpr h.kinds with
      ⟨normal, hNormal⟩
    exact ⟨.app c normal, by rw [hNormal]; rfl⟩
  · rename_i hOpen
    have hClosed := Bool.eq_false_of_not_eq_true hOpen
    have hSlots := (admits_of_checkArgs h.arity hArgs hChecked).1
    have hTime : c = .time → TimeArgs checked := by
      intro hc
      apply h.time hc
      rw [← any_isOpenArg_of_takes h.arity h.slots]
      exact hClosed
    rcases (exists_build_iff hSlots hClosed).mpr hTime with
      ⟨g, hg⟩
    exact ⟨.ground g, by rw [hg]; rfl⟩

/- A constructor accepts the arguments it is applied to. -/
theorem exists_accepts_of_apply
    (hArgs : ∀ t, some t ∈ args → t.WellShaped)
    {t : Term}
    (h : apply c args = .ok t) :
    ∃ checked, c.Accepts args checked := by
  have hLength : args.length = c.slots.length := by
    by_contra hOther
    rw [apply, if_neg hOther] at h
    cases h
  cases hChecked : checkArgs c 0 c.slots args with
  | error e =>
      rw [apply, if_pos hLength, hChecked] at h
      cases h
  | ok checked =>
      have hTakes := checkArgs_eq_ok_iff.mp hChecked
      have hOpenIff := any_isOpenArg_of_takes hLength hTakes
      have hSlots :=
        (admits_of_checkArgs hLength hArgs hChecked).1
      rw [apply_of_checkArgs hLength hChecked] at h
      cases hOpen : checked.any isOpenArg with
      | true =>
          refine ⟨checked, hLength, hTakes, ?_, ?_⟩
          · rw [← exists_normalizeArgs_iff]
            cases hNormal : normalizeArgs checked with
            | ok normal => exact ⟨normal, rfl⟩
            | error e =>
                rw [hOpen, if_pos rfl, hNormal] at h
                cases h
          · intro _ hClosed
            rw [← hOpenIff, hOpen] at hClosed
            cases hClosed
      | false =>
          refine ⟨checked, hLength, hTakes, ?_, ?_⟩
          · rw [occurrencesArgs_of_closed hOpen]
            simp [Variable.Chained]
          · intro hTime _
            refine (exists_build_iff hSlots hOpen).mp ?_ hTime
            cases hBuild :
                Ground.build c (checked.map groundArg) with
            | ok g => exact ⟨g, rfl⟩
            | error e =>
                rw [hOpen, hBuild] at h
                cases h

/- From open arguments an application is built. -/
theorem apply_of_accepts
    (h : c.Accepts args checked)
    (hOpen : args.any isOpenArg = true)
    {table : List (String × Kind)}
    (hTable :
      Variable.leastKinds (occurrencesArgs checked) = .ok table) :
    apply c args =
      .ok
        (.app c
          (checked.map
            (Option.map
              (mapVariables (Variable.narrow table))))) := by
  rw [apply_of_checkArgs h.arity (checkArgs_eq_ok_iff.mpr h.slots),
    any_isOpenArg_of_takes h.arity h.slots, if_pos hOpen,
    normalizeArgs_of_leastKinds hTable]
  rfl

end Acceptance

/-
  Passing the narrowing of variables through a term, with all
  checks of its constructors, replaces the variables only.
-/
theorem instantiateWith_narrowing
    {t : Term}
    (hShaped : t.WellShaped)
    {vs : List Variable}
    (hVars : ∀ v ∈ t.occurrences, v ∈ vs)
    {table : List (String × Kind)}
    (hTable : Variable.leastKinds vs = .ok table)
    (mode : InstantiateMode) :
    t.instantiateWith mode
        (Unify.narrowing table (Variable.sorted vs)) =
      .ok (some (t.mapVariables (Variable.narrow table))) := by
  apply instantiateWith_mapVariables
    (κ := fun name => List.lookup name table) mode hShaped
  · intro v hv
    exact Variable.narrow_kind_le hTable (hVars v hv)
  · intro v hv
    rcases (Variable.leastKinds_ok vs table hTable).1 v (hVars v hv)
      with ⟨l, hLookup, _⟩
    simp [Kinding.Has, Variable.narrow, Variable.withKind, hLookup]
  · intro v hv
    exact Variable.get?_narrowing (hVars v hv)

/-
  A term of a kind is built from arguments exactly if the kind
  has a constructor that accepts them.  From open arguments it
  is their application with every name at the least of its
  kinds; the same arguments come out when the narrowing of the
  variables is passed through each of them.
-/
theorem construct_accepts_iff
    {args : List (Option Term)}
    (hArgs : ∀ t, some t ∈ args → t.WellFormed)
    (k : Kind) :
    ((∃ t, construct k args = .ok t) ↔
      ∃ c checked,
        k.constructor? = some c ∧ c.Accepts args checked) ∧
    ∀ c checked,
      k.constructor? = some c → c.Accepts args checked →
        args.any isOpenArg = true →
          ∃ table,
            Variable.Declares (Variable.narrow table)
                (occurrencesArgs checked) ∧
              construct k args =
                .ok
                  (.app c
                    (checked.map
                      (Option.map
                        (mapVariables (Variable.narrow table))))) ∧
              ∀ t, some t ∈ checked →
                t.instantiateWith .exact
                    (Unify.narrowing table
                      (Variable.sorted (occurrencesArgs checked))) =
                  .ok
                    (some
                      (t.mapVariables (Variable.narrow table))) := by
  have hShaped : ∀ t, some t ∈ args → t.WellShaped :=
    fun t ht => (hArgs t ht).shaped
  constructor
  · constructor
    · rintro ⟨t, ht⟩
      unfold construct at ht
      cases hConstructor : k.constructor? with
      | none =>
          rw [hConstructor] at ht
          cases ht
      | some c =>
          rw [hConstructor] at ht
          rcases exists_accepts_of_apply hShaped ht with
            ⟨checked, hAccepts⟩
          exact ⟨c, checked, rfl, hAccepts⟩
    · rintro ⟨c, checked, hConstructor, hAccepts⟩
      rcases exists_apply_of_accepts hShaped hAccepts with
        ⟨t, ht⟩
      exact ⟨t, by rw [construct, hConstructor]; exact ht⟩
  · intro c checked hConstructor hAccepts hOpen
    rcases (Variable.exists_leastKinds_iff _).mpr hAccepts.kinds
      with ⟨table, hTable⟩
    have hChecked : checkArgs c 0 c.slots args = .ok checked :=
      checkArgs_eq_ok_iff.mpr hAccepts.slots
    have hCheckedShaped :=
      (admits_of_checkArgs hAccepts.arity hShaped hChecked).2
    refine ⟨table, Variable.declares_narrow hTable, ?_, ?_⟩
    · rw [construct, hConstructor]
      exact apply_of_accepts hAccepts hOpen hTable
    · intro t ht
      apply instantiateWith_narrowing (hCheckedShaped t ht) _ hTable
      intro v hv
      exact (mem_occurrencesArgs v checked).mpr ⟨t, ht, hv⟩

/- A subject and a snak that has it as its value, an item. -/
def homonyms (subject : Kind) : List (Option Term) :=
  [some (.var ⟨"x", subject⟩),
    some
      (.app .valueSnak
        [some (.var ⟨"p", .property⟩), some (.var ⟨"x", .item⟩)])]

theorem construct_accepts_iff_homonyms :
    (∀ t, some t ∈ homonyms .entity → t.WellFormed) ∧
      (∃ c checked,
        Kind.statement.constructor? = some c ∧
          c.Accepts (homonyms .entity) checked) ∧
      construct .statement (homonyms .entity) =
        .ok (.app .statement (homonyms .item)) := by
  have hArgs :
      ∀ t, some t ∈ homonyms .entity → t.WellFormed := by
    intro t ht
    simp only [homonyms, List.mem_cons, Option.some.injEq,
      List.not_mem_nil, or_false] at ht
    rcases ht with rfl | rfl <;> decide
  exact
    ⟨hArgs, (construct_accepts_iff hArgs .statement).1.mp ⟨_, rfl⟩,
      rfl⟩

end Term

end StatementQuery

------------------------------------------------------------
-- Building Terms Again
------------------------------------------------------------

namespace StatementQuery

/- The kind of a constructor has that constructor. -/
theorem Constructor.constructor?_kind
    (c : Constructor) :
    c.kind.constructor? = some c := by
  rcases c with _ | (_ | _ | _) | _ | _ | _ | _ | _ | _ | _ <;>
    rfl

/- A ground term that has arguments has a constructor. -/
theorem Ground.exists_constructor_of_args?
    {g : Ground}
    {gs : List (Option Ground)}
    (h : g.args? = some gs) :
    ∃ c : Constructor, g.kind = c.kind := by
  rcases g with
    (e | i | ⟨s, l⟩ | s | s | q | t) | (⟨p, v⟩ | p | p) | s
  · exact ⟨.entity e.kind, rfl⟩
  · exact ⟨.iri, rfl⟩
  · exact ⟨.text, rfl⟩
  · cases h
  · cases h
  · exact ⟨.quantity, rfl⟩
  · exact ⟨.time, rfl⟩
  · exact ⟨.valueSnak, rfl⟩
  · exact ⟨.someValueSnak, rfl⟩
  · exact ⟨.noValueSnak, rfl⟩
  · exact ⟨.statement, rfl⟩

/- Only strings and identifiers have no arguments. -/
theorem Ground.args?_eq_none_iff
    (g : Ground) :
    g.args? = none ↔
      (∃ s, g = .value (.string s)) ∨
        ∃ s, g = .value (.externalId s) := by
  rcases g with
    (e | i | ⟨s, l⟩ | s | s | q | t) | (⟨p, v⟩ | p | p) | s <;>
    simp [Ground.args?, Ground.valueArgs?]

namespace Term

/- A ground term is applied again to its arguments. -/
theorem apply_args?_ground
    {c : Constructor}
    {g : Ground}
    {gs : List (Option Ground)}
    (hKind : g.kind = c.kind)
    (hArgs : g.args? = some gs) :
    apply c (gs.map (Option.map Term.ground)) =
      .ok (.ground g) := by
  rcases Ground.args?_spec hKind hArgs with ⟨hBuild, hSlots⟩
  have hClosed :
      (gs.map (Option.map Term.ground)).any isOpenArg = false := by
    apply List.any_eq_false.mpr
    intro arg hArg
    rcases List.mem_map.mp hArg with ⟨a, _, rfl⟩
    cases a <;> simp [isOpenArg, isGround]
  have hParts :
      (gs.map (Option.map Term.ground)).map groundArg = gs := by
    rw [List.map_map]
    refine Eq.trans (List.map_congr_left ?_) (List.map_id gs)
    rintro (_ | a) _ <;> rfl
  rw [apply_of_closed hSlots hClosed, hParts, hBuild]
  rfl

/- A well-formed application is applied again as it is. -/
theorem apply_of_wellFormed
    {c : Constructor}
    {args : List (Option Term)}
    (h : (Term.app c args).WellFormed) :
    apply c args = .ok (.app c args) := by
  rcases h with ⟨_ | _ | ⟨hSlots, hOpen, _⟩, hOneKind⟩
  have hAssemble :=
    apply_eq_assemble? hSlots (Variable.atKinds_kinding hOneKind)
  rw [assemble?, if_pos hOpen] at hAssemble
  exact eq_ok_of_toOption hAssemble

/-
  The well-formed terms that are built again from their
  arguments are all but variables, strings and identifiers,
  which have no arguments.
-/
theorem construct_undoes_args
    {t : Term}
    (h : t.WellFormed) :
    (∃ args, t.args? = some args ∧
        construct t.kind args = .ok t) ↔
      t.isVariable = false ∧
        (∀ s, t ≠ .ground (.value (.string s))) ∧
        ∀ s, t ≠ .ground (.value (.externalId s)) := by
  cases t with
  | var v => simp [args?, isVariable]
  | app c args =>
      refine iff_of_true ⟨args, rfl, ?_⟩ (by simp [isVariable])
      rw [construct, kind, c.constructor?_kind]
      exact apply_of_wellFormed h
  | ground g =>
      cases hArgs : g.args? with
      | none =>
          refine iff_of_false (by simp [args?, hArgs]) ?_
          rintro ⟨_, hString, hIdentifier⟩
          rcases g.args?_eq_none_iff.mp hArgs with
            ⟨s, rfl⟩ | ⟨s, rfl⟩
          · exact hString s rfl
          · exact hIdentifier s rfl
      | some gs =>
          rcases Ground.exists_constructor_of_args? hArgs with
            ⟨c, hKind⟩
          refine iff_of_true
            ⟨gs.map (Option.map Term.ground), ?_, ?_⟩
            ⟨rfl, ?_, ?_⟩
          · simp [args?, hArgs]
          · rw [construct, kind, hKind, c.constructor?_kind]
            exact apply_args?_ground hKind hArgs
          · rintro s ⟨⟩
            cases hArgs
          · rintro s ⟨⟩
            cases hArgs

/- A day at a timezone, in a calendar that is not given. -/
def dayEast : Term :=
  .ground
    (.value (.time ⟨⟨2020, 2, 29, 0, 0, 0⟩, some .day, some 120, none⟩))

theorem construct_undoes_args_dayEast :
    dayEast.WellFormed ∧
      ∃ args, dayEast.args? = some args ∧
        construct .time args = .ok dayEast := by
  have hFormed : dayEast.WellFormed := by
    decide
  exact
    ⟨hFormed,
      (construct_undoes_args hFormed).mpr ⟨rfl, nofun, nofun⟩⟩

end Term

end StatementQuery
