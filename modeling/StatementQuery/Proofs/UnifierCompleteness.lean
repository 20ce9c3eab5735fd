import Mathlib.Data.List.Perm.Subperm
import StatementQuery.Proofs.FaithfulTerms
import StatementQuery.Proofs.UnifierSoundness

/-
  Unification finds a solution where there is one.

  An assignment gives every name a ground term.  If it makes
  the two sides of every equation the same, then so it does
  after every step of the solver: no step fails, each binding
  is one that the assignment makes true, and each takes a name
  out of the work list.  So a run ends, in bindings that every
  such assignment is an instance of.

  Key definitions include:
    * `Assignment`
    * `Side.Plain`
    * `Unify.Solvable`
    * `Unify.Advances`

  Main declarations:
    * `Term.exists_ground_subst`
    * `Unify.step_of_agrees`
    * `Unify.reduce_of_solvable`
    * `Unify.solve_of_reaches`
    * `unify_complete`
-/

------------------------------------------------------------
-- Ground Assignments
------------------------------------------------------------

namespace StatementQuery

/- A ground term for every name. -/
abbrev Assignment := String → Ground

namespace Assignment

/- What an assignment puts for a variable. -/
def value (σ : Assignment) (v : Variable) : Side :=
  some (.ground (σ v.name))

/- The variables in scope are of kinds that the terms have. -/
def Suits (σ : Assignment) (P : Variable → Prop) : Prop :=
  ∀ v, P v → (σ v.name).kind ≤ v.kind

/- A suitable assignment fits every variable in scope. -/
theorem Suits.fits
    {σ : Assignment}
    {P : Variable → Prop}
    (hσ : σ.Suits P)
    (κ : Kinding)
    {v : Variable}
    (hv : P v) :
    Side.Fits κ v.kind (σ.value v) := by
  have hFits :=
    Side.fits_some (Term.wellKinded_ground κ (σ v.name))
  exact hFits.mono (hσ v hv)

end Assignment

/- A present side over faithful constructors and in scope. -/
def Side.Plain (P : Variable → Prop) (s : Side) : Prop :=
  ∃ t, s = some t ∧ t.WellShaped ∧ t.Faithful ∧
    ∀ v ∈ t.occurrences, P v

/- What a plain term is. -/
theorem Side.plain_some_iff
    {P : Variable → Prop}
    {t : Term} :
    Side.Plain P (some t) ↔
      t.WellShaped ∧ t.Faithful ∧ ∀ v ∈ t.occurrences, P v := by
  constructor
  · rintro ⟨_, ⟨⟩, h⟩
    exact h
  · intro h
    exact ⟨t, rfl, h⟩

/- A variable in scope is plain. -/
theorem Side.plain_var
    {P : Variable → Prop}
    {v : Variable}
    (h : P v) :
    Side.Plain P (some (.var v)) := by
  refine Side.plain_some_iff.mpr ⟨.var v, .var v, ?_⟩
  intro w hw
  have hEq : w = v := by simpa [Term.occurrences] using hw
  rw [hEq]
  exact h

/- A plain side is in scope. -/
theorem Side.Plain.within
    {P : Variable → Prop}
    {s : Side}
    (h : Side.Plain P s) :
    Side.Within P s := by
  rcases h with ⟨t, rfl, hShaped, _, hScope⟩
  intro u hu
  cases hu
  exact ⟨hShaped, hScope⟩

/- A plain side is plain in every wider scope. -/
theorem Side.Plain.mono
    {P Q : Variable → Prop}
    {s : Side}
    (h : Side.Plain P s)
    (hPQ : ∀ v, P v → Q v) :
    Side.Plain Q s := by
  rcases h with ⟨t, rfl, hShaped, hFaithful, hScope⟩
  exact
    ⟨t, rfl, hShaped, hFaithful, fun v hv => hPQ v (hScope v hv)⟩

namespace Term

/- An assignment closes a term. -/
theorem exists_ground_subst
    {σ : Assignment}
    {P : Variable → Prop}
    (hσ : σ.Suits P)
    {t : Term}
    (hShaped : t.WellShaped)
    (hFaithful : t.Faithful)
    (hScope : ∀ v ∈ t.occurrences, P v) :
    ∃ g, t.subst σ.value = some (some (.ground g)) ∧
      g.kind ≤ t.kind := by
  have hFits :
      ∀ v ∈ t.occurrences,
        Side.Fits (fun _ => none) v.kind (σ.value v) := by
    intro v hv
    exact hσ.fits _ (hScope v hv)
  have hPresent :
      ∀ v ∈ t.occurrences,
        ∃ u, σ.value v = some u ∧ u.Faithful := by
    intro v _
    exact ⟨.ground (σ v.name), rfl, .ground _⟩
  rcases exists_subst_of_present hShaped hFaithful hFits
      hPresent with
    ⟨u, hu, _⟩
  have hu' := fits_subst hShaped hFits hu u rfl
  have hClosed : ∀ w, w ∉ u.occurrences := by
    intro w hw
    rcases exists_of_mem_occurrences_subst hShaped hu hw with
      ⟨v, _, hv⟩
    simp [Assignment.value, Side.occurrences, occurrences] at hv
  rcases exists_ground_of_occurrences_eq_nil hu'.2.shaped
      hClosed with
    ⟨g, rfl⟩
  exact ⟨g, hu, hu'.1⟩

/- The variable that a term is. -/
theorem exists_var_of_isVariable
    {t : Term}
    (h : t.isVariable = true) :
    ∃ v, t = .var v := by
  cases t with
  | var v => exact ⟨v, rfl⟩
  | ground g => cases h
  | app c args => cases h

/- A side that is no variable is different from all of them. -/
theorem ne_var_of_isVariable
    {t : Term}
    (h : t.isVariable = false)
    (y : Variable) :
    some t ≠ some (.var y) := by
  rintro ⟨⟩
  cases h

/- A term that is no variable has the kind of its instances. -/
theorem kind_of_subst
    {f : Variable → Side}
    {t u : Term}
    (hShaped : t.WellShaped)
    (hVar : t.isVariable = false)
    (h : t.subst f = some (some u)) :
    u.kind = t.kind := by
  cases t with
  | ground g =>
      cases h
      rfl
  | var v => cases hVar
  | app c args => exact kind_subst_app hShaped h

end Term

end StatementQuery

------------------------------------------------------------
-- Arguments Under An Assignment
------------------------------------------------------------

namespace StatementQuery

namespace Term

/- Terms that are closed one by one. -/
theorem exists_ground_substs
    {σ : Assignment}
    {ts : List Term}
    (h :
      ∀ t ∈ ts, ∃ g, t.subst σ.value = some (some (.ground g))) :
    ∃ gs : List Ground,
      ts.map (subst σ.value) =
        gs.map fun g => some (some (.ground g)) := by
  induction ts with
  | nil => exact ⟨[], rfl⟩
  | cons t ts ih =>
      rcases h t (by simp) with ⟨g, hg⟩
      rcases ih fun u hu => h u (by simp [hu]) with ⟨gs, hgs⟩
      exact ⟨g :: gs, by simp [hg, hgs]⟩

/- The instance of a term has the instances of its arguments. -/
theorem exists_args_subst
    {σ : Assignment}
    {P : Variable → Prop}
    (hσ : σ.Suits P)
    {c : Constructor}
    {t : Term}
    {g : Ground}
    (hShaped : t.WellShaped)
    (hFaithful : t.Faithful)
    (hScope : ∀ v ∈ t.occurrences, P v)
    (hVar : t.isVariable = false)
    (hc : c.isFaithful = true)
    (hKind : t.kind = c.kind)
    (h : t.subst σ.value = some (some (.ground g))) :
    ∃ (ts : List Term) (gs : List Ground),
      t.args? = some (ts.map some) ∧
        g.args? = some (gs.map some) ∧
        ts.map (subst σ.value) =
          gs.map fun g => some (some (.ground g)) := by
  cases t with
  | var v => cases hVar
  | ground g' =>
      cases h
      rcases Ground.exists_args? hc hKind with ⟨gs, hgs⟩
      refine ⟨gs.map .ground, gs, ?_, hgs, ?_⟩
      · simp [args?, hgs]
      · simp [subst, Function.comp_def]
  | app d args =>
      have hEq : d = c := Constructor.kind_injective hKind
      subst hEq
      rcases hShaped with _ | _ | ⟨hSlots, hOpen, hArgs⟩
      rcases hFaithful with _ | _ | ⟨hHead, hRest⟩
      rcases exists_args_of_faithful hHead hSlots with ⟨ts, rfl⟩
      have hEach :
          ∀ t ∈ ts,
            ∃ g, t.subst σ.value = some (some (.ground g)) ∧
              g.kind ≤ t.kind := by
        intro t ht
        have hMem : some t ∈ ts.map some :=
          List.mem_map.mpr ⟨t, ht, rfl⟩
        apply exists_ground_subst hσ (hArgs t hMem)
          (hRest t hMem)
        intro v hv
        apply hScope
        exact (mem_occurrences_app v d _).mpr ⟨t, hMem, hv⟩
      rcases exists_ground_substs
          (fun t ht => (hEach t ht).imp fun g hg => hg.1) with
        ⟨gs, hgs⟩
      refine ⟨ts, gs, rfl, ?_, hgs⟩
      -- The arguments of the result are the values gathered.
      have hResults :
          (ts.map some).map (Side.subst σ.value) =
            (gs.map fun g => some (.ground g)).map some := by
        simpa [Side.subst, Function.comp_def] using hgs
      rw [subst_app] at h
      have hLength :
          d.slots.length =
            ((ts.map some).map (Side.subst σ.value)).length := by
        simpa using hSlots.length_eq
      rcases combine_eq_some hLength h with
        ⟨hAbsent, _⟩ | ⟨values, u, hValues, hFills, hu, hEq⟩
      · cases hAbsent
      · cases hEq
        have hSame :
            values = gs.map fun g => some (.ground g) := by
          rw [hResults] at hValues
          exact
            (List.map_injective_iff.mpr
              (Option.some_injective Side) hValues).symm
        have hAdmits :=
          admits_values hSlots hValues hFills
            fun t ht u hu => by
              rcases List.mem_map.mp ht with ⟨t', ht', hEq⟩
              cases hEq
              rcases hEach t ht' with ⟨g', hg', hKind'⟩
              rw [hg'] at hu
              cases hu
              exact hKind'
        rcases assemble?_eq_some hu with
          ⟨_, hApp⟩ | ⟨g', _, hBuild, hEq⟩
        · cases hApp
        · cases hEq
          have hGround :
              values.map groundArg = gs.map some := by
            rw [hSame, List.map_map]
            rfl
          rw [hGround] at hBuild
          refine Ground.args?_build hHead ?_ hBuild
          rw [hSame] at hAdmits
          simpa [Function.comp_def] using hAdmits

end Term

end StatementQuery

------------------------------------------------------------
-- Steps That Succeed
------------------------------------------------------------

namespace StatementQuery

namespace Term

/- The arguments of a plain term are plain. -/
theorem plain_args
    {P : Variable → Prop}
    {t : Term}
    {ts : List Term}
    (h : Side.Plain P (some t))
    (hArgs : t.args? = some (ts.map some))
    {u : Term}
    (hu : u ∈ ts) :
    Side.Plain P (some u) := by
  have hMem : some u ∈ ts.map some :=
    List.mem_map.mpr ⟨u, hu, rfl⟩
  have hWithin := within_args h.within hArgs hMem u rfl
  refine ⟨u, rfl, hWithin.1, ?_, hWithin.2⟩
  rcases h with ⟨t', hEq, _, hFaithful, _⟩
  cases hEq
  cases hFaithful with
  | var v => cases hArgs
  | app hHead hRest =>
      cases hArgs
      exact hRest u hMem
  | ground g =>
      rcases Option.map_eq_some_iff.mp hArgs with
        ⟨gs, _, hEq⟩
      rw [← hEq] at hMem
      rcases List.mem_map.mp hMem with ⟨g', _, hg'⟩
      rcases Option.map_eq_some_iff.mp hg' with ⟨x, _, rfl⟩
      exact .ground x

end Term

namespace Unify

/-
  Equations between plain sides that an assignment makes the
  same.
-/
def Solvable
    (σ : Assignment)
    (P : Variable → Prop)
    (eqs : List Equation) :
    Prop :=
  ∀ e ∈ eqs,
    Side.Plain P e.1 ∧ Side.Plain P e.2 ∧
      Equation.Agrees σ.value e

/- Present arguments are all paired. -/
theorem pairArgs?_map_some
    {ts us : List Term}
    (hLength : ts.length = us.length) :
    pairArgs? (ts.map some) (us.map some) =
      some ((ts.zip us).map fun e => (some e.1, some e.2)) := by
  induction ts generalizing us with
  | nil => cases us <;> rfl
  | cons t ts ih =>
      cases us with
      | nil => cases hLength
      | cons u us =>
          have hLength' : ts.length = us.length := by
            simpa using hLength
          simp [pairArgs?, ih hLength']

/- Lists with equal images have equal images in each place. -/
theorem eq_of_mem_zip
    {α β : Type}
    {F : α → β}
    {as bs : List α}
    (h : as.map F = bs.map F)
    {a b : α}
    (hab : (a, b) ∈ as.zip bs) :
    F a = F b := by
  have hPairs : List.Forall₂ (fun a b => F a = F b) as bs := by
    rw [← List.forall₂_eq_eq_eq] at h
    exact List.forall₂_map_right_iff.mp
      (List.forall₂_map_left_iff.mp h)
  exact (List.forall₂_iff_zip.mp hPairs).2 hab

/- Terms that an assignment makes the same. -/
theorem exists_canonical_of_agrees
    {σ : Assignment}
    {P : Variable → Prop}
    (hσ : σ.Suits P)
    {s t : Term}
    (hs : Side.Plain P (some s))
    (ht : Side.Plain P (some t))
    (h : Equation.Agrees σ.value (some s, some t)) :
    ∃ g g',
      s.subst σ.value = some (some (.ground g)) ∧
        t.subst σ.value = some (some (.ground g')) ∧
        g.canonical = g'.canonical := by
  rcases hs with ⟨_, ⟨⟩, hsShaped, hsFaithful, hsScope⟩
  rcases ht with ⟨_, ⟨⟩, htShaped, htFaithful, htScope⟩
  rcases Term.exists_ground_subst hσ hsShaped hsFaithful
      hsScope with
    ⟨g, hg, _⟩
  rcases Term.exists_ground_subst hσ htShaped htFaithful
      htScope with
    ⟨g', hg', _⟩
  refine ⟨g, g', hg, hg', ?_⟩
  unfold Equation.Agrees at h
  simpa [Side.subst, hg, hg', outcome, Term.canonical] using h

/- Terms that are made the same have a common constructor. -/
theorem exists_faithful_constructor
    {s t : Term}
    (hs : s.Faithful)
    (ht : t.Faithful)
    (hsVar : s.isVariable = false)
    (htVar : t.isVariable = false)
    (hKind : s.kind = t.kind)
    (hOpen : (s.isGround && t.isGround) = false) :
    ∃ c : Constructor,
      c.isFaithful = true ∧ s.kind = c.kind ∧
        t.kind = c.kind := by
  cases hs with
  | var v => cases hsVar
  | @app c args hHead _ => exact ⟨c, hHead, rfl, hKind.symm⟩
  | ground g =>
      cases ht with
      | var v => cases htVar
      | @app c args hHead _ => exact ⟨c, hHead, hKind, rfl⟩
      | ground g' => cases hOpen

/- Ground terms that are the same have the same arguments. -/
theorem outcomes_of_canonical
    {σ : Assignment}
    {c : Constructor}
    (hc : c.isFaithful = true)
    {g g' : Ground}
    (hg : g.kind = c.kind)
    (hg' : g'.kind = c.kind)
    (hCanonical : g.canonical = g'.canonical)
    {gs gs' : List Ground}
    (hgs : g.args? = some (gs.map some))
    (hgs' : g'.args? = some (gs'.map some))
    {ts us : List Term}
    (hts :
      ts.map (Term.subst σ.value) =
        gs.map fun g => some (some (.ground g)))
    (hus :
      us.map (Term.subst σ.value) =
        gs'.map fun g => some (some (.ground g))) :
    ts.map (fun t => outcome (t.subst σ.value)) =
      us.map fun t => outcome (t.subst σ.value) := by
  have hArgs :
      gs.map Ground.canonical = gs'.map Ground.canonical := by
    have hLeft := Ground.args?_canonical hc hg
    have hRight := Ground.args?_canonical hc hg'
    rw [hCanonical, hRight, hgs, hgs'] at hLeft
    simp only [Option.map_some, Option.some.injEq, List.map_map]
      at hLeft
    have hSome :
        (gs'.map Ground.canonical).map some =
          (gs.map Ground.canonical).map some := by
      simpa [Function.comp_def] using hLeft
    exact
      (List.map_injective_iff.mpr
        (Option.some_injective Ground) hSome).symm
  have hOutcome :
      ∀ (vs : List Term) (xs : List Ground),
        vs.map (Term.subst σ.value) =
            xs.map (fun g => some (some (.ground g))) →
          vs.map (fun t => outcome (t.subst σ.value)) =
            (xs.map Ground.canonical).map
              fun g => some (some (.ground g)) := by
    intro vs xs hvs
    have hEq := congrArg (List.map outcome) hvs
    simpa [outcome, Term.canonical, Function.comp_def] using hEq
  rw [hOutcome ts gs hts, hOutcome us gs' hus, hArgs]

/- Terms that are made the same can be decomposed. -/
theorem decompose?_of_agrees
    {σ : Assignment}
    {P : Variable → Prop}
    (hσ : σ.Suits P)
    {s t : Term}
    (hs : Side.Plain P (some s))
    (ht : Side.Plain P (some t))
    (hsVar : s.isVariable = false)
    (htVar : t.isVariable = false)
    (hDiffer : s.same t = false)
    (h : Equation.Agrees σ.value (some s, some t)) :
    ∃ parts,
      decompose? (some s) (some t) = some parts ∧
        Solvable σ P parts := by
  rcases exists_canonical_of_agrees hσ hs ht h with
    ⟨g, g', hg, hg', hCanonical⟩
  have hsPlain := hs
  have htPlain := ht
  rcases hs with ⟨_, ⟨⟩, hsShaped, hsFaithful, hsScope⟩
  rcases ht with ⟨_, ⟨⟩, htShaped, htFaithful, htScope⟩
  have hgKind : g.kind = s.kind :=
    Term.kind_of_subst hsShaped hsVar hg
  have hg'Kind : g'.kind = t.kind :=
    Term.kind_of_subst htShaped htVar hg'
  have hKind : s.kind = t.kind := by
    rw [← hgKind, ← hg'Kind]
    exact Ground.kind_eq_of_canonical_eq hCanonical
  have hOpen : (s.isGround && t.isGround) = false := by
    -- Ground terms that are made the same are the same.
    cases s with
    | var v => rfl
    | app c args => rfl
    | ground x =>
        cases t with
        | var v => rfl
        | app c args => rfl
        | ground y =>
            cases hg
            cases hg'
            have hSame : Ground.same g g' = true :=
              (Ground.same_iff g g').mpr hCanonical
            simp [Term.same, hSame] at hDiffer
  rcases exists_faithful_constructor hsFaithful htFaithful
      hsVar htVar hKind hOpen with
    ⟨c, hc, hsKind, htKind⟩
  rcases Term.exists_args_subst hσ hsShaped hsFaithful hsScope
      hsVar hc hsKind hg with
    ⟨ts, gs, hts, hgs, htsSubst⟩
  rcases Term.exists_args_subst hσ htShaped htFaithful htScope
      htVar hc htKind hg' with
    ⟨us, gs', hus, hgs', husSubst⟩
  have hOutcomes :=
    outcomes_of_canonical hc (hgKind.trans hsKind)
      (hg'Kind.trans htKind) hCanonical hgs hgs' htsSubst
      husSubst
  have hLength : ts.length = us.length := by
    simpa using congrArg List.length hOutcomes
  refine
    ⟨(ts.zip us).map fun e => (some e.1, some e.2), ?_, ?_⟩
  · rw [← pairArgs?_map_some hLength]
    simp [decompose?, hKind, hOpen, hts, hus]
  · intro e he
    rcases List.mem_map.mp he with ⟨⟨a, b⟩, hab, rfl⟩
    rcases List.of_mem_zip hab with ⟨ha, hb⟩
    exact
      ⟨Term.plain_args hsPlain hts ha,
        Term.plain_args htPlain hus hb,
        eq_of_mem_zip hOutcomes hab⟩

/- The names that occur in equations. -/
def names (eqs : List Equation) : List String :=
  (Equation.occurrences eqs).map Variable.name

/-
  Bindings that an assignment makes true, and that take one of
  the given names out of the scope.
-/
structure Advances
    (σ : Assignment)
    (κ κ' : Kinding)
    (τ : Bindings)
    (ns : List String) :
    Prop where
  moves : Moves κ.Has τ κ'
  absorbs : Absorbs σ.value τ
  suits : σ.Suits κ'.Has
  present :
    ∀ v, κ.Has v → ∃ u, τ.value v = some u ∧ u.Faithful
  known :
    ∀ v w, w ∈ Side.occurrences (τ.value v) →
      w.name = v.name ∨ w.name ∈ ns
  leaves : ∃ n ∈ ns, κ' n = none

/- More names may be given. -/
theorem Advances.mono
    {σ : Assignment}
    {κ κ' : Kinding}
    {τ : Bindings}
    {ns ms : List String}
    (h : Advances σ κ κ' τ ns)
    (hSub : ns ⊆ ms) :
    Advances σ κ κ' τ ms := by
  rcases h.leaves with ⟨n, hn, hNone⟩
  refine
    ⟨h.moves, h.absorbs, h.suits, h.present, ?_,
      n, hSub hn, hNone⟩
  intro v w hw
  rcases h.known v w hw with hName | hName
  · exact Or.inl hName
  · exact Or.inr (hSub hName)

/- Merging two variables of one value is an advance. -/
theorem advances_mergeInto
    {σ : Assignment}
    {κ : Kinding}
    (hσ : σ.Suits κ.Has)
    {gone kept : Variable}
    (hGone : κ.Has gone)
    (hKept : κ.Has kept)
    (hNe : gone ≠ kept)
    (hLe : gone.kind ≤ kept.kind)
    (hSame :
      (σ gone.name).canonical = (σ kept.name).canonical)
    {ns : List String}
    (hns : gone.name ∈ ns ∧ kept.name ∈ ns) :
    Advances σ κ (mergedKinds κ gone kept)
      (mergeInto gone kept) ns := by
  constructor
  · exact moves_mergeInto hGone hKept hNe hLe
  · intro v
    by_cases hMerged : v = gone ∨ v = kept
    · rw [value_mergeInto hMerged]
      have hSurvivor :
          (survivor gone kept).name = kept.name := rfl
      rcases hMerged with rfl | rfl
      · simp [Side.subst, Term.subst, Assignment.value, outcome,
          Term.canonical, hSurvivor, hSame]
      · simp [Side.subst, Term.subst, Assignment.value,
          hSurvivor]
    · rw [value_mergeInto_of_not hMerged]
      rfl
  · intro v hv
    unfold Kinding.Has mergedKinds at hv
    split at hv
    · cases hv
    · split at hv
      · rename_i hName
        have hKind : gone.kind = v.kind := by simpa using hv
        rw [hName, ← hKind,
          ← Ground.kind_eq_of_canonical_eq hSame]
        exact hσ gone hGone
      · exact hσ v hv
  · intro v _
    by_cases hMerged : v = gone ∨ v = kept
    · exact ⟨_, value_mergeInto hMerged, .var _⟩
    · exact ⟨_, value_mergeInto_of_not hMerged, .var _⟩
  · intro v w hw
    by_cases hMerged : v = gone ∨ v = kept
    · rw [value_mergeInto hMerged] at hw
      have hEq : w = survivor gone kept := by
        simpa [Side.occurrences, Term.occurrences] using hw
      rw [hEq]
      exact Or.inr hns.2
    · rw [value_mergeInto_of_not hMerged] at hw
      have hEq : w = v := by
        simpa [Side.occurrences, Term.occurrences] using hw
      rw [hEq]
      exact Or.inl rfl
  · exact ⟨gone.name, hns.1, by simp [mergedKinds]⟩

/- Eliminating a variable by a term of its value is one. -/
theorem advances_eliminate
    {σ : Assignment}
    {κ : Kinding}
    (hσ : σ.Suits κ.Has)
    {x : Variable}
    {t : Term}
    {τ : Bindings}
    (hx : κ.Has x)
    (ht : Side.Plain κ.Has (some t))
    (hEliminate : eliminate x (some t) = .ok τ)
    (hAgrees : Equation.Agrees σ.value (some (.var x), some t))
    {ns : List String}
    (hxName : x.name ∈ ns)
    (htNames : ∀ v ∈ t.occurrences, v.name ∈ ns) :
    Advances σ κ (dropName κ x.name) τ ns := by
  have hMoves := moves_eliminate hx ht.within hEliminate
  rcases eliminate_ok hEliminate with ⟨rfl, _, _⟩
  constructor
  · exact hMoves
  · intro v
    by_cases hv : v = x
    · rw [hv, Bindings.value_singleton_self]
      exact hAgrees.symm
    · rw [Bindings.value_singleton_of_ne hv]
      rfl
  · intro v hv
    unfold Kinding.Has dropName at hv
    split at hv
    · cases hv
    · exact hσ v hv
  · intro v _
    by_cases hv : v = x
    · rw [hv, Bindings.value_singleton_self]
      rcases ht with ⟨_, ⟨⟩, _, hFaithful, _⟩
      exact ⟨t, rfl, hFaithful⟩
    · exact ⟨_, Bindings.value_singleton_of_ne hv _, .var v⟩
  · intro v w hw
    by_cases hv : v = x
    · rw [hv, Bindings.value_singleton_self] at hw
      exact Or.inr (htNames w hw)
    · rw [Bindings.value_singleton_of_ne hv] at hw
      have hEq : w = v := by
        simpa [Side.occurrences, Term.occurrences] using hw
      rw [hEq]
      exact Or.inl rfl
  · exact ⟨x.name, hxName, by simp [dropName]⟩

/- Variables of one value can be merged. -/
theorem exists_merge
    {k : Kind}
    {x y : Variable}
    (hx : k ≤ x.kind)
    (hy : k ≤ y.kind) :
    ∃ τ, merge x y = .ok τ := by
  unfold merge
  by_cases hLt : y.kind < x.kind
  · rcases Kind.exists_meet_of_le hy hx with ⟨l, hMeet, _⟩
    simp [hLt, hMeet]
  · rcases Kind.exists_meet_of_le hx hy with ⟨l, hMeet, _⟩
    simp [hLt, hMeet]

/- No application has the value of a variable that it holds. -/
theorem name_notMem_of_agrees
    {σ : Assignment}
    {κ : Kinding}
    (hσ : σ.Suits κ.Has)
    {x : Variable}
    {t : Term}
    (hx : κ.Has x)
    (ht : Side.Plain κ.Has (some t))
    (htVar : t.isVariable = false)
    (hKind : t.kind = (σ x.name).kind) :
    x.name ∉ t.occurrences.map Variable.name := by
  intro hMem
  rcases List.mem_map.mp hMem with ⟨v, hv, hName⟩
  rcases ht with ⟨_, ⟨⟩, hShaped, hFaithful, hScope⟩
  have hEq : v = x := eq_of_has (hScope v hv) hx hName
  cases t with
  | var w => cases htVar
  | ground g => simp [Term.occurrences] at hv
  | app c args =>
      have hLower :=
        Term.rank_lt_of_mem_occurrences hShaped hFaithful hv
      have hValue := Kind.rank_le_of_le (hσ x hx)
      have hc : c.kind = (σ x.name).kind := hKind
      rw [hEq, hc] at hLower
      exact absurd hLower (not_lt.mpr hValue)

/- A variable can be bound to a term that has its value. -/
theorem exists_eliminate
    {σ : Assignment}
    {κ : Kinding}
    (hσ : σ.Suits κ.Has)
    {x : Variable}
    {t : Term}
    (hx : κ.Has x)
    (ht : Side.Plain κ.Has (some t))
    (htVar : t.isVariable = false)
    (hAgrees :
      Equation.Agrees σ.value (some (.var x), some t)) :
    ∃ τ, eliminate x (some t) = .ok τ := by
  rcases exists_canonical_of_agrees hσ (Side.plain_var hx) ht
      hAgrees with
    ⟨g, g', hg, hg', hCanonical⟩
  cases hg
  have hShaped := (Side.plain_some_iff.mp ht).1
  have hKind : t.kind = (σ x.name).kind := by
    rw [Ground.kind_eq_of_canonical_eq hCanonical]
    exact (Term.kind_of_subst hShaped htVar hg').symm
  have hLe : t.kind ≤ x.kind := by
    rw [hKind]
    exact hσ x hx
  have hOccurs :
      (t.occurrences.map Variable.name).contains x.name =
        false := by
    rw [List.contains_eq_mem, decide_eq_false_iff_not]
    exact name_notMem_of_agrees hσ hx ht htVar hKind
  exact ⟨_, by simp only [eliminate, hLe, hOccurs]; rfl⟩

/- The names of a side are among those of its equation. -/
theorem names_cons
    (s t : Side)
    (rest : List Equation) :
    names ((s, t) :: rest) =
      (Side.occurrences s).map Variable.name ++
        ((Side.occurrences t).map Variable.name ++
          names rest) := by
  simp [names, Equation.occurrences]

/- Decomposition brings in no name. -/
theorem names_decompose?
    {s t : Side}
    {parts : List Equation}
    (h : decompose? s t = some parts)
    (rest : List Equation) :
    names (parts ++ rest) ⊆ names ((s, t) :: rest) :=
  List.map_subset Variable.name (occurrences_decompose? h rest)

/- A step towards bindings that an assignment makes true. -/
def Progress
    (σ : Assignment)
    (κ : Kinding)
    (ns : List String) :
    Step → Prop
| .drop => True
| .replaceBy parts => Solvable σ κ.Has parts
| .bindTo τ => ∃ κ', Advances σ κ κ' τ ns

/- Merging the two variables of an equation succeeds. -/
theorem step_vars
    {σ : Assignment}
    {κ : Kinding}
    (hσ : σ.Suits κ.Has)
    {x y : Variable}
    (hx : κ.Has x)
    (hy : κ.Has y)
    (hDiffer : (Term.var x).same (.var y) = false)
    (hAgrees :
      Equation.Agrees σ.value
        (some (.var x), some (.var y)))
    {ns : List String}
    (hns : x.name ∈ ns ∧ y.name ∈ ns) :
    ∃ r,
      step (some (.var x)) (some (.var y)) = .ok r ∧
        Progress σ κ ns r := by
  have hSame :
      (σ x.name).canonical = (σ y.name).canonical := by
    unfold Equation.Agrees at hAgrees
    simpa [Side.subst, Term.subst, Assignment.value, outcome,
      Term.canonical] using hAgrees
  have hyKind : (σ x.name).kind ≤ y.kind := by
    rw [Ground.kind_eq_of_canonical_eq hSame]
    exact hσ y hy
  have hNe : x ≠ y := by
    rintro rfl
    simp [Term.same] at hDiffer
  rcases exists_merge (hσ x hx) hyKind with ⟨τ, hMerge⟩
  have hStep :
      step (some (.var x)) (some (.var y)) =
        .ok (.bindTo τ) := by
    rw [step_of_vars hNe, hMerge]
    rfl
  rcases merge_ok hMerge with ⟨gone, kept, hCase, hLe, rfl⟩
  rcases hCase with ⟨rfl, rfl, _⟩ | ⟨rfl, rfl, _⟩
  · exact
      ⟨_, hStep, _,
        advances_mergeInto hσ hx hy hNe hLe hSame hns⟩
  · exact
      ⟨_, hStep, _,
        advances_mergeInto hσ hy hx hNe.symm hLe hSame.symm
          ⟨hns.2, hns.1⟩⟩

/- Binding a variable to the term that it meets succeeds. -/
theorem progress_eliminate
    {σ : Assignment}
    {κ : Kinding}
    (hσ : σ.Suits κ.Has)
    {x : Variable}
    {t : Term}
    (hx : κ.Has x)
    (ht : Side.Plain κ.Has (some t))
    (htVar : t.isVariable = false)
    (hAgrees :
      Equation.Agrees σ.value (some (.var x), some t))
    {ns : List String}
    (hxName : x.name ∈ ns)
    (htNames : ∀ v ∈ t.occurrences, v.name ∈ ns) :
    ∃ r,
      (eliminate x (some t)).map .bindTo = .ok r ∧
        Progress σ κ ns r := by
  rcases exists_eliminate hσ hx ht htVar hAgrees with
    ⟨τ, hEliminate⟩
  exact
    ⟨.bindTo τ, by rw [hEliminate]; rfl, dropName κ x.name,
      advances_eliminate hσ hx ht hEliminate hAgrees hxName
        htNames⟩

/- What an equation that is made true asks for succeeds. -/
theorem step_of_agrees
    {σ : Assignment}
    {κ : Kinding}
    (hσ : σ.Suits κ.Has)
    {s t : Side}
    (rest : List Equation)
    (hs : Side.Plain κ.Has s)
    (ht : Side.Plain κ.Has t)
    (hAgrees : Equation.Agrees σ.value (s, t)) :
    ∃ r, step s t = .ok r ∧
      Progress σ κ (names ((s, t) :: rest)) r := by
  by_cases hSame : Term.sameOption s t = true
  · exact ⟨.drop, by simp [step, hSame], trivial⟩
  · have hDiffer := Bool.eq_false_iff.mpr hSame
    rcases id hs with ⟨u, rfl, hu⟩
    rcases id ht with ⟨w, rfl, hw⟩
    have huNames :
        ∀ v ∈ u.occurrences,
          v.name ∈ names ((some u, some w) :: rest) := by
      intro v hv
      rw [names_cons]
      exact List.mem_append_left _
        (List.mem_map.mpr ⟨v, hv, rfl⟩)
    have hwNames :
        ∀ v ∈ w.occurrences,
          v.name ∈ names ((some u, some w) :: rest) := by
      intro v hv
      rw [names_cons]
      exact List.mem_append_right _
        (List.mem_append_left _ (List.mem_map.mpr ⟨v, hv, rfl⟩))
    cases huVar : u.isVariable with
    | true =>
        rcases Term.exists_var_of_isVariable huVar with ⟨x, rfl⟩
        have hx : κ.Has x := hu.2.2 x (by simp [Term.occurrences])
        have hxName := huNames x (by simp [Term.occurrences])
        cases hwVar : w.isVariable with
        | true =>
            rcases Term.exists_var_of_isVariable hwVar with
              ⟨y, rfl⟩
            have hy : κ.Has y :=
              hw.2.2 y (by simp [Term.occurrences])
            have hyName := hwNames y (by simp [Term.occurrences])
            exact step_vars hσ hx hy hDiffer hAgrees
              ⟨hxName, hyName⟩
        | false =>
            rw [step_of_var_left (Term.ne_var_of_isVariable hwVar)]
            exact progress_eliminate hσ hx ht hwVar hAgrees
              hxName hwNames
    | false =>
        cases hwVar : w.isVariable with
        | true =>
            rcases Term.exists_var_of_isVariable hwVar with
              ⟨y, rfl⟩
            have hy : κ.Has y :=
              hw.2.2 y (by simp [Term.occurrences])
            have hyName := hwNames y (by simp [Term.occurrences])
            rw [step_of_var_right
              (Term.ne_var_of_isVariable huVar)]
            exact progress_eliminate hσ hy hs huVar hAgrees.symm
              hyName huNames
        | false =>
            rcases decompose?_of_agrees hσ hs ht huVar hwVar
                hDiffer hAgrees with
              ⟨parts, hParts, hSolvable⟩
            exact
              ⟨_, step_of_decompose? hDiffer hParts, hSolvable⟩

end Unify

end StatementQuery

------------------------------------------------------------
-- Runs That Succeed
------------------------------------------------------------

namespace StatementQuery

namespace Unify

/- Solvable equations reduce to nothing, or to an advance. -/
theorem reduce_of_solvable
    {σ : Assignment}
    {κ : Kinding}
    (hσ : σ.Suits κ.Has)
    {eqs : List Equation}
    (h : Solvable σ κ.Has eqs) :
    reduce eqs = .ok none ∨
      ∃ τ rest κ',
        reduce eqs = .ok (some (τ, rest)) ∧
          Solvable σ κ.Has rest ∧
          names rest ⊆ names eqs ∧
          Advances σ κ κ' τ (names eqs) := by
  -- What the first equation asks for, whenever it is known.
  have hProgress :
      ∀ s t rest, Solvable σ κ.Has ((s, t) :: rest) →
        ∃ r, step s t = .ok r ∧
          Progress σ κ (names ((s, t) :: rest)) r := by
    intro s t rest hSolvable
    rcases hSolvable (s, t) (by simp) with ⟨hs, ht, hAgrees⟩
    exact step_of_agrees hσ rest hs ht hAgrees
  have hTail :
      ∀ s t rest, Solvable σ κ.Has ((s, t) :: rest) →
        Solvable σ κ.Has rest ∧
          names rest ⊆ names ((s, t) :: rest) := by
    intro s t rest hSolvable
    refine ⟨fun e he => hSolvable e (by simp [he]), ?_⟩
    intro n hn
    rw [names_cons]
    simp [hn]
  fun_induction reduce eqs with
  | case1 => exact Or.inl rfl
  | case2 s t rest e hStep =>
      rcases hProgress s t rest h with ⟨r, hr, _⟩
      rw [hStep] at hr
      cases hr
  | case3 s t rest hStep ih =>
      rcases hTail s t rest h with ⟨hRest, hSub⟩
      rcases ih hRest with
        hNone | ⟨τ, rest', κ', hSome, hSolvable, hNames, hAdv⟩
      · exact Or.inl hNone
      · exact Or.inr
          ⟨τ, rest', κ', hSome, hSolvable,
            fun n hn => hSub (hNames hn), hAdv.mono hSub⟩
  | case4 s t rest parts hStep ih =>
      rcases hProgress s t rest h with ⟨r, hr, hParts⟩
      rw [hStep] at hr
      cases hr
      have hAll : Solvable σ κ.Has (parts ++ rest) := by
        intro e he
        rcases List.mem_append.mp he with hPart | hRest
        · exact hParts e hPart
        · exact h e (by simp [hRest])
      have hSub :=
        names_decompose? (decompose?_of_step hStep) rest
      rcases ih hAll with
        hNone | ⟨τ, rest', κ', hSome, hSolvable, hNames, hAdv⟩
      · exact Or.inl hNone
      · exact Or.inr
          ⟨τ, rest', κ', hSome, hSolvable,
            fun n hn => hSub (hNames hn), hAdv.mono hSub⟩
  | case5 s t rest τ hStep =>
      rcases hProgress s t rest h with ⟨r, hr, hAdv⟩
      rw [hStep] at hr
      cases hr
      rcases hAdv with ⟨κ', hAdv⟩
      rcases hTail s t rest h with ⟨hRest, hSub⟩
      exact Or.inr ⟨τ, rest, κ', rfl, hRest, hSub, hAdv⟩

/- Bindings of present terms apply to a plain side. -/
theorem exists_substitute
    {P : Variable → Prop}
    {τ : Bindings}
    {κ : Kinding}
    (hMoves : Moves P τ κ)
    (hPresent :
      ∀ v, P v → ∃ u, τ.value v = some u ∧ u.Faithful)
    {s : Side}
    (hs : Side.Plain P s) :
    ∃ s', substitute τ s = .ok s' ∧ Side.Plain κ.Has s' ∧
      ∀ w ∈ Side.occurrences s',
        ∃ v ∈ Side.occurrences s,
          w ∈ Side.occurrences (τ.value v) := by
  rcases hs with ⟨t, rfl, hShaped, hFaithful, hScope⟩
  have hFits :
      ∀ v ∈ t.occurrences,
        Side.Fits κ v.kind (τ.value v) := by
    intro v hv
    exact hMoves.fits v (hScope v hv)
  rcases Term.exists_subst_of_present hShaped hFaithful hFits
      (fun v hv => hPresent v (hScope v hv)) with
    ⟨u, hu, huFaithful⟩
  have hInstance :
      (t.instantiateWith .plain τ).toOption =
        t.subst τ.value :=
    Term.instantiateWith_eq_subst rfl hShaped hFits
  have huFits := Term.fits_subst hShaped hFits hu u rfl
  refine ⟨some u, ?_, ?_, ?_⟩
  · rw [hu] at hInstance
    cases hResult : t.instantiateWith .plain τ with
    | error e =>
        rw [hResult] at hInstance
        cases hInstance
    | ok r =>
        rw [hResult] at hInstance
        cases hInstance
        simp only [substitute, Term.instantiateSide, hResult]
        rfl
  · exact Side.plain_some_iff.mpr
      ⟨huFits.2.shaped, huFaithful, huFits.2.atKinds⟩
  · intro w hw
    exact Term.exists_of_mem_occurrences_subst hShaped hu hw

/- Bindings of present terms apply to plain equations. -/
theorem exists_substituteAll
    {P : Variable → Prop}
    {τ : Bindings}
    {κ : Kinding}
    (hMoves : Moves P τ κ)
    (hPresent :
      ∀ v, P v → ∃ u, τ.value v = some u ∧ u.Faithful)
    {eqs : List Equation}
    (h : ∀ e ∈ eqs, Side.Plain P e.1 ∧ Side.Plain P e.2) :
    ∃ eqs', substituteAll τ eqs = .ok eqs' := by
  induction eqs with
  | nil => exact ⟨[], rfl⟩
  | cons e eqs ih =>
      rcases e with ⟨s, t⟩
      rcases h (s, t) (by simp) with ⟨hs, ht⟩
      rcases ih fun e he => h e (by simp [he]) with ⟨eqs', heqs⟩
      rcases exists_substitute hMoves hPresent hs with
        ⟨s', hs', _⟩
      rcases exists_substitute hMoves hPresent ht with
        ⟨t', ht', _⟩
      refine ⟨(s', t') :: eqs', ?_⟩
      simp only [substituteAll, heqs, hs', ht']
      rfl

/- A plain side stays plain, with variables of the values. -/
theorem plain_of_substitute
    {P : Variable → Prop}
    {τ : Bindings}
    {κ : Kinding}
    (hMoves : Moves P τ κ)
    (hPresent :
      ∀ v, P v → ∃ u, τ.value v = some u ∧ u.Faithful)
    {s s' : Side}
    (hs : Side.Plain P s)
    (h : substitute τ s = .ok s') :
    Side.Plain κ.Has s' ∧
      ∀ w ∈ Side.occurrences s',
        ∃ v ∈ Side.occurrences s,
          w ∈ Side.occurrences (τ.value v) := by
  rcases exists_substitute hMoves hPresent hs with
    ⟨s'', hSubst, hPlain⟩
  rw [h] at hSubst
  cases hSubst
  exact hPlain

/- Equations that an assignment makes true stay true. -/
theorem solvable_of_substituteAll
    {σ : Assignment}
    {P : Variable → Prop}
    {τ : Bindings}
    {κ : Kinding}
    (hσ : σ.Suits P)
    (hMoves : Moves P τ κ)
    (hPresent :
      ∀ v, P v → ∃ u, τ.value v = some u ∧ u.Faithful)
    (hAbsorbs : Absorbs σ.value τ)
    {eqs eqs' : List Equation}
    (hEqs : Solvable σ P eqs)
    (h : substituteAll τ eqs = .ok eqs') :
    Solvable σ κ.Has eqs' := by
  have hFits :
      ∀ v, P v → Side.Fits κ v.kind (σ.value v) := by
    intro v hv
    exact hσ.fits κ hv
  intro e' he'
  rcases exists_of_mem_substituteAll h he' with
    ⟨e, he, hLeft, hRight⟩
  rcases hEqs e he with ⟨hPlain, hPlain', hAgrees⟩
  refine
    ⟨(plain_of_substitute hMoves hPresent hPlain hLeft).1,
      (plain_of_substitute hMoves hPresent hPlain' hRight).1, ?_⟩
  unfold Equation.Agrees
  rw [outcome_of_absorbs hMoves hFits hAbsorbs hPlain.within
      hLeft,
    outcome_of_absorbs hMoves hFits hAbsorbs hPlain'.within
      hRight]
  exact hAgrees

/- The variables that equations get are those of the values. -/
theorem occurrences_of_substituteAll
    {P : Variable → Prop}
    {τ : Bindings}
    {κ : Kinding}
    (hMoves : Moves P τ κ)
    (hPresent :
      ∀ v, P v → ∃ u, τ.value v = some u ∧ u.Faithful)
    {eqs eqs' : List Equation}
    (hEqs : ∀ e ∈ eqs, Side.Plain P e.1 ∧ Side.Plain P e.2)
    (h : substituteAll τ eqs = .ok eqs')
    {w : Variable}
    (hw : w ∈ Equation.occurrences eqs') :
    κ.Has w ∧
      ∃ v ∈ Equation.occurrences eqs,
        w ∈ Side.occurrences (τ.value v) := by
  rcases List.mem_flatMap.mp hw with ⟨e', he', hw⟩
  rcases exists_of_mem_substituteAll h he' with
    ⟨e, he, hLeft, hRight⟩
  rcases List.mem_append.mp hw with hw | hw
  · rcases plain_of_substitute hMoves hPresent (hEqs e he).1
        hLeft with ⟨hPlain, hOccurs⟩
    rcases hOccurs w hw with ⟨v, hv, hwv⟩
    refine ⟨hPlain.within.occurrences hw, v, ?_, hwv⟩
    exact List.mem_flatMap.mpr
      ⟨e, he, List.mem_append.mpr (Or.inl hv)⟩
  · rcases plain_of_substitute hMoves hPresent (hEqs e he).2
        hRight with ⟨hPlain, hOccurs⟩
    rcases hOccurs w hw with ⟨v, hv, hwv⟩
    refine ⟨hPlain.within.occurrences hw, v, ?_, hwv⟩
    exact List.mem_flatMap.mpr
      ⟨e, he, List.mem_append.mpr (Or.inr hv)⟩

/- A value to be recorded is plain, and what its variable is. -/
theorem plain_of_mem_entries
    {σ : Assignment}
    {P : Variable → Prop}
    {τ : Bindings}
    {κ : Kinding}
    (hMoves : Moves P τ κ)
    (hPresent :
      ∀ v, P v → ∃ u, τ.value v = some u ∧ u.Faithful)
    (hAbsorbs : Absorbs σ.value τ)
    {entry : Variable × Side}
    (hEntry : entry ∈ τ.entries) :
    Side.Plain κ.Has entry.2 ∧
      outcome (Side.subst σ.value entry.2) =
        outcome (some (σ.value entry.1)) := by
  have hGet := hMoves.functional entry hEntry
  have hScope := (hMoves.keys entry.1 entry.2 hGet).1
  have hValue := Bindings.value_of_get? hGet
  rcases hPresent entry.1 hScope with ⟨u, hu, hFaithful⟩
  have hAbsorb := hAbsorbs entry.1
  have huFits := hMoves.fits entry.1 hScope u hu
  rw [hValue] at hu hAbsorb
  refine ⟨?_, hAbsorb⟩
  rw [hu]
  exact Side.plain_some_iff.mpr
    ⟨huFits.2.shaped, hFaithful, huFits.2.atKinds⟩

/-
  A state whose equations an assignment makes true, and whose
  values it makes the same as their variables.
-/
structure Reaches
    (σ : Assignment)
    (P : Variable → Prop)
    (state : State) :
    Prop where
  pending : Solvable σ P state.pending
  solved :
    ∀ entry ∈ state.solved.entries,
      Side.Plain P entry.2 ∧
        outcome (Side.subst σ.value entry.2) =
          outcome (some (σ.value entry.1))

/- Recording bindings that are made true succeeds. -/
theorem exists_bind
    {σ : Assignment}
    {P : Variable → Prop}
    {τ : Bindings}
    {κ : Kinding}
    (hσ : σ.Suits P)
    (hMoves : Moves P τ κ)
    (hPresent :
      ∀ v, P v → ∃ u, τ.value v = some u ∧ u.Faithful)
    (hAbsorbs : Absorbs σ.value τ)
    {state : State}
    (h : Reaches σ P state) :
    ∃ next,
      bind state τ = .ok next ∧
        Reaches σ κ.Has next ∧
        ∀ w ∈ Equation.occurrences next.pending,
          κ.Has w ∧
            ∃ v ∈ Equation.occurrences state.pending,
              w ∈ Side.occurrences (τ.value v) := by
  have hPlain :
      ∀ e ∈ state.pending, Side.Plain P e.1 ∧ Side.Plain P e.2 :=
    fun e he => ⟨(h.pending e he).1, (h.pending e he).2.1⟩
  rcases exists_substituteAll hMoves hPresent hPlain with
    ⟨pending, hPending⟩
  have hEach :
      ∀ entry ∈ state.solved.entries,
        ∃ s, substitute τ entry.2 = .ok s := by
    intro entry hEntry
    rcases exists_substitute hMoves hPresent
        (h.solved entry hEntry).1 with
      ⟨s, hs, _⟩
    exact ⟨s, hs⟩
  rcases substituteValues_of_each hEach with ⟨values, hValues⟩
  refine
    ⟨⟨pending, Bindings.union ⟨values⟩ τ⟩, ?_, ⟨?_, ?_⟩, ?_⟩
  · simp only [bind, hPending, hValues]
    rfl
  · exact solvable_of_substituteAll hσ hMoves hPresent hAbsorbs
      h.pending hPending
  · intro entry hEntry
    rcases Bindings.mem_union hEntry with hOld | hNew
    · rcases exists_of_mem_substituteValues hValues hOld with
        ⟨s, hMem, hSubst⟩
      rcases h.solved (entry.1, s) hMem with ⟨hs, hOutcome⟩
      have hSame :=
        outcome_of_absorbs hMoves (fun v hv => hσ.fits κ hv)
          hAbsorbs hs.within hSubst
      exact
        ⟨(plain_of_substitute hMoves hPresent hs hSubst).1,
          hSame.trans hOutcome⟩
    · exact plain_of_mem_entries hMoves hPresent hAbsorbs hNew
  · intro w hw
    exact occurrences_of_substituteAll hMoves hPresent hPlain
      hPending hw

/- A name that leaves makes the number of names smaller. -/
theorem nameCount_lt
    {eqs eqs' : List Equation}
    {n : String}
    (hn : n ∈ names eqs)
    (hLeft : n ∉ names eqs')
    (hSub : names eqs' ⊆ names eqs) :
    Equation.nameCount eqs' < Equation.nameCount eqs := by
  have hNodup : (n :: (names eqs').eraseDups).Nodup := by
    rw [List.nodup_cons, List.mem_eraseDups]
    exact ⟨hLeft, nodup_eraseDups _⟩
  have hSubset :
      (n :: (names eqs').eraseDups) ⊆ (names eqs).eraseDups := by
    intro m hm
    rw [List.mem_eraseDups]
    rcases List.mem_cons.mp hm with rfl | hm
    · exact hn
    · exact hSub (List.mem_eraseDups.mp hm)
  have hLength := (hNodup.subperm hSubset).length_le
  rw [List.length_cons] at hLength
  exact hLength

/-
  A run from a state that an assignment makes true ends in
  bindings that it makes true.
-/
theorem solve_of_reaches
    {σ : Assignment}
    {κ : Kinding}
    {count : Nat}
    {state : State}
    (hσ : σ.Suits κ.Has)
    (h : Reaches σ κ.Has state)
    (hCount : Equation.nameCount state.pending ≤ count) :
    ∃ (θ : Bindings) (κ' : Kinding),
      solve count state = .ok θ ∧ σ.Suits κ'.Has ∧
        ∀ entry ∈ θ.entries,
          Side.Plain κ'.Has entry.2 ∧
            outcome (Side.subst σ.value entry.2) =
              outcome (some (σ.value entry.1)) := by
  induction count generalizing κ state with
  | zero =>
      rcases reduce_of_solvable hσ h.pending with
        hNone | ⟨τ, rest, κ', hSome, _, _, hAdv⟩
      · refine ⟨state.solved, κ, ?_, hσ, h.solved⟩
        simp [solve, hNone]
      · -- There is no name left that could leave.
        rcases hAdv.leaves with ⟨n, hn, _⟩
        have hNil : (names state.pending).eraseDups = [] :=
          List.length_eq_zero_iff.mp (Nat.le_zero.mp hCount)
        have hMem := List.mem_eraseDups.mpr hn
        rw [hNil] at hMem
        cases hMem
  | succ count ih =>
      rcases reduce_of_solvable hσ h.pending with
        hNone | ⟨τ, rest, κ', hSome, hRest, hNames, hAdv⟩
      · refine ⟨state.solved, κ, ?_, hσ, h.solved⟩
        simp [solve, hNone]
      · have hReaches : Reaches σ κ.Has ⟨rest, state.solved⟩ :=
          ⟨hRest, h.solved⟩
        rcases exists_bind hσ hAdv.moves hAdv.present
            hAdv.absorbs hReaches with
          ⟨next, hBind, hNext, hOccurs⟩
        rcases hAdv.leaves with ⟨n, hn, hNone⟩
        have hSub : names next.pending ⊆ names state.pending := by
          intro m hm
          rcases List.mem_map.mp hm with ⟨w, hw, rfl⟩
          rcases hOccurs w hw with ⟨_, v, hv, hwv⟩
          rcases hAdv.known v w hwv with hName | hName
          · rw [hName]
            exact hNames (List.mem_map.mpr ⟨v, hv, rfl⟩)
          · exact hName
        have hLeft : n ∉ names next.pending := by
          intro hMem
          rcases List.mem_map.mp hMem with ⟨w, hw, rfl⟩
          have hHas : κ' w.name = some w.kind := (hOccurs w hw).1
          rw [hNone] at hHas
          cases hHas
        have hLess := nameCount_lt hn hLeft hSub
        rcases ih hAdv.suits hNext (by omega) with
          ⟨θ, κ'', hSolve, hRun⟩
        refine ⟨θ, κ'', ?_, hRun⟩
        rw [solve]
        simp only [hSome, hBind]
        exact hSolve

/- Narrowing puts variables for variables. -/
theorem present_narrowing
    (table : List (String × Kind))
    {vs : List Variable} :
    ∀ v ∈ vs,
      ∃ u, (narrowing table vs).value v = some u ∧
        u.Faithful := by
  intro v hv
  exact ⟨_, value_narrowing table hv, .var _⟩

/- Narrowing keeps names, and so what they are assigned. -/
theorem absorbs_narrowing
    (σ : Assignment)
    (table : List (String × Kind))
    (vs : List Variable) :
    Absorbs σ.value (narrowing table vs) := by
  intro v
  by_cases hv : v ∈ vs
  · rw [value_narrowing table hv]
    rfl
  · rw [value_narrowing_of_notMem table hv]
    rfl

/- The first state of solvable equations. -/
theorem start_of_solvable
    {σ : Assignment}
    {eqs : List Equation}
    (hσ : σ.Suits (· ∈ Equation.occurrences eqs))
    (h : Solvable σ (· ∈ Equation.occurrences eqs) eqs) :
    ∃ (state : State) (κ : Kinding),
      start eqs = .ok state ∧ σ.Suits κ.Has ∧
        Reaches σ κ.Has state := by
  let vs := Variable.sorted (Equation.occurrences eqs)
  have hSame :
      (fun v => v ∈ Equation.occurrences eqs) = (· ∈ vs) := by
    funext v
    exact propext (Variable.mem_sorted v _).symm
  rw [hSame] at hσ h
  rcases Variable.exists_leastKinds
      (fun n => (σ n).kind) vs hσ with
    ⟨table, hTable⟩
  have hMoves := moves_narrowing hTable
  have hSuits : σ.Suits (tableKinds table).Has := by
    intro v hv
    rcases (Variable.leastKinds_ok vs table hTable).2 v.name
        v.kind hv with
      ⟨w, hw, hName, hKind⟩
    rw [← hName, ← hKind]
    exact hσ w hw
  have hReaches : Reaches σ (· ∈ vs) ⟨eqs, .empty⟩ :=
    ⟨h, by simp [Bindings.empty]⟩
  by_cases hEmpty : (narrowing table vs).entries.isEmpty = true
  · have hHas := has_of_isEmpty_narrowing hTable hEmpty
    refine
      ⟨⟨eqs, .empty⟩, tableKinds table, ?_, hSuits, ?_,
        by simp [Bindings.empty]⟩
    · simp only [start, vs] at hTable hEmpty ⊢
      simp [hTable, hEmpty]
    · intro e he
      rcases h e he with ⟨hLeft, hRight, hAgrees⟩
      exact ⟨hLeft.mono hHas, hRight.mono hHas, hAgrees⟩
  · rcases exists_bind hσ hMoves (present_narrowing table)
        (absorbs_narrowing σ table vs) hReaches with
      ⟨next, hBind, hNext, _⟩
    refine ⟨next, tableKinds table, ?_, hSuits, hNext⟩
    simp only [start, vs] at hTable hEmpty hBind ⊢
    simp [hTable, hEmpty, hBind]

end Unify

end StatementQuery

------------------------------------------------------------
-- Completeness
------------------------------------------------------------

namespace StatementQuery

/- The bindings of variables to what an assignment puts. -/
def Assignment.bindings
    (σ : Assignment)
    (vs : List Variable) :
    Bindings :=
  ⟨vs.map fun v => (v, σ.value v)⟩

/- A term with an assignment put for all its variables. -/
def Term.close
    (σ : Assignment)
    (t : Term) :
    Except TermError Side :=
  t.instantiate (σ.bindings t.occurrences)

/- The equation between two terms. -/
def Equation.between (e : Term × Term) : Equation :=
  (some e.1, some e.2)

/- Bound variables have the value of the assignment. -/
theorem Assignment.value_bindings
    (σ : Assignment)
    {vs : List Variable}
    {v : Variable}
    (hv : v ∈ vs) :
    (σ.bindings vs).value v = σ.value v := by
  have hFunctional : (σ.bindings vs).Functional := by
    apply Bindings.functional_of_eq σ.value
    intro entry hEntry
    rcases List.mem_map.mp hEntry with ⟨w, _, rfl⟩
    rfl
  apply Bindings.value_of_get?
  exact hFunctional (v, σ.value v)
    (List.mem_map.mpr ⟨v, hv, rfl⟩)

/- Closing a term is substitution. -/
theorem Term.close_eq_subst
    {σ : Assignment}
    {t : Term}
    (hShaped : t.WellShaped)
    (hσ : σ.Suits (· ∈ t.occurrences)) :
    (t.close σ).toOption = t.subst σ.value := by
  have hValue :
      ∀ v ∈ t.occurrences,
        (σ.bindings t.occurrences).value v = σ.value v := by
    intro v hv
    exact σ.value_bindings hv
  rw [← subst_congr hValue]
  have hFits :
      ∀ v ∈ t.occurrences,
        Side.Fits (fun _ => none) v.kind
          ((σ.bindings t.occurrences).value v) := by
    intro v hv
    rw [hValue v hv]
    exact hσ.fits _ hv
  exact instantiateWith_eq_subst rfl hShaped hFits

/- A plain value that agrees with a variable closes to it. -/
theorem Term.exists_close
    {σ : Assignment}
    {P : Variable → Prop}
    (hσ : σ.Suits P)
    {s : Side}
    {v : Variable}
    (hs : Side.Plain P s)
    (h :
      outcome (Side.subst σ.value s) =
        outcome (some (σ.value v))) :
    ∃ t u,
      s = some t ∧ t.close σ = .ok (some u) ∧
        u.same (.ground (σ v.name)) = true := by
  rcases hs with ⟨t, rfl, hShaped, hFaithful, hScope⟩
  rcases exists_ground_subst hσ hShaped hFaithful hScope with
    ⟨g, hg, _⟩
  have hClose : (t.close σ).toOption = some (some (.ground g)) := by
    rw [close_eq_subst hShaped fun w hw => hσ w (hScope w hw)]
    exact hg
  refine ⟨t, .ground g, rfl, ?_, ?_⟩
  · cases hResult : t.close σ with
    | error e =>
        rw [hResult] at hClose
        cases hClose
    | ok r =>
        rw [hResult] at hClose
        cases hClose
        rfl
  · rw [same_iff]
    simpa [Side.subst, hg, outcome, Assignment.value] using h

/- The sides of a list of equations between terms. -/
def Equation.allBetween (eqs : List (Term × Term)) : List Equation :=
  eqs.map Equation.between

/- The variables of the terms are those of the equations. -/
theorem Equation.mem_allBetween
    (eqs : List (Term × Term))
    (v : Variable) :
    v ∈ Equation.occurrences (Equation.allBetween eqs) ↔
      ∃ e ∈ eqs, v ∈ e.1.occurrences ++ e.2.occurrences := by
  constructor
  · intro hv
    rcases List.mem_flatMap.mp hv with ⟨e', he', hv⟩
    rcases List.mem_map.mp he' with ⟨e, he, rfl⟩
    exact ⟨e, he, hv⟩
  · rintro ⟨e, he, hv⟩
    refine List.mem_flatMap.mpr ⟨Equation.between e, ?_, hv⟩
    exact List.mem_map.mpr ⟨e, he, rfl⟩

/- Terms that close to the same make solvable equations. -/
theorem Unify.solvable_allBetween
    {σ : Assignment}
    {eqs : List (Term × Term)}
    (hWellFormed :
      ∀ e ∈ eqs, e.1.WellFormed ∧ e.2.WellFormed)
    (hFaithful : ∀ e ∈ eqs, e.1.Faithful ∧ e.2.Faithful)
    (hSuits :
      ∀ e ∈ eqs, ∀ v ∈ e.1.occurrences ++ e.2.occurrences,
        (σ v.name).kind ≤ v.kind)
    (hSame :
      ∀ e ∈ eqs, SameOutcome (e.1.close σ) (e.2.close σ)) :
    Solvable σ
      (· ∈ Equation.occurrences (Equation.allBetween eqs))
      (Equation.allBetween eqs) := by
  intro e' he'
  rcases List.mem_map.mp he' with ⟨e, he, rfl⟩
  have hSide :
      ∀ t : Term, t.WellFormed → t.Faithful →
        (∀ v ∈ t.occurrences,
          v ∈ e.1.occurrences ++ e.2.occurrences) →
        Side.Plain
            (· ∈ Equation.occurrences (Equation.allBetween eqs))
            (some t) ∧
          (t.close σ).toOption = t.subst σ.value := by
    intro t ht htFaithful hScope
    refine
      ⟨Side.plain_some_iff.mpr ⟨ht.shaped, htFaithful, ?_⟩,
        Term.close_eq_subst ht.shaped ?_⟩
    · intro v hv
      exact (Equation.mem_allBetween eqs v).mpr
        ⟨e, he, hScope v hv⟩
    · intro v hv
      exact hSuits e he v (hScope v hv)
  rcases hSide e.1 (hWellFormed e he).1 (hFaithful e he).1
      (fun v hv => List.mem_append.mpr (Or.inl hv)) with
    ⟨hLeft, hLeftClose⟩
  rcases hSide e.2 (hWellFormed e he).2 (hFaithful e he).2
      (fun v hv => List.mem_append.mpr (Or.inr hv)) with
    ⟨hRight, hRightClose⟩
  refine ⟨hLeft, hRight, ?_⟩
  have hClose := (sameOutcome_iff _ _).mp (hSame e he)
  rw [hLeftClose, hRightClose] at hClose
  exact hClose

/-
  Equations between terms over faithful constructors have a
  unifier if some assignment makes their sides the same, and
  the one that is found makes every such assignment its
  instance: each variable that it binds has the value that the
  term it is bound to has.
-/
theorem unify_complete
    {σ : Assignment}
    {eqs : List (Term × Term)}
    (hWellFormed :
      ∀ e ∈ eqs, e.1.WellFormed ∧ e.2.WellFormed)
    (hFaithful : ∀ e ∈ eqs, e.1.Faithful ∧ e.2.Faithful)
    (hSuits :
      ∀ e ∈ eqs, ∀ v ∈ e.1.occurrences ++ e.2.occurrences,
        (σ v.name).kind ≤ v.kind)
    (hSame :
      ∀ e ∈ eqs, SameOutcome (e.1.close σ) (e.2.close σ)) :
    ∃ θ,
      unify (Equation.allBetween eqs) = .ok θ ∧
        (∀ entry ∈ θ.entries, ∃ t u,
          entry.2 = some t ∧ t.close σ = .ok (some u) ∧
            u.same (.ground (σ entry.1.name)) = true) ∧
        ∀ e ∈ eqs,
          SameOutcome (e.1.instantiate θ) (e.2.instantiate θ) := by
  have hσ :
      σ.Suits
        (· ∈ Equation.occurrences (Equation.allBetween eqs)) := by
    intro v hv
    rcases (Equation.mem_allBetween eqs v).mp hv with
      ⟨e, he, hv⟩
    exact hSuits e he v hv
  have hSolvable :=
    Unify.solvable_allBetween hWellFormed hFaithful hSuits hSame
  rcases Unify.start_of_solvable hσ hSolvable with
    ⟨state, κ, hStart, hSuits', hReaches⟩
  rcases Unify.solve_of_reaches hSuits' hReaches (le_refl _) with
    ⟨θ, κ', hSolve, hSuits'', hEntries⟩
  have hUnify : unify (Equation.allBetween eqs) = .ok θ := by
    simp only [unify, hStart]
    exact hSolve
  have hWithin :
      Unify.Within
        (· ∈ Equation.occurrences (Equation.allBetween eqs))
        (Equation.allBetween eqs) := by
    intro e he
    exact
      ⟨(hSolvable e he).1.within, (hSolvable e he).2.1.within⟩
  rcases Unify.solves_of_unify hWithin hUnify with
    ⟨κ'', hSolves, _⟩
  refine ⟨θ, hUnify, ?_, ?_⟩
  · intro entry hEntry
    rcases hEntries entry hEntry with ⟨hPlain, hOutcome⟩
    exact Term.exists_close hSuits'' hPlain hOutcome
  · intro e he
    have he' : Equation.between e ∈ Equation.allBetween eqs :=
      List.mem_map.mpr ⟨e, he, rfl⟩
    exact Unify.sameOutcome_of_solves hWithin hSolves he'

/- An item by its identifier. -/
def itemNamed (name : String) : Ground :=
  .value (.item ⟨name⟩)

/-
  Statements of which one has its parts open and the other its
  snak, with a name at two kinds and one that must be an item.
-/
def statementEquations : List (Term × Term) :=
  [(.app .statement
      [some (.var ⟨"s", .entity⟩),
        some
          (.app .valueSnak
            [some (.var ⟨"p", .property⟩),
              some (.var ⟨"v", .value⟩)])],
    .app .statement
      [some (.app (.entity .item) [some (.var ⟨"i", .iri⟩)]),
        some (.var ⟨"n", .snak⟩)]),
  (.var ⟨"n", .term⟩,
    .app .valueSnak
      [some (.var ⟨"p", .property⟩),
        some (.ground (itemNamed "Q5"))])]

/- Values that make both equations true. -/
def statementAssignment : Assignment := fun n =>
  if n = "s" then itemNamed "Q42"
  else if n = "i" then .value (.iri ⟨"Q42"⟩)
  else if n = "p" then .value (.property ⟨"P31"⟩)
  else if n = "v" then itemNamed "Q5"
  else .snak (.value ⟨"P31"⟩ (.item ⟨"Q5"⟩))

theorem unify_complete_statementEquations :
    (∀ e ∈ statementEquations,
      SameOutcome (e.1.close statementAssignment)
        (e.2.close statementAssignment)) ∧
      ∃ θ,
        unify (Equation.allBetween statementEquations) = .ok θ ∧
          (∀ entry ∈ θ.entries, ∃ t u,
            entry.2 = some t ∧
              t.close statementAssignment = .ok (some u) ∧
              u.same
                  (.ground (statementAssignment entry.1.name)) =
                true) ∧
          ∀ e ∈ statementEquations,
            SameOutcome (e.1.instantiate θ)
              (e.2.instantiate θ) := by
  have hSame :
      ∀ e ∈ statementEquations,
        SameOutcome (e.1.close statementAssignment)
          (e.2.close statementAssignment) := by
    decide
  refine ⟨hSame, unify_complete (by decide) ?_ (by decide) hSame⟩
  intro e he
  have hCheck :
      ∀ e ∈ statementEquations,
        e.1.isFaithful = true ∧ e.2.isFaithful = true := by
    decide
  exact
    ⟨Term.faithful_of_isFaithful (hCheck e he).1,
      Term.faithful_of_isFaithful (hCheck e he).2⟩

end StatementQuery
